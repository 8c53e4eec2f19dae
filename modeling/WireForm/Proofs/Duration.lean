import WireForm.Proofs.Reading
import WireForm.Sync.Duration

/-!
# Spans of time in words

A span is written as a decimal number of one unit. It is written exactly: the number, read as so
many of the unit, is the span again. The unit is the largest that the span has at least one of, and
the number ends in no zero behind its point.

The decimal places are those of a number with a one in front, which keeps the zeros behind the
point. Digits are read as a number by `Nat.ofDigitChars`.

## Main definitions

* `Duration.pointed`, `Duration.worth` — decimal places as they are written, and what they come to
* `Duration.IsPlaces` — decimal places of a part
* `Duration.units` — the units, from the largest on, as powers of ten with their symbols
* `Duration.Spells` — a span as a decimal number of a unit

## Main results

* `Duration.ofParts_eq_ok` — spans from seconds and nanoseconds
* `Duration.exists_isPlaces` — decimal places
* `Duration.exists_spells` — spans in words
-/

namespace WireForm.Sync

namespace Duration

/-! ### Seconds and nanoseconds -/

/-- Nanoseconds may make up whole seconds. All seconds together have to fit a machine word. -/
theorem ofParts_eq_ok {seconds nanos : Nat} {d : Duration} :
    ofParts seconds nanos = .ok d ↔
      seconds + nanos / second < wordLimit ∧ d.nanos = seconds * second + nanos := by
  have hwhole : (seconds + nanos / second) * second + nanos % second =
      seconds * second + nanos := by
    rw [Nat.add_mul, Nat.add_assoc, Nat.mul_comm (nanos / second), Nat.div_add_mod]
  rw [ofParts, Outcome.bind_eq_ok]
  constructor
  · rintro ⟨total, htotal, hd⟩
    obtain ⟨hlt, rfl⟩ := Length.add_eq_ok.mp htotal
    rw [← Except.ok.inj hd]
    exact ⟨hlt, hwhole⟩
  · rintro ⟨hlt, hd⟩
    refine ⟨_, Length.add_eq_ok.mpr ⟨hlt, rfl⟩, congrArg Except.ok ?_⟩
    rw [hwhole, ← hd]

/-! ### Digits -/

theorem sub_lt_of_isDigit {c : Char} (h : c.isDigit = true) : c.toNat - '0'.toNat < 10 := by
  rw [Char.isDigit, Bool.and_eq_true, decide_eq_true_eq, decide_eq_true_eq] at h
  have hle : c.toNat ≤ '9'.toNat := h.2
  have hnine : '9'.toNat = 57 := rfl
  have hzero : '0'.toNat = 48 := rfl
  omega

/-- A number with these digits is below the power of ten with as many zeros. -/
theorem ofDigitChars_lt {digits : List Char} (h : ∀ c ∈ digits, c.isDigit = true) :
    Nat.ofDigitChars 10 digits 0 < 10 ^ digits.length := by
  induction digits with
  | nil => exact Nat.one_pos
  | cons c digits ih =>
    obtain ⟨hc, hdigits⟩ := List.forall_mem_cons.mp h
    have hle := Nat.le_of_lt_succ (sub_lt_of_isDigit hc)
    have hfirst := Nat.mul_le_mul_left (10 ^ digits.length) hle
    have hrest := ih hdigits
    rw [Nat.ofDigitChars_cons, Nat.ofDigitChars_eq_ofDigitChars_zero, Nat.mul_zero, Nat.zero_add,
      List.length_cons, Nat.pow_succ]
    omega

/-- Behind a one in front of it, a number has its digits, and zeros where it has none. -/
theorem exists_digits {part exponent : Nat} (h : part < 10 ^ exponent) :
    ∃ (c : Char) (digits : List Char),
      (toString (10 ^ exponent + part)).toList = c :: digits ∧ digits.length = exponent ∧
        (∀ c ∈ digits, c.isDigit = true) ∧ Nat.ofDigitChars 10 digits 0 = part := by
  have hlist : (toString (10 ^ exponent + part)).toList = Nat.toDigits 10 (10 ^ exponent + part) :=
    Nat.toList_repr
  have hvalue : Nat.ofDigitChars 10 (Nat.toDigits 10 (10 ^ exponent + part)) 0 =
      10 ^ exponent + part := Nat.ofDigitChars_ten_toDigits
  have hdigit : ∀ c ∈ Nat.toDigits 10 (10 ^ exponent + part), c.isDigit = true := fun c hc =>
    Nat.isDigit_of_mem_toDigits (by decide) (by decide) hc
  -- The one in front makes for one digit more than the power of ten has zeros.
  have hlong : (Nat.toDigits 10 (10 ^ exponent + part)).length ≤ exponent + 1 := by
    refine (Nat.length_toDigits_le_iff (by decide) (Nat.succ_pos _)).mpr ?_
    rw [Nat.pow_succ]
    omega
  have hshort : exponent < (Nat.toDigits 10 (10 ^ exponent + part)).length := by
    refine Nat.lt_of_not_le fun hle => ?_
    have hlt := ofDigitChars_lt hdigit
    have hpow := Nat.pow_le_pow_right (show 0 < 10 by decide) hle
    omega
  rw [hlist]
  cases hcode : Nat.toDigits 10 (10 ^ exponent + part) with
  | nil =>
    rw [hcode] at hshort
    cases hshort
  | cons c digits =>
    rw [hcode] at hlong hshort hvalue hdigit
    rw [List.length_cons] at hlong hshort
    have hlength : digits.length = exponent := by omega
    obtain ⟨hc, hdigits⟩ := List.forall_mem_cons.mp hdigit
    have hrest := ofDigitChars_lt hdigits
    rw [hlength] at hrest
    rw [Nat.ofDigitChars_cons, Nat.ofDigitChars_eq_ofDigitChars_zero, Nat.mul_zero, Nat.zero_add,
      hlength] at hvalue
    refine ⟨c, digits, rfl, hlength, hdigits, ?_⟩
    calc Nat.ofDigitChars 10 digits 0
      _ = (10 ^ exponent * (c.toNat - '0'.toNat) + Nat.ofDigitChars 10 digits 0) %
          10 ^ exponent := by rw [Nat.mul_add_mod, Nat.mod_eq_of_lt hrest]
      _ = (10 ^ exponent + part) % 10 ^ exponent := by rw [hvalue]
      _ = part := by rw [Nat.add_mod_left, Nat.mod_eq_of_lt h]

/-! ### Decimal places -/

/-- The digits without the zeros at their end. -/
def trimmed (digits : List Char) : List Char := (digits.reverse.dropWhile (· == '0')).reverse

/-- Zeros are all that they are without. -/
theorem exists_eq_trimmed_append (digits : List Char) :
    ∃ zeros, digits = trimmed digits ++ List.replicate zeros '0' := by
  have hzeros : (digits.reverse.takeWhile (· == '0')).reverse =
      List.replicate (digits.reverse.takeWhile (· == '0')).reverse.length '0' :=
    List.eq_replicate_iff.mpr ⟨rfl, fun c hc =>
      beq_iff_eq.mp (List.all_eq_true.mp List.all_takeWhile c (List.mem_reverse.mp hc))⟩
  refine ⟨(digits.reverse.takeWhile (· == '0')).reverse.length, ?_⟩
  rw [← hzeros, trimmed, ← List.reverse_append, List.takeWhile_append_dropWhile,
    List.reverse_reverse]

theorem getLast?_trimmed (digits : List Char) : (trimmed digits).getLast? ≠ some '0' := by
  rw [trimmed, List.getLast?_reverse]
  intro hlast
  have hnot := List.head?_dropWhile_not (· == '0') digits.reverse
  rw [hlast] at hnot
  exact absurd hnot (by decide)

/-- Decimal places with a point in front, if there are any. -/
def pointed (decimals : List Char) : String :=
  if decimals.isEmpty then "" else "." ++ String.ofList decimals

/-- What a number with these decimal places comes to, in parts of which `10 ^ exponent` are a
whole. -/
def worth (whole : Nat) (decimals : List Char) (exponent : Nat) : Nat :=
  whole * 10 ^ exponent + Nat.ofDigitChars 10 decimals 0 * 10 ^ (exponent - decimals.length)

/-- These are the decimal places of `part` parts of which `10 ^ exponent` are a whole, and they are
as few as can be. -/
structure IsPlaces (part exponent : Nat) (decimals : List Char) : Prop where
  /-- This is what they come to. -/
  worth_eq : worth 0 decimals exponent = part
  /-- The last one stands for one part, or for more. -/
  length_le : decimals.length ≤ exponent
  /-- They are digits. -/
  isDigit : ∀ c ∈ decimals, c.isDigit = true
  /-- The last one is no zero. -/
  getLast?_ne : decimals.getLast? ≠ some '0'

/-- **Decimal places are exact.** -/
theorem exists_isPlaces {part exponent : Nat} (h : part < 10 ^ exponent) :
    ∃ decimals, IsPlaces part exponent decimals ∧
      places part (10 ^ exponent) = pointed decimals := by
  by_cases hpart : part = 0
  · refine ⟨[], ⟨?_, Nat.zero_le _, nofun, nofun⟩, by rw [places, if_pos hpart]; rfl⟩
    rw [worth, Nat.zero_mul, Nat.ofDigitChars_nil, Nat.zero_mul, hpart]
  · obtain ⟨c, digits, hlist, hlength, hdigits, hvalue⟩ := exists_digits h
    obtain ⟨zeros, hzeros⟩ := exists_eq_trimmed_append digits
    have hlengths := congrArg List.length hzeros
    rw [hlength, List.length_append, List.length_replicate] at hlengths
    have hworth : worth 0 (trimmed digits) exponent = part := by
      have hleft : exponent - (trimmed digits).length = zeros := by omega
      rw [hzeros, Nat.ofDigitChars_append, Nat.ofDigitChars_replicate_zero] at hvalue
      rw [worth, Nat.zero_mul, Nat.zero_add, hleft, Nat.mul_comm, hvalue]
    have hsome : (trimmed digits).isEmpty = false := by
      cases hempty : trimmed digits with
      | nil =>
        rw [hempty, worth, Nat.zero_mul, Nat.ofDigitChars_nil, Nat.zero_mul] at hworth
        exact absurd hworth.symm hpart
      | cons _ _ => rfl
    refine ⟨trimmed digits, ⟨hworth, by omega, fun c hc => ?_, getLast?_trimmed digits⟩, ?_⟩
    · exact hdigits c (hzeros ▸ List.mem_append_left _ hc)
    · rw [places, if_neg hpart, pointed, hsome, hlist]
      rfl

/-! ### Spans in words -/

/-- The units, from the largest on: how many nanoseconds they have, as powers of ten, and how they
are written. -/
def units : List (Nat × String) := [(9, "s"), (6, "ms"), (3, "µs"), (0, "ns")]

/-- A text is the span as a decimal number of a unit. -/
structure Spells (d : Duration) (text : String) (exponent : Nat) (symbol : String)
    (decimals : List Char) : Prop where
  /-- The unit is one of those that there are. -/
  unit_mem : (exponent, symbol) ∈ units
  /-- The number and the symbol are all of the text. -/
  text_eq : text = toString (d.nanos / 10 ^ exponent) ++ pointed decimals ++ symbol
  /-- The number, of this unit, is the span. -/
  worth_eq : worth (d.nanos / 10 ^ exponent) decimals exponent = d.nanos
  /-- Its decimal places are as few as can be. -/
  isPlaces : IsPlaces (d.nanos % 10 ^ exponent) exponent decimals
  /-- The span has at least one of the unit, if there is a smaller one. -/
  le_nanos : exponent ≠ 0 → 10 ^ exponent ≤ d.nanos
  /-- It has none of any larger unit. -/
  nanos_lt : ∀ unit ∈ units, exponent < unit.1 → d.nanos < 10 ^ unit.1

/-- A span is written exactly in any unit. -/
theorem exists_spells_inUnit {d : Duration} (exponent : Nat) (symbol : String)
    (hunit : (exponent, symbol) ∈ units) (hle : exponent ≠ 0 → 10 ^ exponent ≤ d.nanos)
    (hlt : ∀ unit ∈ units, exponent < unit.1 → d.nanos < 10 ^ unit.1) :
    ∃ decimals, d.Spells (inUnit d.nanos (10 ^ exponent) symbol) exponent symbol decimals := by
  have hpos : 0 < 10 ^ exponent := Nat.pow_pos (by decide)
  obtain ⟨decimals, hplaces, htext⟩ := exists_isPlaces (Nat.mod_lt d.nanos hpos)
  refine ⟨decimals, hunit, ?_, ?_, hplaces, hle, hlt⟩
  · rw [inUnit, htext]
  · have hpart := hplaces.worth_eq
    rw [worth, Nat.zero_mul, Nat.zero_add] at hpart
    rw [worth, hpart, Nat.mul_comm, Nat.div_add_mod]

theorem second_eq : second = 10 ^ 9 := by decide

theorem milli_eq : milli = 10 ^ 6 := by decide

theorem micro_eq : micro = 10 ^ 3 := by decide

/-- **A span in words is the span**, in the largest unit that it has at least one of. -/
theorem exists_spells (d : Duration) :
    ∃ exponent symbol decimals, d.Spells d.text exponent symbol decimals := by
  have hbelow (exponent : Nat) (hsecond : exponent < 9 → d.nanos < 10 ^ 9)
      (hmilli : exponent < 6 → d.nanos < 10 ^ 6) (hmicro : exponent < 3 → d.nanos < 10 ^ 3) :
      ∀ unit ∈ units, exponent < unit.1 → d.nanos < 10 ^ unit.1 := by
    simp only [units, List.forall_mem_cons, List.not_mem_nil, false_implies, implies_true, and_true]
    exact ⟨hsecond, hmilli, hmicro, nofun⟩
  rw [text, second_eq, milli_eq, micro_eq]
  split_ifs with hsecond hmilli hmicro
  · exact ⟨9, "s", exists_spells_inUnit 9 "s" (by decide) (fun _ => hsecond)
      (hbelow 9 (by omega) (by omega) (by omega))⟩
  · exact ⟨6, "ms", exists_spells_inUnit 6 "ms" (by decide) (fun _ => hmilli)
      (hbelow 6 (by omega) (by omega) (by omega))⟩
  · exact ⟨3, "µs", exists_spells_inUnit 3 "µs" (by decide) (fun _ => hmicro)
      (hbelow 3 (by omega) (by omega) (by omega))⟩
  · exact ⟨0, "ns", exists_spells_inUnit 0 "ns" (by decide) nofun
      (hbelow 0 (by omega) (by omega) (by omega))⟩

end Duration

end WireForm.Sync
