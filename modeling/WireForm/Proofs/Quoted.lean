import Mathlib.Tactic.SplitIfs
import WireForm.Derivation.Token.Lexer

/-!
# Text in quotes is one literal

A text that is written in quotes is read as one literal that ends at the second quote, whatever the
text is. This is because every character is written as a piece in which no quote and no backslash is
left open: either as itself, if it is neither of the two, or as a backslash, a character hidden by
it, and others that are neither. Characters of ASCII that can be seen are written as themselves.

## Main definitions

* `Quoted.IsBare` — the characters of ASCII that are written as themselves
* `Literal.Passes` — pieces of a text in quotes that nothing is left open in

## Main results

* `Quoted.quote_of_bare` — what is written as it is
* `Quoted.passes_escape` — how a character is written is such a piece
* `Quoted.split?_quote`, `Quoted.ofText?_quote` — a text in quotes is one literal
-/

namespace WireForm

open WireForm.Derivation

/-! ### Characters that are written as themselves -/

namespace Quoted

variable {c : Char} {next : Option Char}

/-- A character of ASCII that can be seen, or a space, and that means nothing inside of quotes. -/
structure IsBare (c : Char) : Prop where
  /-- It is no control character. -/
  space_le : 0x20 ≤ c.toNat
  /-- It is in ASCII, and not the last character there. -/
  lt_delete : c.toNat < 0x7f
  /-- It is no quote. -/
  ne_mark : c ≠ mark
  /-- It is no backslash. -/
  ne_backslash : c ≠ backslash

theorem IsBare.isUnseen_eq (h : IsBare c) : isUnseen c = false := by
  have hranges : ∀ range ∈ Unseen.ranges, range.2 < 0x20 ∨ 0x7f ≤ range.1 := by decide +kernel
  simp only [isUnseen, Ranges.contains, List.any_eq_false, Bool.and_eq_true, decide_eq_true_eq]
  intro range hrange
  have hlow := h.space_le
  have hhigh := h.lt_delete
  have hout := hranges range hrange
  omega

theorem IsBare.escape_eq (h : IsBare c) (next : Option Char) : escape c next = [c] := by
  have hlow := h.space_le
  have hhigh := h.lt_delete
  have hcontrol {other : Char} (hother : other.toNat < 0x20) : (c == other) = false := by
    refine beq_eq_false_iff_ne.mpr ?_
    rintro rfl
    omega
  have hmark : (c == mark) = false := beq_eq_false_iff_ne.mpr h.ne_mark
  have hbackslash : (c == backslash) = false := beq_eq_false_iff_ne.mpr h.ne_backslash
  have hextending : isExtending c = false := isExtending_of_lt (by omega)
  have hassigned : isUnassigned c = false := isUnassigned_of_lt (by omega)
  rw [escape, hcontrol (by decide), hcontrol (by decide), hcontrol (by decide),
    hcontrol (by decide), hmark, hbackslash, hextending, h.isUnseen_eq, hassigned]
  rfl

theorem escapeAll_of_bare {text : List Char} (h : ∀ c ∈ text, IsBare c) :
    escapeAll text = text := by
  induction text with
  | nil => rfl
  | cons c rest ih =>
    obtain ⟨hc, hrest⟩ := List.forall_mem_cons.mp h
    rw [escapeAll, hc.escape_eq, ih hrest]
    rfl

/-- Between its quotes such a text stands as it is. -/
theorem quote_of_bare {text : String} (h : ∀ c ∈ text.toList, IsBare c) :
    quote text = String.ofList (mark :: (text.toList ++ [mark])) := by
  rw [quote, escapeAll_of_bare h]

end Quoted

/-! ### Pieces that nothing is left open in -/

namespace Derivation.Literal

variable {c : Char} {piece piece' : List Char}

/-- What is looked for behind the piece is looked for from its end, where nothing is hidden. -/
def Passes (piece : List Char) : Prop :=
  ∀ rest, upTo quote false (piece ++ rest) = (upTo quote false rest).map (Cut.after piece)

theorem passes_nil : Passes [] := fun _ => Option.map_id'.symm

theorem Passes.append (h : Passes piece) (h' : Passes piece') : Passes (piece ++ piece') := by
  intro rest
  rw [List.append_assoc, h, h', Option.map_map]
  refine congrArg (Option.map · _) (funext fun cut => ?_)
  rw [Function.comp_apply, Cut.after, Cut.after, Cut.after, List.append_assoc]

/-- A character that is neither a quote nor a backslash is passed. -/
theorem passes_char (hquote : c ≠ quote) (hescape : c ≠ escape) : Passes [c] := by
  intro rest
  rw [List.singleton_append, upTo, beq_eq_false_iff_ne.mpr hquote,
    beq_eq_false_iff_ne.mpr hescape]
  rfl

theorem passes_chars (h : ∀ c ∈ piece, c ≠ quote ∧ c ≠ escape) : Passes piece := by
  induction piece with
  | nil => exact passes_nil
  | cons c piece ih =>
    obtain ⟨⟨hquote, hescape⟩, hpiece⟩ := List.forall_mem_cons.mp h
    exact (passes_char hquote hescape).append (ih hpiece)

/-- A backslash hides the character behind it, whatever it is. -/
theorem passes_escaped (c : Char) : Passes [escape, c] := by
  intro rest
  have hfirst : (escape == quote && !false) = false := rfl
  have hhides : (escape == escape && !false) = true := rfl
  have hsecond : (c == quote && !true) = false := Bool.and_false _
  have hshown : (c == escape && !true) = false := Bool.and_false _
  rw [List.cons_append, List.singleton_append, upTo, hfirst, hhides, upTo, hsecond, hshown]
  simp only [Bool.false_eq_true, if_false, Option.map_map]
  rfl

end Derivation.Literal

/-! ### Texts in quotes -/

namespace Quoted

open Literal (Passes Cut)

theorem exists_digitChar_of_mem {n : Nat} {c : Char} (h : c ∈ Nat.toDigits 16 n) :
    ∃ d, c = Nat.digitChar d := by
  induction n using Nat.strongRecOn with
  | ind n ih =>
    rw [Nat.toDigits_eq_if (by decide)] at h
    split at h
    · exact ⟨n, List.mem_singleton.mp h⟩
    · rcases List.mem_append.mp h with hfront | hlast
      · exact ih (n / 16) (by omega) hfront
      · exact ⟨n % 16, List.mem_singleton.mp hlast⟩

/-- Behind its backslash a number has no quotes and no other backslash. -/
theorem passes_numbered (c : Char) : Passes (numbered c) := by
  have hnumber : ∀ d ∈ '\x7b' :: (Nat.toDigits 16 c.toNat ++ ['\x7d']),
      d ≠ Literal.quote ∧ d ≠ Literal.escape := by
    intro d hd
    rcases List.mem_cons.mp hd with rfl | hd
    · decide
    · rcases List.mem_append.mp hd with hdigit | hlast
      · obtain ⟨digit, rfl⟩ := exists_digitChar_of_mem hdigit
        exact ⟨Nat.digitChar_ne _ (by decide), Nat.digitChar_ne _ (by decide)⟩
      · rw [List.mem_singleton.mp hlast]
        decide
  exact (Literal.passes_escaped 'u').append (Literal.passes_chars hnumber)

/-- **Nothing is left open** where a character ends. -/
theorem passes_escape (c : Char) (next : Option Char) : Passes (escape c next) := by
  have hzero : Passes ['0'] := Literal.passes_char (by decide) (by decide)
  rw [escape]
  split_ifs with _ _ _ _ _ hmeans
  · exact (Literal.passes_escaped 'x').append (hzero.append hzero)
  · exact Literal.passes_escaped '0'
  · exact Literal.passes_escaped 't'
  · exact Literal.passes_escaped 'r'
  · exact Literal.passes_escaped 'n'
  · exact Literal.passes_escaped c
  · exact passes_numbered c
  · simp only [Bool.or_eq_true, beq_iff_eq, not_or] at hmeans
    exact Literal.passes_char hmeans.1 hmeans.2

theorem passes_escapeAll (text : List Char) : Passes (escapeAll text) := by
  induction text with
  | nil => exact Literal.passes_nil
  | cons c rest ih => exact (passes_escape c rest.head?).append ih

theorem toList_quote (text : String) :
    (quote text).toList = mark :: (escapeAll text.toList ++ [mark]) := by
  rw [quote, String.toList_ofList]

/-- **A text in quotes is one literal**, unless a name stands right behind it. -/
theorem split?_quote (text : String) {rest : List Char}
    (hrest : rest.head?.any startsName = false) :
    Literal.split? ((quote text).toList ++ rest) = some ((quote text).toList, rest) := by
  have hend : Literal.upTo Literal.quote false (escapeAll text.toList ++ (mark :: rest)) =
      some (escapeAll text.toList ++ [mark], rest) := by
    rw [passes_escapeAll text.toList (mark :: rest)]
    rfl
  have hquoted : Literal.quoted? ((quote text).toList ++ rest) =
      some ((quote text).toList, rest) := by
    rw [toList_quote, List.cons_append, List.append_assoc, List.singleton_append]
    show ((Literal.upTo Literal.quote false (escapeAll text.toList ++ (mark :: rest))).map
      (Cut.after [mark])) = _
    rw [hend]
    rfl
  rw [Literal.split?, hquoted]
  simp only [Literal.withSuffix, hrest, Bool.false_eq_true, if_false]

/-- It is a string. -/
theorem kind?_quote (text : String) : Literal.kind? (quote text) = some .string := by
  rw [Literal.kind?, toList_quote]
  rfl

/-- By itself it is code of one token. -/
theorem ofText?_quote (text : String) :
    Code.ofText? (quote text) = some [.literal (quote text)] := by
  have hsplit := split?_quote text (show ([] : List Char).head?.any startsName = false from rfl)
  rw [List.append_nil, toList_quote] at hsplit
  have hlexeme : Lexer.lexeme? mark (escapeAll text.toList ++ [mark]) =
      some (.atom (.literal (quote text)), []) := by
    have hliteral : Lexer.literal? (mark :: (escapeAll text.toList ++ [mark])) =
        some (mark :: (escapeAll text.toList ++ [mark]), []) := hsplit
    rw [Lexer.lexeme?, hliteral]
    rfl
  have hscan (fuel : Nat) : Lexer.scan (fuel + 1) (quote text).toList =
      some [.atom (.literal (quote text))] := by
    have hblank : isBlank mark = false := by decide
    rw [toList_quote, Lexer.scan, hblank, if_neg Bool.false_ne_true]
    show (Lexer.lexeme? mark (escapeAll text.toList ++ [mark]) >>= fun lexeme => _) = _
    have hnothing : Lexer.scan fuel [] = some [] := by cases fuel <;> rfl
    simp only [hlexeme, Option.bind_eq_bind, Option.bind_some, hnothing]
    rfl
  have hlength : (quote text).length = (escapeAll text.toList ++ [mark]).length + 1 := by
    rw [← String.length_toList, toList_quote, List.length_cons]
  rw [Code.ofText?, hlength, hscan]
  rfl

end Quoted

end WireForm
