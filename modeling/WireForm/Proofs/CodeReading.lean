import WireForm.Derivation.Reader
import WireForm.Proofs.Outcome

/-!
# What readers make of code

A reader that succeeds gives a value and leaves the code behind what it took. Whether tokens were
passed over is a matter of the whole: once there were some, nothing that is read behind them makes
up for it. So a reader that is made of two others gives a value, with nothing passed over, just when
both of them do. For each of the small readers it can then be said in terms of the tokens when it
gives what.

A list is read element by element, each with a comma behind it but the last, which may have one or
not. This is a grammar as soon as there is one for the elements.

## Main definitions

* `Reader.Gives` — what a reader makes of the code in front of it
* `Commas` — lists with commas between their elements

## Main results

* `Reader.readAll_eq_ok` — all of some code, in terms of what is in front
* `Reader.gives_bind` — one reader after the other
* `Reader.gives_commas`, `Reader.readAll_commas` — lists
-/

namespace WireForm.Derivation

theorem Code.startsMark_iff {wanted : Char} {code : Code} :
    code.startsMark wanted = true ↔ ∃ joined rest, code = .punct wanted joined :: rest := by
  rw [startsMark]
  rcases code with _ | ⟨_ | ⟨mark, joined⟩ | _ | _, rest⟩ <;> simp [startsMarks]

namespace Reader

variable {α β : Type}

/-- The reader gives a value, leaves some code, and passes nothing over. -/
def Gives (reader : Reader α) (code : Code) (a : α) (rest : Code) : Prop :=
  (reader.run code).run = ⟨.ok (a, rest), false⟩

section Gives

variable {reader : Reader α} {f : α → Reader β} {code rest : Code} {a : α} {b : β}

/-! ### One reader after the other -/

/-- All of the code has to be taken. -/
theorem readAll_eq_ok : reader.readAll code = .ok a ↔ Gives reader code a [] := by
  rw [readAll, Gives]
  rcases (reader.run code).run with ⟨_ | ⟨a, _ | _⟩, _ | _⟩ <;> simp

/-- **One reader after the other.** -/
theorem gives_bind : Gives (reader >>= f) code b rest ↔
    ∃ a behind, Gives reader code a behind ∧ Gives (f a) behind b rest := by
  simp only [Gives]
  rw [StateT.run_bind, ExceptT.run_bind, Passing.bind_eq_unpassed]
  obtain ⟨result, passed⟩ := (reader.run code).run
  simp only [Passing.mk.injEq]
  constructor
  · rintro ⟨rfl, h⟩
    cases result with
    | error misread => cases h
    | ok found => exact ⟨found.1, found.2, ⟨rfl, rfl⟩, h⟩
  · rintro ⟨a, behind, ⟨rfl, rfl⟩, h⟩
    exact ⟨rfl, h⟩

theorem Gives.bind {behind : Code} (h : Gives reader code a behind)
    (hf : Gives (f a) behind b rest) : Gives (reader >>= f) code b rest :=
  gives_bind.mpr ⟨a, behind, h, hf⟩

theorem gives_pure {a' : α} : Gives (pure a) code a' rest ↔ a = a' ∧ code = rest := by
  show (⟨.ok (a, code), false⟩ : Passing (Except Misread (α × Code))) = ⟨.ok (a', rest), false⟩ ↔ _
  simp

/-- To look at the code takes nothing from it. -/
theorem gives_get_bind {f : Code → Reader β} :
    Gives (get >>= f) code b rest ↔ Gives (f code) code b rest := Iff.rfl

theorem gives_set_bind {left : Code} {next : Reader β} :
    Gives (set left >>= fun _ => next) code b rest ↔ Gives next left b rest := Iff.rfl

theorem not_gives_refuse {misread : Misread} : ¬ Gives (refuse misread) code b rest := nofun

theorem gives_map {g : α → β} :
    Gives (g <$> reader) code b rest ↔ ∃ a, Gives reader code a rest ∧ g a = b := by
  show Gives (reader >>= fun a => pure (g a)) code b rest ↔ _
  simp only [gives_bind, gives_pure]
  constructor
  · rintro ⟨a, _, h, hb, rfl⟩
    exact ⟨a, h, hb⟩
  · rintro ⟨a, h, hb⟩
    exact ⟨a, rest, h, hb, rfl⟩

theorem gives_ite {cond : Prop} [Decidable cond] {yes no : Reader β} :
    Gives (if cond then yes else no) code b rest ↔
      if cond then Gives yes code b rest else Gives no code b rest := by
  split
  · rfl
  · rfl

end Gives

/-! ### Single tokens and groups -/

section Tokens

variable {code rest : Code} {a : α}

theorem gives_first {give : Token → Option α} :
    Gives (first give) code a rest ↔ ∃ token, code = token :: rest ∧ give token = some a := by
  rw [first, gives_get_bind]
  cases code with
  | nil => simp [not_gives_refuse]
  | cons token others =>
    cases hgive : give token with
    | none => simp [hgive, not_gives_refuse]
    | some found =>
      simp only [hgive, gives_set_bind, gives_pure]
      constructor
      · rintro ⟨rfl, rfl⟩
        exact ⟨token, rfl, hgive⟩
      · rintro ⟨_, h, ha⟩
        obtain ⟨rfl, rfl⟩ := List.cons.inj h
        exact ⟨Option.some.inj (hgive.symm.trans ha), rfl⟩

theorem gives_anyWord {word : String} :
    Gives anyWord code word rest ↔ code = .ident word :: rest := by
  rw [anyWord, gives_first]
  constructor
  · rintro ⟨token, rfl, htoken⟩
    cases token <;> cases htoken
    rfl
  · rintro rfl
    exact ⟨_, rfl, rfl⟩

theorem gives_name {word : String} :
    Gives name code word rest ↔ isName word = true ∧ code = .ident word :: rest := by
  rw [name, gives_get_bind, gives_ite]
  split
  · rename_i hstarts
    rw [gives_anyWord, iff_and_self]
    rintro rfl
    exact hstarts
  · rename_i hstarts
    refine iff_of_false not_gives_refuse ?_
    rintro ⟨hname, rfl⟩
    exact hstarts hname

theorem gives_marks {wanted : List Char} {marks : Code} :
    Gives (Reader.marks wanted) code marks rest ↔
      code.startsMarks wanted = true ∧ marks = operator wanted ∧
        rest = code.drop wanted.length := by
  rw [Reader.marks, gives_get_bind, gives_ite]
  split
  · rename_i hstarts
    simp [gives_set_bind, gives_pure, hstarts, eq_comm]
  · rename_i hstarts
    exact iff_of_false not_gives_refuse fun h => hstarts h.1

theorem gives_mark {wanted : Char} {marks : Code} :
    Gives (mark wanted) code marks rest ↔
      ∃ joined, code = .punct wanted joined :: rest ∧ marks = operator [wanted] := by
  rw [mark, gives_marks]
  constructor
  · rintro ⟨hstarts, rfl, rfl⟩
    obtain ⟨joined, behind, rfl⟩ := Code.startsMark_iff.mp hstarts
    exact ⟨joined, rfl, rfl⟩
  · rintro ⟨joined, rfl, rfl⟩
    exact ⟨Code.startsMark_iff.mpr ⟨joined, rest, rfl⟩, rfl, rfl⟩

theorem not_gives_passOver {next : Reader α} :
    ¬ Gives ((Passing.passOver : Reader Unit) >>= fun _ => next) code a rest := by
  rw [gives_bind]
  rintro ⟨_, _, h, -⟩
  cases h

/-- A group is read by reading all that is in it. -/
theorem gives_group {delimiter : Delimiter} {inside : Reader α} :
    Gives (group delimiter inside) code a rest ↔
      ∃ content, code = .group delimiter content :: rest ∧ inside.readAll content = .ok a := by
  rw [group, gives_bind]
  refine exists_congr fun content => ?_
  constructor
  · rintro ⟨behind, hgroup, h⟩
    obtain ⟨token, rfl, htoken⟩ := gives_first.mp hgroup
    obtain rfl : token = .group delimiter content := by
      cases token with
      | group opened inside =>
        obtain ⟨hopened, rfl⟩ : opened = delimiter ∧ inside = content := by simpa using htoken
        rw [hopened]
      | _ => cases htoken
    rw [gives_get_bind, gives_set_bind] at h
    obtain ⟨found, left, hinside, h⟩ := gives_bind.mp h
    rw [gives_get_bind] at h
    cases left with
    | nil =>
      obtain ⟨rfl, rfl⟩ := gives_pure.mp h
      exact ⟨rfl, readAll_eq_ok.mpr hinside⟩
    | cons token left => exact absurd h not_gives_passOver
  · rintro ⟨rfl, hinside⟩
    refine ⟨rest, gives_first.mpr ⟨_, rfl, by simp⟩, ?_⟩
    rw [gives_get_bind, gives_set_bind]
    exact (readAll_eq_ok.mp hinside).bind (gives_pure.mpr ⟨rfl, rfl⟩)

end Tokens

/-! ### Lists -/

section Separated

variable {element : Reader α} {code rest : Code} {separator : Char} {stop : Code → Bool}
  {fuel : Nat} {list : Separated α}

theorem gives_separatedWithin_zero :
    Gives (separatedWithin separator stop element 0) code list rest ↔
      list = .empty ∧ rest = code := by
  rw [separatedWithin, gives_pure]
  simp only [eq_comm]

theorem gives_separatedWithin_of_stop (h : stop code = true) :
    Gives (separatedWithin separator stop element (fuel + 1)) code list rest ↔
      list = .empty ∧ rest = code := by
  rw [separatedWithin, gives_get_bind, if_pos h]
  simp only [gives_pure, eq_comm]

/-- Behind an element there is a separator and then the others, or the element is the last one. -/
theorem gives_separatedWithin_succ (h : stop code = false) :
    Gives (separatedWithin separator stop element (fuel + 1)) code list rest ↔
      ∃ a behind, Gives element code a behind ∧
        ((∃ joined after others, behind = .punct separator joined :: after ∧
            Gives (separatedWithin separator stop element fuel) after others rest ∧
            list = .cons a others) ∨
          behind.startsMark separator = false ∧ rest = behind ∧ list = ⟨[a], false⟩) := by
  rw [separatedWithin, gives_get_bind, if_neg (Bool.eq_false_iff.mp h), gives_bind]
  refine exists_congr fun a => exists_congr fun behind => and_congr_right fun _ => ?_
  rw [gives_get_bind, gives_ite]
  split
  · rename_i hstarts
    simp only [gives_bind, gives_mark, gives_pure]
    simp only [hstarts, Bool.true_eq_false, false_and, or_false]
    constructor
    · rintro ⟨_, after, ⟨joined, hbehind, -⟩, others, _, hothers, hlist, rfl⟩
      exact ⟨joined, after, others, hbehind, hothers, hlist.symm⟩
    · rintro ⟨joined, after, others, hbehind, hothers, hlist⟩
      exact ⟨_, after, ⟨joined, hbehind, rfl⟩, others, rest, hothers, hlist.symm, rfl⟩
  · rename_i hstarts
    have hnone (joined : Bool) (after : Code) : behind ≠ .punct separator joined :: after :=
      fun hbehind => hstarts (Code.startsMark_iff.mpr ⟨joined, after, hbehind⟩)
    simp only [hnone, false_and, exists_false, false_or, gives_pure,
      Bool.eq_false_iff.mpr hstarts, true_and]
    simp only [eq_comm, and_comm]

end Separated

end Reader

/-! ### Lists as code -/

namespace Separated

variable {α : Type} (separator : Code) (write : α → Code)

theorem marked_cons_cons (a b : α) (rest : List α) (trailing : Bool) :
    marked ⟨a :: b :: rest, trailing⟩ = (a, true) :: marked ⟨b :: rest, trailing⟩ := by
  have hshift : (a :: b :: rest).zipIdx =
      (a, 0) :: (b :: rest).zipIdx.map fun p => (p.1, p.2 + 1) := by
    rw [List.zipIdx_cons, List.zipIdx_succ]
  rw [marked, marked, hshift, List.map_cons, List.map_map]
  refine congrArg₂ _ rfl (List.map_congr_left fun p _ => ?_)
  simp

theorem code_singleton (a : α) : code ⟨[a], false⟩ separator write = write a := by
  simp [code, entries, marked]

theorem code_cons_cons (a b : α) (rest : List α) (trailing : Bool) :
    code ⟨a :: b :: rest, trailing⟩ separator write =
      write a ++ separator ++ code ⟨b :: rest, trailing⟩ separator write := by
  rw [code, marked_cons_cons]
  rfl

/-- Behind an element there are a separator and more, or it is the last one. -/
theorem more_or_last (as : List α) (trailing : Bool) :
    (as ≠ [] ∨ trailing = true) ∨ as = [] ∧ trailing = false := by
  cases as with
  | nil => cases trailing <;> simp
  | cons a as => exact .inl (.inl nofun)

/-- Behind every element but the last there is a separator, and behind the last one if the list
says so. -/
theorem code_cons {as : List α} {trailing : Bool} (h : as ≠ [] ∨ trailing = true) (a : α) :
    code ⟨a :: as, trailing⟩ separator write =
      write a ++ (separator ++ code ⟨as, trailing⟩ separator write) := by
  cases as with
  | nil => simp [code, entries, marked, h.resolve_left fun hnil => hnil rfl]
  | cons b as => rw [code_cons_cons, List.append_assoc]

theorem code_map {β : Type} (f : β → α) (bs : List β) (trailing : Bool) :
    code ⟨bs.map f, trailing⟩ separator write =
      code ⟨bs, trailing⟩ separator fun b => write (f b) := by
  induction bs with
  | nil => rfl
  | cons b bs ih =>
    cases bs with
    | nil => rfl
    | cons next bs =>
      rw [code_cons_cons, ← ih]
      exact code_cons_cons separator write _ _ _ _

/-- A list is as long as it has elements, or longer. -/
theorem length_le_length_code {as : List α} (h : ∀ a ∈ as, write a ≠ []) (trailing : Bool) :
    as.length ≤ (code ⟨as, trailing⟩ separator write).length := by
  induction as with
  | nil => exact Nat.zero_le _
  | cons a as ih =>
    obtain ⟨ha, hothers⟩ := List.forall_mem_cons.mp h
    have hpos := List.length_pos_of_ne_nil ha
    have hle := ih hothers
    rw [List.length_cons]
    rcases more_or_last as trailing with hmore | ⟨rfl, rfl⟩
    · rw [code_cons _ _ hmore, List.length_append, List.length_append]
      omega
    · rw [code_singleton]
      exact hpos

theorem mem_of_mem_marked {list : Separated α} {entry : α × Bool} (h : entry ∈ list.marked) :
    entry.1 ∈ list.elements := by
  obtain ⟨⟨a, i⟩, hmem, rfl⟩ := List.mem_map.mp h
  exact List.fst_mem_of_mem_zipIdx hmem

/-- Without lifetimes there is nothing to put in front. -/
theorem lifetimesFirst_of_none {list : Separated α} {isLifetime : α → Bool}
    (h : ∀ a ∈ list.elements, isLifetime a = false) :
    list.lifetimesFirst isLifetime write = list.code comma write := by
  have hnone : list.marked.filter (fun entry => isLifetime entry.1) = [] :=
    List.filter_eq_nil_iff.mpr fun entry hentry => by simp [h _ (mem_of_mem_marked hentry)]
  have hall : list.marked.filter (fun entry => !isLifetime entry.1) = list.marked :=
    List.filter_eq_self.mpr fun entry hentry => by simp [h _ (mem_of_mem_marked hentry)]
  rw [lifetimesFirst, List.partition_eq_filter_filter]
  simp only [hnone, Function.comp_def, hall]
  simp [entries, code]

/-- All tokens of an element are in the list. -/
theorem mem_code {list : Separated α} {a : α} (ha : a ∈ list.elements) {token : Token}
    (h : token ∈ write a) : token ∈ list.code separator write := by
  obtain ⟨i, hi, rfl⟩ := List.getElem_of_mem ha
  refine List.mem_flatMap.mpr ⟨(list.elements[i], _), List.mem_map.mpr
    ⟨(list.elements[i], i), List.mem_zipIdx_iff_getElem?.mpr (List.getElem?_eq_getElem hi), rfl⟩,
    List.mem_append_left _ h⟩

end Separated

/-- Code that is these elements in order, with commas between them. Behind the last one there is
another comma or not. -/
inductive Commas {α : Type} (Written : α → Code → Prop) : List α → Code → Prop where
  /-- There are no elements. -/
  | nil : Commas Written [] []
  /-- There is no comma behind the last element. -/
  | last {a : α} {code : Code} (h : Written a code) : Commas Written [a] code
  /-- Behind an element there are a comma and the others. -/
  | cons {a : α} {as : List α} {code rest : Code} (h : Written a code) (joined : Bool)
    (hrest : Commas Written as rest) : Commas Written (a :: as) (code ++ .punct ',' joined :: rest)

namespace Reader

variable {α : Type} {element : Reader α} {Written : α → Code → Prop} {code : Code} {as : List α}

/-- What is left where an element of a list ends. -/
def EndsElement (rest : Code) : Prop := rest = [] ∨ rest.startsMark ',' = true

/-- The reader reads what is written like this where an element of a list ends behind it. -/
def Reads (element : Reader α) (Written : α → Code → Prop) : Prop :=
  ∀ a code rest, EndsElement rest →
    (Gives element code a rest ↔ ∃ front, Written a front ∧ code = front ++ rest)

theorem commas_of_gives (h : Reads element Written) {fuel : Nat} {list : Separated α}
    (hgives : Gives (separatedWithin ',' List.isEmpty element fuel) code list []) :
    Commas Written list.elements code := by
  induction fuel generalizing code list with
  | zero =>
    obtain ⟨rfl, rfl⟩ := gives_separatedWithin_zero.mp hgives
    exact .nil
  | succ fuel ih =>
    cases hstop : code.isEmpty with
    | true =>
      obtain ⟨rfl, rfl⟩ := (gives_separatedWithin_of_stop hstop).mp hgives
      exact .nil
    | false =>
      obtain ⟨a, behind, hfirst, hbehind⟩ := (gives_separatedWithin_succ hstop).mp hgives
      rcases hbehind with ⟨joined, after, others, rfl, hothers, rfl⟩ | ⟨-, rfl, rfl⟩
      · have hends : EndsElement (.punct ',' joined :: after) :=
          .inr (Code.startsMark_iff.mpr ⟨joined, after, rfl⟩)
        obtain ⟨front, hwritten, rfl⟩ := (h a _ _ hends).mp hfirst
        exact .cons hwritten joined (ih hothers)
      · obtain ⟨front, hwritten, rfl⟩ := (h a _ _ (.inl rfl)).mp hfirst
        rw [List.append_nil]
        exact .last hwritten

theorem exists_gives_of_commas (h : Reads element Written)
    (hne : ∀ a front, Written a front → front ≠ []) (hcode : Commas Written as code) {fuel : Nat}
    (hfuel : code.length < fuel) :
    ∃ list, Gives (separatedWithin ',' List.isEmpty element fuel) code list [] ∧
      list.elements = as := by
  have hstop (a : α) (front : Code) (hwritten : Written a front) (rest : Code) :
      (front ++ rest).isEmpty = false := by
    simp [hne a front hwritten]
  induction hcode generalizing fuel with
  | nil =>
    obtain ⟨fuel, rfl⟩ := Nat.exists_eq_add_of_lt hfuel
    exact ⟨.empty, (gives_separatedWithin_of_stop rfl).mpr ⟨rfl, rfl⟩, rfl⟩
  | @last a code hwritten =>
    obtain ⟨fuel, rfl⟩ : ∃ n, fuel = n + 1 := ⟨fuel - 1, by omega⟩
    have hfirst : Gives element code a [] :=
      (h a code [] (.inl rfl)).mpr ⟨code, hwritten, (List.append_nil code).symm⟩
    refine ⟨⟨[a], false⟩, (gives_separatedWithin_succ ?_).mpr
      ⟨a, [], hfirst, .inr ⟨rfl, rfl, rfl⟩⟩, rfl⟩
    rw [← List.append_nil code]
    exact hstop a code hwritten []
  | @cons a as code rest hwritten joined hrest ih =>
    obtain ⟨fuel, rfl⟩ : ∃ n, fuel = n + 1 := ⟨fuel - 1, by omega⟩
    rw [List.length_append, List.length_cons] at hfuel
    obtain ⟨others, hothers, hlist⟩ := @ih fuel (by omega)
    have hfirst : Gives element (code ++ .punct ',' joined :: rest) a (.punct ',' joined :: rest) :=
      (h a _ _ (.inr rfl)).mpr ⟨code, hwritten, rfl⟩
    exact ⟨.cons a others, (gives_separatedWithin_succ (hstop a code hwritten _)).mpr
      ⟨a, _, hfirst, .inl ⟨joined, rest, others, rfl, hothers, rfl⟩⟩, congrArg _ hlist⟩

theorem gives_commas {list : Separated α} {rest : Code} :
    Gives (commas element) code list rest ↔
      Gives (separatedWithin ',' List.isEmpty element (code.length + 1)) code list rest := by
  rw [commas, separated, gives_get_bind]

/-- **A list with commas is read just where it is written**, if that is so for its elements. -/
theorem readAll_commas (h : Reads element Written) (hne : ∀ a front, Written a front → front ≠ []) :
    Separated.elements <$> (commas element).readAll code = .ok as ↔ Commas Written as code := by
  constructor
  · intro hread
    obtain ⟨list, hlist, rfl⟩ := Outcome.map_eq_ok.mp hread
    exact commas_of_gives h (gives_commas.mp (readAll_eq_ok.mp hlist))
  · intro hcode
    obtain ⟨list, hgives, rfl⟩ := exists_gives_of_commas h hne hcode (Nat.lt_succ_self _)
    exact Outcome.map_eq_ok.mpr ⟨list, readAll_eq_ok.mpr (gives_commas.mpr hgives), rfl⟩

end Reader

end WireForm.Derivation
