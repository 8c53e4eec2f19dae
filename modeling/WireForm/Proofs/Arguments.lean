import WireForm.Derivation.Options
import WireForm.Proofs.CodeReading

/-!
# Arguments as they are written

An argument of an attribute is a name, and may have a type in round brackets behind it. All tokens
in these brackets have to be the type, and what it is read as is what it is kept as. The arguments
of an attribute are in one group, whatever its brackets are, with commas between them; a comma
behind the last one makes no difference, and there may be none at all. Nothing else is a list of
arguments.

The lists of names in attributes that are shared with the compiler are read in the same way, with
names alone for their elements.

## Main definitions

* `Argument.WrittenAs`, `NamedBy` — arguments and names as tokens

## Main results

* `Reader.reads_argument`, `Reader.reads_name` — one argument, and one name
* `argumentsOf_eq_ok` — what the arguments of an attribute are
* `argumentsOf_single` — the only argument of an attribute
-/

namespace WireForm.Derivation

/-! ### Elements -/

/-- The tokens are this argument: its name, and behind it in round brackets what its type is read
from, if it has one. -/
inductive Argument.WrittenAs : Argument → Code → Prop where
  /-- The name is alone. -/
  | bare {word : String} (hname : isName word = true) : WrittenAs ⟨word, none⟩ [.ident word]
  /-- There is a type behind it. -/
  | typed {word : String} {inside type : Code} (hname : isName word = true)
    (htype : Reader.type.readAll inside = .ok type) :
    WrittenAs ⟨word, some type⟩ (.ident word :: parens inside)

/-- The tokens are this name. -/
def NamedBy (word : String) (code : Code) : Prop := isName word = true ∧ code = [.ident word]

namespace Reader

theorem reads_name : Reads name NamedBy := by
  intro word code rest _
  rw [gives_name]
  constructor
  · rintro ⟨hname, rfl⟩
    exact ⟨[.ident word], ⟨hname, rfl⟩, rfl⟩
  · rintro ⟨_, ⟨hname, rfl⟩, rfl⟩
    exact ⟨hname, rfl⟩

/-- No argument ends where its type would begin. -/
theorem EndsElement.startsGroup_eq {rest : Code} (h : EndsElement rest) (delimiter : Delimiter) :
    rest.startsGroup delimiter = false := by
  rcases h with rfl | h
  · rfl
  · obtain ⟨_, _, rfl⟩ := Code.startsMark_iff.mp h
    rfl

/-- **An argument is read just where it is written.** -/
theorem reads_argument : Reads argument Argument.WrittenAs := by
  intro a code rest hrest
  rw [argument, gives_bind]
  constructor
  · rintro ⟨word, behind, hword, h⟩
    obtain ⟨hname, rfl⟩ := gives_name.mp hword
    rw [gives_get_bind, gives_ite] at h
    split at h
    · obtain ⟨type, _, htype, h⟩ := gives_bind.mp h
      obtain ⟨rfl, rfl⟩ := gives_pure.mp h
      obtain ⟨inside, rfl, hinside⟩ := gives_group.mp htype
      exact ⟨_, .typed hname hinside, rfl⟩
    · obtain ⟨rfl, rfl⟩ := gives_pure.mp h
      exact ⟨_, .bare hname, rfl⟩
  · rintro ⟨front, hfront, rfl⟩
    cases hfront with
    | @bare word hname =>
      refine ⟨word, rest, gives_name.mpr ⟨hname, rfl⟩, ?_⟩
      rw [gives_get_bind, if_neg (Bool.eq_false_iff.mp (hrest.startsGroup_eq .paren))]
      exact gives_pure.mpr ⟨rfl, rfl⟩
    | @typed word inside type hname htype =>
      refine ⟨word, .group .paren inside :: rest, gives_name.mpr ⟨hname, rfl⟩, ?_⟩
      have hstarts : Code.startsGroup .paren (.group .paren inside :: rest) = true := rfl
      rw [gives_get_bind, if_pos hstarts]
      exact (gives_group.mpr ⟨inside, rfl, htype⟩).bind (gives_pure.mpr ⟨rfl, rfl⟩)

end Reader

/-! ### Lists -/

section Listed

variable {α : Type} {element : Reader α} {Written : α → Code → Prop} {as : List α} {content : Code}

/-- A list in an attribute is one group with a list in it. -/
theorem listed_eq_ok (h : element.Reads Written)
    (hne : ∀ a front, Written a front → front ≠ []) :
    listed element content = .ok as ↔
      ∃ delimiter inside, content = [.group delimiter inside] ∧ Commas Written as inside := by
  unfold listed
  split
  · rename_i delimiter inside
    rw [Reader.readAll_commas h hne]
    constructor
    · exact fun hcode => ⟨delimiter, inside, rfl, hcode⟩
    · rintro ⟨_, _, hcontent, hcode⟩
      obtain ⟨-, rfl⟩ := Token.group.inj (List.singleton_inj.mp hcontent)
      exact hcode
  · rename_i hgroup
    exact ⟨nofun, fun ⟨delimiter, inside, hcontent, _⟩ => absurd hcontent (hgroup delimiter inside)⟩

end Listed

theorem Argument.WrittenAs.ne_nil {a : Argument} {code : Code} (h : a.WrittenAs code) :
    code ≠ [] := by
  cases h with
  | bare _ => exact List.cons_ne_nil _ _
  | typed _ _ => exact List.cons_ne_nil _ _

/-- **What the arguments of an attribute are.** -/
theorem argumentsOf_eq_ok {content : Code} {args : List Argument} :
    argumentsOf content = .ok args ↔ ∃ delimiter inside,
      content = [.group delimiter inside] ∧ Commas Argument.WrittenAs args inside := by
  rw [argumentsOf, Outcome.mapError_eq_ok]
  exact listed_eq_ok Reader.reads_argument fun _ _ => Argument.WrittenAs.ne_nil

/-- The only argument of an attribute. -/
theorem argumentsOf_single {a : Argument} {inside : Code} (h : a.WrittenAs inside) :
    argumentsOf (parens inside) = .ok [a] :=
  argumentsOf_eq_ok.mpr ⟨.paren, inside, rfl, .last h⟩

/-! ### Names -/

section Names

variable {delimiter : Delimiter} {inside : Code} {names : List String}

theorem NamedBy.ne_nil {word : String} {code : Code} (h : NamedBy word code) : code ≠ [] := by
  rw [h.2]
  exact List.cons_ne_nil _ _

theorem listed_name_eq_ok :
    listed Reader.name [.group delimiter inside] = .ok names ↔ Commas NamedBy names inside := by
  rw [listed_eq_ok Reader.reads_name fun _ _ => NamedBy.ne_nil]
  constructor
  · rintro ⟨_, _, hcontent, h⟩
    obtain ⟨-, rfl⟩ := Token.group.inj (List.singleton_inj.mp hcontent)
    exact h
  · exact fun h => ⟨delimiter, inside, rfl, h⟩

/-- Names with commas between them are found. -/
theorem namesOf_eq_of_commas (h : Commas NamedBy names inside) :
    namesOf [.group delimiter inside] = names := by
  rw [namesOf, listed_name_eq_ok.mpr h]
  rfl

/-- In anything else no name is found. -/
theorem namesOf_eq_nil (h : ∀ names, ¬ Commas NamedBy names inside) :
    namesOf [.group delimiter inside] = [] := by
  rw [namesOf]
  cases hlisted : listed Reader.name [.group delimiter inside] with
  | ok names => exact absurd (listed_name_eq_ok.mp hlisted) (h names)
  | error misread => rfl

end Names

end WireForm.Derivation
