import WireForm.Proofs.Discriminants

/-!
# Integers among hints

An enumeration is told which integers stand for its variants by an attribute that it shares with the
compiler. The attribute lists hints about the layout, and an integer is only one of them; other
hints are names too, or names with arguments, such as an alignment. There can be several such
attributes.

A list of nothing but names is read, and the first integer in all such lists is the one that counts,
whatever other names there are and wherever they are. A list in which a hint has arguments is not
read at all. So hints that stand in other attributes never hide an integer, but one with arguments
hides all integers next to it.

## Main definitions

* `Hint`, `Attribute.Lists` — hints, and the attributes that list them
* `FirstInteger` — the first integer among hints

## Main results

* `namesOf_eq` — all names, or none if a hint has arguments
* `integers_are_found_in_bare_lists`
* `alignment_hides_an_integer`
-/

namespace WireForm.Derivation

/-! ### Hints -/

/-- A hint about the layout of an item. -/
structure Hint where
  /-- The name. -/
  name : String
  /-- What is in round brackets behind the name, if there are any. -/
  arguments : Option Code

namespace Hint

/-- The hint as it is written. -/
def code (hint : Hint) : Code := .ident hint.name :: hint.arguments.elim [] parens

/-- Whether the hint is a name alone. -/
def isBare (hint : Hint) : Bool := hint.arguments.isNone

/-- The integer that the hint is. -/
def integer? (hint : Hint) : Option IntKind :=
  if hint.isBare then IntKind.ofName? hint.name else none

/-- Hints as they are written, with a comma behind the last one or without. -/
def listCode (hints : List Hint) (trailing : Bool) : Code :=
  Separated.code ⟨hints, trailing⟩ comma code

theorem integer?_eq_some {hint : Hint} {k : IntKind} :
    hint.integer? = some k ↔ hint = ⟨k.name, none⟩ := by
  obtain ⟨name, arguments⟩ := hint
  constructor
  · intro h
    cases arguments with
    | some inside => cases h
    | none =>
      have hname := List.find?_some (show IntKind.all.find? (·.name == name) = some k from h)
      rw [beq_iff_eq.mp hname]
  · rintro ⟨rfl, rfl⟩
    exact k.ofName?_name

end Hint

/-- The attribute lists these hints. -/
structure Attribute.Lists (attr : Attribute) (hints : List Hint) : Prop where
  /-- Their names are names. -/
  isName : ∀ hint ∈ hints, isName hint.name = true
  /-- They are all there is behind the path, in brackets of some kind. -/
  content_eq : ∃ delimiter trailing,
    attr.content = [.group delimiter (Hint.listCode hints trailing)]

namespace Hint

variable {hints : List Hint}

/-- Names alone are a list of names. -/
theorem commas_listCode (hnames : ∀ hint ∈ hints, Derivation.isName hint.name = true)
    (hbare : hints.all isBare = true) (trailing : Bool) :
    Commas NamedBy (hints.map name) (listCode hints trailing) := by
  induction hints with
  | nil => exact .nil
  | cons hint hints ih =>
    obtain ⟨word, arguments⟩ := hint
    obtain ⟨hname, hothers⟩ := List.forall_mem_cons.mp hnames
    rw [List.all_cons, Bool.and_eq_true_iff] at hbare
    obtain rfl : arguments = none := Option.isNone_iff_eq_none.mp hbare.1
    have hword : NamedBy word [.ident word] := ⟨hname, rfl⟩
    cases hints with
    | nil =>
      cases trailing with
      | false => exact .last hword
      | true => exact .cons hword false .nil
    | cons next hints =>
      rw [listCode, Separated.code_cons_cons]
      exact .cons hword false (ih hothers hbare.2)

/-- The arguments of a hint are where it is listed. -/
theorem group_mem_listCode {hint : Hint} {inside : Code} (hmem : hint ∈ hints)
    (harguments : hint.arguments = some inside) (trailing : Bool) :
    .group .paren inside ∈ listCode hints trailing := by
  refine Separated.mem_code comma code hmem ?_
  rw [code, harguments]
  exact List.mem_cons_of_mem _ (List.mem_singleton_self _)

end Hint

/-- No argument is in brackets where there are only names. -/
theorem Commas.group_not_mem {names : List String} {code : Code} (h : Commas NamedBy names code)
    (delimiter : Delimiter) (inside : Code) : .group delimiter inside ∉ code := by
  induction h with
  | nil => exact List.not_mem_nil
  | last hword => simp [hword.2]
  | cons hword joined _ ih => simp [hword.2, ih]

/-- The names in an attribute are those of all hints, unless one of these has arguments. -/
theorem namesOf_eq {attr : Attribute} {hints : List Hint} (h : attr.Lists hints) :
    namesOf attr.content = if hints.all Hint.isBare then hints.map Hint.name else [] := by
  obtain ⟨delimiter, trailing, hcontent⟩ := h.content_eq
  rw [hcontent]
  split
  · rename_i hbare
    exact namesOf_eq_of_commas (Hint.commas_listCode h.isName hbare trailing)
  · rename_i hbare
    obtain ⟨hint, hmem, harguments⟩ : ∃ hint ∈ hints, hint.isBare = false := by
      simpa using hbare
    obtain ⟨inside, hinside⟩ :=
      Option.isSome_iff_exists.mp (Option.isNone_eq_false_iff.mp harguments)
    refine namesOf_eq_nil fun names hnames => ?_
    exact hnames.group_not_mem _ _ (Hint.group_mem_listCode hmem hinside trailing)

/-! ### Integers -/

/-- The first integer among these hints is of this kind. -/
def FirstInteger (hints : List Hint) (k : IntKind) : Prop :=
  ∃ before after, hints = before ++ ⟨k.name, none⟩ :: after ∧
    ∀ hint ∈ before, ∀ other : IntKind, hint ≠ ⟨other.name, none⟩

theorem Hint.integer?_eq_none {hint : Hint} :
    hint.integer? = none ↔ ∀ k : IntKind, hint ≠ ⟨k.name, none⟩ := by
  simp only [Option.eq_none_iff_forall_ne_some, ne_eq, integer?_eq_some]

theorem firstInteger_iff {hints : List Hint} {k : IntKind} :
    FirstInteger hints k ↔ hints.findSome? Hint.integer? = some k := by
  simp only [FirstInteger, List.findSome?_eq_some_iff, Hint.integer?_eq_some, Hint.integer?_eq_none]
  constructor
  · rintro ⟨before, after, hhints, hbefore⟩
    exact ⟨before, _, after, hhints, rfl, hbefore⟩
  · rintro ⟨before, hint, after, hhints, rfl, hbefore⟩
    exact ⟨before, after, hhints, hbefore⟩

/-- The hints of all lists in which none has arguments. -/
def bareHints (lists : List (List Hint)) : List Hint :=
  (lists.filter (·.all Hint.isBare)).flatten

theorem bareHints_cons (list : List Hint) (lists : List (List Hint)) :
    bareHints (list :: lists) =
      (if list.all Hint.isBare then list else []) ++ bareHints lists := by
  rw [bareHints, List.filter_cons]
  split
  · rfl
  · rfl

theorem findSome?_bare {hints : List Hint} (h : hints.all Hint.isBare = true) :
    (hints.map Hint.name).findSome? IntKind.ofName? = hints.findSome? Hint.integer? := by
  induction hints with
  | nil => rfl
  | cons hint hints ih =>
    obtain ⟨hbare, hothers⟩ := Bool.and_eq_true_iff.mp (List.all_cons.symm.trans h)
    rw [List.map_cons, List.findSome?_cons, List.findSome?_cons, ih hothers, Hint.integer?,
      if_pos hbare]

/-- Lists with arguments count for nothing. -/
theorem integerOf?_eq {attrs : List Attribute} {lists : List (List Hint)}
    (h : List.Forall₂ Attribute.Lists (attrs.filter (·.isNamed "repr")) lists) :
    integerOf? attrs = (bareHints lists).findSome? Hint.integer? := by
  rw [integerOf?]
  generalize attrs.filter (·.isNamed "repr") = listing at h
  induction h with
  | nil => rfl
  | cons hlists _ ih =>
    rw [List.flatMap_cons, List.findSome?_append, ih, namesOf_eq hlists, bareHints_cons]
    split
    · rename_i hbare
      rw [findSome?_bare hbare, List.findSome?_append]
    · rfl

/-- Where no integer is next to a hint with arguments, all lists are as good as bare. -/
theorem findSome?_bareHints {lists : List (List Hint)}
    (h : ∀ list ∈ lists, ∀ k : IntKind, ⟨k.name, none⟩ ∈ list → ∀ hint ∈ list, hint.isBare = true) :
    (bareHints lists).findSome? Hint.integer? = lists.flatten.findSome? Hint.integer? := by
  induction lists with
  | nil => rfl
  | cons list lists ih =>
    obtain ⟨hlist, hlists⟩ := List.forall_mem_cons.mp h
    rw [bareHints_cons, List.flatten_cons, List.findSome?_append, List.findSome?_append, ih hlists]
    split
    · rfl
    · rename_i hbare
      have hnone : list.findSome? Hint.integer? = none := by
        refine List.findSome?_eq_none_iff.mpr fun hint hhint => ?_
        refine Hint.integer?_eq_none.mpr fun k heq => hbare ?_
        exact List.all_eq_true.mpr (hlist k (heq ▸ hhint))
      rw [hnone]
      rfl

/-- **The integer of an enumeration is the first one in its lists of names.** The lists are those of
all attributes about the layout, in their order, and may hold other names, before an integer and
behind it. A list in which a hint has arguments is passed over, and the integers in it with it.

So no integer is missed, and none is found in another's place, as long as no integer stands next to
a hint with arguments, wherever else such hints are. -/
theorem integers_are_found_in_bare_lists {attrs : List Attribute} {lists : List (List Hint)}
    (h : List.Forall₂ Attribute.Lists (attrs.filter (·.isNamed "repr")) lists) :
    (∀ k, integerOf? attrs = some k ↔ FirstInteger (bareHints lists) k) ∧
    (integerOf? attrs = none ↔ ∀ k : IntKind, ⟨k.name, none⟩ ∉ bareHints lists) ∧
    ((∀ list ∈ lists, ∀ k : IntKind, ⟨k.name, none⟩ ∈ list → ∀ hint ∈ list, hint.isBare = true) →
      (∀ k, integerOf? attrs = some k ↔ FirstInteger lists.flatten k) ∧
      ((∃ list ∈ lists, ∃ k : IntKind, ⟨k.name, none⟩ ∈ list) → (integerOf? attrs).isSome)) := by
  have hnone (hints : List Hint) : hints.findSome? Hint.integer? = none ↔
      ∀ k : IntKind, ⟨k.name, none⟩ ∉ hints := by
    simp only [List.findSome?_eq_none_iff, Hint.integer?_eq_none]
    exact ⟨fun hall k hmem => hall _ hmem k rfl, fun hall hint hmem k heq => hall k (heq ▸ hmem)⟩
  rw [integerOf?_eq h]
  refine ⟨fun k => firstInteger_iff.symm, hnone _, fun hapart => ?_⟩
  rw [findSome?_bareHints hapart]
  refine ⟨fun k => firstInteger_iff.symm, ?_⟩
  rintro ⟨list, hlist, k, hk⟩
  rw [Option.isSome_iff_ne_none, ne_eq, hnone]
  exact fun hall => hall k (List.mem_flatten_of_mem hlist hk)

/-- An attribute about the layout with these hints. -/
def layout (hints : List Hint) : Attribute :=
  ⟨[.ident "repr"], [.group .paren (Hint.listCode hints false)]⟩

theorem lists_layout {hints : List Hint} (h : ∀ hint ∈ hints, isName hint.name = true) :
    (layout hints).Lists hints :=
  ⟨h, .paren, false, rfl⟩

/-- Behind an alignment of its own and an attribute about something else, the first integer is the
one that another name stands in front of. -/
theorem integers_are_found_in_bare_lists_at_later_attribute :
    let lists : List (List Hint) :=
      [[⟨"align", some [.literal "8"]⟩], [⟨"C", none⟩, ⟨"i16", none⟩], [⟨"u8", none⟩]]
    let attrs := [layout lists[0], ⟨[.ident "derive"], []⟩, layout lists[1], layout lists[2]]
    List.Forall₂ Attribute.Lists (attrs.filter (·.isNamed "repr")) lists ∧
    FirstInteger lists.flatten (.twosComplement .two) ∧
    integerOf? attrs = some (.twosComplement .two) := by
  intro lists attrs
  have hlists : List.Forall₂ Attribute.Lists (attrs.filter (·.isNamed "repr")) lists :=
    .cons (lists_layout (by decide)) (.cons (lists_layout (by decide))
      (.cons (lists_layout (by decide)) .nil))
  have hfirst : FirstInteger lists.flatten (.twosComplement .two) := firstInteger_iff.mpr rfl
  have hapart : ∀ list ∈ lists, ∀ k : IntKind, ⟨k.name, none⟩ ∈ list →
      ∀ hint ∈ list, hint.isBare = true := by
    intro list hlist k hk hint hhint
    simp only [lists, List.mem_cons, List.not_mem_nil, or_false] at hlist
    rcases hlist with rfl | rfl | rfl
    · simp at hk
    · simp only [List.mem_cons, List.not_mem_nil, or_false] at hhint
      rcases hhint with rfl | rfl <;> rfl
    · rw [List.mem_singleton.mp hhint]
      rfl
  obtain ⟨-, -, hfound⟩ := integers_are_found_in_bare_lists hlists
  exact ⟨hlists, hfirst, ((hfound hapart).1 _).mpr hfirst⟩

/-- Two variants that are bytes, aligned as if they were eight. -/
def aligned : Item :=
  ⟨"Mode", [layout [⟨"u8", none⟩, ⟨"align", some [.literal "8"]⟩]], ⟨.empty, .empty, []⟩,
    .enumeration [⟨"On", true⟩, ⟨"Off", true⟩]⟩

/-- **An alignment hides the integer next to it**: there is one, and it is asked for in vain. -/
theorem alignment_hides_an_integer :
    List.Forall₂ Attribute.Lists (aligned.attributes.filter (·.isNamed "repr"))
      [[⟨"u8", none⟩, ⟨"align", some [.literal "8"]⟩]] ∧
    FirstInteger [⟨"u8", none⟩, ⟨"align", some [.literal "8"]⟩] (.unsigned .one) ∧
    integerOf? aligned.attributes = none ∧
    aligned.implementations = .error .noInteger :=
  ⟨.cons (lists_layout (by decide)) .nil, firstInteger_iff.mpr rfl, rfl, rfl⟩

end WireForm.Derivation
