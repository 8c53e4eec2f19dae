import WireForm.Proofs.Arguments
import WireForm.Proofs.DerivedForm

/-!
# Declared records and tuples

There are two ways to encode a record: to declare it and have the implementations made, and to put
its fields in a tuple. The encodings are the same. An attribute chooses the form, the form decides
which calls are made for the fields, and what these calls do in a scope is what the tuple does.

Implementations are made only if the conditions on the types of the fields can be added to those of
the item, and they have a meaning only where the sizes that are added up are machine words. Under
these assumptions they are shown to be there, and what the codec does is compared as a whole: its
bytes for every value, its values for every string of bytes, and what goes wrong.

The order of the calls is a matter of the code alone. It is proved for all that is ever made for an
item, whatever the types of its fields stand for and however many there are.

## Main definitions

* `Item.arguments`, `Item.Chooses` — what attributes ask for
* `Item.Declares` — a record and its fields
* `Item.Makes` — the implementations for an item, unless conditions cannot be added
* `Scope.DerivesCodec` — what the codec that is made for an item does

## Main results

* `Item.arguments_choose` — the attribute for each of the encodings
* `Item.chooses_size` — the type of lengths that is written in an attribute
* `Item.Chooses.makes_packed` and the like — what is made for each of them
* `Item.Declares.visits`, `Item.Declares.flags` — the order of the calls, and the last of them
* `Scope.meaning_packed` and the like — what that means
* `derived_records_are_tuples`
-/

namespace WireForm.Derivation

/-! ### What an item asks for -/

/-- The arguments of all attributes that are about the encoding. -/
def Item.arguments (item : Item) : Except Rejection (List Argument) := do
  let lists ← (item.attributes.filter (·.isNamed "squash")).mapM fun attr =>
    argumentsOf attr.content
  return lists.flatten

/-- The encoding an item chooses, with lengths of the default type where none is chosen, and whether
it asks for a fixed size. -/
def Item.Chooses (item : Item) (encoding : Encoding) (isFixed : Bool) : Prop :=
  ∃ chosen, Options.ofAttributes item.attributes = .ok ⟨chosen, isFixed⟩ ∧
    chosen.getD (.mixed defaultSize) = encoding

/-- The item is a record with these fields, no two of which have one member. -/
structure Item.Declares (item : Item) (fields : List Field) : Prop where
  /-- These are its fields. -/
  body_eq : item.body = .record fields
  /-- Their members tell them apart. -/
  members : (fields.map Field.member).Nodup

/-- Conditions on the fields of an item can be read where they are added. -/
def Generics.Accepts (generics : Generics) (bounded : List Condition) : Prop :=
  ∃ extended, generics.addBounds bounded = .ok extended

namespace Options

theorem foldlM_addAttribute {attrs : List Attribute} {lists : List (List Argument)}
    (h : (attrs.mapM fun attr => argumentsOf attr.content) = .ok lists) (options : Options) :
    attrs.foldlM addAttribute options = lists.flatten.foldlM add options := by
  induction attrs generalizing options lists with
  | nil =>
    cases h
    rfl
  | cons attr attrs ih =>
    rw [List.mapM_cons] at h
    cases hfirst : argumentsOf attr.content with
    | error rejection =>
      rw [hfirst] at h
      cases h
    | ok first =>
      cases hrest : attrs.mapM fun attr => argumentsOf attr.content with
      | error rejection =>
        rw [hfirst, hrest] at h
        cases h
      | ok rest =>
        rw [hfirst, hrest] at h
        obtain rfl : first :: rest = lists := Except.ok.inj h
        have hadd : addAttribute options attr = first.foldlM add options := by
          rw [addAttribute, hfirst]
          rfl
        rw [List.foldlM_cons, List.flatten_cons, List.foldlM_append, hadd]
        exact congrArg _ (funext fun options => ih hrest options)

/-- All attributes together make one list of arguments. -/
theorem ofAttributes_eq {item : Item} {args : List Argument} (h : item.arguments = .ok args) :
    ofAttributes item.attributes = args.foldlM add ⟨none, false⟩ >>= finish := by
  rw [Item.arguments] at h
  cases hlists : (item.attributes.filter (·.isNamed "squash")).mapM fun attr =>
      argumentsOf attr.content with
  | error rejection =>
    rw [hlists] at h
    cases h
  | ok lists =>
    rw [hlists] at h
    obtain rfl : lists.flatten = args := Except.ok.inj h
    rw [ofAttributes, foldlM_addAttribute hlists]

end Options

/-- A choice by the arguments that make it. -/
theorem Item.chooses_of_arguments {item : Item} {args : List Argument}
    (h : item.arguments = .ok args) (chosen : Option Encoding) {isFixed : Bool}
    (hchosen : args.foldlM Options.add ⟨none, false⟩ >>= Options.finish = .ok ⟨chosen, isFixed⟩) :
    item.Chooses (chosen.getD (.mixed defaultSize)) isFixed :=
  ⟨chosen, (Options.ofAttributes_eq h).trans hchosen, rfl⟩

/-- The arguments that choose each of the encodings. -/
theorem Item.arguments_choose {item : Item} {args : List Argument}
    (h : item.arguments = .ok args) :
    (args = [] → item.Chooses (.mixed defaultSize) false) ∧
    (args = [⟨"fixed", none⟩] → item.Chooses .packed true) ∧
    (args = [⟨"hybrid", none⟩] → item.Chooses .hybrid false) ∧
    (∀ size, args = [⟨"mixed", size⟩] → item.Chooses (.mixed (size.getD defaultSize)) false) ∧
    (∀ size, args = [⟨"dynamic", size⟩] → item.Chooses (.dynamic (size.getD defaultSize)) false) ∧
    (args = [⟨"transparent", none⟩] → item.Chooses .single false) ∧
    (args = [⟨"transparent", none⟩, ⟨"fixed", none⟩] → item.Chooses .single true) ∧
    (args = [⟨"fixed", none⟩, ⟨"transparent", none⟩] → item.Chooses .single true) := by
  refine ⟨?_, ?_, ?_, ?_, ?_, ?_, ?_, ?_⟩
  · rintro rfl
    exact chooses_of_arguments h none rfl
  · rintro rfl
    exact chooses_of_arguments h (some .packed) rfl
  · rintro rfl
    exact chooses_of_arguments h (some .hybrid) rfl
  · rintro size rfl
    exact chooses_of_arguments h (some (.mixed (size.getD defaultSize))) rfl
  · rintro size rfl
    exact chooses_of_arguments h (some (.dynamic (size.getD defaultSize))) rfl
  · rintro rfl
    exact chooses_of_arguments h (some .single) rfl
  · rintro rfl
    exact chooses_of_arguments h (some .single) rfl
  · rintro rfl
    exact chooses_of_arguments h (some .single) rfl

section Written

variable {item : Item} {attr : Attribute}

/-- The argument of the only attribute about the encoding is the only argument of the item. -/
theorem Item.arguments_single (hattr : item.attributes.filter (·.isNamed "squash") = [attr])
    {a : Argument} {inside : Code} (hcontent : attr.content = parens inside)
    (ha : a.WrittenAs inside) : item.arguments = .ok [a] := by
  rw [arguments, hattr, List.mapM_cons, hcontent, argumentsOf_single ha]
  rfl

/-- **Lengths are recorded as the type that is written in brackets**, behind the name of a form that
records them. -/
theorem Item.chooses_size (hattr : item.attributes.filter (·.isNamed "squash") = [attr])
    {tokens size : Code} (hsize : Reader.type.readAll tokens = .ok size) :
    (attr.content = parens (.ident "mixed" :: parens tokens) → item.Chooses (.mixed size) false) ∧
    (attr.content = parens (.ident "dynamic" :: parens tokens) →
      item.Chooses (.dynamic size) false) := by
  refine ⟨fun hcontent => ?_, fun hcontent => ?_⟩
  · have hargs := arguments_single hattr hcontent (.typed (by decide) hsize)
    exact chooses_of_arguments hargs (some (.mixed size)) rfl
  · have hargs := arguments_single hattr hcontent (.typed (by decide) hsize)
    exact chooses_of_arguments hargs (some (.dynamic size)) rfl

end Written

/-! ### The code that is made for an item -/

/-- If these conditions can be added to those of an item, implementations with these contents are
made for it; otherwise none are. -/
def Item.Makes (item : Item) (bounded : List Condition) (contents : List Content) : Prop :=
  item.implementations = (item.generics.addBounds bounded).map fun generics =>
    contents.map fun content => ⟨item.name, generics, content⟩

theorem splitLast?_append {α : Type} (head : List α) (last : α) :
    splitLast? (head ++ [last]) = some (head, last) := by
  induction head with
  | nil => rfl
  | cons a head ih =>
    cases head with
    | nil => rfl
    | cons b head =>
      show (splitLast? ((b :: head) ++ [last])).map (fun p => (a :: p.1, p.2)) = _
      rw [ih]
      rfl

section Makes

variable {item : Item} {fields : List Field} {isFixed : Bool}

theorem Item.implementations_eq {options : Options}
    (h : Options.ofAttributes item.attributes = .ok options) :
    item.implementations = item.implementationsWith options := by
  rw [implementations, h]
  rfl

theorem Item.Chooses.implementations_eq {encoding : Encoding} (h : item.Chooses encoding isFixed)
    (hbody : item.body = .record fields) :
    ∃ chosen : Option Encoding, chosen.getD (.mixed defaultSize) = encoding ∧
      item.implementations =
        recordImplementations item.name item.generics ⟨chosen, isFixed⟩ fields := by
  obtain ⟨chosen, hoptions, hchosen⟩ := h
  refine ⟨chosen, hchosen, ?_⟩
  rw [Item.implementations_eq hoptions, implementationsWith, hbody]

theorem Item.Chooses.makes_packed (hchooses : item.Chooses .packed isFixed)
    (hbody : item.body = .record fields) :
    item.Makes (fields.map (Field.needs .fixedCodec))
      [.packedOf fields, .codec .own .packed, .fixedCodec .own .packed] := by
  obtain ⟨chosen, hchosen, himpls⟩ := hchooses.implementations_eq hbody
  rw [Makes, himpls]
  simp only [recordImplementations, hchosen]
  rw [packedImplementations]
  cases item.generics.addBounds (fields.map (Field.needs .fixedCodec)) <;> rfl

theorem Item.Chooses.makes_hybrid {head : List Field} {last : Field}
    (hchooses : item.Chooses .hybrid isFixed) (hbody : item.body = .record (head ++ [last])) :
    item.Makes (head.map (Field.needs .fixedCodec) ++ [last.needs .codec])
      [.hybridOf head last, .codec (sizeOfFields (head ++ [last])) .hybrid] := by
  obtain ⟨chosen, hchosen, himpls⟩ := hchooses.implementations_eq hbody
  rw [Makes, himpls]
  simp only [recordImplementations, hchosen, splitLast?_append]
  rw [hybridImplementations]
  cases item.generics.addBounds (head.map (Field.needs .fixedCodec) ++ [last.needs .codec]) <;> rfl

theorem Item.Chooses.makes_mixed {size : Code} (hchooses : item.Chooses (.mixed size) isFixed)
    (hbody : item.body = .record fields) :
    item.Makes (fields.map (Field.needs .codec))
      [.mixedOf fields, .codec (sizeOfFields fields) (.mixed size)] := by
  obtain ⟨chosen, hchosen, himpls⟩ := hchooses.implementations_eq hbody
  rw [Makes, himpls]
  simp only [recordImplementations, hchosen]
  rw [mixedImplementations]
  cases item.generics.addBounds (fields.map (Field.needs .codec)) <;> rfl

theorem Item.Chooses.makes_dynamic {size : Code} (hchooses : item.Chooses (.dynamic size) isFixed)
    (hbody : item.body = .record fields) :
    item.Makes (fields.map (Field.needs .codec))
      [.dynamicOf fields, .codec .unknown (.dynamic size)] := by
  obtain ⟨chosen, hchosen, himpls⟩ := hchooses.implementations_eq hbody
  rw [Makes, himpls]
  simp only [recordImplementations, hchosen]
  rw [dynamicImplementations]
  cases item.generics.addBounds (fields.map (Field.needs .codec)) <;> rfl

/-- What is made for a record that is encoded as its only field. -/
def singleContents (field : Field) (isFixed : Bool) : List Content :=
  .codec (.ofType field.type) (.single field) ::
    if isFixed then [.fixedCodec (.ofType field.type) (.single field.member)] else []

theorem Item.Chooses.makes_single {field : Field} (hchooses : item.Chooses .single isFixed)
    (hbody : item.body = .record [field]) :
    item.Makes [field.needs (if isFixed then .fixedCodec else .codec)]
      (singleContents field isFixed) := by
  obtain ⟨chosen, hchosen, himpls⟩ := hchooses.implementations_eq hbody
  rw [Makes, himpls]
  simp only [recordImplementations, hchosen]
  rw [singleImplementations]
  cases item.generics.addBounds [field.needs (if isFixed then .fixedCodec else .codec)] <;>
    cases isFixed <;> rfl

end Makes

/-! ### Its calls -/

theorem Item.Makes.content_mem {item : Item} {bounded : List Condition} {contents : List Content}
    (h : item.Makes bounded contents) {impls : List Implementation}
    (himpls : item.implementations = .ok impls) {impl : Implementation} (himpl : impl ∈ impls) :
    impl.content ∈ contents := by
  rw [Item.Makes, himpls] at h
  cases hgenerics : item.generics.addBounds bounded with
  | error rejection =>
    rw [hgenerics] at h
    cases h
  | ok generics =>
    rw [hgenerics] at h
    rw [Except.ok.inj h] at himpl
    obtain ⟨content, hcontent, rfl⟩ := List.mem_map.mp himpl
    exact hcontent

theorem Content.not_isForm {contents : List Content} (hcontents : contents.all (!·.isForm))
    {content : Content} (hmem : content ∈ contents) : ¬content.isForm := by
  simpa using List.all_eq_true.mp hcontents content hmem

theorem Content.eq_of_isForm {form : Content} {others : List Content}
    (hothers : others.all (!·.isForm)) {content : Content} (hmem : content ∈ form :: others)
    (hform : content.isForm) : content = form :=
  (List.mem_cons.mp hmem).resolve_right fun hmem => not_isForm hothers hmem hform

/-- A form that is made for a record is one of the four. -/
theorem Item.Declares.form_cases {item : Item} {fields : List Field}
    (hdeclares : item.Declares fields) {impls : List Implementation}
    (himpls : item.implementations = .ok impls) {impl : Implementation} (himpl : impl ∈ impls)
    (hform : impl.content.isForm) :
    impl.content = .packedOf fields ∨
    (∃ head last, fields = head ++ [last] ∧ impl.content = .hybridOf head last) ∨
    impl.content = .mixedOf fields ∨ impl.content = .dynamicOf fields := by
  cases hoptions : Options.ofAttributes item.attributes with
  | error rejection =>
    rw [implementations, hoptions] at himpls
    cases himpls
  | ok options =>
    have hchooses : item.Chooses (options.encoding.getD (.mixed defaultSize)) options.isFixed :=
      ⟨options.encoding, hoptions, rfl⟩
    obtain ⟨chosen, hchosen, hrecord⟩ := hchooses.implementations_eq hdeclares.body_eq
    rw [himpls] at hrecord
    cases hencoding : options.encoding.getD (.mixed defaultSize) with
    | packed =>
      rw [hencoding] at hchooses
      have hmem := (hchooses.makes_packed hdeclares.body_eq).content_mem himpls himpl
      exact .inl (Content.eq_of_isForm rfl hmem hform)
    | hybrid =>
      rw [hencoding] at hchooses hchosen
      rcases List.eq_nil_or_concat fields with rfl | ⟨head, last, rfl⟩
      -- Nothing is made for a record without a last field.
      · simp only [recordImplementations, hchosen, splitLast?] at hrecord
        cases hrecord
      · rw [List.concat_eq_append] at hdeclares
        have hmem := (hchooses.makes_hybrid hdeclares.body_eq).content_mem himpls himpl
        exact .inr (.inl ⟨head, last, List.concat_eq_append,
          Content.eq_of_isForm rfl hmem hform⟩)
    | mixed size =>
      rw [hencoding] at hchooses
      have hmem := (hchooses.makes_mixed hdeclares.body_eq).content_mem himpls himpl
      exact .inr (.inr (.inl (Content.eq_of_isForm rfl hmem hform)))
    | dynamic size =>
      rw [hencoding] at hchooses
      have hmem := (hchooses.makes_dynamic hdeclares.body_eq).content_mem himpls himpl
      exact .inr (.inr (.inr (Content.eq_of_isForm rfl hmem hform)))
    | single =>
      rw [hencoding] at hchooses hchosen
      -- Nothing is made unless there is one field, and then no form.
      rcases fields with _ | ⟨field, _ | ⟨second, rest⟩⟩
      · simp only [recordImplementations, hchosen] at hrecord
        cases hrecord
      · have hmem := (hchooses.makes_single hdeclares.body_eq).content_mem himpls himpl
        exact absurd hform (Content.not_isForm (by cases options.isFixed <;> rfl) hmem)
      · simp only [recordImplementations, hchosen] at hrecord
        cases hrecord
    | via base =>
      rw [hencoding] at hchosen
      simp only [recordImplementations, hchosen] at hrecord
      have hmem := List.mem_map_of_mem (f := Implementation.content) himpl
      rw [Except.ok.inj hrecord] at hmem
      exact absurd hform (Content.not_isForm (by cases options.isFixed <;> rfl) hmem)

theorem Item.Declares.visits {item : Item} {fields : List Field} (hdeclares : item.Declares fields)
    {impls : List Implementation} (himpls : item.implementations = .ok impls)
    {impl : Implementation} (himpl : impl ∈ impls) (hform : impl.content.isForm) :
    impl.content.Visits fields := by
  obtain h | ⟨head, last, rfl, h⟩ | h | h := hdeclares.form_cases himpls himpl hform
  · rw [h]
    exact Content.visits_packedOf hdeclares.members
  · rw [h]
    exact Content.visits_hybridOf hdeclares.members
  · rw [h]
    exact Content.visits_mixedOf fields
  · rw [h]
    exact Content.visits_dynamicOf hdeclares.members

/-- In the mixed form every call has a flag, and it is set for the last field only. -/
theorem Item.Declares.flags {item : Item} {fields : List Field} (hdeclares : item.Declares fields)
    {impls : List Implementation} (himpls : item.implementations = .ok impls)
    {impl : Implementation} (himpl : impl ∈ impls) {writes : List Write} {reads : List Read}
    (hmixed : impl.content = .mixedForm writes reads) (index : Nat) (h : index < fields.length) :
    let field := fields[index]
    let last := index + 1 == fields.length
    writes[index]? = some (.flagged field.member field.type last) ∧
      reads[index]? = some (.flagged field.member field.type last) := by
  intro field last
  have hflagged : (fields.zip (lastFlags fields.length))[index]? = some (field, last) := by
    rw [List.getElem?_zip_eq_some, lastFlags, List.getElem?_map, List.getElem?_range h]
    exact ⟨List.getElem?_eq_getElem h, rfl⟩
  have hform : impl.content = .mixedOf fields := by
    obtain h | ⟨head, last, -, h⟩ | h | h :=
      hdeclares.form_cases himpls himpl (by rw [hmixed]; rfl)
    · cases hmixed.symm.trans h
    · cases hmixed.symm.trans h
    · exact h
    · cases hmixed.symm.trans h
  obtain ⟨rfl, rfl⟩ := Content.mixedForm.inj (hmixed.symm.trans hform)
  rw [List.getElem?_map, List.getElem?_map, hflagged]
  exact ⟨rfl, rfl⟩

/-! ### Its meaning -/

/-- The code that is made for an item has a meaning, and its codec encodes and decodes as `coder`
does, with encodings of this size. -/
def Scope.DerivesCodec (Γ : Scope) (item : Item) (self : List Field) (coder : Coder (Γ.Record self))
    (size? : Option Nat) : Prop :=
  ∃ impls derived c, item.implementations = .ok impls ∧ Γ.derived? self impls = some derived ∧
    derived.codec = some c ∧ c.coder = coder ∧ c.size? = size?

namespace Scope

variable {Γ : Scope} {item : Item}

theorem derived?_map (self : List Field) (name : String) (generics : Generics)
    (contents : List Content) :
    Γ.derived? self (contents.map fun content => ⟨name, generics, content⟩) =
      contents.foldlM Γ.implement? {} := by
  rw [derived?, List.foldlM_map]

theorem foldlM_implement? {self : List Field} {derived next : Derived (Γ.Record self)}
    {content : Content} (h : Γ.implement? derived content = some next) (contents : List Content) :
    (content :: contents).foldlM Γ.implement? derived = contents.foldlM Γ.implement? next := by
  rw [List.foldlM_cons, h]
  rfl

theorem derivesCodec_of_makes {self : List Field} {bounded : List Condition}
    {contents : List Content} (hmakes : item.Makes bounded contents)
    (haccepts : item.generics.Accepts bounded) {derived : Derived (Γ.Record self)}
    (hderived : contents.foldlM Γ.implement? {} = some derived) {c : Codec (Γ.Record self)}
    (hcodec : derived.codec = some c) : Γ.DerivesCodec item self c.coder c.size? := by
  obtain ⟨generics, hgenerics⟩ := haccepts
  rw [Item.Makes, hgenerics] at hmakes
  exact ⟨_, derived, c, hmakes, (derived?_map self _ _ contents).trans hderived, hcodec, rfl, rfl⟩

variable {fields : List Field}

theorem meaning_packed (hmembers : (fields.map Field.member).Nodup)
    {fixeds : FixedCodecs (Γ.Record fields)} (hfixeds : Γ.fixedCodecs? fields = some fixeds)
    (hword : fixeds.totalSize < wordLimit) :
    [.packedOf fields, .codec .own .packed, .fixedCodec .own .packed].foldlM Γ.implement? {} =
      some { packed := some (Γ.packed fixeds), codec := some (Γ.packed fixeds).codec.toCodec,
             fixed := some (Γ.packed fixeds).codec } := by
  rw [foldlM_implement? (implement?_packed hmembers hfixeds hword {})]
  rfl

theorem meaning_hybrid {head : List Field} {last : Field}
    (hmembers : ((head ++ [last]).map Field.member).Nodup)
    {fixeds : FixedCodecs (Γ.Record head)} (hfixeds : Γ.fixedCodecs? head = some fixeds)
    (hword : fixeds.totalSize < wordLimit) {size? : Option Nat}
    (hsum : Length.sum (Γ.codecs (head ++ [last])).sizes = .ok size?) :
    [.hybridOf head last, .codec (sizeOfFields (head ++ [last])) .hybrid].foldlM
        Γ.implement? {} =
      some { hybrid := some (Γ.hybrid head last fixeds),
             codec := some ((Γ.hybrid head last fixeds).codec
               (Length.total? (Γ.codecs (head ++ [last])).sizes)) } := by
  rw [foldlM_implement? (implement?_hybrid hmembers hfixeds hword {}), List.foldlM_cons,
    implement?, encodedSize?_fields _ hsum]
  rfl

theorem meaning_mixed (hmembers : (fields.map Field.member).Nodup) {size : Code} {w : LengthWidth}
    (hwidth : Γ.width? size = some w) {size? : Option Nat}
    (hsum : Length.sum (Γ.codecs fields).sizes = .ok size?) :
    [.mixedOf fields, .codec (sizeOfFields fields) (.mixed size)].foldlM Γ.implement? {} =
      some { mixed := some (Tuple.mixed (Γ.codecs fields)),
             codec := some ((Tuple.mixed (Γ.codecs fields)).codec w
               (Length.total? (Γ.codecs fields).sizes)) } := by
  rw [foldlM_implement? (implement?_mixed hmembers {}), List.foldlM_cons, implement?,
    encodedSize?_fields _ hsum, Option.bind_some, coding?, hwidth]
  rfl

theorem meaning_dynamic (hmembers : (fields.map Field.member).Nodup) {size : Code}
    {w : LengthWidth} (hwidth : Γ.width? size = some w) :
    [.dynamicOf fields, .codec .unknown (.dynamic size)].foldlM Γ.implement? {} =
      some { dynamic := some (Tuple.dynamic (Γ.codecs fields)),
             codec := some ((Tuple.dynamic (Γ.codecs fields)).codec w) } := by
  rw [foldlM_implement? (implement?_dynamic hmembers {}), List.foldlM_cons, implement?,
    encodedSize?, Option.bind_some, coding?, hwidth]
  rfl

theorem meaning_single (field : Field) :
    (singleContents field false).foldlM Γ.implement? {} = some ({
      codec := some ((Γ.codec field.type).imap (Iso.single _)) } : Derived (Γ.Record [field])) := by
  rw [singleContents, foldlM_implement? (implement?_single field {})]
  rfl

theorem meaning_fixedSingle {field : Field} {c : FixedCodec (Γ.Value field.type)}
    (hc : Γ.fixed? field.type = some c) :
    (singleContents field true).foldlM Γ.implement? {} = some ({
      codec := some ((Γ.codec field.type).imap (Iso.single _)),
      fixed := some (c.imap (Iso.single _)) } : Derived (Γ.Record [field])) := by
  rw [singleContents, foldlM_implement? (implement?_single field {}), if_pos rfl,
    foldlM_implement? (implement?_storeSingle hc rfl)]
  rfl

/-- Storing through a window or in a slice makes no difference to the bytes. -/
theorem coder_packed {fixeds : FixedCodecs (Γ.Record fields)}
    (hfixeds : Γ.fixedCodecs? fields = some fixeds) (hword : fixeds.totalSize < wordLimit) :
    (Γ.packed fixeds).codec.coder = (Tuple.packed fixeds).coder := by
  have hencode : (Γ.packed fixeds).encode = (Tuple.packed fixeds).encode := funext fun r =>
    Tuple.stored_put (keepLength_of_fixedCodecs? hfixeds) r (by rwa [List.length_replicate])
  rw [PackedForm.coder_codec, PackedForm.coder, hencode]
  rfl

theorem derivesCodec_packed {isFixed : Bool} (hdeclares : item.Declares fields)
    (hchooses : item.Chooses .packed isFixed)
    (haccepts : item.generics.Accepts (fields.map (Field.needs .fixedCodec)))
    {fixeds : FixedCodecs (Γ.Record fields)} (hfixeds : Γ.fixedCodecs? fields = some fixeds)
    (hword : fixeds.totalSize < wordLimit) :
    Γ.DerivesCodec item fields (Tuple.packed fixeds).coder (some fixeds.totalSize) := by
  have hmeaning := meaning_packed hdeclares.members hfixeds hword
  rw [← coder_packed hfixeds hword]
  exact derivesCodec_of_makes (hchooses.makes_packed hdeclares.body_eq) haccepts hmeaning rfl

/-- A single field has its own codec, whether a fixed size is asked for or not. -/
theorem derivesCodec_single {isFixed : Bool} {field : Field} (hdeclares : item.Declares [field])
    (hchooses : item.Chooses .single isFixed)
    (haccepts : item.generics.Accepts [field.needs (if isFixed then .fixedCodec else .codec)])
    (hfixed : isFixed → (Γ.fixed? field.type).isSome) :
    Γ.DerivesCodec item [field] ((Γ.codec field.type).imap (Iso.single _)).coder
      (Γ.codec field.type).size? := by
  have hmakes := hchooses.makes_single hdeclares.body_eq
  cases isFixed with
  | false => exact derivesCodec_of_makes hmakes haccepts (meaning_single field) rfl
  | true =>
    obtain ⟨c, hc⟩ := Option.isSome_iff_exists.mp (hfixed rfl)
    exact derivesCodec_of_makes hmakes haccepts (meaning_fixedSingle hc) rfl

theorem derivesCodec_hybrid {isFixed : Bool} {head : List Field} {last : Field}
    (hdeclares : item.Declares (head ++ [last])) (hchooses : item.Chooses .hybrid isFixed)
    (haccepts : item.generics.Accepts
      (head.map (Field.needs .fixedCodec) ++ [last.needs .codec]))
    {fixeds : FixedCodecs (Γ.Record head)} (hfixeds : Γ.fixedCodecs? head = some fixeds)
    (hword : fixeds.totalSize < wordLimit) {size? : Option Nat}
    (hsum : Length.sum (Γ.codecs (head ++ [last])).sizes = .ok size?) :
    Γ.DerivesCodec item (head ++ [last])
      ((Tuple.hybrid fixeds (Γ.codec last.type)).imap (Γ.regroup head last)).coder
      (Length.total? (Γ.codecs (head ++ [last])).sizes) :=
  derivesCodec_of_makes (hchooses.makes_hybrid hdeclares.body_eq) haccepts
    (meaning_hybrid hdeclares.members hfixeds hword hsum) rfl

theorem derivesCodec_mixed {isFixed : Bool} (hdeclares : item.Declares fields) {size : Code}
    (hchooses : item.Chooses (.mixed size) isFixed)
    (haccepts : item.generics.Accepts (fields.map (Field.needs .codec))) {w : LengthWidth}
    (hwidth : Γ.width? size = some w) {size? : Option Nat}
    (hsum : Length.sum (Γ.codecs fields).sizes = .ok size?) :
    Γ.DerivesCodec item fields ((Tuple.mixed (Γ.codecs fields)).coder w)
      (Length.total? (Γ.codecs fields).sizes) :=
  derivesCodec_of_makes (hchooses.makes_mixed hdeclares.body_eq) haccepts
    (meaning_mixed hdeclares.members hwidth hsum) rfl

theorem derivesCodec_dynamic {isFixed : Bool} (hdeclares : item.Declares fields) {size : Code}
    (hchooses : item.Chooses (.dynamic size) isFixed)
    (haccepts : item.generics.Accepts (fields.map (Field.needs .codec))) {w : LengthWidth}
    (hwidth : Γ.width? size = some w) :
    Γ.DerivesCodec item fields ((Tuple.dynamic (Γ.codecs fields)).coder w) none :=
  derivesCodec_of_makes (hchooses.makes_dynamic hdeclares.body_eq) haccepts
    (meaning_dynamic hdeclares.members hwidth) rfl

end Scope

/-! ### All of it -/

/-- **A declared record is encoded as the tuple of its fields**, in the form that its attribute
chooses: packed, hybrid, mixed (also where there is no attribute) or dynamic. In a mixed or dynamic
record, lengths have the width of the type that the attribute names, and four bytes where none is
named. The size of all encodings is the sum of the sizes of the fields if there is one, but a
dynamic record has none; a record that is encoded as its only field has the encodings of that field
and their size.

Calls for the fields are made in the order of declaration, to write and to read, and in the mixed
form those for the last field, and no others, say that it is the last. -/
theorem derived_records_are_tuples :
    (∀ (item : Item) (args : List Argument), item.arguments = .ok args →
      (args = [] → item.Chooses (.mixed defaultSize) false) ∧
      (args = [⟨"fixed", none⟩] → item.Chooses .packed true) ∧
      (args = [⟨"hybrid", none⟩] → item.Chooses .hybrid false) ∧
      (∀ size, args = [⟨"mixed", size⟩] → item.Chooses (.mixed (size.getD defaultSize)) false) ∧
      (∀ size, args = [⟨"dynamic", size⟩] →
        item.Chooses (.dynamic (size.getD defaultSize)) false) ∧
      (args = [⟨"transparent", none⟩] → item.Chooses .single false) ∧
      (args = [⟨"transparent", none⟩, ⟨"fixed", none⟩] → item.Chooses .single true) ∧
      (args = [⟨"fixed", none⟩, ⟨"transparent", none⟩] → item.Chooses .single true)) ∧
    (∀ Γ : Scope, Γ.width? defaultSize = some .four) ∧
    (∀ (Γ : Scope) (item : Item) (fields : List Field) (isFixed : Bool)
      (fixeds : FixedCodecs (Γ.Record fields)),
      item.Declares fields → item.Chooses .packed isFixed →
      item.generics.Accepts (fields.map (Field.needs .fixedCodec)) →
      Γ.fixedCodecs? fields = some fixeds → fixeds.totalSize < wordLimit →
      Γ.DerivesCodec item fields (Tuple.packed fixeds).coder (some fixeds.totalSize)) ∧
    (∀ (Γ : Scope) (item : Item) (head : List Field) (last : Field) (isFixed : Bool)
      (fixeds : FixedCodecs (Γ.Record head)) (size? : Option Nat),
      item.Declares (head ++ [last]) → item.Chooses .hybrid isFixed →
      item.generics.Accepts (head.map (Field.needs .fixedCodec) ++ [last.needs .codec]) →
      Γ.fixedCodecs? head = some fixeds → fixeds.totalSize < wordLimit →
      Length.sum (Γ.codecs (head ++ [last])).sizes = .ok size? →
      Γ.DerivesCodec item (head ++ [last])
        ((Tuple.hybrid fixeds (Γ.codec last.type)).imap (Γ.regroup head last)).coder
        (Length.total? (Γ.codecs (head ++ [last])).sizes)) ∧
    (∀ (Γ : Scope) (item : Item) (fields : List Field) (size : Code) (isFixed : Bool)
      (w : LengthWidth) (size? : Option Nat),
      item.Declares fields → item.Chooses (.mixed size) isFixed →
      item.generics.Accepts (fields.map (Field.needs .codec)) → Γ.width? size = some w →
      Length.sum (Γ.codecs fields).sizes = .ok size? →
      Γ.DerivesCodec item fields ((Tuple.mixed (Γ.codecs fields)).coder w)
        (Length.total? (Γ.codecs fields).sizes)) ∧
    (∀ (Γ : Scope) (item : Item) (fields : List Field) (size : Code) (isFixed : Bool)
      (w : LengthWidth),
      item.Declares fields → item.Chooses (.dynamic size) isFixed →
      item.generics.Accepts (fields.map (Field.needs .codec)) → Γ.width? size = some w →
      Γ.DerivesCodec item fields ((Tuple.dynamic (Γ.codecs fields)).coder w) none) ∧
    (∀ (Γ : Scope) (item : Item) (field : Field) (isFixed : Bool),
      item.Declares [field] → item.Chooses .single isFixed →
      item.generics.Accepts [field.needs (if isFixed then .fixedCodec else .codec)] →
      (isFixed → (Γ.fixed? field.type).isSome) →
      Γ.DerivesCodec item [field] ((Γ.codec field.type).imap (Iso.single _)).coder
        (Γ.codec field.type).size?) ∧
    (∀ (item : Item) (fields : List Field) (impls : List Implementation),
      item.Declares fields → item.implementations = .ok impls → ∀ impl ∈ impls,
      (impl.content.isForm → impl.content.Visits fields) ∧
      ∀ writes reads, impl.content = .mixedForm writes reads →
        ∀ (index : Nat) (h : index < fields.length),
        let field := fields[index]
        let last := index + 1 == fields.length
        writes[index]? = some (.flagged field.member field.type last) ∧
          reads[index]? = some (.flagged field.member field.type last)) := by
  refine ⟨fun item args hargs => Item.arguments_choose hargs, Scope.width?_defaultSize,
    ?_, ?_, ?_, ?_, ?_, ?_⟩
  · intro Γ item fields isFixed fixeds hdeclares hchooses haccepts hfixeds hword
    exact Scope.derivesCodec_packed hdeclares hchooses haccepts hfixeds hword
  · intro Γ item head last isFixed fixeds size? hdeclares hchooses haccepts hfixeds hword hsum
    exact Scope.derivesCodec_hybrid hdeclares hchooses haccepts hfixeds hword hsum
  · intro Γ item fields size isFixed w size? hdeclares hchooses haccepts hwidth hsum
    exact Scope.derivesCodec_mixed hdeclares hchooses haccepts hwidth hsum
  · intro Γ item fields size isFixed w hdeclares hchooses haccepts hwidth
    exact Scope.derivesCodec_dynamic hdeclares hchooses haccepts hwidth
  · intro Γ item field isFixed hdeclares hchooses haccepts hfixed
    exact Scope.derivesCodec_single hdeclares hchooses haccepts hfixed
  · intro item fields impls hdeclares himpls impl himpl
    exact ⟨hdeclares.visits himpls himpl, fun writes reads hmixed =>
      hdeclares.flags himpls himpl hmixed⟩

/-- A record with these fields, and an attribute with this in its brackets if there is one. -/
def labelled (inside? : Option Code) (fields : List Field) : Item :=
  ⟨"Labelled", inside?.toList.map fun inside => ⟨[.ident "squash"], parens inside⟩,
    ⟨.empty, .empty, []⟩, .record fields⟩

/-- Bytes by their name, and texts by all others. Lengths have one byte, two or four. -/
def plainTypes : Scope :=
  Scope.ofShapes
    (fun type => if type = [.ident "u8"] then ⟨UInt8, .fixed .byte⟩ else ⟨String, .text⟩)
    (fun size =>
      if size = [.ident "u8"] then some .one
      else if size = [.ident "u16"] then some .two else some .standard)
    (by decide +kernel)

/-- A byte and a text, in each of the forms and with lengths of each kind, and one of them alone. -/
theorem derived_records_are_tuples_at_label :
    let tag : Field := ⟨.named "tag", [.ident "u8"]⟩
    let text : Field := ⟨.named "text", [.ident "String"]⟩
    plainTypes.DerivesCodec (labelled (some [.ident "fixed"]) [tag]) [tag]
      (Tuple.packed (.cons byteCodec .nil)).coder (some 1) ∧
    plainTypes.DerivesCodec (labelled (some [.ident "hybrid"]) [tag, text]) [tag, text]
      ((Tuple.hybrid (.cons byteCodec .nil) (plainTypes.codec text.type)).imap
        (plainTypes.regroup [tag] text)).coder none ∧
    plainTypes.DerivesCodec (labelled none [tag, text]) [tag, text]
      ((Tuple.mixed (plainTypes.codecs [tag, text])).coder .four) none ∧
    plainTypes.DerivesCodec
      (labelled (some (.ident "mixed" :: parens [.ident "u16"])) [text, tag]) [text, tag]
      ((Tuple.mixed (plainTypes.codecs [text, tag])).coder .two) none ∧
    plainTypes.DerivesCodec (labelled (some [.ident "dynamic"]) [tag, text]) [tag, text]
      ((Tuple.dynamic (plainTypes.codecs [tag, text])).coder .four) none ∧
    plainTypes.DerivesCodec
      (labelled (some (.ident "dynamic" :: parens [.ident "u8"])) [text, tag]) [text, tag]
      ((Tuple.dynamic (plainTypes.codecs [text, tag])).coder .one) none ∧
    plainTypes.DerivesCodec (labelled (some [.ident "transparent"]) [text]) [text]
      ((plainTypes.codec text.type).imap (Iso.single _)).coder none ∧
    ∃ impls, (labelled none [tag, text]).implementations = .ok impls ∧
      ∀ impl ∈ impls, impl.content.isForm → impl.content.Visits [tag, text] := by
  intro tag text
  obtain ⟨hchoose, hfour, hpacked, hhybrid, hmixed, hdynamic, hsingle, hvisits⟩ :=
    derived_records_are_tuples
  have htag (inside? : Option Code) : (labelled inside? [tag]).Declares [tag] :=
    ⟨rfl, by decide⟩
  have htext (inside? : Option Code) : (labelled inside? [text]).Declares [text] :=
    ⟨rfl, by decide⟩
  have hboth (inside? : Option Code) : (labelled inside? [tag, text]).Declares [tag, text] :=
    ⟨rfl, by decide⟩
  have hturned (inside? : Option Code) : (labelled inside? [text, tag]).Declares [text, tag] :=
    ⟨rfl, by decide⟩
  have harguments {a : Argument} {inside : Code} (ha : a.WrittenAs inside) (fields : List Field) :
      (labelled (some inside) fields).arguments = .ok [a] :=
    Item.arguments_single rfl rfl ha
  have hbyte : Reader.type.readAll [.ident "u8"] = .ok [.ident "u8"] := by decide +kernel
  have hword : Reader.type.readAll [.ident "u16"] = .ok [.ident "u16"] := by decide +kernel
  obtain ⟨hdefault, -⟩ := hchoose (labelled none [tag, text]) [] rfl
  obtain ⟨-, hfixed, -⟩ := hchoose _ _ (harguments (@Argument.WrittenAs.bare "fixed" rfl) [tag])
  obtain ⟨-, -, hhead, -⟩ :=
    hchoose _ _ (harguments (@Argument.WrittenAs.bare "hybrid" rfl) [tag, text])
  obtain ⟨-, -, -, hlength, -⟩ :=
    hchoose _ _ (harguments (@Argument.WrittenAs.typed "mixed" _ _ rfl hword) [text, tag])
  obtain ⟨-, -, -, -, hheader, -⟩ :=
    hchoose _ _ (harguments (@Argument.WrittenAs.bare "dynamic" rfl) [tag, text])
  obtain ⟨-, -, -, -, hshort, -⟩ :=
    hchoose _ _ (harguments (@Argument.WrittenAs.typed "dynamic" _ _ rfl hbyte) [text, tag])
  obtain ⟨-, -, -, -, -, halone, -⟩ :=
    hchoose _ _ (harguments (@Argument.WrittenAs.bare "transparent" rfl) [text])
  have hmixedOf : Item.Chooses _ (.mixed [.ident "u16"]) false := hlength _ rfl
  have hdynamicOf : Item.Chooses _ (.dynamic [.ident "u8"]) false := hshort _ rfl
  have htwo : plainTypes.width? [.ident "u16"] = some .two := rfl
  have hone : plainTypes.width? [.ident "u8"] = some .one := rfl
  have hderived := hmixed plainTypes _ [tag, text] _ _ .four none (hboth none) (hdefault rfl)
    ⟨_, rfl⟩ (hfour plainTypes) rfl
  obtain ⟨impls, -, -, himpls, -⟩ := id hderived
  refine ⟨hpacked plainTypes _ [tag] true (.cons byteCodec .nil) (htag _) (hfixed rfl) ⟨_, rfl⟩ rfl
      (by decide),
    hhybrid plainTypes _ [tag] text false (.cons byteCodec .nil) none (hboth _) (hhead rfl)
      ⟨_, rfl⟩ rfl (by decide) rfl,
    hderived,
    hmixed plainTypes _ [text, tag] _ false .two none (hturned _) hmixedOf ⟨_, rfl⟩ htwo rfl,
    hdynamic plainTypes _ [tag, text] _ false .four (hboth _) (hheader none rfl) ⟨_, rfl⟩
      (hfour plainTypes),
    hdynamic plainTypes _ [text, tag] _ false .one (hturned _) hdynamicOf ⟨_, rfl⟩ hone,
    hsingle plainTypes _ text false (htext _) (halone rfl) ⟨_, rfl⟩ (fun h => by cases h),
    impls, himpls, fun impl himpl => (hvisits _ _ impls (hboth none) himpls impl himpl).1⟩

end WireForm.Derivation
