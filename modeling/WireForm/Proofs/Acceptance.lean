import WireForm.Derivation.Item.Declaration
import WireForm.Proofs.FieldBounds
import WireForm.Proofs.Options

/-!
# Items that are accepted, and what is made for them

Whether anything is made for an item is decided in several places: by what the item is, by the
encoding that it chooses, by the number of its fields or what its variants look like, and by the
integers that its attributes name. All of this is said here in one list, each entry with the reason
that is given for it. What is not in the list is supported.

For a supported item implementations are made that fit together. There is one codec. There is one
codec of a fixed size, or none, and if there is one then both name the sizes of the same type. There
is one form, or none, and if there is one then it is the form that the item chooses.

One thing is not in the list, since it has nothing to do with what is supported. The conditions on
the types of the fields have to be read once more, and where one cannot be, nothing is made.

## Main definitions

* `Item.Unsupported` — the items that nothing is made for, with the reasons
* `Item.conditions` — the conditions that are needed for an item
* `Kind`, `kinds` — what implementations are of
* `Item.SharesSize` — sizes of one type
* `Item.ImplementedBy` — implementations that fit together
* `Bundle`, `Bundle.Suits` — the contents of implementations, and whether they are for an item

## Main results

* `Options.chosen_of_isFixed`, `Options.isFixed_of_packed` — encodings that have a fixed size
* `Item.bundled` — what is made for a supported item suits it
* `Item.Unsupported.implementationsWith_eq` — what becomes of all others
* `supported_items_are_implemented`
* `braces_reject_a_supported_item`
-/

namespace WireForm.Derivation

/-! ### Items that are not supported -/

/-- Nothing is made for an item with these options, for this reason. -/
inductive Item.Unsupported (item : Item) (options : Options) : Rejection → Prop where
  /-- It is a union. -/
  | union (body_eq : item.body = .union) : Unsupported item options .union
  /-- It is a record of the hybrid form without fields. -/
  | noLastField (body_eq : item.body = .record []) (chosen : options.encoding = some .hybrid) :
    Unsupported item options .noLastField
  /-- It is to be encoded as its only field, and has none or several. -/
  | noSingleField {fields : List Field} (body_eq : item.body = .record fields)
    (chosen : options.encoding = some .single) (count : fields.length ≠ 1) :
    Unsupported item options .noSingleField
  /-- It is an enumeration with an encoding that is not another type's. -/
  | recordEncoding {variants : List Variant} {encoding : Encoding}
    (body_eq : item.body = .enumeration variants) (chosen : options.encoding = some encoding)
    (other : ∀ base, encoding ≠ .via base) : Unsupported item options .recordEncoding
  /-- It is an enumeration without an encoding and without an integer. -/
  | noInteger {variants : List Variant} (body_eq : item.body = .enumeration variants)
    (chosen : options.encoding = none) (integer : integerOf? item.attributes = none) :
    Unsupported item options .noInteger
  /-- It is an enumeration without an encoding, and a variant is more than a name. -/
  | variantWithFields {variants : List Variant} {variant : Variant}
    (body_eq : item.body = .enumeration variants) (chosen : options.encoding = none)
    (integer : integerOf? item.attributes ≠ none) (mem : variant ∈ variants)
    (fields : variant.isUnit = false) : Unsupported item options .variantWithFields

/-- The encoding, with lengths of the default type where none is chosen. -/
def Options.chosen (options : Options) : Encoding := options.encoding.getD (.mixed defaultSize)

/-- The conditions that are needed for the fields of a record. -/
def Options.conditions (options : Options) (fields : List Field) : List Condition :=
  match options.chosen with
  | .packed => fields.map (Field.needs .fixedCodec)
  | .hybrid =>
    fields.dropLast.map (Field.needs .fixedCodec) ++
      fields.getLast?.toList.map (Field.needs .codec)
  | .mixed _ | .dynamic _ => fields.map (Field.needs .codec)
  | .single => fields.map (Field.needs (if options.isFixed then .fixedCodec else .codec))
  | .via _ => []

/-- The conditions that are needed for an item. -/
def Item.conditions (item : Item) (options : Options) : List Condition :=
  match item.body with
  | .record fields => options.conditions fields
  | .enumeration _ | .union => []

/-! ### What is made -/

/-- What an implementation is of. -/
inductive Kind where
  | packedForm
  | hybridForm
  | mixedForm
  | dynamicForm
  | codec
  | fixedCodec
  deriving DecidableEq

/-- What an implementation with this content is of. -/
def Content.kind : Content → Kind
  | .packedForm .. => .packedForm
  | .hybridForm .. => .hybridForm
  | .mixedForm .. => .mixedForm
  | .dynamicForm .. => .dynamicForm
  | .codec .. => .codec
  | .fixedCodec .. => .fixedCodec

/-- Whether it is a form. -/
def Kind.isForm : Kind → Bool
  | .packedForm | .hybridForm | .mixedForm | .dynamicForm => true
  | .codec | .fixedCodec => false

/-- What these implementations are of. -/
def kinds (impls : List Implementation) : List Kind := impls.map fun impl => impl.content.kind

/-- The form of an encoding, unless it is that of something else. -/
def Encoding.form? : Encoding → Option Kind
  | .packed => some .packedForm
  | .hybrid => some .hybridForm
  | .mixed _ => some .mixedForm
  | .dynamic _ => some .dynamicForm
  | .single | .via _ => none

/-- The form that an item has, if it has one. -/
def Item.form? (item : Item) (options : Options) : Option Kind :=
  match item.body with
  | .record _ => options.chosen.form?
  | .enumeration _ | .union => none

/-- The item has a codec of a fixed size. -/
def Item.HasFixedSize (item : Item) (options : Options) : Prop :=
  options.isFixed = true ∨
    (∃ variants, item.body = .enumeration variants) ∧ ∀ base, options.encoding ≠ some (.via base)

/-- The size of all encodings and the fixed size are those of one type. -/
inductive Item.SharesSize (item : Item) (options : Options) : EncodedSize → FixedSize → Prop where
  /-- The record itself. -/
  | own {fields : List Field} (body_eq : item.body = .record fields)
    (chosen : options.encoding = some .packed) : SharesSize item options .own .own
  /-- The type of the only field. -/
  | single {field : Field} (body_eq : item.body = .record [field])
    (chosen : options.encoding = some .single) :
    SharesSize item options (.ofType field.type) (.ofType field.type)
  /-- The type that the item is encoded as. -/
  | via {base : Code} (chosen : options.encoding = some (.via base)) :
    SharesSize item options (.ofType base) (.ofType base)
  /-- The integer of the variants. -/
  | integer {variants : List Variant} {k : IntKind} (body_eq : item.body = .enumeration variants)
    (chosen : options.encoding = none) (integer : integerOf? item.attributes = some k) :
    SharesSize item options (.fixedOf [.ident k.name]) (.ofType [.ident k.name])

/-- These are the implementations for an item with these options. -/
structure Item.ImplementedBy (item : Item) (options : Options) (impls : List Implementation) :
    Prop where
  /-- They are for the item, under its own conditions and those that are needed for its fields. -/
  about : ∃ g, item.generics.addBounds (item.conditions options) = .ok g ∧
    ∀ impl ∈ impls, impl.name = item.name ∧ impl.generics = g
  /-- No two of them are of the same kind. -/
  nodup : (kinds impls).Nodup
  /-- One is a codec. -/
  codec : .codec ∈ kinds impls
  /-- One is a codec of a fixed size if `fixed` is among the arguments of the item's attributes, or
  the item is an enumeration that is not encoded as another type. -/
  fixedCodec_iff : .fixedCodec ∈ kinds impls ↔
    (∃ args, item.arguments = .ok args ∧ ∃ a ∈ args, a.isFixed = true) ∨
      (∃ variants, item.body = .enumeration variants) ∧ ∀ base, options.encoding ≠ some (.via base)
  /-- Then both have the size of the same type. -/
  size : ∀ size coding, .codec size coding ∈ impls.map Implementation.content →
    ∀ fixedSize storing, .fixedCodec fixedSize storing ∈ impls.map Implementation.content →
      item.SharesSize options size fixedSize
  /-- One is a form if the item is a record that is encoded neither as its only field nor as another
  type. -/
  form_iff : (∃ kind ∈ kinds impls, kind.isForm = true) ↔
    (∃ fields, item.body = .record fields) ∧ options.encoding ≠ some .single ∧
      ∀ base, options.encoding ≠ some (.via base)
  /-- It is the one that is chosen. -/
  form_eq : ∀ kind ∈ kinds impls, kind.isForm = true → options.chosen.form? = some kind

/-! ### Encodings and sizes -/

namespace Options

variable {item : Item} {options : Options}

theorem encoding_eq_of_chosen {encoding : Encoding} (h : options.chosen = encoding)
    (hother : ∀ size, encoding ≠ .mixed size) : options.encoding = some encoding := by
  rw [chosen] at h
  cases hencoding : options.encoding with
  | none =>
    rw [hencoding] at h
    exact absurd h.symm (hother _)
  | some encoding =>
    rw [hencoding] at h
    exact congrArg some h

/-- A fixed size is that of the packed form, or of another type. -/
theorem chosen_of_isFixed (h : ofAttributes item.attributes = .ok options)
    (hfixed : options.isFixed = true) :
    options.chosen = .packed ∨ options.chosen = .single ∨ ∃ base, options.chosen = .via base := by
  rw [ofAttributes, Outcome.bind_eq_ok] at h
  obtain ⟨gathered, -, hfinish⟩ := h
  obtain ⟨hcompatible, rfl⟩ := finish_eq_ok.mp hfinish
  have hgathered : gathered.isFixed = true := hfixed
  simp only [chosen, if_pos hgathered]
  cases hencoding : gathered.encoding with
  | none => exact .inl rfl
  | some encoding =>
    obtain rfl | ⟨base, rfl⟩ := hcompatible hgathered encoding hencoding
    · exact .inr (.inl rfl)
    · exact .inr (.inr ⟨base, rfl⟩)

/-- The packed form is chosen by asking for a fixed size, and in no other way. -/
theorem isFixed_of_packed (h : ofAttributes item.attributes = .ok options)
    (hpacked : options.encoding = some .packed) : options.isFixed = true := by
  obtain ⟨args, hargs⟩ := exists_arguments h
  rw [ofAttributes_eq hargs, Outcome.bind_eq_ok] at h
  obtain ⟨gathered, hgathered, hfinish⟩ := h
  obtain ⟨-, rfl⟩ := finish_eq_ok.mp hfinish
  by_contra hfixed
  have hunfixed : ¬ gathered.isFixed = true := hfixed
  have hnamed : gathered.encoding = some .packed := by simpa [hunfixed] using hpacked
  obtain ⟨a, -, -, hnames⟩ := (foldlM_add_eq_ok.mp hgathered).exists_names hnamed
  -- There is no argument by that name.
  cases hnames

end Options

/-! ### Bundles -/

/-- A codec, and what there can be besides it. -/
structure Bundle where
  /-- The form that it uses. -/
  form : Option Content
  /-- The size of all its encodings. -/
  size : EncodedSize
  /-- What it hands the work to. -/
  coding : Coding
  /-- The fixed size, and how values are stored. -/
  fixed : Option (FixedSize × Storing)

namespace Bundle

/-- All that there is. -/
def contents (b : Bundle) : List Content :=
  b.form.toList ++ .codec b.size b.coding ::
    b.fixed.toList.map fun (size, storing) => .fixedCodec size storing

/-- The contents are those for an item with these options. -/
structure Suits (b : Bundle) (item : Item) (options : Options) : Prop where
  /-- The form is that of the item. -/
  form_eq : b.form.map Content.kind = item.form? options
  /-- There is a fixed size if the item has one. -/
  fixed_iff : b.fixed.isSome = true ↔ item.HasFixedSize options
  /-- It is the size of all encodings. -/
  size : ∀ p ∈ b.fixed, item.SharesSize options b.size p.1

end Bundle

section Bundles

variable {item : Item} {options : Options} {fields : List Field} {variants : List Variant}

theorem Generics.addBounds_nil (g : Generics) : g.addBounds [] = .ok g := by
  simp [addBounds_eq_ok]

/-- What is made for the item suits it. -/
def Item.Bundled (item : Item) (options : Options) : Prop :=
  ∃ b : Bundle, item.Makes (item.conditions options) b.contents ∧ b.Suits item options

/-- A codec with the sizes of a type, one of them only if it is asked for. -/
def Bundle.ofType (type : Code) (coding : Coding) (storing : Storing) (isFixed : Bool) :
    Bundle where
  form := none
  size := .ofType type
  coding := coding
  fixed := if isFixed then some (.ofType type, storing) else none

theorem Bundle.isSome_fixed_ofType (type : Code) (coding : Coding) (storing : Storing)
    (isFixed : Bool) : (ofType type coding storing isFixed).fixed.isSome = isFixed := by
  cases isFixed <;> rfl

theorem Bundle.sharesSize_ofType {type : Code} {coding : Coding} {storing : Storing}
    {isFixed : Bool} (h : item.SharesSize options (.ofType type) (.ofType type)) :
    ∀ p ∈ (ofType type coding storing isFixed).fixed,
      item.SharesSize options (.ofType type) p.1 := by
  cases isFixed with
  | false => exact nofun
  | true =>
    rintro _ ⟨⟩
    exact h

/-- Nothing is asked of the type that an item is encoded as. -/
theorem Item.makes_via {base : Code} (h : item.implementations =
      .ok (viaImplementations item.name item.generics options.isFixed base)) :
    item.Makes [] (Bundle.ofType base (.via base) (.via base) options.isFixed).contents := by
  rw [Makes, h, Generics.addBounds_nil]
  cases options.isFixed <;> rfl

/-! ### Records -/

/-- For a record, what is made depends on the chosen encoding. -/
theorem Item.bundled_record (hbody : item.body = .record fields) (b : Bundle)
    (hmakes : item.Makes (options.conditions fields) b.contents)
    (hform : b.form.map Content.kind = options.chosen.form?)
    (hfixed : b.fixed.isSome = options.isFixed)
    (hsize : ∀ p ∈ b.fixed, item.SharesSize options b.size p.1) : item.Bundled options := by
  have hconditions : item.conditions options = options.conditions fields := by
    rw [conditions, hbody]
  refine ⟨b, hconditions ▸ hmakes, ⟨?_, ?_, hsize⟩⟩
  · rw [hform, form?, hbody]
  · rw [hfixed, HasFixedSize, hbody]
    simp

/-- The packed form comes with a codec of a fixed size. -/
theorem Item.bundled_packed (h : Options.ofAttributes item.attributes = .ok options)
    (hbody : item.body = .record fields) (hchosen : options.chosen = .packed) :
    item.Bundled options := by
  have hchooses : item.Chooses .packed options.isFixed := ⟨options.encoding, h, hchosen⟩
  have hpacked := Options.encoding_eq_of_chosen hchosen nofun
  refine bundled_record hbody ⟨some (.packedOf fields), .own, .packed, some (.own, .packed)⟩
    ?_ ?_ (Options.isFixed_of_packed h hpacked).symm ?_
  · rw [Options.conditions, hchosen]
    exact hchooses.makes_packed hbody
  · rw [hchosen]
    rfl
  · rintro _ ⟨⟩
    exact .own hbody hpacked

/-- The other forms come without one, since none can have been asked for. -/
theorem Item.bundled_form (h : Options.ofAttributes item.attributes = .ok options)
    (hbody : item.body = .record fields) {form : Content} {size : EncodedSize} {coding : Coding}
    (hmakes : item.Makes (options.conditions fields) [form, .codec size coding])
    (hform : options.chosen.form? = some form.kind) (hpacked : options.chosen ≠ .packed) :
    item.Bundled options := by
  have hunfixed : options.isFixed = false := by
    refine Bool.eq_false_iff.mpr fun hfixed => ?_
    obtain hchosen | hchosen | ⟨base, hchosen⟩ := Options.chosen_of_isFixed h hfixed
    · exact hpacked hchosen
    · rw [hchosen] at hform
      cases hform
    · rw [hchosen] at hform
      cases hform
  exact bundled_record hbody ⟨some form, size, coding, none⟩ hmakes hform.symm hunfixed.symm nofun

theorem Item.bundled_single {field : Field} (h : Options.ofAttributes item.attributes = .ok options)
    (hbody : item.body = .record [field]) (hchosen : options.chosen = .single) :
    item.Bundled options := by
  have hchooses : item.Chooses .single options.isFixed := ⟨options.encoding, h, hchosen⟩
  have hsingle := Options.encoding_eq_of_chosen hchosen nofun
  refine bundled_record hbody
    (.ofType field.type (.single field) (.single field.member) options.isFixed) ?_ ?_
    (Bundle.isSome_fixed_ofType ..) (Bundle.sharesSize_ofType (.single hbody hsingle))
  · have hmakes := hchooses.makes_single hbody
    rw [Options.conditions, hchosen]
    cases hfixed : options.isFixed <;> rwa [hfixed] at hmakes
  · rw [hchosen]
    rfl

theorem Item.bundled_via {base : Code} (h : Options.ofAttributes item.attributes = .ok options)
    (hbody : item.body = .record fields) (hchosen : options.chosen = .via base) :
    item.Bundled options := by
  have hvia := Options.encoding_eq_of_chosen hchosen nofun
  refine bundled_record hbody (.ofType base (.via base) (.via base) options.isFixed) ?_ ?_
    (Bundle.isSome_fixed_ofType ..) (Bundle.sharesSize_ofType (.via hvia))
  · rw [Options.conditions, hchosen]
    refine makes_via ?_
    rw [implementations_eq h, implementationsWith, hbody]
    simp only [recordImplementations, hvia, Option.getD_some]
  · rw [hchosen]
    rfl

/-- Whatever encoding is chosen, what is made for a record suits it. -/
theorem Item.bundled_of_record (h : Options.ofAttributes item.attributes = .ok options)
    (hbody : item.body = .record fields) (hsupported : ∀ r, ¬ item.Unsupported options r) :
    item.Bundled options := by
  have hchooses : item.Chooses options.chosen options.isFixed := ⟨options.encoding, h, rfl⟩
  cases hchosen : options.chosen with
  | packed => exact bundled_packed h hbody hchosen
  | hybrid =>
    rw [hchosen] at hchooses
    rcases List.eq_nil_or_concat fields with rfl | ⟨head, last, rfl⟩
    · exact absurd (.noLastField hbody (Options.encoding_eq_of_chosen hchosen nofun))
        (hsupported _)
    · rw [List.concat_eq_append] at hbody
      have hmakes : item.Makes (options.conditions (head ++ [last]))
          [.hybridOf head last, .codec (sizeOfFields (head ++ [last])) .hybrid] := by
        rw [Options.conditions, hchosen]
        simpa using hchooses.makes_hybrid hbody
      exact bundled_form h hbody hmakes (by rw [hchosen]; rfl) (by simp [hchosen])
  | mixed size =>
    rw [hchosen] at hchooses
    have hmakes : item.Makes (options.conditions fields)
        [.mixedOf fields, .codec (sizeOfFields fields) (.mixed size)] := by
      rw [Options.conditions, hchosen]
      exact hchooses.makes_mixed hbody
    exact bundled_form h hbody hmakes (by rw [hchosen]; rfl) (by simp [hchosen])
  | dynamic size =>
    rw [hchosen] at hchooses
    have hmakes : item.Makes (options.conditions fields)
        [.dynamicOf fields, .codec .unknown (.dynamic size)] := by
      rw [Options.conditions, hchosen]
      exact hchooses.makes_dynamic hbody
    exact bundled_form h hbody hmakes (by rw [hchosen]; rfl) (by simp [hchosen])
  | single =>
    have hsingle := Options.encoding_eq_of_chosen hchosen nofun
    by_cases hcount : fields.length = 1
    · obtain ⟨field, rfl⟩ := List.length_eq_one_iff.mp hcount
      exact bundled_single h hbody hchosen
    · exact absurd (.noSingleField hbody hsingle hcount) (hsupported _)
  | via base => exact bundled_via h hbody hchosen

/-! ### Enumerations -/

theorem Item.bundled_of_enumeration (h : Options.ofAttributes item.attributes = .ok options)
    (hbody : item.body = .enumeration variants) (hsupported : ∀ r, ¬ item.Unsupported options r) :
    item.Bundled options := by
  have hconditions : item.conditions options = [] := by rw [conditions, hbody]
  have hform : item.form? options = none := by rw [form?, hbody]
  have himpls := implementations_eq h
  simp only [implementationsWith, hbody, enumerationImplementations] at himpls
  rw [Bundled, hconditions]
  cases hencoding : options.encoding with
  | some encoding =>
    by_cases hvia : ∃ base, encoding = .via base
    · obtain ⟨base, rfl⟩ := hvia
      simp only [hencoding] at himpls
      refine ⟨_, makes_via himpls, hform.symm, ?_, Bundle.sharesSize_ofType (.via hencoding)⟩
      rw [Bundle.isSome_fixed_ofType, HasFixedSize, hencoding]
      simp
    · exact absurd (.recordEncoding hbody hencoding fun base heq => hvia ⟨base, heq⟩) (hsupported _)
  | none =>
    simp only [hencoding] at himpls
    cases hinteger : integerOf? item.attributes with
    | none => exact absurd (.noInteger hbody hencoding hinteger) (hsupported _)
    | some k =>
      have hunit : variants.all Variant.isUnit = true := by
        refine List.all_eq_true.mpr fun variant hvariant => ?_
        by_contra hfields
        exact hsupported _ (.variantWithFields hbody hencoding (by simp [hinteger]) hvariant
          (Bool.eq_false_iff.mpr hfields))
      simp only [hinteger, if_pos hunit] at himpls
      let names := variants.map Variant.name
      refine ⟨⟨none, .fixedOf [.ident k.name], .variants item.name k names,
        some (.ofType [.ident k.name], .variants k names)⟩, ?_, hform.symm, ?_, ?_⟩
      · rw [Makes, himpls, Generics.addBounds_nil]
        rfl
      · rw [HasFixedSize, hbody, hencoding]
        simp
      · rintro _ ⟨⟩
        exact .integer hbody hencoding hinteger

/-- **What is made for a supported item suits it.** -/
theorem Item.bundled (h : Options.ofAttributes item.attributes = .ok options)
    (hsupported : ∀ r, ¬ item.Unsupported options r) : item.Bundled options := by
  cases hbody : item.body with
  | record fields => exact bundled_of_record h hbody hsupported
  | enumeration variants => exact bundled_of_enumeration h hbody hsupported
  | union => exact absurd (.union hbody) (hsupported _)

end Bundles

/-! ### Bundles that suit an item -/

section Suits

variable {item : Item} {options : Options} {b : Bundle} {kind : Kind}

theorem Encoding.isForm_of_form? {encoding : Encoding} (h : encoding.form? = some kind) :
    kind.isForm = true := by
  cases encoding <;> cases h <;> rfl

theorem Item.form?_eq_some : item.form? options = some kind ↔
    (∃ fields, item.body = .record fields) ∧ options.chosen.form? = some kind := by
  rw [form?]
  cases item.body <;> simp

theorem Item.isForm_of_form? (h : item.form? options = some kind) : kind.isForm = true :=
  Encoding.isForm_of_form? (form?_eq_some.mp h).2

theorem Options.exists_form?_iff : (∃ kind, options.chosen.form? = some kind) ↔
    options.encoding ≠ some .single ∧ ∀ base, options.encoding ≠ some (.via base) := by
  rw [chosen]
  rcases options.encoding with _ | _ | _ | _ | _ | _ | _ <;> simp [Encoding.form?]

theorem Bundle.map_kind_contents (b : Bundle) : b.contents.map Content.kind =
    (b.form.map Content.kind).toList ++ .codec :: if b.fixed.isSome then [.fixedCodec] else [] := by
  obtain ⟨form, size, coding, fixed⟩ := b
  cases form <;> cases fixed <;> rfl

theorem Bundle.Suits.mem_kinds (h : b.Suits item options) :
    kind ∈ b.contents.map Content.kind ↔ item.form? options = some kind ∨ kind = .codec ∨
      item.HasFixedSize options ∧ kind = .fixedCodec := by
  rw [b.map_kind_contents, h.form_eq, ← h.fixed_iff]
  cases b.fixed <;> simp

theorem Bundle.Suits.fixedCodec_mem_kinds (h : b.Suits item options) :
    .fixedCodec ∈ b.contents.map Content.kind ↔ item.HasFixedSize options := by
  have hform : item.form? options ≠ some .fixedCodec :=
    fun heq => nomatch Item.isForm_of_form? heq
  simp [h.mem_kinds, hform]

theorem Bundle.Suits.form_mem_kinds (h : b.Suits item options) (hform : kind.isForm = true) :
    kind ∈ b.contents.map Content.kind ↔ item.form? options = some kind := by
  rw [h.mem_kinds]
  cases kind <;> simp [Kind.isForm] at hform ⊢

theorem Bundle.Suits.size_of_mem (h : b.Suits item options) {size : EncodedSize} {coding : Coding}
    (hcodec : .codec size coding ∈ b.contents) {fixedSize : FixedSize} {storing : Storing}
    (hfixed : .fixedCodec fixedSize storing ∈ b.contents) :
    item.SharesSize options size fixedSize := by
  have hform (content : Content) (hmem : content ∈ b.form.toList) : content.kind.isForm = true :=
    Item.isForm_of_form? (h.form_eq.symm.trans (Option.map_eq_some_iff.mpr
      ⟨content, Option.mem_toList.mp hmem, rfl⟩))
  -- Neither of the two is the form, so each stands in its own place.
  rw [Bundle.contents, List.mem_append, List.mem_cons] at hcodec hfixed
  obtain hmem | heq | hmem := hcodec
  · exact nomatch hform _ hmem
  · obtain ⟨rfl, -⟩ := Content.codec.inj heq
    obtain hmem' | heq' | hmem' := hfixed
    · exact nomatch hform _ hmem'
    · cases heq'
    · obtain ⟨p, hp, heq'⟩ := List.mem_map.mp hmem'
      obtain ⟨rfl, -⟩ := Content.fixedCodec.inj heq'
      exact h.size p (Option.mem_toList.mp hp)
  · obtain ⟨p, -, heq⟩ := List.mem_map.mp hmem
    cases heq

theorem Bundle.Suits.nodup_kinds (h : b.Suits item options) :
    (b.contents.map Content.kind).Nodup := by
  rw [b.map_kind_contents, h.form_eq]
  have hcodec : item.form? options ≠ some .codec :=
    fun heq => nomatch Item.isForm_of_form? heq
  have hfixed : item.form? options ≠ some .fixedCodec :=
    fun heq => nomatch Item.isForm_of_form? heq
  generalize item.form? options = form at hcodec hfixed ⊢
  cases form <;> cases b.fixed <;> simp_all

end Suits

/-! ### Acceptance -/

section Acceptance

variable {item : Item} {options : Options} {impls : List Implementation} {rejection : Rejection}

/-- Nothing is made for an item that is not supported. -/
theorem Item.Unsupported.implementationsWith_eq (h : item.Unsupported options rejection) :
    item.implementationsWith options = .error rejection := by
  rw [implementationsWith]
  cases h with
  | union hbody => rw [hbody]
  | noLastField hbody hchosen =>
    simp only [hbody, recordImplementations, hchosen, Option.getD_some, splitLast?]
  | noSingleField hbody hchosen hcount =>
    simp only [hbody, recordImplementations, hchosen, Option.getD_some]
    split
    · exact absurd rfl hcount
    · rfl
  | recordEncoding hbody hchosen hother =>
    simp only [hbody, enumerationImplementations, hchosen]
  | noInteger hbody hchosen hinteger =>
    simp only [hbody, enumerationImplementations, hchosen, hinteger]
  | variantWithFields hbody hchosen hinteger hmem hfields =>
    obtain ⟨k, hk⟩ := Option.ne_none_iff_exists'.mp hinteger
    have hall : ¬ List.all _ Variant.isUnit = true :=
      fun hall => Bool.eq_false_iff.mp hfields (List.all_eq_true.mp hall _ hmem)
    simp only [hbody, enumerationImplementations, hchosen, hk, if_neg hall]

/-- What is asked for in the attributes can be seen in the options. -/
theorem Options.isFixed_iff (h : ofAttributes item.attributes = .ok options) :
    options.isFixed = true ↔ ∃ args, item.arguments = .ok args ∧ ∃ a ∈ args, a.isFixed = true := by
  obtain ⟨args, hargs, -, hasked⟩ := ofAttributes_eq_ok.mp h
  rw [hasked.isFixed_iff, hargs]
  simp

section Implementations

variable (name : String) (g : Generics) (contents : List Content)

theorem map_content_map : (contents.map fun content => (⟨name, g, content⟩ : Implementation)).map
    Implementation.content = contents := by
  rw [List.map_map]
  exact List.map_id _

theorem kinds_map : kinds (contents.map fun content => ⟨name, g, content⟩) =
    contents.map Content.kind := by
  rw [kinds, List.map_map]
  rfl

end Implementations

/-- Implementations with contents that suit the item fit together. -/
theorem Bundle.Suits.implementedBy {b : Bundle} {g : Generics} (hsuits : b.Suits item options)
    (h : Options.ofAttributes item.attributes = .ok options)
    (hadd : item.generics.addBounds (item.conditions options) = .ok g) :
    item.ImplementedBy options (b.contents.map fun content => ⟨item.name, g, content⟩) where
  about := by
    refine ⟨g, hadd, fun impl himpl => ?_⟩
    obtain ⟨content, -, rfl⟩ := List.mem_map.mp himpl
    exact ⟨rfl, rfl⟩
  nodup := by
    rw [kinds_map]
    exact hsuits.nodup_kinds
  codec := by
    rw [kinds_map]
    exact hsuits.mem_kinds.mpr (.inr (.inl rfl))
  fixedCodec_iff := by
    rw [kinds_map, hsuits.fixedCodec_mem_kinds, ← Options.isFixed_iff h, Item.HasFixedSize]
  size := by
    rw [map_content_map]
    exact fun size coding hcodec fixedSize storing hfixed => hsuits.size_of_mem hcodec hfixed
  form_iff := by
    rw [kinds_map, ← Options.exists_form?_iff, ← exists_and_left]
    refine exists_congr fun kind => ?_
    rw [← Item.form?_eq_some]
    constructor
    · rintro ⟨hmem, hform⟩
      exact (hsuits.form_mem_kinds hform).mp hmem
    · intro hchosen
      have hform := Item.isForm_of_form? hchosen
      exact ⟨(hsuits.form_mem_kinds hform).mpr hchosen, hform⟩
  form_eq := by
    rw [kinds_map]
    exact fun kind hmem hform => (Item.form?_eq_some.mp ((hsuits.form_mem_kinds hform).mp hmem)).2

/-- All that can go wrong for an item that is supported is that conditions cannot be added. -/
theorem Item.Bundled.eq_error (h : item.Bundled options) :
    item.implementations = .error rejection ↔
      item.generics.addBounds (item.conditions options) = .error rejection := by
  obtain ⟨b, hmakes, -⟩ := h
  rw [hmakes]
  exact Outcome.map_eq_error

theorem Item.Bundled.implementedBy (hbundled : item.Bundled options)
    (h : Options.ofAttributes item.attributes = .ok options)
    (himpls : item.implementations = .ok impls) : item.ImplementedBy options impls := by
  obtain ⟨b, hmakes, hsuits⟩ := hbundled
  rw [hmakes] at himpls
  cases hadd : item.generics.addBounds (item.conditions options) with
  | error e =>
    rw [hadd] at himpls
    cases himpls
  | ok g =>
    rw [hadd] at himpls
    cases himpls
    exact hsuits.implementedBy h hadd

theorem Item.Bundled.exists_ok {g : Generics} (hbundled : item.Bundled options)
    (h : item.generics.addBounds (item.conditions options) = .ok g) :
    ∃ impls, item.implementations = .ok impls := by
  obtain ⟨b, hmakes, -⟩ := hbundled
  rw [hmakes, h]
  exact ⟨_, rfl⟩

end Acceptance

/-- **The items that are accepted are those that are supported, and what is made for them fits
together.** Nothing is made for a union, for a record without the fields that the chosen encoding
needs, and for an enumeration without a way to encode its variants; each of these is rejected with a
reason of its own. For any other item all that can go wrong is a condition that cannot be read. -/
theorem supported_items_are_implemented (item : Item) (options : Options)
    (h : Options.ofAttributes item.attributes = .ok options) :
    (∀ rejection, item.implementations = .error rejection ↔
      item.Unsupported options rejection ∨
        (∀ reason, ¬ item.Unsupported options reason) ∧
          item.generics.addBounds (item.conditions options) = .error rejection) ∧
    ((∃ impls, item.implementations = .ok impls) ↔
      (∀ reason, ¬ item.Unsupported options reason) ∧
        ∀ c ∈ item.conditions options, item.generics.Involves c.type → c.Readable) ∧
    ∀ impls, item.implementations = .ok impls → item.ImplementedBy options impls := by
  have hrejected (reason : Rejection) (hreason : item.Unsupported options reason) :
      item.implementations = .error reason :=
    (Item.implementations_eq h).trans hreason.implementationsWith_eq
  have hsupported (impls : List Implementation) (himpls : item.implementations = .ok impls)
      (reason : Rejection) : ¬ item.Unsupported options reason := by
    intro hreason
    rw [hrejected reason hreason] at himpls
    cases himpls
  refine ⟨fun rejection => ⟨fun herror => ?_, ?_⟩, ⟨?_, ?_⟩, fun impls himpls => ?_⟩
  · by_cases hall : ∀ reason, ¬ item.Unsupported options reason
    · exact .inr ⟨hall, (Item.bundled h hall).eq_error.mp herror⟩
    · obtain ⟨reason, hreason⟩ := not_forall_not.mp hall
      rw [hrejected reason hreason] at herror
      exact .inl (Except.error.inj herror ▸ hreason)
  · rintro (hreason | ⟨hall, hadd⟩)
    · exact hrejected rejection hreason
    · exact (Item.bundled h hall).eq_error.mpr hadd
  · rintro ⟨impls, himpls⟩
    have hall := hsupported impls himpls
    obtain ⟨g, hadd, -⟩ := ((Item.bundled h hall).implementedBy h himpls).about
    exact ⟨hall, (Generics.addBounds_eq_ok.mp hadd).1⟩
  · rintro ⟨hall, hreadable⟩
    exact (Item.bundled h hall).exists_ok (Generics.addBounds_eq_ok.mpr ⟨hreadable, rfl⟩)
  · exact (Item.bundled h (hsupported impls himpls)).implementedBy h himpls

/-- A record with one type parameter and these fields, to be encoded as its only field, with a fixed
size. -/
def wrapper (fields : List Field) : Item where
  name := "Wrapper"
  attributes :=
    [⟨[.ident "squash"], parens (.ident "transparent" :: comma ++ [.ident "fixed"])⟩]
  generics := ⟨⟨[⟨[], "T", .type []⟩], false⟩, .empty, []⟩
  body := .record fields

/-- One field of the type parameter is what a wrapper can have, and two are not. -/
theorem supported_items_are_implemented_at_wrapper :
    let options : Options := ⟨some .single, true⟩
    let field : Field := ⟨.index 0, [.ident "T"]⟩
    let other : Field := ⟨.index 1, [.ident "u8"]⟩
    Options.ofAttributes (wrapper [field]).attributes = .ok options ∧
      (∃ impls, (wrapper [field]).implementations = .ok impls ∧
        (wrapper [field]).ImplementedBy options impls) ∧
      (wrapper [field, other]).implementations = .error .noSingleField := by
  intro options field other
  have hoptions (fields : List Field) :
      Options.ofAttributes (wrapper fields).attributes = .ok options := rfl
  obtain ⟨-, haccepted, himplemented⟩ :=
    supported_items_are_implemented (wrapper [field]) options (hoptions _)
  obtain ⟨hrejected, -⟩ :=
    supported_items_are_implemented (wrapper [field, other]) options (hoptions _)
  have hsupported (reason : Rejection) : ¬ (wrapper [field]).Unsupported options reason := by
    intro hreason
    cases hreason with
    | noLastField _ hchosen => cases hchosen
    | noSingleField hbody _ hcount =>
      cases hbody
      exact hcount rfl
    | _ => contradiction
  have hreads : Reader.condition.readAll (field.needs .fixedCodec).code =
      .ok (field.needs .fixedCodec).code := by
    decide +kernel
  obtain ⟨impls, himpls⟩ := haccepted.mpr
    ⟨hsupported, fun c hc _ => List.mem_singleton.mp hc ▸ ⟨_, hreads⟩⟩
  exact ⟨hoptions _, ⟨impls, himpls, himplemented impls himpls⟩,
    (hrejected _).mpr (.inl (.noSingleField rfl rfl (by decide)))⟩

/-- A record with a matrix of a type parameter, whose number of rows is a constant in braces. -/
def grid : Item where
  name := "Grid"
  attributes := []
  generics := ⟨⟨[⟨[], "T", .type []⟩], false⟩, .empty, []⟩
  body := .record [⟨.named "cells", matrix (braces (braces [.literal "2"]))⟩]

/-- **A constant in braces keeps a record from being implemented**, though it is one of those that
are supported. -/
theorem braces_reject_a_supported_item :
    let cells : Code := .ident "cells" :: colon ++ matrix (braces [.literal "2"])
    Reader.item.readAll ([.ident "struct", .ident "Grid"] ++ operator ['<'] ++ .ident "T" ::
        operator ['>'] ++ braces cells) = .ok grid ∧
      Options.ofAttributes grid.attributes = .ok ⟨none, false⟩ ∧
      (∀ reason, ¬ grid.Unsupported ⟨none, false⟩ reason) ∧
      grid.implementations = .error (.unreadable .unsupported) := by
  intro cells
  have hoptions : Options.ofAttributes grid.attributes = .ok ⟨none, false⟩ := rfl
  have hsupported (reason : Rejection) : ¬ grid.Unsupported ⟨none, false⟩ reason := by
    intro hreason
    cases hreason <;> contradiction
  have hmisread : Reader.condition.readAll
      (Condition.code ⟨matrix (braces (braces [.literal "2"])), .codec⟩) = .error .unsupported := by
    decide +kernel
  have hinvolves : grid.generics.Involves (matrix (braces (braces [.literal "2"]))) := by decide
  have hadd : grid.generics.addBounds (grid.conditions ⟨none, false⟩) =
      .error (.unreadable .unsupported) :=
    Generics.addBounds_eq_error.mpr
      ⟨[], _, [], .unsupported, rfl, nofun, hinvolves, hmisread, rfl⟩
  refine ⟨?_, hoptions, hsupported, (Item.bundled hoptions hsupported).eq_error.mpr hadd⟩
  set_option maxRecDepth 1000 in
  rfl

end WireForm.Derivation
