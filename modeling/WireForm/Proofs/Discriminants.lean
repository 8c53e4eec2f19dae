import Mathlib.Data.List.Nodup
import WireForm.Proofs.DerivedRecord
import WireForm.Proofs.Scalar

/-!
# Integers for variants

An enumeration without fields is encoded as the integers of its variants. The code that is made for
it mentions their names only: decoding compares an integer with that of one variant after the other,
and storing has a case for each of them. Both cut the integer of a variant down to the kind that the
item names, so what comes out right depends on all integers being in the range of that kind.

The integers themselves are no matter of the code. They belong to the enumeration, and the code has
a meaning for any choice of them, unless it names a variant that there is not or leaves one out.

## Main definitions

* `IntKind.truncate`, `IntKind.bytesOf` — integers cut down to a kind, and their bytes
* `Numbering`, `Numbering.Value` — variants with their integers, and the values they make
* `Numbering.comparing`, `Numbering.matching?`, `Numbering.codec?` — what the code means
* `Item.Enumerates` — the declaration of an enumeration
* `Numbering.EncodedBy` — codecs that have the bytes of the integers, and no others

## Main results

* `Numbering.codec?_contents` — the code that is made means the codec of the numbering
* `integerOf?_of_single` — an attribute that names a kind alone
* `enumerations_accept_their_integers`
-/

namespace WireForm

/-! ### Integers and their bytes -/

namespace IntKind

/-- The value of a kind with the same low digits as an integer. -/
def truncate (k : IntKind) (n : Int) : k.Value := k.ofWord (n % (k.count : Int)).toNat

/-- The two's complement of an integer, the highest byte first. -/
def bytesOf (k : IntKind) (n : Int) : Bytes :=
  BigEndian.encode k.width.bytes (n % (256 ^ k.width.bytes : Nat)).toNat

variable {k : IntKind}

/-- Of an integer in the range of the kind nothing is cut off. -/
theorem truncate_val (n : k.Value) : k.truncate n.val = n := ofWord_toWord n

theorem bytesOf_val (n : k.Value) : k.bytesOf n.val = k.toBytes n := by
  rw [bytesOf, toBytes, toWord, count_eq]

theorem ofName?_name (k : IntKind) : ofName? k.name = some k := by
  obtain ⟨width, signed⟩ := k
  cases width <;> cases signed <;> rfl

theorem isName_name (k : IntKind) : Derivation.isName k.name = true := by
  obtain ⟨width, signed⟩ := k
  cases width <;> cases signed <;> decide

/-- There is an integer for every string of as many bytes. -/
theorem exists_toBytes_eq {bytes : Bytes} (h : bytes.length = k.width.bytes) :
    ∃ n : k.Value, bytes = k.toBytes n := by
  have hdecode : k.codec.decode bytes = .ok (k.ofWord (BigEndian.decode bytes)) := by
    show (do expectLength k.width.bytes bytes; return _) = _
    rw [expectLength_of_eq h]
    rfl
  exact ⟨_, ((k.codec_exact _ _).mp hdecode).trans (image_codec _)⟩

theorem decode_toBytes (n : k.Value) : k.codec.decode (k.toBytes n) = .ok n :=
  (k.codec_exact _ _).mpr (image_codec n).symm

/-- The bytes tell the integers of a kind apart. -/
theorem bytesOf_inj (n n' : k.Value) : k.bytesOf n.val = k.bytesOf n'.val ↔ n = n' := by
  refine ⟨fun h => ?_, fun h => by rw [h]⟩
  rw [bytesOf_val, bytesOf_val] at h
  exact Except.ok.inj ((decode_toBytes n).symm.trans (h ▸ decode_toBytes n'))

theorem decode_of_length_ne {bytes : Bytes} (h : bytes.length ≠ k.width.bytes) :
    k.codec.decode bytes = refuse (.invalidLength k.width.bytes bytes.length) := by
  show (do expectLength k.width.bytes bytes; return _) = _
  rw [expectLength, if_neg h]
  rfl

end IntKind

namespace Enumeration

variable {α : Type} (e : Enumeration α)

theorem image_codec (a : α) : e.codec.image a = e.kind.toBytes (e.discriminant a) :=
  IntKind.image_codec _

/-- An integer that belongs to no value is refused, together with the name of the type. -/
theorem decode_toBytes_of_forall_ne {n : e.kind.Value} (h : ∀ a, n ≠ e.discriminant a) :
    e.codec.decode (e.kind.toBytes n) = refuse (.invalidDiscriminant e.name n.val) := by
  have hnone : e.find? n = none := by
    by_contra hsome
    obtain ⟨a, ha⟩ := Option.ne_none_iff_exists'.mp hsome
    exact h a (e.find?_eq_some.mp ha)
  rw [decode_codec, IntKind.decode_toBytes, Outcome.ok_bind, hnone]
  rfl

theorem decode_of_length_ne {bytes : Bytes} (h : bytes.length ≠ e.kind.width.bytes) :
    e.codec.decode bytes = refuse (.invalidLength e.kind.width.bytes bytes.length) := by
  rw [decode_codec, IntKind.decode_of_length_ne h]
  rfl

end Enumeration

namespace Derivation

/-! ### Numberings -/

/-- The variants of an enumeration, in the order of declaration, with their integers. -/
structure Numbering where
  /-- The name and the integer of each variant. -/
  entries : List (String × Int)
  /-- No two variants have one name. -/
  names_nodup : (entries.map Prod.fst).Nodup
  /-- No two variants have one integer. -/
  integers_nodup : (entries.map Prod.snd).Nodup

namespace Numbering

variable (v : Numbering)

/-- The values of an enumeration: its variants. -/
abbrev Value : Type := { entry : String × Int // entry ∈ v.entries }

variable {v} in
/-- The integer of a value. -/
def Value.integer (a : v.Value) : Int := a.val.2

/-- The value of this name. -/
def named? (name : String) : Option v.Value := v.entries.attach.find? (·.val.1 == name)

/-! ### The code that is made -/

variable (k : IntKind)

/-- Compare `n` with the integers of these values, one after the other. -/
def comparing (typeName : String) (n : k.Value) : List v.Value → Outcome v.Value
  | [] => refuse (.invalidDiscriminant typeName n.val)
  | a :: tried => if n = k.truncate a.integer then .ok a else comparing typeName n tried

/-- A case for the value of each name, which has to be there for all values. The first case for a
value gives its integer. -/
def matching? (names : List String) : Option (v.Value → k.Value) :=
  (names.mapM v.named?).bind fun covered =>
    if h : v.entries.attach.all fun a => (covered.find? (· == a)).isSome then
      some fun a =>
        let found := (covered.find? (· == a)).get (List.all_eq_true.mp h a (List.mem_attach ..))
        k.truncate found.integer
    else none

/-- The size of a type of integers. -/
def sizeOf? : Code → Option Nat
  | [.ident name] => (IntKind.ofName? name).map fun k => k.codec.size
  | _ => none

/-- The codec of an enumeration with these implementations. -/
def codec? : List Content → Option (FixedCodec v.Value)
  | [.codec (.fixedOf encoded) (.variants typeName read tried),
      .fixedCodec (.ofType stored) (.variants write covered)] =>
    (sizeOf? encoded).bind fun encodedSize =>
      (sizeOf? stored).bind fun storedSize =>
        (tried.mapM v.named?).bind fun tried =>
          (v.matching? write covered).map fun integer =>
            let store (a : v.Value) (dst : Bytes) := write.codec.store (integer a) dst
            Codec.fixed
              { size? := some encodedSize
                append := appendStored storedSize store
                decode := fun bytes => do
                  v.comparing read typeName (← read.codec.decode bytes) tried }
              storedSize store
  | _ => none

/-- All integers are in the range of the kind. -/
def InRange : Prop := ∀ a : v.Value, k.min ≤ a.integer ∧ a.integer < k.limit

variable {v k}

/-! ### What it means -/

/-- A value is the only one with its name. -/
theorem named?_name (a : v.Value) : v.named? a.val.1 = some a := by
  have hsome : (v.named? a.val.1).isSome :=
    List.find?_isSome.mpr ⟨a, List.mem_attach .., beq_self_eq_true _⟩
  obtain ⟨b, hb⟩ := Option.isSome_iff_exists.mp hsome
  have hname := List.find?_some hb
  have hval : b.val = a.val :=
    List.inj_on_of_nodup_map v.names_nodup b.property a.property (beq_iff_eq.mp hname)
  rw [hb, Subtype.ext hval]

theorem mapM_named? (values : List v.Value) :
    (values.map (·.val.1)).mapM v.named? = some values := by
  induction values with
  | nil => rfl
  | cons a values ih =>
    rw [List.map_cons, List.mapM_cons, named?_name, ih]
    rfl

theorem map_name_attach : v.entries.attach.map (·.val.1) = v.entries.map Prod.fst := by
  conv_rhs => rw [← List.attach_map_subtype_val v.entries, List.map_map]
  rfl

/-- Every value has its own case. -/
theorem matching?_names :
    v.matching? k (v.entries.map Prod.fst) = some fun a => k.truncate a.integer := by
  have hcovered (a : v.Value) : (v.entries.attach.find? (· == a)).isSome :=
    List.find?_isSome.mpr ⟨a, List.mem_attach .., beq_self_eq_true a⟩
  rw [matching?, ← map_name_attach, mapM_named?, Option.bind_some,
    dif_pos (List.all_eq_true.mpr fun a _ => hcovered a)]
  congr 1
  funext a
  have hfound := List.find?_some (Option.some_get (hcovered a)).symm
  rw [beq_iff_eq.mp hfound]

theorem sizeOf?_name (k : IntKind) : sizeOf? [.ident k.name] = some k.width.bytes := by
  rw [sizeOf?, k.ofName?_name]
  rfl

/-- Comparing one after the other is a search. -/
theorem comparing_eq (name : String) (n : k.Value) (tried : List v.Value) :
    v.comparing k name n tried = (tried.find? fun a => k.truncate a.integer == n).elim
      (refuse (.invalidDiscriminant name n.val)) Except.ok := by
  induction tried with
  | nil => rfl
  | cons a tried ih =>
    rw [comparing, List.find?_cons, ih]
    by_cases heq : n = k.truncate a.integer
    · rw [if_pos heq, beq_iff_eq.mpr heq.symm]
      rfl
    · rw [if_neg heq, beq_false_of_ne (Ne.symm heq)]

theorem truncate_integer (h : v.InRange k) (a : v.Value) :
    k.truncate a.integer = ⟨a.integer, h a⟩ := IntKind.truncate_val ⟨a.integer, h a⟩

/-- The values of a numbering, told apart by their integers. -/
def enumeration (name : String) (h : v.InRange k) : Enumeration v.Value where
  name := name
  kind := k
  discriminant a := ⟨a.integer, h a⟩
  variants := v.entries.attach
  mem_variants := List.mem_attach _
  discriminant_injective a b hab :=
    Subtype.ext (List.inj_on_of_nodup_map v.integers_nodup a.property b.property
      (Subtype.ext_iff.mp hab))

/-- **The code that is made means the codec of the numbering**, if the kind has room for it. -/
theorem codec?_variantImplementations (name : String) (generics : Generics) (h : v.InRange k) :
    v.codec? ((variantImplementations name generics k (v.entries.map Prod.fst)).map
      Implementation.content) = some (enumeration name h).codec := by
  have htried : (v.entries.map Prod.fst).mapM v.named? = some v.entries.attach := by
    rw [← map_name_attach, mapM_named?]
  have hdecode : (fun bytes => do
      v.comparing k name (← k.codec.decode bytes) v.entries.attach) =
        (enumeration name h).codec.decode := by
    funext bytes
    rw [Enumeration.decode_codec]
    refine bind_congr fun n => ?_
    simp only [comparing_eq, truncate_integer h]
    rfl
  simp only [variantImplementations, List.map_cons, List.map_nil, codec?, sizeOf?_name, htried,
    matching?_names, Option.bind_some, Option.map_some, truncate_integer h, hdecode]
  rfl

end Numbering

/-! ### Enumerations -/

/-- The item is an enumeration without fields, asks for no encoding, and has integers of this kind.
-/
structure Item.Enumerates (item : Item) (k : IntKind) (v : Numbering) : Prop where
  /-- Its variants are those of the numbering, and names only. -/
  body_eq : item.body = .enumeration (v.entries.map fun entry => ⟨entry.1, true⟩)
  /-- Its attributes have nothing to say about the encoding. -/
  arguments_eq : item.arguments = .ok []
  /-- They name the kind. -/
  integerOf?_eq : integerOf? item.attributes = some k
  /-- The kind has room for the integers. -/
  inRange : v.InRange k

/-- **The kind is the one that is named**, where one attribute names a kind and nothing else. -/
theorem integerOf?_of_single {attributes : List Attribute} {attr : Attribute} {k : IntKind}
    (hattr : attributes.filter (·.isNamed "repr") = [attr]) {delimiter : Delimiter}
    (hcontent : attr.content = [.group delimiter [.ident k.name]]) :
    integerOf? attributes = some k := by
  have hname : NamedBy k.name [.ident k.name] := ⟨k.isName_name, rfl⟩
  rw [integerOf?, hattr, List.flatMap_singleton, hcontent, namesOf_eq_of_commas (.last hname),
    List.findSome?_singleton, k.ofName?_name]

/-- An enumeration with its kind for its only attribute has that kind. -/
theorem Item.enumerates_of_single {item : Item} {k : IntKind} {v : Numbering}
    (hbody : item.body = .enumeration (v.entries.map fun entry => ⟨entry.1, true⟩))
    (hattr : item.attributes = [⟨[.ident "repr"], parens [.ident k.name]⟩])
    (hrange : v.InRange k) : item.Enumerates k v where
  body_eq := hbody
  arguments_eq := by
    rw [arguments, hattr]
    rfl
  integerOf?_eq := integerOf?_of_single (by rw [hattr]; rfl) rfl
  inRange := hrange

theorem Item.Enumerates.implementations_eq {item : Item} {k : IntKind} {v : Numbering}
    (h : item.Enumerates k v) :
    item.implementations =
      .ok (variantImplementations item.name item.generics k (v.entries.map Prod.fst)) := by
  have hoptions : Options.ofAttributes item.attributes = .ok ⟨none, false⟩ :=
    Options.ofAttributes_eq h.arguments_eq
  have hunit : (v.entries.map fun entry => (⟨entry.1, true⟩ : Variant)).all Variant.isUnit := by
    simp
  have hnames : (v.entries.map fun entry => (⟨entry.1, true⟩ : Variant)).map Variant.name =
      v.entries.map Prod.fst := by
    rw [List.map_map]
    rfl
  rw [Item.implementations_eq hoptions]
  simp only [implementationsWith, h.body_eq, enumerationImplementations, h.integerOf?_eq]
  rw [if_pos hunit, hnames]

/-- A codec of a fixed size for the values of a numbering has the bytes of their integers, and
refuses all others. -/
structure Numbering.EncodedBy (v : Numbering) (k : IntKind) (name : String)
    (c : FixedCodec v.Value) : Prop where
  /-- All encodings are as long as the kind is wide. -/
  size?_eq : c.size? = some k.width.bytes
  /-- That is the size of the slices that values are stored in. -/
  size_eq : c.size = k.width.bytes
  /-- A value is encoded as its integer. -/
  encode_eq : ∀ a, c.encode a = .ok (k.bytesOf a.integer)
  /-- That is appended to whatever is in a buffer. -/
  append_eq : ∀ a out, c.append a out = (.ok (), out ++ k.bytesOf a.integer)
  /-- It is stored as its integer. -/
  store_eq : ∀ a dst, dst.length = c.size → c.store a dst = .ok (k.bytesOf a.integer)
  /-- The bytes of its integer decode to it. -/
  decode_eq : ∀ a, c.decode (k.bytesOf a.integer) = .ok a
  /-- Nothing is accepted but the bytes of the integers. -/
  accepts_iff : ∀ bytes, (∃ a, c.decode bytes = .ok a) ↔
    bytes.length = k.width.bytes ∧ ∃ entry ∈ v.entries, bytes = k.bytesOf entry.2
  /-- Other bytes of the right length are refused with the integer that they are the bytes of. -/
  refuses : ∀ bytes, bytes.length = k.width.bytes →
    (∀ entry ∈ v.entries, bytes ≠ k.bytesOf entry.2) →
    ∃ n, k.min ≤ n ∧ n < k.limit ∧ bytes = k.bytesOf n ∧
      c.decode bytes = refuse (.invalidDiscriminant name n)
  /-- Bytes of a wrong length are refused with both lengths. -/
  refuses_length : ∀ bytes, bytes.length ≠ k.width.bytes →
    c.decode bytes = refuse (.invalidLength k.width.bytes bytes.length)

theorem Numbering.encodedBy_codec {k : IntKind} {v : Numbering} (name : String)
    (h : v.InRange k) : v.EncodedBy k name (enumeration name h).codec := by
  let e := enumeration name h
  have hbytes (a : v.Value) : k.bytesOf a.integer = e.codec.image a :=
    (IntKind.bytesOf_val (e.discriminant a)).trans (e.image_codec a).symm
  refine ⟨rfl, rfl, fun a => ?_, fun a out => ?_, fun a dst hlen => ?_, fun a => ?_,
    fun bytes => ?_, fun bytes hlen hne => ?_, fun bytes hlen => e.decode_of_length_ne hlen⟩
  · rw [e.codec_lawful.encode_eq, hbytes]
  · rw [e.codec_lawful.append_eq, hbytes]
  · rw [e.codec_lawful.store_eq a dst hlen, hbytes]
  · rw [hbytes]
    exact (e.codec_exact _ a).mpr rfl
  · constructor
    · rintro ⟨a, ha⟩
      obtain rfl := (e.codec_exact bytes a).mp ha
      exact ⟨e.codec_lawful.length_image a, a.val, a.property, (hbytes a).symm⟩
    · rintro ⟨-, entry, hentry, rfl⟩
      exact ⟨⟨entry, hentry⟩, (e.codec_exact _ _).mpr (hbytes ⟨entry, hentry⟩)⟩
  · obtain ⟨n, rfl⟩ := IntKind.exists_toBytes_eq hlen
    refine ⟨n.val, n.property.1, n.property.2, (IntKind.bytesOf_val n).symm, ?_⟩
    refine e.decode_toBytes_of_forall_ne fun a ha => hne a.val a.property ?_
    rw [ha]
    exact (IntKind.bytesOf_val (e.discriminant a)).symm

/-- **The codec that is made for an enumeration accepts the integers of its variants and nothing
else.** This is so for each of the ten kinds of integers and for all integers of the kind that a
numbering gives to variants, however many there are and however far apart. Bytes of the right length
are refused as the integer that they are the two's complement of. -/
theorem enumerations_accept_their_integers (item : Item) (k : IntKind) (v : Numbering)
    (h : item.Enumerates k v) :
    ∃ impls c, item.implementations = .ok impls ∧
      v.codec? (impls.map Implementation.content) = some c ∧ v.EncodedBy k item.name c :=
  ⟨_, _, h.implementations_eq,
    Numbering.codec?_variantImplementations item.name item.generics h.inRange,
    Numbering.encodedBy_codec item.name h.inRange⟩

/-- An enumeration of these variants, with this kind for its only attribute. -/
def numbered (name : String) (k : IntKind) (v : Numbering) : Item :=
  ⟨name, [⟨[.ident "repr"], parens [.ident k.name]⟩], ⟨.empty, .empty, []⟩,
    .enumeration (v.entries.map fun entry => ⟨entry.1, true⟩)⟩

/-- Four variants, two of which have the least integers of sixteen bytes and one the greatest. -/
def depths : Numbering where
  entries := [("Bottom", -2 ^ 127), ("Above", -2 ^ 127 + 1), ("Surface", 0), ("Top", 2 ^ 127 - 1)]
  names_nodup := by decide
  integers_nodup := by decide

/-- A variant with the least integer of a kind and one with the greatest. -/
def extremes (k : IntKind) : Numbering where
  entries := [("Least", k.min), ("Greatest", k.limit - 1)]
  names_nodup := (by decide : ["Least", "Greatest"].Nodup)
  integers_nodup := by
    obtain ⟨width, signed⟩ := k
    cases width <;> cases signed <;> decide

theorem inRange_extremes (k : IntKind) : (extremes k).InRange k := by
  have hrange : ∀ entry ∈ (extremes k).entries, k.min ≤ entry.2 ∧ entry.2 < k.limit := by
    obtain ⟨width, signed⟩ := k
    cases width <;> cases signed <;> decide
  exact fun a => hrange a.val a.property

/-- The least integer and the greatest one are accepted, the one between them is not, and neither
is a string of fifteen bytes. The least and the greatest are accepted for all kinds. -/
theorem enumerations_accept_their_integers_at_depth :
    let k := IntKind.twosComplement .sixteen
    let depth := numbered "Depth" k depths
    depth.Enumerates k depths ∧
    (∃ impls c, depth.implementations = .ok impls ∧
      depths.codec? (impls.map Implementation.content) = some c ∧
      (∃ a, c.decode (0x80 :: List.replicate 15 0) = .ok a ∧ a.val.1 = "Bottom") ∧
      (∃ a, c.decode (0x7f :: List.replicate 15 0xff) = .ok a ∧ a.val.1 = "Top") ∧
      c.decode (List.replicate 16 0xff) = refuse (.invalidDiscriminant "Depth" (-1)) ∧
      c.decode (List.replicate 15 0) = refuse (.invalidLength 16 15)) ∧
    ∀ k : IntKind, (numbered "Range" k (extremes k)).Enumerates k (extremes k) ∧
      ∃ impls c, (numbered "Range" k (extremes k)).implementations = .ok impls ∧
        (extremes k).codec? (impls.map Implementation.content) = some c ∧
        (∃ a, c.decode (k.bytesOf k.min) = .ok a ∧ a.val.1 = "Least") ∧
        ∃ a, c.decode (k.bytesOf (k.limit - 1)) = .ok a ∧ a.val.1 = "Greatest" := by
  intro k depth
  have hrange : ∀ entry ∈ depths.entries, k.min ≤ entry.2 ∧ entry.2 < k.limit := by decide
  have henumerates : depth.Enumerates k depths :=
    Item.enumerates_of_single rfl rfl fun a => hrange a.val a.property
  obtain ⟨impls, c, himpls, hcodec, hc⟩ :=
    enumerations_accept_their_integers depth k depths henumerates
  let bottom : depths.Value := ⟨("Bottom", -2 ^ 127), by decide⟩
  let top : depths.Value := ⟨("Top", 2 ^ 127 - 1), by decide⟩
  have hbottom : k.bytesOf bottom.integer = 0x80 :: List.replicate 15 0 := by decide
  have htop : k.bytesOf top.integer = 0x7f :: List.replicate 15 0xff := by decide
  have hbelow : k.bytesOf (-1) = List.replicate 16 0xff := by decide
  obtain ⟨n, hmin, hlimit, hbytes, hrefuse⟩ := hc.refuses (List.replicate 16 0xff) rfl (by decide)
  obtain rfl : n = -1 := by
    have hn := (IntKind.bytesOf_inj ⟨n, hmin, hlimit⟩ ⟨-1, by decide, by decide⟩).mp
      (hbytes.symm.trans hbelow.symm)
    exact Subtype.ext_iff.mp hn
  refine ⟨henumerates, ⟨impls, c, himpls, hcodec, ⟨bottom, hbottom ▸ hc.decode_eq bottom, rfl⟩,
    ⟨top, htop ▸ hc.decode_eq top, rfl⟩, hrefuse, hc.refuses_length _ (by decide)⟩, fun k => ?_⟩
  have hextremes : (numbered "Range" k (extremes k)).Enumerates k (extremes k) :=
    Item.enumerates_of_single rfl rfl (inRange_extremes k)
  obtain ⟨impls, c, himpls, hcodec, hc⟩ := enumerations_accept_their_integers _ k _ hextremes
  let least : (extremes k).Value := ⟨("Least", k.min), List.mem_cons_self⟩
  let greatest : (extremes k).Value :=
    ⟨("Greatest", k.limit - 1), List.mem_cons_of_mem _ (List.mem_singleton_self _)⟩
  exact ⟨hextremes, impls, c, himpls, hcodec, ⟨least, hc.decode_eq least, rfl⟩,
    ⟨greatest, hc.decode_eq greatest, rfl⟩⟩

end Derivation

end WireForm
