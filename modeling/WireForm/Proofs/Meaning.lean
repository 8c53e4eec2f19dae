import WireForm.Derivation.Item.Implementations
import WireForm.Proofs.ShapeLaws
import WireForm.Proofs.Window

/-!
# What implementations mean

The code that is made for a record is calls on the fields of the value at hand, and literals that
put results together. What it means depends on what the types of the fields stand for, and on what
has been implemented for the record before: a codec hands the work to a form. It may also mean
nothing. A member that the record does not have cannot be written, a literal has to give every field
a value of its type, a field of any size cannot be stored in place, and a size that is worked out
beforehand has to be a machine word.

Values of a record are nested pairs, one for each field. So are the results of a literal, which are
read in the order in which they are written there, and then put where the record has them.

Conversions, and integers for variants, are no matter of fields and are given no meaning here.

## Main definitions

* `Scope` — what types stand for
* `Scope.Record` — the values of a record
* `Scope.select?`, `Scope.build?` — a member of the value at hand, and a value from its fields
* `Scope.storing?`, `Scope.appending?`, `Scope.flagging?`, `Scope.encoding?` — calls that write
* `Scope.reading?`, `Scope.literal?` — calls that read
* `Derived`, `Scope.implement?`, `Scope.derived?` — what implementations give
-/

namespace WireForm.Derivation

/-! ### Equality of code -/

mutual

/-- Whether two tokens are the same. -/
def Token.decEq : (a b : Token) → Decidable (a = b)
  | .ident a, .ident b => decidable_of_iff (a = b) (by rw [Token.ident.injEq])
  | .punct a i, .punct b j => decidable_of_iff (a = b ∧ i = j) (by rw [Token.punct.injEq])
  | .literal a, .literal b => decidable_of_iff (a = b) (by rw [Token.literal.injEq])
  | .group d as, .group e bs =>
    have := Code.decEq as bs
    decidable_of_iff (d = e ∧ as = bs) (by rw [Token.group.injEq])
  | .ident _, .punct _ _ | .ident _, .literal _ | .ident _, .group _ _ => isFalse nofun
  | .punct _ _, .ident _ | .punct _ _, .literal _ | .punct _ _, .group _ _ => isFalse nofun
  | .literal _, .ident _ | .literal _, .punct _ _ | .literal _, .group _ _ => isFalse nofun
  | .group _ _, .ident _ | .group _ _, .punct _ _ | .group _ _, .literal _ => isFalse nofun

/-- Whether two pieces of code are the same. -/
def Code.decEq : (a b : Code) → Decidable (a = b)
  | [], [] => isTrue rfl
  | a :: as, b :: bs =>
    have := Token.decEq a b
    have := Code.decEq as bs
    decidable_of_iff (a = b ∧ as = bs) (by rw [List.cons.injEq])
  | [], _ :: _ | _ :: _, [] => isFalse nofun

end

instance : DecidableEq Token := Token.decEq

/-! ### Types -/

/-- What types stand for where a record is declared. -/
structure Scope : Type 1 where
  /-- The values of a type. -/
  Value : Code → Type
  /-- The codec of a type. -/
  codec : (type : Code) → Codec (Value type)
  /-- The codec of a type of a fixed size. -/
  fixed? : (type : Code) → Option (FixedCodec (Value type))
  /-- No type has two codecs. -/
  toCodec_eq : ∀ {type : Code} {c : FixedCodec (Value type)}, fixed? type = some c →
    c.toCodec = codec type
  /-- A slice of the right length keeps it when a value is stored there. -/
  keepsLength : ∀ {type : Code} {c : FixedCodec (Value type)}, fixed? type = some c →
    c.KeepsLength
  /-- The width of lengths that are recorded as a type. -/
  width? : Code → Option LengthWidth
  /-- The width where none is chosen. -/
  width?_defaultSize : width? defaultSize = some .standard

/-- A table of shapes, and of widths for lengths, says what types stand for. -/
def Scope.ofShapes (table : Code → (α : Type) × Shape α) (width? : Code → Option LengthWidth)
    (hwidth : width? defaultSize = some .standard) : Scope where
  Value type := (table type).1
  codec type := (table type).2.codec
  fixed? type := (table type).2.fixed?.map FixedShape.codec
  toCodec_eq := by
    intro type c h
    obtain ⟨shape, hshape, rfl⟩ := Option.map_eq_some_iff.mp h
    rw [Shape.eq_of_fixed? hshape]
    rfl
  keepsLength := by
    intro type c h a dst stored hlen hstore
    obtain ⟨shape, -, rfl⟩ := Option.map_eq_some_iff.mp h
    rw [shape.lawful.store_eq a dst hlen] at hstore
    rw [← Except.ok.inj hstore, shape.lawful.length_image, hlen]
  width? := width?
  width?_defaultSize := hwidth

namespace Scope

variable (Γ : Scope)

/-! ### Records -/

/-- The values of a record, field by field. -/
@[reducible]
def Record : List Field → Type
  | [] => Unit
  | field :: fields => Γ.Value field.type × Record fields

/-- The codecs of the fields of a record. -/
def codecs : (fields : List Field) → Codecs (Γ.Record fields)
  | [] => .nil
  | field :: fields => .cons (Γ.codec field.type) (codecs fields)

/-- The codecs of the fields of a record, if all are of a fixed size. -/
def fixedCodecs? : (fields : List Field) → Option (FixedCodecs (Γ.Record fields))
  | [] => some .nil
  | field :: fields => do return .cons (← Γ.fixed? field.type) (← fixedCodecs? fields)

/-- The type of a member, and its value in a record. -/
def select? (member : Member) :
    (fields : List Field) → Option ((type : Code) × (Γ.Record fields → Γ.Value type))
  | [] => none
  | field :: fields =>
    if field.member = member then some ⟨field.type, Prod.fst⟩
    else (select? member fields).map fun found => ⟨found.1, fun r => found.2 r.2⟩

/-- The record whose fields are taken, by their members, from results that were given to members,
each of the type that the field has. -/
def build? (given : List Field) : (fields : List Field) → Option (Γ.Record given → Γ.Record fields)
  | [] => some fun _ => ()
  | field :: fields =>
    (Γ.select? field.member given).bind fun found =>
      if h : found.1 = field.type then
        (build? given fields).map fun rest results => (h ▸ found.2 results, rest results)
      else none

/-! ### Calls that write

A call has the fields of the value at hand, `self`, to choose from. -/

variable (self : List Field)

/-- Fields stored one after the other at the front of a window. -/
def storing? : List Write → Option (Γ.Record self → Step Region Unit)
  | [] => some fun _ => pure ()
  | .store member :: writes =>
    (Γ.select? member self).bind fun found =>
      (Γ.fixed? found.1).bind fun c =>
        (storing? writes).map fun rest r => do
          Region.put c (found.2 r)
          rest r
  | _ => none

/-- Fields of fixed sizes appended one after the other, and behind them one of any size. -/
def appending? : List Write → Option (Γ.Record self → Step Bytes Unit)
  | [.rest member] =>
    (Γ.select? member self).map fun found r => (Γ.codec found.1).append (found.2 r)
  | .fixed member :: writes =>
    (Γ.select? member self).bind fun found =>
      (Γ.fixed? found.1).bind fun c =>
        (appending? writes).map fun rest r => do
          c.appendFixed (found.2 r)
          rest r
  | _ => none

/-- Fields appended one after the other, each with its length if it needs one. The type is named in
the call, and has to be that of the member. -/
def flagging? : List Write → Option (LengthWidth → Γ.Record self → Step Bytes Unit)
  | [] => some fun _ _ => pure ()
  | .flagged member type last :: writes =>
    (Γ.select? member self).bind fun found =>
      if found.1 = type then
        (flagging? writes).map fun rest w r => do
          Writer.field w (Γ.codec found.1) (found.2 r) last
          rest w r
      else none
  | _ => none

/-- The encodings of fields, each in a buffer of its own. -/
def encoding? : List Write → Option (Γ.Record self → Outcome (List Bytes))
  | [] => some fun _ => .ok []
  | .apart member :: writes =>
    (Γ.select? member self).bind fun found =>
      (encoding? writes).map fun rest r => do
        let field ← (Γ.codec found.1).encode (found.2 r)
        let fields ← rest r
        return field :: fields
  | _ => none

end Scope

/-! ### Calls that read -/

/-- What a call reads: for which member, and of which type. -/
@[reducible]
def Read.field (read : Read) : Field := ⟨read.member, read.type⟩

namespace Scope

variable (Γ : Scope)

/-- A call to a reader that knows nothing besides the bytes. -/
def plainCall? : (read : Read) → Option (Unit → Step View (Γ.Value read.type))
  | .fixed _ type => (Γ.fixed? type).map fun c _ => WireForm.Reader.fixed c
  | .rest _ type => some fun _ => WireForm.Reader.rest (Γ.codec type)
  | _ => none

/-- A call to a reader that knows the width of lengths. -/
def flaggedCall? : (read : Read) → Option (LengthWidth → Step View (Γ.Value read.type))
  | .flagged _ type last => some fun w => WireForm.Reader.field w (Γ.codec type) last
  | _ => none

/-- A field of the length that stands at this place of a list. -/
def readAt {α : Type} (c : Codec α) (place : Nat) (lens : List Nat) : Step View α :=
  match lens[place]? with
  | none => Step.lift crash
  | some len => WireForm.Reader.sized c len

/-- A call to a reader that knows the lengths of all fields. -/
def sizedCall? : (read : Read) → Option (List Nat → Step View (Γ.Value read.type))
  | .sized _ type place => some (readAt (Γ.codec type) place)
  | _ => none

variable {κ : Type}

/-- Calls that read, one after the other, with what the reader knows. -/
def reading? (call? : (read : Read) → Option (κ → Step View (Γ.Value read.type))) :
    (reads : List Read) → Option (κ → Step View (Γ.Record (reads.map Read.field)))
  | [] => some fun _ => pure ()
  | read :: reads =>
    (call? read).bind fun first =>
      (reading? call? reads).map fun rest known => do
        let a ← first known
        let as ← rest known
        return (a, as)

/-- A literal of the record: a result for each of its fields, and none besides. -/
def literal? (call? : (read : Read) → Option (κ → Step View (Γ.Value read.type)))
    (self : List Field) (reads : List Read) : Option (κ → Step View (Γ.Record self)) :=
  if reads.length = self.length then
    (Γ.reading? call? reads).bind fun read =>
      (Γ.build? (reads.map Read.field) self).map fun build known => do return build (← read known)
  else none

/-! ### Sizes -/

/-- The sum of fixed sizes, if it is a machine word. -/
def total? (types : List Code) : Option Nat :=
  types.foldlM (fun total type => (Γ.fixed? type).bind fun c => Length.add? total c.size) 0

end Scope

/-! ### Implementations -/

/-- What has been implemented for a type. -/
structure Derived (α : Type) : Type 1 where
  /-- The packed form. -/
  packed : Option (PackedForm α) := none
  /-- The hybrid form. -/
  hybrid : Option (HybridForm α) := none
  /-- The dynamic form. -/
  dynamic : Option (DynamicForm α) := none
  /-- The mixed form. -/
  mixed : Option (MixedForm α) := none
  /-- The codec. -/
  codec : Option (Codec α) := none
  /-- The codec of a fixed size. -/
  fixed : Option (FixedCodec α) := none

namespace Scope

variable (Γ : Scope) {self : List Field}

/-- The size of all encodings of a type with these implementations. -/
def encodedSize? (derived : Derived (Γ.Record self)) : EncodedSize → Option (Option Nat)
  | .own => derived.packed.map fun f => some f.totalSize
  | .sumOf types => (Length.sum (types.map fun type => (Γ.codec type).size?)).toOption
  | .unknown => some none
  | .ofType type => some (Γ.codec type).size?
  | .fixedOf type => (Γ.fixed? type).map fun c => some c.size

/-- The fixed size of a type with these implementations. -/
def fixedSize? (derived : Derived (Γ.Record self)) : FixedSize → Option Nat
  | .own => derived.packed.map PackedForm.totalSize
  | .ofType type => (Γ.fixed? type).map FixedCodec.size

/-- The codec that the work is handed to. -/
def coding? (derived : Derived (Γ.Record self)) (size? : Option Nat) :
    Coding → Option (Codec (Γ.Record self))
  | .packed => derived.packed.map fun f => ⟨size?, f.append, f.decode⟩
  | .hybrid => derived.hybrid.map fun f => ⟨size?, f.write, f.decode⟩
  | .mixed size =>
    (Γ.width? size).bind fun w => derived.mixed.map fun f => ⟨size?, f.write w, f.decode w⟩
  | .dynamic size =>
    (Γ.width? size).bind fun w => derived.dynamic.map fun f => ⟨size?, f.append w, f.decode w⟩
  | .single field =>
    (Γ.select? field.member self).bind fun found =>
      (Γ.build? [field] self).map fun build =>
        ⟨size?, fun r => (Γ.codec found.1).append (found.2 r),
          fun bytes => do return build (← (Γ.codec field.type).decode bytes, ())⟩
  | .via _ | .variants _ _ _ => none

/-- How a value is stored in a slice. -/
def storage? (derived : Derived (Γ.Record self)) :
    Storing → Option (Γ.Record self → Bytes → Outcome Bytes)
  | .packed => derived.packed.map PackedForm.store
  | .single member =>
    (Γ.select? member self).bind fun found =>
      (Γ.fixed? found.1).map fun c r => c.store (found.2 r)
  | .via _ | .variants _ _ => none

/-- What there is after one more implementation. -/
def implement? (derived : Derived (Γ.Record self)) : Content → Option (Derived (Γ.Record self))
  | .packedForm types writes reads =>
    (Γ.total? types).bind fun total =>
      (Γ.storing? self writes).bind fun store =>
        (Γ.literal? Γ.plainCall? self reads).map fun read =>
          { derived with packed := some ⟨total, fun r => stored (store r), read ()⟩ }
  | .hybridForm head writes reads =>
    (Γ.total? head).bind fun total =>
      (Γ.appending? self writes).bind fun write =>
        (Γ.literal? Γ.plainCall? self reads).map fun read =>
          { derived with hybrid := some ⟨total, write, read ()⟩ }
  | .mixedForm writes reads =>
    (Γ.flagging? self writes).bind fun write =>
      (Γ.literal? Γ.flaggedCall? self reads).map fun read =>
        { derived with mixed := some ⟨write, read⟩ }
  | .dynamicForm count writes reads =>
    (Γ.encoding? self writes).bind fun encode =>
      (Γ.literal? Γ.sizedCall? self reads).map fun read =>
        { derived with dynamic := some ⟨count, encode, read⟩ }
  | .codec size coding =>
    (Γ.encodedSize? derived size).bind fun size? =>
      (Γ.coding? derived size? coding).map fun c => { derived with codec := some c }
  | .fixedCodec size storing =>
    derived.codec.bind fun c =>
      (Γ.fixedSize? derived size).bind fun size =>
        (Γ.storage? derived storing).map fun store =>
          { derived with fixed := some (c.fixed size store) }

/-- What there is after all implementations, each of which can rely on those in front of it. -/
def derived? (self : List Field) (impls : List Implementation) :
    Option (Derived (Γ.Record self)) :=
  impls.foldlM (fun derived impl => Γ.implement? derived impl.content) {}

end Scope

end WireForm.Derivation
