import WireForm.Proofs.Coincidence
import WireForm.Proofs.Meaning

/-!
# The forms that are made for records

The calls for a form go through the fields in the order of declaration, once to write and once to
read. Each of them names the member it is about, and what comes of that depends on the record as a
whole; but as no two fields have one member, the call for a field finds that field. So the calls do
what the form of the tuple does, field by field, and that is proved for the fields behind any others
of the record.

Results of a literal are put where the record has them by their members. When they were read in the
order of declaration, that changes nothing.

## Main definitions

* `Content.packedOf`, `Content.hybridOf`, `Content.mixedOf`, `Content.dynamicOf` — the
  implementations of the forms
* `Content.Visits` — all fields are written and read, in their order
* `Scope.Behind` — what is left of a record behind some of its fields
* `Scope.regroup` — a record with its last field apart

## Main results

* `Content.visits_packedOf`, `Content.visits_hybridOf`, `Content.visits_mixedOf`,
  `Content.visits_dynamicOf` — the order of the calls
* `Scope.literal?_eq` — a literal is read in the order of its calls
* `Scope.implement?_packed`, `Scope.implement?_hybrid`, `Scope.implement?_mixed`,
  `Scope.implement?_dynamic`, `Scope.implement?_single` — what the implementations mean
-/

namespace WireForm.Derivation

/-! ### The calls that are made -/

namespace Content

/-- The packed form of these fields. -/
def packedOf (fields : List Field) : Content :=
  .packedForm (fields.map Field.type) (fields.map fun field => .store field.member)
    (fields.map fun field => .fixed field.member field.type)

/-- The hybrid form of these fields. -/
def hybridOf (head : List Field) (last : Field) : Content :=
  .hybridForm (head.map Field.type)
    ((head.map fun field => .fixed field.member) ++ [.rest last.member])
    ((head.map fun field => .fixed field.member field.type) ++ [.rest last.member last.type])

/-- The mixed form of these fields. -/
def mixedOf (fields : List Field) : Content :=
  let flagged := fields.zip (lastFlags fields.length)
  .mixedForm (flagged.map fun p => .flagged p.1.member p.1.type p.2)
    (flagged.map fun p => .flagged p.1.member p.1.type p.2)

/-- The dynamic form of these fields. -/
def dynamicOf (fields : List Field) : Content :=
  .dynamicForm fields.length (fields.map fun field => .apart field.member)
    (fields.zipIdx.map fun p => .sized p.1.member p.1.type p.2)

end Content

theorem map_field_fixed (fields : List Field) :
    (fields.map fun field => Read.fixed field.member field.type).map Read.field = fields := by
  rw [List.map_map]
  exact List.map_id fields

theorem map_field_hybrid (head : List Field) (last : Field) :
    ((head.map fun field => Read.fixed field.member field.type) ++
      [Read.rest last.member last.type]).map Read.field = head ++ [last] := by
  rw [List.map_append, map_field_fixed]
  rfl

theorem length_lastFlags (count : Nat) : (lastFlags count).length = count := by
  rw [lastFlags, List.length_map, List.length_range]

theorem map_field_flagged (fields : List Field) :
    ((fields.zip (lastFlags fields.length)).map fun p =>
      Read.flagged p.1.member p.1.type p.2).map Read.field = fields := by
  rw [List.map_map]
  exact List.map_fst_zip (length_lastFlags fields.length).ge

theorem map_field_sized (fields : List Field) :
    (fields.zipIdx.map fun p => Read.sized p.1.member p.1.type p.2).map Read.field = fields := by
  rw [List.map_map]
  exact List.zipIdx_map_fst 0 fields

/-! ### Their order -/

namespace Content

/-- Whether an implementation is one of a form. -/
def isForm : Content → Bool
  | .packedForm .. | .hybridForm .. | .mixedForm .. | .dynamicForm .. => true
  | .codec .. | .fixedCodec .. => false

/-- The calls that write. -/
def writes : Content → List Write
  | .packedForm _ writes _ | .hybridForm _ writes _ | .mixedForm writes _
  | .dynamicForm _ writes _ => writes
  | .codec .. | .fixedCodec .. => []

/-- The calls that read. -/
def reads : Content → List Read
  | .packedForm _ _ reads | .hybridForm _ _ reads | .mixedForm _ reads
  | .dynamicForm _ _ reads => reads
  | .codec .. | .fixedCodec .. => []

end Content

/-- What a call writes: for which member, and of which type, which is that of the member in the
record unless the call names one. -/
def Write.field? (self : List Field) : Write → Option Field
  | .flagged member type _ => some ⟨member, type⟩
  | .store member | .fixed member | .rest member | .apart member =>
    self.find? fun field => field.member = member

/-- All fields are written and read, in their order, with their types. -/
structure Content.Visits (content : Content) (fields : List Field) : Prop where
  /-- The calls that write. -/
  writes_eq : content.writes.map (Write.field? fields) = fields.map some
  /-- The calls that read. -/
  reads_eq : content.reads.map Read.field = fields

theorem find?_member {fields : List Field} (hmembers : (fields.map Field.member).Nodup)
    {field : Field} (h : field ∈ fields) :
    fields.find? (fun other => other.member = field.member) = some field := by
  induction fields with
  | nil => cases h
  | cons first fields ih =>
    obtain ⟨hfirst, hrest⟩ := List.nodup_cons.mp hmembers
    rcases List.mem_cons.mp h with rfl | hmem
    · exact List.find?_cons_of_pos (decide_eq_true rfl)
    · have hne : first.member ≠ field.member := fun heq =>
        hfirst (heq ▸ List.mem_map_of_mem hmem)
      rw [List.find?_cons_of_neg (by simpa using hne)]
      exact ih hrest hmem

/-- Calls that name only the members of fields find these fields. -/
theorem map_find?_member {fields chosen : List Field} (hmembers : (fields.map Field.member).Nodup)
    (h : chosen ⊆ fields) :
    (chosen.map fun field => fields.find? fun other => other.member = field.member) =
      chosen.map some :=
  List.map_congr_left fun _ hfield => find?_member hmembers (h hfield)

namespace Content

variable {fields : List Field}

theorem visits_packedOf (hmembers : (fields.map Field.member).Nodup) :
    (packedOf fields).Visits fields where
  writes_eq := by
    rw [packedOf, writes, List.map_map]
    exact map_find?_member hmembers (List.Subset.refl fields)
  reads_eq := map_field_fixed fields

theorem visits_hybridOf {head : List Field} {last : Field}
    (hmembers : ((head ++ [last]).map Field.member).Nodup) :
    (hybridOf head last).Visits (head ++ [last]) where
  writes_eq := by
    rw [hybridOf, writes, List.map_append, List.map_map, List.map_append]
    have hhead := map_find?_member hmembers (List.subset_append_left head [last])
    have hlast := map_find?_member hmembers (List.subset_append_right head [last])
    exact congrArg₂ (· ++ ·) hhead hlast
  reads_eq := map_field_hybrid head last

theorem visits_mixedOf (fields : List Field) : (mixedOf fields).Visits fields where
  writes_eq := by
    rw [mixedOf, writes, List.map_map]
    conv_rhs => rw [← List.map_fst_zip (length_lastFlags fields.length).ge, List.map_map]
    rfl
  reads_eq := map_field_flagged fields

theorem visits_dynamicOf (hmembers : (fields.map Field.member).Nodup) :
    (dynamicOf fields).Visits fields where
  writes_eq := by
    rw [dynamicOf, writes, List.map_map]
    exact map_find?_member hmembers (List.Subset.refl fields)
  reads_eq := map_field_sized fields

end Content

namespace Scope

variable {Γ : Scope}

/-! ### Members of the value at hand -/

/-- Behind some fields of a record there are these, and `rest` gives them: a member of one of them
is found there. -/
structure Behind (Γ : Scope) (all fields : List Field) (rest : Γ.Record all → Γ.Record fields) :
    Prop where
  /-- Their members tell them apart. -/
  members : (fields.map Field.member).Nodup
  /-- None of the fields in front has a member of theirs. -/
  found : ∀ member ∈ fields.map Field.member, Γ.select? member all =
    (Γ.select? member fields).map fun found => ⟨found.1, fun r => found.2 (rest r)⟩

theorem behind_self {self : List Field} (hmembers : (self.map Field.member).Nodup) :
    Γ.Behind self self id where
  members := hmembers
  found member _ := by
    show Γ.select? member self = (Γ.select? member self).map id
    rw [Option.map_id_fun, id_eq]

section Behind

variable {self fields : List Field} {field : Field}
  {rest : Γ.Record self → Γ.Record (field :: fields)}

/-- The first of the fields is the one with its member. -/
theorem Behind.select?_eq (h : Γ.Behind self (field :: fields) rest) :
    Γ.select? field.member self = some ⟨field.type, fun r => (rest r).1⟩ := by
  rw [h.found field.member (List.mem_map_of_mem List.mem_cons_self), select?, if_pos rfl]
  rfl

/-- Behind it are the others. -/
theorem Behind.next (h : Γ.Behind self (field :: fields) rest) :
    Γ.Behind self fields fun r => (rest r).2 where
  members := (List.nodup_cons.mp h.members).2
  found member hmember := by
    have hne : field.member ≠ member := fun heq =>
      (List.nodup_cons.mp h.members).1 (heq ▸ hmember)
    rw [h.found member (List.mem_cons_of_mem _ hmember), select?, if_neg hne, Option.map_map]
    rfl

end Behind

/-! ### Literals -/

/-- Each field of a record given to its own member makes that record. -/
theorem build?_behind {self fields : List Field} {rest : Γ.Record self → Γ.Record fields}
    (h : Γ.Behind self fields rest) : Γ.build? self fields = some rest := by
  induction fields with
  | nil => rfl
  | cons field fields ih =>
    have hothers := ih h.next
    rw [build?, h.select?_eq, Option.bind_some, dif_pos rfl, hothers]
    rfl

variable {κ : Type} {call? : (read : Read) → Option (κ → Step View (Γ.Value read.type))}

/-- Calls that read the fields in the order of the record. -/
def inOrder? (Γ : Scope) (call? : (read : Read) → Option (κ → Step View (Γ.Value read.type))) :
    List Read → (fields : List Field) → Option (κ → Step View (Γ.Record fields))
  | [], [] => some fun _ => pure ()
  | read :: reads, field :: fields =>
    if h : read.type = field.type then
      (call? read).bind fun first =>
        (inOrder? Γ call? reads fields).map fun rest known => do
          let a ← first known
          let as ← rest known
          return (h ▸ a, as)
    else none
  | _, _ => none

theorem inOrder?_cons {read : Read} {reads : List Read} {field : Field} {fields : List Field}
    (h : read.type = field.type) :
    Γ.inOrder? call? (read :: reads) (field :: fields) =
      (call? read).bind fun first =>
        (Γ.inOrder? call? reads fields).map fun rest known => do
          let a ← first known
          let as ← rest known
          return (h ▸ a, as) := dif_pos h

theorem inOrder?_self (reads : List Read) :
    Γ.inOrder? call? reads (reads.map Read.field) = Γ.reading? call? reads := by
  induction reads with
  | nil => rfl
  | cons read reads ih =>
    show Γ.inOrder? call? (read :: reads) (read.field :: reads.map Read.field) = _
    rw [inOrder?_cons rfl, ih]
    rfl

/-- A literal that gives the fields in their order is read in that order. -/
theorem literal?_eq {reads : List Read} {self : List Field} (hreads : reads.map Read.field = self)
    (hmembers : (self.map Field.member).Nodup) :
    Γ.literal? call? self reads = Γ.inOrder? call? reads self := by
  subst hreads
  rw [literal?, if_pos (List.length_map _).symm, build?_behind (behind_self hmembers),
    inOrder?_self]
  cases Γ.reading? call? reads with
  | none => rfl
  | some read => exact congrArg some (funext fun known => bind_pure (read known))

/-! ### Packed -/

theorem inOrder?_fixed (fields : List Field) :
    Γ.inOrder? Γ.plainCall? (fields.map fun field => .fixed field.member field.type) fields =
      (Γ.fixedCodecs? fields).map fun fixeds _ => Tuple.readFixed fixeds := by
  induction fields with
  | nil => rfl
  | cons field fields ih =>
    rw [List.map_cons, inOrder?_cons rfl, ih, plainCall?, fixedCodecs?]
    cases Γ.fixed? field.type with
    | none => rfl
    | some c => cases Γ.fixedCodecs? fields <;> rfl

theorem storing?_behind {self fields : List Field} {rest : Γ.Record self → Γ.Record fields}
    (h : Γ.Behind self fields rest) :
    Γ.storing? self (fields.map fun field => .store field.member) =
      (Γ.fixedCodecs? fields).map fun fixeds r => Tuple.put fixeds (rest r) := by
  induction fields with
  | nil => rfl
  | cons field fields ih =>
    have hothers := ih h.next
    rw [List.map_cons, storing?, h.select?_eq, Option.bind_some, fixedCodecs?, hothers]
    cases Γ.fixed? field.type with
    | none => rfl
    | some c => cases Γ.fixedCodecs? fields <;> rfl

/-! ### Hybrid -/

/-- The last field of a record apart from the others. -/
def splitLast (Γ : Scope) (last : Field) :
    (head : List Field) → Γ.Record (head ++ [last]) → Γ.Record head × Γ.Value last.type
  | [], r => ((), r.1)
  | _ :: head, r =>
    let rest := splitLast Γ last head r.2
    ((r.1, rest.1), rest.2)

/-- The last field of a record behind the others. -/
def joinLast (Γ : Scope) (last : Field) :
    (head : List Field) → Γ.Record head × Γ.Value last.type → Γ.Record (head ++ [last])
  | [], p => (p.2, ())
  | _ :: head, p => (p.1.1, joinLast Γ last head (p.1.2, p.2))

/-- A record has the values of the pairs of its last field and the others. -/
def regroup (Γ : Scope) (head : List Field) (last : Field) :
    Iso (Γ.Record (head ++ [last])) (Γ.Record head × Γ.Value last.type) where
  forth := Γ.splitLast last head
  back := Γ.joinLast last head
  back_forth r := by
    induction head with
    | nil => rfl
    | cons field head ih => exact Prod.ext rfl (ih r.2)
  forth_back p := by
    induction head with
    | nil => rfl
    | cons field head ih =>
      obtain ⟨⟨a, as⟩, b⟩ := p
      rw [joinLast, splitLast, ih (as, b)]

/-- A hybrid record, with its values as the record has them. -/
def hybrid (Γ : Scope) (head : List Field) (last : Field) (fixeds : FixedCodecs (Γ.Record head)) :
    HybridForm (Γ.Record (head ++ [last])) :=
  (Tuple.hybrid fixeds (Γ.codec last.type)).imap (Γ.regroup head last)

theorem read_hybrid_nil (last : Field) : (Γ.hybrid [] last .nil).read = (do
    let b ← WireForm.Reader.rest (Γ.codec last.type)
    return (b, ())) := by
  simp only [hybrid, HybridForm.imap, Tuple.hybrid, Tuple.readFixed, bind_assoc, pure_bind]
  rfl

theorem read_hybrid_cons {field : Field} {head : List Field} (last : Field)
    (c : FixedCodec (Γ.Value field.type)) (fixeds : FixedCodecs (Γ.Record head)) :
    (Γ.hybrid (field :: head) last (.cons c fixeds)).read = (do
      let a ← WireForm.Reader.fixed c
      let as ← (Γ.hybrid head last fixeds).read
      return (a, as)) := by
  simp only [hybrid, HybridForm.imap, Tuple.hybrid, Tuple.readFixed, bind_assoc, pure_bind]
  rfl

theorem write_hybrid_cons {field : Field} {head : List Field} (last : Field)
    (c : FixedCodec (Γ.Value field.type)) (fixeds : FixedCodecs (Γ.Record head))
    (r : Γ.Record ((field :: head) ++ [last])) :
    (Γ.hybrid (field :: head) last (.cons c fixeds)).write r = (do
      c.appendFixed r.1
      (Γ.hybrid head last fixeds).write r.2) :=
  bind_assoc (c.appendFixed r.1) _ _

theorem inOrder?_hybrid (head : List Field) (last : Field) :
    Γ.inOrder? Γ.plainCall?
        ((head.map fun field => .fixed field.member field.type) ++ [.rest last.member last.type])
        (head ++ [last]) =
      (Γ.fixedCodecs? head).map fun fixeds _ => (Γ.hybrid head last fixeds).read := by
  induction head with
  | nil =>
    refine (inOrder?_cons rfl).trans (congrArg some (funext fun _ => ?_))
    exact (read_hybrid_nil last).symm
  | cons field head ih =>
    show Γ.inOrder? Γ.plainCall? (.fixed field.member field.type ::
      ((head.map fun field => .fixed field.member field.type) ++ [.rest last.member last.type]))
      (field :: (head ++ [last])) = _
    rw [inOrder?_cons rfl, ih, plainCall?, fixedCodecs?]
    cases Γ.fixed? field.type with
    | none => rfl
    | some c =>
      cases Γ.fixedCodecs? head with
      | none => rfl
      | some fixeds =>
        exact congrArg some (funext fun _ => (read_hybrid_cons last c fixeds).symm)

theorem appending?_behind {self head : List Field} {last : Field}
    {rest : Γ.Record self → Γ.Record (head ++ [last])}
    (h : Γ.Behind self (head ++ [last]) rest) :
    Γ.appending? self ((head.map fun field => .fixed field.member) ++ [.rest last.member]) =
      (Γ.fixedCodecs? head).map fun fixeds r => (Γ.hybrid head last fixeds).write (rest r) := by
  induction head with
  | nil =>
    show Γ.appending? self [.rest last.member] = _
    rw [appending?, h.select?_eq]
    rfl
  | cons field head ih =>
    have hothers := ih h.next
    show Γ.appending? self (.fixed field.member ::
      ((head.map fun field => .fixed field.member) ++ [.rest last.member])) = _
    rw [appending?, h.select?_eq, Option.bind_some, fixedCodecs?, hothers]
    cases Γ.fixed? field.type with
    | none => rfl
    | some c =>
      cases Γ.fixedCodecs? head with
      | none => rfl
      | some fixeds =>
        exact congrArg some (funext fun r => (write_hybrid_cons last c fixeds (rest r)).symm)

/-! ### Mixed -/

theorem inOrder?_flagged (fields : List Field) {flags : List Bool}
    (hflags : flags.length = fields.length) :
    Γ.inOrder? Γ.flaggedCall?
        ((fields.zip flags).map fun p => .flagged p.1.member p.1.type p.2) fields =
      some fun w => Record.readFlagged w (Γ.codecs fields) flags := by
  induction fields generalizing flags with
  | nil => rfl
  | cons field fields ih =>
    cases flags with
    | nil => cases hflags
    | cons flag flags =>
      rw [List.zip_cons_cons, List.map_cons, inOrder?_cons rfl, ih (Nat.succ.inj hflags)]
      rfl

theorem flagging?_behind {self fields : List Field} {rest : Γ.Record self → Γ.Record fields}
    (h : Γ.Behind self fields rest) {flags : List Bool} (hflags : flags.length = fields.length) :
    Γ.flagging? self
        ((fields.zip flags).map fun p => .flagged p.1.member p.1.type p.2) =
      some fun w r => Record.writeFlagged w (Γ.codecs fields) flags (rest r) := by
  induction fields generalizing flags with
  | nil => rfl
  | cons field fields ih =>
    cases flags with
    | nil => cases hflags
    | cons flag flags =>
      have hothers := ih h.next (Nat.succ.inj hflags)
      rw [List.zip_cons_cons, List.map_cons, flagging?, h.select?_eq, Option.bind_some, if_pos rfl,
        hothers]
      rfl

/-! ### Dynamic -/

theorem inOrder?_sized (fields : List Field) (place : Nat) :
    Γ.inOrder? Γ.sizedCall?
        ((fields.zipIdx place).map fun p => .sized p.1.member p.1.type p.2)
        fields =
      some fun lens => Tuple.readSized lens place (Γ.codecs fields) := by
  induction fields generalizing place with
  | nil => rfl
  | cons field fields ih =>
    rw [List.zipIdx_cons, List.map_cons, inOrder?_cons rfl, ih (place + 1)]
    refine congrArg some (funext fun lens => ?_)
    show (do
      let a ← readAt (Γ.codec field.type) place lens
      let as ← Tuple.readSized lens (place + 1) (Γ.codecs fields)
      return (a, as)) = Tuple.readSized lens place (Γ.codecs (field :: fields))
    rw [codecs, Tuple.readSized, readAt]
    cases lens[place]? <;> rfl

theorem encoding?_behind {self fields : List Field} {rest : Γ.Record self → Γ.Record fields}
    (h : Γ.Behind self fields rest) :
    Γ.encoding? self (fields.map fun field => .apart field.member) =
      some fun r => Tuple.encodeFields (Γ.codecs fields) (rest r) := by
  induction fields with
  | nil => rfl
  | cons field fields ih =>
    have hothers := ih h.next
    rw [List.map_cons, encoding?, h.select?_eq, Option.bind_some, hothers]
    rfl

/-! ### Sizes -/

theorem fixedCodecs?_cons {field : Field} {fields : List Field}
    {fixeds : FixedCodecs (Γ.Record (field :: fields))}
    (h : Γ.fixedCodecs? (field :: fields) = some fixeds) :
    ∃ c rest, Γ.fixed? field.type = some c ∧ Γ.fixedCodecs? fields = some rest ∧
      fixeds = .cons c rest := by
  obtain ⟨c, hc, h⟩ := Option.bind_eq_some_iff.mp h
  obtain ⟨rest, hrest, h⟩ := Option.bind_eq_some_iff.mp h
  exact ⟨c, rest, hc, hrest, (Option.some.inj h).symm⟩

theorem keepLength_of_fixedCodecs? {fields : List Field} {fixeds : FixedCodecs (Γ.Record fields)}
    (h : Γ.fixedCodecs? fields = some fixeds) : fixeds.KeepLength := by
  induction fields with
  | nil =>
    rw [← Option.some.inj h]
    trivial
  | cons field fields ih =>
    obtain ⟨c, rest, hc, hrest, rfl⟩ := fixedCodecs?_cons h
    exact ⟨Γ.keepsLength hc, ih hrest⟩

theorem total?_eq {fields : List Field} {fixeds : FixedCodecs (Γ.Record fields)}
    (h : Γ.fixedCodecs? fields = some fixeds) (hword : fixeds.totalSize < wordLimit) :
    Γ.total? (fields.map Field.type) = some fixeds.totalSize := by
  suffices hfrom : ∀ total, total + fixeds.totalSize < wordLimit →
      (fields.map Field.type).foldlM
          (fun total type => (Γ.fixed? type).bind fun c => Length.add? total c.size) total =
        some (total + fixeds.totalSize) by
    rw [total?, hfrom 0 (by omega), Nat.zero_add]
  -- The code starts the sum at zero; behind the first field it goes on from the size of that field.
  induction fields with
  | nil =>
    intro total _
    rw [← Option.some.inj h]
    rfl
  | cons field fields ih =>
    intro total htotal
    obtain ⟨c, rest, hc, hrest, rfl⟩ := fixedCodecs?_cons h
    rw [FixedCodecs.totalSize, ← Nat.add_assoc] at htotal ⊢
    rw [FixedCodecs.totalSize] at hword
    have hadd : Length.add? total c.size = some (total + c.size) := if_pos (by omega)
    rw [List.map_cons, List.foldlM_cons, hc, Option.bind_some, hadd]
    exact ih hrest (by omega) (total + c.size) htotal

theorem sizes_codecs (fields : List Field) :
    (Γ.codecs fields).sizes =
      (fields.map Field.type).map fun type => (Γ.codec type).size? := by
  induction fields with
  | nil => rfl
  | cons field fields ih => rw [codecs, Codecs.sizes, ih]; rfl

theorem count_codecs (fields : List Field) : (Γ.codecs fields).count = fields.length := by
  induction fields with
  | nil => rfl
  | cons field fields ih => rw [codecs, Codecs.count, ih, List.length_cons]

/-- The sum that the code forms, where it is a machine word, is the sum. -/
theorem encodedSize?_fields {self : List Field} (derived : Derived (Γ.Record self))
    {fields : List Field} {size? : Option Nat}
    (hsum : Length.sum (Γ.codecs fields).sizes = .ok size?) :
    Γ.encodedSize? derived (sizeOfFields fields) =
      some (Length.total? (Γ.codecs fields).sizes) := by
  rw [sizeOfFields, encodedSize?, ← sizes_codecs, hsum, ← Length.sum_eq_ok hsum]
  rfl

/-! ### Implementations -/

/-- A packed record that is stored through a window. -/
def packed (Γ : Scope) {fields : List Field} (fixeds : FixedCodecs (Γ.Record fields)) :
    PackedForm (Γ.Record fields) where
  totalSize := fixeds.totalSize
  store r := stored (Tuple.put fixeds r)
  read := Tuple.readFixed fixeds

theorem implement?_packed {fields : List Field} {fixeds : FixedCodecs (Γ.Record fields)}
    (hmembers : (fields.map Field.member).Nodup) (hfixeds : Γ.fixedCodecs? fields = some fixeds)
    (hword : fixeds.totalSize < wordLimit) (derived : Derived (Γ.Record fields)) :
    Γ.implement? derived (.packedOf fields) =
      some { derived with packed := some (Γ.packed fixeds) } := by
  rw [Content.packedOf, implement?, total?_eq hfixeds hword, Option.bind_some,
    storing?_behind (behind_self hmembers), hfixeds, Option.map_some, Option.bind_some,
    literal?_eq (map_field_fixed fields) hmembers, inOrder?_fixed, hfixeds]
  rfl

theorem implement?_hybrid {head : List Field} {last : Field}
    {fixeds : FixedCodecs (Γ.Record head)} (hmembers : ((head ++ [last]).map Field.member).Nodup)
    (hfixeds : Γ.fixedCodecs? head = some fixeds) (hword : fixeds.totalSize < wordLimit)
    (derived : Derived (Γ.Record (head ++ [last]))) :
    Γ.implement? derived (.hybridOf head last) =
      some { derived with hybrid := some (Γ.hybrid head last fixeds) } := by
  rw [Content.hybridOf, implement?, total?_eq hfixeds hword, Option.bind_some,
    appending?_behind (behind_self hmembers), hfixeds, Option.map_some,
    Option.bind_some, literal?_eq (map_field_hybrid head last) hmembers, inOrder?_hybrid, hfixeds]
  rfl

theorem implement?_mixed {fields : List Field} (hmembers : (fields.map Field.member).Nodup)
    (derived : Derived (Γ.Record fields)) :
    Γ.implement? derived (.mixedOf fields) =
      some { derived with mixed := some (Tuple.mixed (Γ.codecs fields)) } := by
  have hflags := length_lastFlags fields.length
  rw [Content.mixedOf, implement?, flagging?_behind (behind_self hmembers) hflags,
    Option.bind_some, literal?_eq (map_field_flagged fields) hmembers,
    inOrder?_flagged fields hflags, Option.map_some, ← Record.mixed_eq_tuple, Record.mixed,
    count_codecs]
  rfl

theorem implement?_dynamic {fields : List Field} (hmembers : (fields.map Field.member).Nodup)
    (derived : Derived (Γ.Record fields)) :
    Γ.implement? derived (.dynamicOf fields) =
      some { derived with dynamic := some (Tuple.dynamic (Γ.codecs fields)) } := by
  rw [Content.dynamicOf, implement?, encoding?_behind (behind_self hmembers),
    Option.bind_some, literal?_eq (map_field_sized fields) hmembers, inOrder?_sized,
    Option.map_some, Tuple.dynamic, count_codecs]
  rfl

theorem behind_single (field : Field) : Γ.Behind [field] [field] id :=
  behind_self (List.pairwise_singleton _ _)

/-- A single field is encoded as itself. -/
theorem implement?_single (field : Field) (derived : Derived (Γ.Record [field])) :
    Γ.implement? derived (.codec (.ofType field.type) (.single field)) =
      some { derived with codec := some ((Γ.codec field.type).imap (Iso.single _)) } := by
  have hbehind := behind_single (Γ := Γ) field
  rw [implement?, encodedSize?, Option.bind_some, coding?, hbehind.select?_eq, Option.bind_some,
    build?_behind hbehind]
  have hdecode : (fun bytes => do return id (← (Γ.codec field.type).decode bytes, ())) =
      ((Γ.codec field.type).imap (Iso.single _)).decode := by
    funext bytes
    show (Γ.codec field.type).decode bytes >>= (fun a => Except.ok (a, ())) =
      ((Γ.codec field.type).decode bytes).map fun a => (a, ())
    cases (Γ.codec field.type).decode bytes <;> rfl
  rw [Option.map_some, hdecode]
  rfl

/-- And it is stored as itself. -/
theorem implement?_storeSingle {field : Field} {c : FixedCodec (Γ.Value field.type)}
    (hc : Γ.fixed? field.type = some c) {derived : Derived (Γ.Record [field])}
    (hcodec : derived.codec = some ((Γ.codec field.type).imap (Iso.single _))) :
    Γ.implement? derived (.fixedCodec (.ofType field.type) (.single field.member)) =
      some { derived with fixed := some (c.imap (Iso.single _)) } := by
  rw [implement?, hcodec, Option.bind_some, fixedSize?, hc, Option.map_some, Option.bind_some,
    storage?, (behind_single field).select?_eq, Option.bind_some, hc, ← Γ.toCodec_eq hc]
  rfl

end Scope

end WireForm.Derivation
