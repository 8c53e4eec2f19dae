import WireForm.Derivation.Item.Implementations
import WireForm.Proofs.Meaning
import WireForm.Proofs.Outcome

/-!
# Conditions on the types of fields

An implementation for a generic item asks for codecs of the types of its fields, but only of those
types that involve one of the item's type parameters. A type is code, and it involves a parameter if
the parameter's name stands anywhere in it, between brackets of any kind and at any depth. Lifetimes
and constants among the parameters are not looked for.

The conditions come behind those that the item is declared with, in the order of the fields. Each is
read again before it is added. What that comes to is what is written, and a condition that cannot
be read stops everything. The one thing that is known to get in the way is a constant in braces
among the arguments of a type: where it is written out, the braces are doubled.

## Main definitions

* `Occurs` — a name in code, at any depth
* `Generics.Involves` — code with the name of a type parameter in it
* `Condition.Readable` — conditions that can be added
* `Generics.predicates` — all conditions, as they are written

## Main results

* `Code.mentions_iff` — what the search through code finds
* `Generics.addBounds_eq_ok`, `Generics.addBounds_eq_error` — what is added, and what stops it
* `Generics.clause_eq` — how conditions are written
* `bounds_follow_type_parameters`
* `braces_stop_a_bound`
-/

namespace WireForm.Derivation

/-! ### Names in code -/

/-- The name occurs in the code, at some depth. -/
inductive Occurs (name : String) : Code → Prop where
  /-- It is one of the tokens. -/
  | here {code : Code} (h : .ident name ∈ code) : Occurs name code
  /-- It occurs in one of the groups. -/
  | inside {code content : Code} {delimiter : Delimiter} (h : .group delimiter content ∈ code)
    (occurs : Occurs name content) : Occurs name code

section Mentions

variable {names : List String} {name : String} {code : Code}

theorem Occurs.mono {more : Code} (h : Occurs name code) (hsub : code ⊆ more) :
    Occurs name more := by
  cases h with
  | here hmem => exact .here (hsub hmem)
  | inside hmem occurs => exact .inside (hsub hmem) occurs

theorem Code.mentions_of_mem {token : Token} (hmem : token ∈ code)
    (h : token.mentions names = true) : Code.mentions names code = true := by
  induction code with
  | nil => cases hmem
  | cons first rest ih =>
    rw [mentions, Bool.or_eq_true_iff]
    rcases List.mem_cons.mp hmem with rfl | hrest
    · exact .inl h
    · exact .inr (ih hrest)

theorem Code.mentions_of_occurs (hname : name ∈ names) (h : Occurs name code) :
    Code.mentions names code = true := by
  induction h with
  | here hmem => exact mentions_of_mem hmem (List.contains_iff_mem.mpr hname)
  | inside hmem _ ih => exact mentions_of_mem hmem ih

mutual

theorem Token.exists_occurs : (token : Token) → token.mentions names = true →
    ∃ name ∈ names, Occurs name [token]
  | .ident name, h =>
    ⟨name, List.contains_iff_mem.mp h, .here (List.mem_singleton_self _)⟩
  | .group _ content, h => by
    obtain ⟨name, hname, occurs⟩ := Code.exists_occurs content h
    exact ⟨name, hname, .inside (List.mem_singleton_self _) occurs⟩
  | .punct _ _, h => nomatch h
  | .literal _, h => nomatch h

theorem Code.exists_occurs : (code : Code) → Code.mentions names code = true →
    ∃ name ∈ names, Occurs name code
  | [], h => nomatch h
  | token :: rest, h => by
    rcases Bool.or_eq_true_iff.mp h with htoken | hrest
    · obtain ⟨name, hname, occurs⟩ := token.exists_occurs htoken
      exact ⟨name, hname, occurs.mono (by simp)⟩
    · obtain ⟨name, hname, occurs⟩ := Code.exists_occurs rest hrest
      exact ⟨name, hname, occurs.mono (List.subset_cons_self token rest)⟩

end

/-- The search through code finds the names that occur in it. -/
theorem Code.mentions_iff :
    Code.mentions names code = true ↔ ∃ name ∈ names, Occurs name code :=
  ⟨Code.exists_occurs code, fun ⟨_, hname, occurs⟩ => mentions_of_occurs hname occurs⟩

end Mentions

/-! ### Types that involve parameters -/

/-- The conditions can be read where they are added. -/
def Condition.Readable (c : Condition) : Prop :=
  ∃ code, Reader.condition.readAll c.code = .ok code

namespace Generics

/-- This is the name of one of the type parameters. -/
def HasTypeParam (g : Generics) (name : String) : Prop :=
  ∃ p ∈ g.params.elements, p.name = name ∧ ∃ bounds, p.kind = .type bounds

/-- The name of a type parameter occurs in the code. -/
def Involves (g : Generics) (code : Code) : Prop :=
  ∃ name, g.HasTypeParam name ∧ Occurs name code

variable {g g' : Generics} {bounded : List Condition} {c : Condition} {rejection : Rejection}

theorem mem_typeNames {name : String} : name ∈ g.typeNames ↔ g.HasTypeParam name := by
  rw [typeNames, List.mem_filterMap]
  refine exists_congr fun p => and_congr_right fun _ => ?_
  obtain ⟨attributes, ownName, kind⟩ := p
  cases kind <;> simp [Param.typeName?]

theorem mentions_typeNames {code : Code} :
    Code.mentions g.typeNames code = true ↔ g.Involves code := by
  simp only [Code.mentions_iff, mem_typeNames, Involves]

instance (g : Generics) (code : Code) : Decidable (g.Involves code) :=
  decidable_of_iff _ mentions_typeNames

theorem needed_eq (g : Generics) (bounded : List Condition) :
    g.needed bounded = bounded.filter fun c => g.Involves c.type :=
  List.filter_congr fun c _ => by
    rw [Bool.eq_iff_iff, mentions_typeNames, decide_eq_true_iff]

end Generics

namespace Condition

variable {c : Condition} {rejection : Rejection}

theorem reread_eq_ok {code : Code} :
    c.reread = .ok code ↔ Reader.condition.readAll c.code = .ok code :=
  Outcome.mapError_eq_ok

theorem reread_eq_error : c.reread = .error rejection ↔
    ∃ misread, Reader.condition.readAll c.code = .error misread ∧
      rejection = .unreadable misread := by
  rw [reread]
  cases Reader.condition.readAll c.code <;> simp [Except.mapError, eq_comm]

/-- What is written is what was read. -/
theorem Readable.written_eq (h : c.Readable) : Reader.condition.readAll c.code = .ok c.written := by
  obtain ⟨code, hcode⟩ := h
  rw [written, reread_eq_ok.mpr hcode, hcode]
  rfl

end Condition

/-! ### What is added -/

namespace Generics

variable {g g' : Generics} {bounded : List Condition} {rejection : Rejection}

/-- Conditions are added if all that involve a type parameter can be read. -/
theorem addBounds_eq_ok : g.addBounds bounded = .ok g' ↔
    (∀ c ∈ bounded, g.Involves c.type → c.Readable) ∧
      g' = { g with added := g.added ++ bounded.filter fun c => g.Involves c.type } := by
  rw [addBounds, Outcome.bind_eq_ok, needed_eq]
  simp only [Outcome.forM_discard_eq_ok, List.mem_filter, decide_eq_true_iff, and_imp,
    Condition.reread_eq_ok]
  exact ⟨fun ⟨_, hall, hadd⟩ => ⟨hall, (Except.ok.inj hadd).symm⟩,
    fun ⟨hall, hadd⟩ => ⟨⟨⟩, hall, congrArg _ hadd.symm⟩⟩

/-- The first of these that cannot be read stops everything. -/
theorem addBounds_eq_error : g.addBounds bounded = .error rejection ↔
    ∃ before c after misread, bounded = before ++ c :: after ∧
      (∀ b ∈ before, g.Involves b.type → b.Readable) ∧ g.Involves c.type ∧
      Reader.condition.readAll c.code = .error misread ∧ rejection = .unreadable misread := by
  rw [addBounds, needed_eq, bind_pure_comp]
  refine (Outcome.map_eq_error.trans Outcome.forM_discard_eq_error).trans ?_
  rw [Outcome.mapM_eq_error]
  simp only [Condition.reread_eq_ok, Condition.reread_eq_error]
  constructor
  · rintro ⟨needed, c, _, hneeded, hreadable, misread, hmisread, rfl⟩
    obtain ⟨first, _, rfl, rfl, hrest⟩ := List.filter_eq_append_iff.mp hneeded
    obtain ⟨others, after, rfl, hothers, hc, -⟩ := List.filter_eq_cons_iff.mp hrest
    refine ⟨first ++ others, c, after, misread, (List.append_assoc ..).symm,
      fun b hb hinvolves => ?_, of_decide_eq_true hc, hmisread, rfl⟩
    rcases List.mem_append.mp hb with hb | hb
    · exact hreadable b (List.mem_filter.mpr ⟨hb, decide_eq_true hinvolves⟩)
    · exact absurd (decide_eq_true hinvolves) (hothers b hb)
  · rintro ⟨before, c, after, misread, rfl, hreadable, hc, hmisread, rfl⟩
    refine ⟨before.filter fun c => g.Involves c.type, c, after.filter fun c => g.Involves c.type,
      ?_, fun b hb => ?_, misread, hmisread, rfl⟩
    · rw [List.filter_append, List.filter_cons_of_pos]
      exact decide_eq_true hc
    · obtain ⟨hb, hinvolves⟩ := List.mem_filter.mp hb
      exact hreadable b hb (of_decide_eq_true hinvolves)

/-- Without type parameters there is nothing to involve. -/
theorem addBounds_eq_self (h : ∀ name, ¬ g.HasTypeParam name) : g.addBounds bounded = .ok g := by
  have hnone (code : Code) : ¬ g.Involves code := fun ⟨name, hname, _⟩ => h name hname
  simp [addBounds_eq_ok, hnone]

/-- All conditions as they are written, those of the declaration first. -/
def predicates (g : Generics) : List Code := g.given.elements ++ g.added.map Condition.written

/-- Conditions are written with commas between them, behind one word. -/
theorem clause_eq (h : g.added ≠ []) :
    g.clause = .ident "where" :: Separated.code ⟨g.predicates, false⟩ comma id := by
  have hsome : (g.added.map Condition.written).isEmpty = false := by simpa using h
  have happend : g.given.append (g.added.map Condition.written) = ⟨g.predicates, false⟩ := by
    rw [Separated.append, if_neg (Bool.eq_false_iff.mp hsome), predicates]
  rw [clause, happend]
  simp [predicates, h]

end Generics

/-- **Conditions are added for the types that involve a type parameter, and for no others.** They
come behind those of the declaration, in the order of the fields, and each is written as what a
type, a colon and a bound are read as. For this all of them have to be readable. If one is not, the
first one that is not is what is reported.

Nothing is added where there are no type parameters, whatever the types and whatever other
parameters there are. For the hybrid form, the bound of the last field is a codec, and that of any
other field a codec of a fixed size. -/
theorem bounds_follow_type_parameters (g : Generics) (bounded : List Condition) :
    (∀ g', g.addBounds bounded = .ok g' ↔
      (∀ c ∈ bounded, g.Involves c.type → c.Readable) ∧
        g' = { g with added := g.added ++ bounded.filter fun c => g.Involves c.type }) ∧
    (∀ g', g.addBounds bounded = .ok g' → ∃ new : List Code,
      List.Forall₂ (fun c code =>
          Reader.condition.readAll (c.type ++ colon ++ c.bound.code) = .ok code)
        (bounded.filter fun c => g.Involves c.type) new ∧
      g'.predicates = g.predicates ++ new ∧
      (new = [] → g' = g) ∧
      (new ≠ [] →
        g'.clause = .ident "where" :: Separated.code ⟨g.predicates ++ new, false⟩ comma id)) ∧
    (∀ rejection, g.addBounds bounded = .error rejection ↔
      ∃ before c after misread, bounded = before ++ c :: after ∧
        (∀ b ∈ before, g.Involves b.type → b.Readable) ∧ g.Involves c.type ∧
        Reader.condition.readAll c.code = .error misread ∧ rejection = .unreadable misread) ∧
    ((∀ name, ¬ g.HasTypeParam name) → g.addBounds bounded = .ok g) ∧
    ∀ (name : String) (head : List Field) (last : Field),
      (hybridImplementations name g head last).map (List.map Implementation.generics) =
        (g.addBounds ((head.map fun field => ⟨field.type, .fixedCodec⟩) ++
          [⟨last.type, .codec⟩])).map fun g' => [g', g'] := by
  refine ⟨fun g' => Generics.addBounds_eq_ok, fun g' h => ?_,
    fun rejection => Generics.addBounds_eq_error, Generics.addBounds_eq_self,
    fun name head last => ?_⟩
  · obtain ⟨hreadable, rfl⟩ := Generics.addBounds_eq_ok.mp h
    refine ⟨(bounded.filter fun c => g.Involves c.type).map Condition.written, ?_, ?_, ?_, ?_⟩
    · rw [List.forall₂_map_right_iff, List.forall₂_same]
      intro c hc
      obtain ⟨hc, hinvolves⟩ := List.mem_filter.mp hc
      exact (hreadable c hc (of_decide_eq_true hinvolves)).written_eq
    · rw [Generics.predicates, Generics.predicates, List.map_append, List.append_assoc]
    · intro hnone
      rw [List.map_eq_nil_iff.mp hnone, List.append_nil]
    · intro hsome
      rw [Generics.clause_eq fun hnil => hsome (by simpa using (List.append_eq_nil_iff.mp hnil).2)]
      simp only [Generics.predicates, List.map_append, List.append_assoc]
  · show (hybridImplementations name g head last).map _ =
      (g.addBounds (head.map (Field.needs .fixedCodec) ++ [last.needs .codec])).map _
    rw [hybridImplementations]
    cases g.addBounds (head.map (Field.needs .fixedCodec) ++ [last.needs .codec]) <;> rfl

/-- A lifetime, a type that can be copied, and a number. -/
def blend : Generics where
  params :=
    ⟨[⟨[], "a", .lifetime []⟩, ⟨[], "T", .type []⟩, ⟨[], "N", .const [.ident "usize"]⟩], false⟩
  given := ⟨[.ident "T" :: colon ++ [.ident "Copy"]], true⟩
  added := []

/-- Arrays of pairs with an array in them, a type with the number, and the parameter itself: the
first and the last one get conditions. -/
theorem bounds_follow_type_parameters_at_blend :
    let array (type : Code) : Code := brackets (type ++ semicolon ++ [.literal "4"])
    let pairs : Condition :=
      ⟨array (parens (.ident "u8" :: comma ++ array [.ident "T"])), .fixedCodec⟩
    let numbered : Condition :=
      ⟨.ident "Foo" :: operator ['<'] ++ .ident "N" :: operator ['>'], .fixedCodec⟩
    let plain : Condition := ⟨[.ident "T"], .codec⟩
    blend.Involves pairs.type ∧ ¬ blend.Involves numbered.type ∧ blend.Involves plain.type ∧
      pairs.Readable ∧ plain.Readable ∧
      ∃ extended, blend.addBounds [pairs, numbered, plain] = .ok extended ∧
        extended.predicates =
          [.ident "T" :: colon ++ [.ident "Copy"], pairs.code, plain.code] := by
  intro array pairs numbered plain
  have hpairs : Reader.condition.readAll pairs.code = .ok pairs.code := by decide +kernel
  have hplain : Reader.condition.readAll plain.code = .ok plain.code := by decide +kernel
  have hnumbered : ¬ blend.Involves numbered.type := by decide
  have hneeded : ([pairs, numbered, plain].filter fun c => blend.Involves c.type) =
      [pairs, plain] := rfl
  obtain ⟨hadd, hwritten, -⟩ := bounds_follow_type_parameters blend [pairs, numbered, plain]
  have hextended := (hadd _).mpr ⟨?_, rfl⟩
  · obtain ⟨new, hnew, hpredicates, -⟩ := hwritten _ hextended
    rw [hneeded] at hnew
    obtain ⟨first, _, hfirst, hrest, rfl⟩ := List.forall₂_cons_left_iff.mp hnew
    obtain ⟨second, _, hsecond, hnil, rfl⟩ := List.forall₂_cons_left_iff.mp hrest
    obtain rfl := List.forall₂_nil_left_iff.mp hnil
    obtain rfl := Except.ok.inj (hpairs.symm.trans hfirst)
    obtain rfl := Except.ok.inj (hplain.symm.trans hsecond)
    exact ⟨by decide, hnumbered, by decide, ⟨_, hpairs⟩, ⟨_, hplain⟩, _, hextended, hpredicates⟩
  · simp only [List.forall_mem_cons, hnumbered, false_implies, List.not_mem_nil, implies_true,
      and_true, true_and]
    exact ⟨fun _ => ⟨_, hpairs⟩, fun _ => ⟨_, hplain⟩⟩

/-- The type of matrices with entries of a type parameter and this number of rows. -/
def matrix (count : Code) : Code :=
  .ident "Matrix" :: operator ['<'] ++ .ident "T" :: comma ++ count ++ operator ['>']

/-- **A constant in braces stops a bound.** The type is read with its braces doubled, it involves
the only type parameter, and no condition is added. -/
theorem braces_stop_a_bound :
    let g : Generics := ⟨⟨[⟨[], "T", .type []⟩], false⟩, .empty, []⟩
    let type := matrix (braces (braces [.literal "2"]))
    Reader.type.readAll (matrix (braces [.literal "2"])) = .ok type ∧ g.Involves type ∧
      g.addBounds [⟨type, .codec⟩] = .error (.unreadable .unsupported) := by
  intro g type
  have hread : Reader.type.readAll (matrix (braces [.literal "2"])) = .ok type := by
    decide +kernel
  have hmisread : Reader.condition.readAll (Condition.code ⟨type, .codec⟩) =
      .error .unsupported := by
    decide +kernel
  have hinvolves : g.Involves type := by decide
  exact ⟨hread, hinvolves, Generics.addBounds_eq_error.mpr
    ⟨[], _, [], .unsupported, rfl, nofun, hinvolves, hmisread, rfl⟩⟩

end WireForm.Derivation
