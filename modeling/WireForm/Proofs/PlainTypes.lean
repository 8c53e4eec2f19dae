import WireForm.Proofs.CodeReading
import WireForm.Proofs.FieldBounds

/-!
# Plain types

Most types are paths, with types for arguments or without, tuples of types, and arrays with a
literal or a name for their length. Such a type is read as it is written, whatever stands behind it
that cannot belong to it. So a condition on it can be read again and is written as it was put
together, and conditions on types of this kind are added to an implementation as they are.

A type is read by readers that were made for code of its size. Those of what is inside of it are
made for less, and what is inside of it is smaller.

## Main definitions

* `IsPlain` — paths, tuples and arrays, as they are written
* `EndsType` — what can stand behind them
* `Inner.Keeps` — readers that take a type as it is written

## Main results

* `IsPlain.keeps`, `IsPlain.readAll_type` — plain types are read as they are written
* `Condition.readAll_of_isPlain` — and so are conditions on them
* `Generics.addBounds_of_isPlain` — which are added as they are
-/

namespace WireForm.Derivation

/-! ### Types and what is around them -/

/-- A name that can stand for a type. The keyword of bounds that are not known before the program
runs is a name anywhere else. -/
def namesType (word : String) : Bool := isName word && word != "dyn"

/-- Types in angle brackets. -/
def angled (types : List Code) : Code :=
  operator ['<'] ++ (Separated.code ⟨types, false⟩ comma id ++ operator ['>'])

/-- A name with these types in angle brackets, if there are any. -/
def applied (name : String) (types : List Code) : Segment :=
  ⟨name, if types.isEmpty then [] else angled types, types.isEmpty⟩

/-- A path to a name in some modules, with these types in angle brackets, if there are any. -/
def pathTo (modules : List String) (name : String) (types : List Code) : Path :=
  ⟨[], false, modules.map (applied · []) ++ [applied name types]⟩

/-- The token is a literal or a name, which the length of an array can be. -/
inductive IsLength : Token → Prop where
  | literal {text : String} (h : (Literal.kind? text).isSome) : IsLength (.literal text)
  | name {word : String} (h : namesType word = true) : IsLength (.ident word)

/-- The code is a path, a tuple or an array, and so is all that it is made of. -/
inductive IsPlain : Code → Prop where
  /-- A path, with types for arguments. -/
  | path {modules : List String} {name : String} {types : List Code}
    (hmodules : ∀ word ∈ modules, namesType word = true) (hname : namesType name = true)
    (htypes : ∀ type ∈ types, IsPlain type) : IsPlain (pathTo modules name types).code
  /-- Types in round brackets, with a comma behind the last one or without. -/
  | tuple {elements : List Code} (helements : ∀ element ∈ elements, IsPlain element)
    (trailing : Bool) : IsPlain (parens (Separated.code ⟨elements, trailing⟩ comma id))
  /-- A type and how often it occurs, in square brackets. -/
  | array {element : Code} (helement : IsPlain element) {length : Token}
    (hlength : IsLength length) : IsPlain (brackets (element ++ semicolon ++ [length]))

/-- A path, a tuple or an array ends here. -/
structure EndsType (rest : Code) : Prop where
  /-- No segment follows. -/
  startsColons_eq : rest.startsColons = false
  /-- No arguments follow in round brackets. -/
  startsParen_eq : rest.startsGroup .paren = false
  /-- Neither do arguments in angle brackets, those of a macro, or another bound. -/
  startsMark_eq : ∀ mark ∈ ['<', '!', '+'], rest.startsMark mark = false

theorem endsType_nil : EndsType [] := ⟨rfl, rfl, fun _ _ => rfl⟩

theorem EndsType.startsArguments_eq {rest : Code} (h : EndsType rest) :
    Path.startsArguments true rest = false := by
  rw [Path.startsArguments, h.startsColons_eq, h.startsMark_eq '<' (by decide)]
  rfl

/-- Any other mark by itself ends a type. -/
theorem endsType_of_mark {mark : Char} (h : mark ∉ ['<', '!', '+']) (rest : Code) :
    EndsType (.punct mark false :: rest) := by
  refine ⟨?_, rfl, fun other hother => ?_⟩
  · rw [Code.startsColons, Code.startsMarks, Bool.and_false]
    rfl
  · refine beq_eq_false_iff_ne.mpr ?_
    rintro rfl
    exact h hother

/-! ### Words and marks in front -/

section Front

variable {word : String} {code rest : Code}

theorem isName_of_namesType (h : namesType word = true) : isName word = true :=
  (Bool.and_eq_true_iff.mp h).1

/-- A name is none of the words that stand for something else. -/
theorem startsWord_of_namesType (h : namesType word = true) {words : List String}
    (hwords : words ⊆ "dyn" :: keywords) (rest : Code) :
    Code.startsWord words (.ident word :: rest) = false := by
  refine Bool.eq_false_iff.mpr fun hcontains => ?_
  obtain ⟨hname, hother⟩ := Bool.and_eq_true_iff.mp h
  rcases List.mem_cons.mp (hwords (List.contains_iff_mem.mp hcontains)) with rfl | hmem
  · cases hother
  · rw [isName, List.contains_iff_mem.mpr hmem] at hname
    cases hname

theorem code_pathTo_nil (name : String) (types : List Code) :
    (pathTo [] name types).code = (applied name types).code := by
  simp [pathTo, Path.code]

theorem code_pathTo_cons (first : String) (modules : List String) (name : String)
    (types : List Code) : (pathTo (first :: modules) name types).code =
      .ident first :: (operator [':', ':'] ++ (pathTo modules name types).code) := by
  cases modules <;> simp [pathTo, Path.code, Segment.code, applied]

/-- Code that begins with a name, or is in round or square brackets, as plain types are. -/
inductive BeginsPlain : Code → Prop where
  /-- It begins with a name. -/
  | name {word : String} (hname : namesType word = true) (rest : Code) :
    BeginsPlain (.ident word :: rest)
  /-- It begins with brackets. -/
  | group {delimiter : Delimiter} (hbrace : delimiter ≠ .brace) (inside rest : Code) :
    BeginsPlain (.group delimiter inside :: rest)

theorem exists_pathTo_eq {modules : List String} {name : String} (types : List Code)
    (hmodules : ∀ word ∈ modules, namesType word = true) (hname : namesType name = true)
    (rest : Code) :
    ∃ first behind, namesType first = true ∧
      (pathTo modules name types).code ++ rest = .ident first :: behind := by
  cases modules with
  | nil => exact ⟨name, _, hname, by rw [code_pathTo_nil]; rfl⟩
  | cons first modules =>
    exact ⟨first, _, (List.forall_mem_cons.mp hmodules).1, by rw [code_pathTo_cons]; rfl⟩

theorem begins_pathTo {modules : List String} {name : String} (types : List Code)
    (hmodules : ∀ word ∈ modules, namesType word = true) (hname : namesType name = true)
    (rest : Code) :
    BeginsPlain ((pathTo modules name types).code ++ rest) := by
  obtain ⟨first, behind, hfirst, hcode⟩ := exists_pathTo_eq types hmodules hname rest
  rw [hcode]
  exact .name hfirst behind

theorem IsPlain.begins (h : IsPlain code) (rest : Code) : BeginsPlain (code ++ rest) := by
  cases h with
  | path hmodules hname _ => exact begins_pathTo _ hmodules hname rest
  | tuple _ _ => exact .group (by decide) _ _
  | array _ _ => exact .group (by decide) _ _

theorem IsPlain.ne_nil (h : IsPlain code) : code ≠ [] := by
  rintro rfl
  cases h.begins []

namespace BeginsPlain

theorem startsWord_eq (h : BeginsPlain code) {words : List String}
    (hwords : words ⊆ "dyn" :: keywords) : code.startsWord words = false := by
  cases h with
  | name hname rest => exact startsWord_of_namesType hname hwords rest
  | group _ _ _ => rfl

theorem startsMark_eq (h : BeginsPlain code) (mark : Char) : code.startsMark mark = false := by
  cases h <;> rfl

theorem startsColons_eq (h : BeginsPlain code) : code.startsColons = false := by
  cases h <;> rfl

theorem startsLifetime_eq (h : BeginsPlain code) : code.startsLifetime = false := by
  cases h <;> rfl

theorem isEmpty_eq (h : BeginsPlain code) : code.isEmpty = false := by
  cases h <;> rfl

theorem startsBrace_eq (h : BeginsPlain code) : code.startsGroup .brace = false := by
  cases h with
  | name _ _ => rfl
  | group hbrace _ _ => exact beq_eq_false_iff_ne.mpr hbrace

end BeginsPlain

end Front

/-! ### Parts that are not there -/

namespace Reader

variable {α : Type} {code rest : Code} {a : α}

theorem gives_optional_of_not {wanted : Code → Bool} {reader : Reader Code}
    (h : wanted code = false) : Gives (optional wanted reader) code [] code := by
  rw [optional, gives_get_bind, if_neg (Bool.eq_false_iff.mp h)]
  exact gives_pure.mpr ⟨rfl, rfl⟩

theorem gives_optional {wanted : Code → Bool} {reader : Reader Code} {front : Code}
    (h : wanted code = true) (hgives : Gives reader code front rest) :
    Gives (optional wanted reader) code front rest := by
  rw [optional, gives_get_bind, if_pos h]
  exact hgives

theorem gives_binder_of_begins (h : BeginsPlain code) : Gives binder code [] code :=
  gives_optional_of_not (h.startsWord_eq (by decide))

theorem gives_literal?_of_begins (h : BeginsPlain code) : Gives literal? code none code := by
  cases h with
  | @name word hname rest =>
    have hwords : ["true", "false"] ⊆ "dyn" :: keywords := by decide
    have hword := startsWord_of_namesType hname hwords rest
    rw [literal?, gives_get_bind]
    exact gives_ite.mpr ((if_neg (Bool.eq_false_iff.mp hword)).mpr (gives_pure.mpr ⟨rfl, rfl⟩))
  | group _ _ _ => exact gives_pure.mpr ⟨rfl, rfl⟩

end Reader

/-! ### Arguments -/

/-- The readers inside take this type as it is written. -/
def Inner.Keeps (inner : Inner) (type : Code) : Prop :=
  ∀ sums rest, EndsType rest →
    ∃ bound, Reader.Gives (inner.type sums) (type ++ rest) ⟨type, bound⟩ rest

theorem Inner.Keeps.gives_sum {inner : Inner} {type rest : Code} (h : inner.Keeps type)
    (hrest : EndsType rest) : Reader.Gives inner.sum (type ++ rest) type rest := by
  obtain ⟨bound, hgives⟩ := h true rest hrest
  exact Reader.gives_map.mpr ⟨⟨type, bound⟩, hgives, rfl⟩

namespace Reader

variable {α : Type} {element : Reader α} {write : α → Code} {as : List α} {stop : Code → Bool}
  {rest : Code} {fuel : Nat}

/-- A list is read as it is written, if that is so for its elements in front of a comma and in front
of what stands behind the list. -/
theorem gives_separatedWithin_code (trailing : Bool) (hrest : rest.startsMark ',' = false)
    (hstop : stop rest = true) (hstart : ∀ a ∈ as, ∀ behind, stop (write a ++ behind) = false)
    (hcomma : ∀ a ∈ as, ∀ behind, Gives element (write a ++ (comma ++ behind)) a (comma ++ behind))
    (hlast : ∀ a ∈ as, Gives element (write a ++ rest) a rest) (hfuel : as.length < fuel) :
    Gives (separatedWithin ',' stop element fuel)
      (Separated.code ⟨as, trailing⟩ comma write ++ rest) ⟨as, trailing && !as.isEmpty⟩ rest := by
  induction as generalizing fuel with
  | nil =>
    obtain ⟨fuel, rfl⟩ := Nat.exists_eq_add_of_lt hfuel
    refine (gives_separatedWithin_of_stop hstop).mpr ⟨?_, rfl⟩
    simp [Separated.empty]
  | cons a as ih =>
    obtain ⟨fuel, rfl⟩ : ∃ n, fuel = n + 1 := ⟨fuel - 1, by omega⟩
    rw [List.length_cons] at hfuel
    obtain ⟨hstartFirst, hstartOthers⟩ := List.forall_mem_cons.mp hstart
    obtain ⟨hcommaFirst, hcommaOthers⟩ := List.forall_mem_cons.mp hcomma
    obtain ⟨hlastFirst, hlastOthers⟩ := List.forall_mem_cons.mp hlast
    have hothers := @ih fuel hstartOthers hcommaOthers hlastOthers (by omega)
    rcases Separated.more_or_last as trailing with hmore | ⟨rfl, rfl⟩
    · rw [Separated.code_cons _ _ hmore, List.append_assoc, List.append_assoc]
      refine (gives_separatedWithin_succ (hstartFirst _)).mpr ⟨a, _, hcommaFirst _,
        .inl ⟨false, _, _, rfl, hothers, ?_⟩⟩
      cases as with
      | nil => simp_all [Separated.cons]
      | cons _ _ => simp [Separated.cons]
    · rw [Separated.code_singleton]
      exact (gives_separatedWithin_succ (hstartFirst _)).mpr
        ⟨a, rest, hlastFirst, .inr ⟨hrest, rfl, rfl⟩⟩

end Reader

/-- What follows the name of a path is no value for it. -/
theorem IsPlain.startsValue_eq {code rest : Code} (h : IsPlain code)
    (hrest : rest.startsMark '=' = false) :
    ((code ++ rest).startsName && (code ++ rest).skip.startsMark '=') = false := by
  cases h with
  | @path modules name types _ _ _ =>
    cases modules with
    | nil =>
      rw [code_pathTo_nil]
      cases types with
      | nil => exact Bool.and_eq_false_imp.mpr fun _ => hrest
      | cons _ _ => exact Bool.and_false _
    | cons first modules =>
      rw [code_pathTo_cons]
      exact Bool.and_false _
  | tuple _ _ => rfl
  | array _ _ => rfl

namespace Reader

variable {inner : Inner} {code rest : Code}

/-- An argument without a name is a type. -/
theorem gives_readArgument (h : IsPlain code) (hkeeps : inner.Keeps code) (hrest : EndsType rest)
    (hvalue : rest.startsMark '=' = false) :
    Gives (Path.readArgument inner) (code ++ rest) ⟨false, code⟩ rest := by
  have hbegins := h.begins rest
  have hplain : Gives (Path.readPlainArgument inner) (code ++ rest) code rest := by
    rw [Path.readPlainArgument, gives_get_bind,
      if_neg (Bool.eq_false_iff.mp (h.startsValue_eq hvalue))]
    refine (gives_literal?_of_begins hbegins).bind ?_
    rw [if_neg (Bool.eq_false_iff.mp hbegins.startsBrace_eq)]
    exact hkeeps.gives_sum hrest
  rw [Path.readArgument, gives_get_bind, hbegins.startsLifetime_eq]
  exact hplain.bind (gives_pure.mpr ⟨rfl, rfl⟩)

/-- Types in angle brackets are read as they are written. -/
theorem gives_readArguments {types : List Code} (htypes : ∀ type ∈ types, IsPlain type)
    (hkeeps : ∀ type ∈ types, inner.Keeps type) :
    Gives (Path.readArguments inner) (angled types ++ rest) (angled types, types.isEmpty) rest := by
  have hcomma (behind : Code) : EndsType (comma ++ behind) :=
    endsType_of_mark (by decide) behind
  have hclosing : EndsType (operator ['>'] ++ rest) := endsType_of_mark (by decide) rest
  have hlist : Gives (separated ',' (Code.startsMark '>') (Path.readArgument inner))
      (Separated.code ⟨types, false⟩ comma id ++ (operator ['>'] ++ rest))
      ⟨types.map (Path.Argument.mk false), false⟩ (operator ['>'] ++ rest) := by
    rw [separated, gives_get_bind]
    have hcode : Separated.code ⟨types, false⟩ comma id =
        Separated.code ⟨types.map (Path.Argument.mk false), false⟩ comma Path.Argument.code :=
      (Separated.code_map comma Path.Argument.code (Path.Argument.mk false) types false).symm
    have hlength := Separated.length_le_length_code comma id
      (fun type htype => (htypes type htype).ne_nil) false
    rw [hcode]
    refine gives_separatedWithin_code false rfl rfl ?_ ?_ ?_ ?_
    · intro argument hargument behind
      obtain ⟨type, htype, rfl⟩ := List.mem_map.mp hargument
      exact ((htypes type htype).begins behind).startsMark_eq '>'
    · intro argument hargument behind
      obtain ⟨type, htype, rfl⟩ := List.mem_map.mp hargument
      exact gives_readArgument (htypes type htype) (hkeeps type htype) (hcomma behind) rfl
    · intro argument hargument
      obtain ⟨type, htype, rfl⟩ := List.mem_map.mp hargument
      exact gives_readArgument (htypes type htype) (hkeeps type htype) hclosing rfl
    · rw [List.length_map, ← hcode, List.length_append]
      omega
  rw [Path.readArguments, angled, List.append_assoc, List.append_assoc]
  refine (gives_optional_of_not rfl).bind ?_
  refine (gives_mark.mpr ⟨false, rfl, rfl⟩).bind (hlist.bind ?_)
  refine (gives_mark.mpr ⟨false, rfl, rfl⟩).bind (gives_pure.mpr ⟨?_, rfl⟩)
  rw [Separated.lifetimesFirst_of_none, Separated.code_map]
  · rw [List.isEmpty_map]
    rfl
  · intro argument hargument
    obtain ⟨_, _, rfl⟩ := List.mem_map.mp hargument
    rfl

/-! ### Paths -/

/-- A segment without arguments. -/
theorem gives_readSegment_bare {word : String} (hname : namesType word = true) {inType : Bool}
    (hrest : Path.startsArguments inType rest = false) :
    Gives (Path.readSegment inner inType) (.ident word :: rest) (applied word []) rest := by
  have hword {words : List String} (hwords : words ⊆ "dyn" :: keywords) :=
    startsWord_of_namesType hname hwords rest
  rw [Path.readSegment, gives_get_bind, if_neg (Bool.eq_false_iff.mp (hword (by decide))),
    gives_get_bind, if_neg (Bool.eq_false_iff.mp (hword (by decide)))]
  refine (gives_name.mpr ⟨isName_of_namesType hname, rfl⟩).bind ?_
  rw [gives_get_bind, if_neg (Bool.eq_false_iff.mp hrest)]
  exact gives_pure.mpr ⟨rfl, rfl⟩

/-- Angle brackets right behind a name are arguments of it. -/
theorem gives_readSegment_angled {word : String} (hname : namesType word = true) {types : List Code}
    (htypes : ∀ type ∈ types, IsPlain type) (hkeeps : ∀ type ∈ types, inner.Keeps type) :
    Gives (Path.readSegment inner true) (.ident word :: (angled types ++ rest))
      ⟨word, angled types, types.isEmpty⟩ rest := by
  have hword {words : List String} (hwords : words ⊆ "dyn" :: keywords) :=
    startsWord_of_namesType hname hwords (angled types ++ rest)
  have hstarts : Path.startsArguments true (angled types ++ rest) = true := rfl
  rw [Path.readSegment, gives_get_bind, if_neg (Bool.eq_false_iff.mp (hword (by decide))),
    gives_get_bind, if_neg (Bool.eq_false_iff.mp (hword (by decide)))]
  refine (gives_name.mpr ⟨isName_of_namesType hname, rfl⟩).bind ?_
  rw [gives_get_bind, if_pos hstarts]
  exact (gives_readArguments htypes hkeeps).bind (gives_pure.mpr ⟨rfl, rfl⟩)

theorem gives_readMore_of_ends (hrest : EndsType rest) (toCall : Bool) (fuel : Nat) :
    Gives (Path.readMore inner true toCall fuel) rest [] rest := by
  cases fuel with
  | zero => exact gives_pure.mpr ⟨rfl, rfl⟩
  | succ fuel =>
    rw [Path.readMore, gives_get_bind, hrest.startsColons_eq]
    exact gives_pure.mpr ⟨rfl, rfl⟩

/-- A path that is not called is all there is. -/
theorem gives_readCalled (hrest : EndsType rest) (path : Path) :
    Gives (path.readCalled inner) rest path rest := by
  have hcall : Path.startsCall rest = false := by
    rw [Path.startsCall, hrest.startsParen_eq, hrest.startsColons_eq]
    rfl
  rw [Path.readCalled, gives_get_bind, hcall, Bool.and_false]
  exact gives_pure.mpr ⟨rfl, rfl⟩

theorem gives_colons (rest : Code) :
    Gives colons (operator [':', ':'] ++ rest) (operator [':', ':']) rest :=
  gives_marks.mpr ⟨rfl, rfl, rfl⟩

theorem skip_colons (rest : Code) : Code.skip (Code.skip (operator [':', ':'] ++ rest)) = rest := by
  rcases rest with _ | ⟨_ | _ | _ | _, _⟩ <;> rfl

/-- Behind a double colon there are no arguments if there is another segment. -/
theorem startsArguments_colons (h : BeginsPlain rest) :
    Path.startsArguments true (operator [':', ':'] ++ rest) = false := by
  rw [Path.startsArguments, skip_colons, h.startsMark_eq]
  rfl

theorem length_lt_pathTo (modules : List String) (name : String) (types : List Code) :
    modules.length < (pathTo modules name types).code.length := by
  induction modules with
  | nil =>
    rw [code_pathTo_nil]
    exact Nat.zero_lt_succ _
  | cons first modules ih =>
    rw [code_pathTo_cons, List.length_cons, List.length_cons, List.length_append]
    omega

section Path

variable {modules : List String} {word : String} {types : List Code}
  (hmodules : ∀ word ∈ modules, namesType word = true) (hname : namesType word = true)
  (htypes : ∀ type ∈ types, IsPlain type) (hkeeps : ∀ type ∈ types, inner.Keeps type)
  (hrest : EndsType rest)

include hname htypes hkeeps hrest

/-- The last segment of a path. -/
theorem gives_readSegment_applied :
    Gives (Path.readSegment inner true) ((applied word types).code ++ rest) (applied word types)
      rest := by
  cases types with
  | nil => exact gives_readSegment_bare hname hrest.startsArguments_eq
  | cons first types => exact gives_readSegment_angled hname htypes hkeeps

include hmodules

/-- Behind a double colon there is the rest of a path. -/
theorem gives_readMore {fuel : Nat} (hfuel : modules.length < fuel) :
    Gives (Path.readMore inner true true fuel)
      (operator [':', ':'] ++ ((pathTo modules word types).code ++ rest))
      (pathTo modules word types).segments rest := by
  induction modules generalizing fuel with
  | nil =>
    obtain ⟨fuel, rfl⟩ := Nat.exists_eq_add_of_lt hfuel
    have hcolons := gives_colons ((pathTo [] word types).code ++ rest)
    rw [code_pathTo_nil] at hcolons ⊢
    rw [Path.readMore, gives_get_bind]
    refine hcolons.bind ((gives_readSegment_applied hname htypes hkeeps hrest).bind ?_)
    refine (gives_readMore_of_ends hrest true _).bind ?_
    exact gives_pure.mpr ⟨rfl, rfl⟩
  | cons first modules ih =>
    obtain ⟨hfirst, hothers⟩ := List.forall_mem_cons.mp hmodules
    obtain ⟨fuel, rfl⟩ : ∃ n, fuel = n + 1 := ⟨fuel - 1, by omega⟩
    rw [List.length_cons] at hfuel
    have hcolons := gives_colons ((pathTo (first :: modules) word types).code ++ rest)
    have hbare := startsArguments_colons (begins_pathTo types hothers hname rest)
    rw [code_pathTo_cons, List.cons_append, List.append_assoc] at hcolons ⊢
    rw [Path.readMore, gives_get_bind]
    refine hcolons.bind ((gives_readSegment_bare hfirst hbare).bind ?_)
    exact (ih hothers (by omega)).bind (gives_pure.mpr ⟨rfl, rfl⟩)

/-- The segments of a path are read as they are written. -/
theorem gives_readSegments :
    Gives (Path.readSegments inner true true) ((pathTo modules word types).code ++ rest)
      (pathTo modules word types).segments rest := by
  rw [Path.readSegments]
  cases modules with
  | nil =>
    rw [code_pathTo_nil]
    refine (gives_readSegment_applied hname htypes hkeeps hrest).bind ?_
    rw [gives_get_bind]
    exact (gives_readMore_of_ends hrest true _).bind (gives_pure.mpr ⟨rfl, rfl⟩)
  | cons first modules =>
    obtain ⟨hfirst, hothers⟩ := List.forall_mem_cons.mp hmodules
    have hbare := startsArguments_colons (begins_pathTo types hothers hname rest)
    have hlength := length_lt_pathTo modules word types
    rw [code_pathTo_cons, List.cons_append, List.append_assoc]
    refine (gives_readSegment_bare hfirst hbare).bind ?_
    rw [gives_get_bind]
    refine (gives_readMore hothers hname htypes hkeeps hrest ?_).bind (gives_pure.mpr ⟨rfl, rfl⟩)
    rw [List.length_append, List.length_append]
    omega

/-- A path without anything in front of it. -/
theorem gives_read : Gives (Path.read inner true) ((pathTo modules word types).code ++ rest)
    (pathTo modules word types) rest := by
  have hbegins := begins_pathTo types hmodules hname rest
  rw [Path.read]
  refine (gives_optional_of_not hbegins.startsColons_eq).bind ?_
  refine (gives_readSegments hmodules hname htypes hkeeps hrest).bind ?_
  exact gives_pure.mpr ⟨rfl, rfl⟩

/-- A path with nothing behind it is one bound. -/
theorem gives_namedType (sums : Bool) :
    Gives (namedType inner sums []) ((pathTo modules word types).code ++ rest)
      (.ofBound (pathTo modules word types).code) rest := by
  have hbegins := begins_pathTo types hmodules hname rest
  have hany : Gives (Path.readAny inner true) ((pathTo modules word types).code ++ rest)
      (pathTo modules word types) rest := by
    rw [Path.readAny, gives_get_bind, if_neg (Bool.eq_false_iff.mp (hbegins.startsMark_eq '<'))]
    exact gives_read hmodules hname htypes hkeeps hrest
  have hqualified : (pathTo modules word types).isQualified = false := rfl
  rw [namedType]
  refine hany.bind ((gives_readCalled hrest _).bind ?_)
  rw [hqualified, if_neg Bool.false_ne_true, gives_get_bind, hrest.startsMark_eq '!' (by decide),
    hrest.startsMark_eq '+' (by decide), Bool.and_false]
  exact gives_pure.mpr ⟨rfl, rfl⟩

end Path

/-! ### Types -/

section Types

variable {sums : Bool} {type : ReadType}

/-- The kind of a type in brackets is told from the brackets. -/
theorem gives_typeWith_group {delimiter : Delimiter} (hbrace : delimiter ≠ .brace) {inside : Code}
    (h : Gives (if delimiter = .paren then typeInParens inner sums else arrayType inner)
      (.group delimiter inside :: rest) type rest) :
    Gives (typeWith inner sums) (.group delimiter inside :: rest) type rest := by
  have hbegins : BeginsPlain (.group delimiter inside :: rest) := .group hbrace inside rest
  rw [typeWith, gives_get_bind]
  refine (gives_binder_of_begins hbegins).bind ?_
  cases delimiter with
  | paren => exact h
  | bracket => exact h
  | brace => exact absurd rfl hbrace

/-- A type that begins with a name is a path. -/
theorem gives_typeWith_name {word : String} (hname : namesType word = true) {behind : Code}
    (h : Gives (namedType inner sums []) (.ident word :: behind) type rest) :
    Gives (typeWith inner sums) (.ident word :: behind) type rest := by
  have hbegins : BeginsPlain (.ident word :: behind) := .name hname behind
  have hstarts : startsPath (.ident word :: behind) = true := by
    rw [startsPath, Code.startsName, isName_of_namesType hname]
    rfl
  rw [typeWith, gives_get_bind]
  refine (gives_binder_of_begins hbegins).bind ?_
  rw [gives_get_bind, List.isEmpty_nil, Bool.not_true, Bool.false_and, if_neg Bool.false_ne_true,
    hbegins.startsWord_eq (by decide), if_neg Bool.false_ne_true,
    hbegins.startsWord_eq (by decide), if_neg Bool.false_ne_true, hstarts]
  exact h

/-- In round brackets there is a type, maybe with others behind it. -/
theorem gives_bracketed_of_begins (h : BeginsPlain code) {first : ReadType} {behind : Code}
    (hfirst : Gives (inner.type true) code first behind) {found : Bracketed}
    (hfound : Gives (do
      if (← get).startsMark ',' then
        let separator ← mark ','
        let more ← commas inner.sum
        return .type (first.code ++ separator ++ more.code comma id)
      else
        return match first.bound with
          | some bound => .either first.code bound
          | none => .type first.code) behind found rest) :
    Gives (bracketed inner) code found rest := by
  rw [bracketed, gives_get_bind, h.isEmpty_eq, h.startsLifetime_eq, h.startsMark_eq]
  exact hfirst.bind hfound

/-- Types with commas between them are read as they are written. -/
theorem gives_commas_sum {elements : List Code} (hplain : ∀ element ∈ elements, IsPlain element)
    (hkeeps : ∀ element ∈ elements, inner.Keeps element) (trailing : Bool) :
    Gives (commas inner.sum) (Separated.code ⟨elements, trailing⟩ comma id)
      ⟨elements, trailing && !elements.isEmpty⟩ [] := by
  rw [gives_commas, ← List.append_nil (Separated.code _ _ _)]
  refine gives_separatedWithin_code trailing rfl rfl ?_ ?_ ?_ ?_
  · exact fun element helement behind => ((hplain element helement).begins behind).isEmpty_eq
  · exact fun element helement behind =>
      (hkeeps element helement).gives_sum (endsType_of_mark (by decide) behind)
  · exact fun element helement => (hkeeps element helement).gives_sum endsType_nil
  · rw [List.append_nil]
    exact Nat.lt_succ_of_le (Separated.length_le_length_code comma id
      (fun element helement => (hplain element helement).ne_nil) trailing)

/-- What is in round brackets is read as it is written. -/
theorem gives_bracketed {elements : List Code} (hplain : ∀ element ∈ elements, IsPlain element)
    (hkeeps : ∀ element ∈ elements, inner.Keeps element) (trailing : Bool) :
    ∃ found, Gives (bracketed inner) (Separated.code ⟨elements, trailing⟩ comma id) found [] ∧
      (found = .type (Separated.code ⟨elements, trailing⟩ comma id) ∨
        ∃ bound, found = .either (Separated.code ⟨elements, trailing⟩ comma id) bound) := by
  cases elements with
  | nil => exact ⟨.type [], gives_pure.mpr ⟨rfl, rfl⟩, .inl rfl⟩
  | cons first others =>
    obtain ⟨hplainFirst, hplainOthers⟩ := List.forall_mem_cons.mp hplain
    obtain ⟨hkeepsFirst, hkeepsOthers⟩ := List.forall_mem_cons.mp hkeeps
    -- One type by itself is told from several by the comma behind the first.
    rcases Separated.more_or_last others trailing with hmore | ⟨rfl, rfl⟩
    · have hlist := gives_commas_sum hplainOthers hkeepsOthers trailing
      have hcode : Separated.code ⟨others, trailing && !others.isEmpty⟩ comma id =
          Separated.code ⟨others, trailing⟩ comma id := by
        cases others with
        | nil => rfl
        | cons _ _ => rw [List.isEmpty_cons, Bool.not_false, Bool.and_true]
      obtain ⟨bound, hfirst⟩ := hkeepsFirst true
        (comma ++ Separated.code ⟨others, trailing⟩ comma id) (endsType_of_mark (by decide) _)
      rw [Separated.code_cons _ _ hmore]
      refine ⟨_, gives_bracketed_of_begins (hplainFirst.begins _) hfirst ?_, .inl rfl⟩
      rw [gives_get_bind]
      refine (gives_mark.mpr ⟨false, rfl, rfl⟩).bind (hlist.bind (gives_pure.mpr ⟨?_, rfl⟩))
      rw [hcode, List.append_assoc]
      rfl
    · have hbegins := hplainFirst.begins []
      obtain ⟨bound, hfirst⟩ := hkeepsFirst true [] endsType_nil
      rw [List.append_nil] at hbegins hfirst
      rw [Separated.code_singleton, id]
      cases bound with
      | none =>
        exact ⟨_, gives_bracketed_of_begins hbegins hfirst (gives_pure.mpr ⟨rfl, rfl⟩), .inl rfl⟩
      | some bound =>
        exact ⟨_, gives_bracketed_of_begins hbegins hfirst (gives_pure.mpr ⟨rfl, rfl⟩),
          .inr ⟨bound, rfl⟩⟩

theorem gives_typeInParens {elements : List Code} (hplain : ∀ element ∈ elements, IsPlain element)
    (hkeeps : ∀ element ∈ elements, inner.Keeps element) (trailing : Bool)
    (hrest : rest.startsMark '+' = false) :
    Gives (typeInParens inner sums)
      (.group .paren (Separated.code ⟨elements, trailing⟩ comma id) :: rest)
      (.plain (parens (Separated.code ⟨elements, trailing⟩ comma id))) rest := by
  obtain ⟨found, hfound, hcode⟩ := gives_bracketed hplain hkeeps trailing
  rw [typeInParens]
  refine (gives_group.mpr ⟨_, rfl, readAll_eq_ok.mpr hfound⟩).bind ?_
  rcases hcode with rfl | ⟨bound, rfl⟩
  · exact gives_pure.mpr ⟨rfl, rfl⟩
  · rw [gives_get_bind, hrest, Bool.and_false]
    exact gives_pure.mpr ⟨rfl, rfl⟩

theorem gives_atom_of_isLength {length : Token} (h : IsLength length) :
    Gives (atom inner) [length] [length] [] := by
  cases h with
  | @literal text htext =>
    have hliteral : Gives literal? [.literal text] (some [.literal text]) [] := by
      rw [literal?, gives_get_bind]
      exact gives_ite.mpr ((if_pos htext).mpr (gives_pure.mpr ⟨rfl, rfl⟩))
    exact hliteral.bind (gives_pure.mpr ⟨rfl, rfl⟩)
  | @name word hword =>
    have hstarts : Code.startsName [.ident word] = true := isName_of_namesType hword
    have hsegment : Gives (Path.readSegment inner false) [.ident word] (applied word []) [] :=
      gives_readSegment_bare hword rfl
    have hsegments : Gives (Path.readSegments inner false true) [.ident word] [applied word []]
        [] := hsegment.bind (gives_pure.mpr ⟨rfl, rfl⟩)
    have hpath : Gives (Path.read inner false) [.ident word] (pathTo [] word []) [] :=
      (gives_optional_of_not rfl).bind (hsegments.bind (gives_pure.mpr ⟨rfl, rfl⟩))
    have hany : Gives (Path.readAny inner false) [.ident word] (pathTo [] word []) [] := hpath
    refine (gives_literal?_of_begins (.name hword [])).bind ?_
    rw [gives_get_bind]
    have hparen : ¬ Code.startsGroup .paren [.ident word] = true := nofun
    refine gives_ite.mpr ((if_neg hparen).mpr (gives_ite.mpr ((if_pos ?_).mpr ?_)))
    · rw [hstarts]
      rfl
    · exact hany.bind (gives_pure.mpr ⟨code_pathTo_nil word [], rfl⟩)

/-- A length is an expression. -/
theorem gives_expression_of_isLength {length : Token} (h : IsLength length) :
    Gives (expression inner) [length] [length] [] := by
  have htrailers : Gives (trailers inner 0) [] [] [] := gives_pure.mpr ⟨rfl, rfl⟩
  have hoperations : Gives (operations inner 1) [] [] [] := gives_pure.mpr ⟨rfl, rfl⟩
  have hoperand : Gives (operand inner 2) [length] [length] [] := by
    rw [operand, gives_get_bind]
    have hnone : ['*', '!', '-'].find? (fun op => Code.startsMark op [length]) = none := by
      cases h <;> rfl
    rw [hnone]
    refine (gives_atom_of_isLength h).bind ?_
    rw [gives_get_bind]
    exact htrailers.bind (gives_pure.mpr ⟨rfl, rfl⟩)
  rw [expression, gives_get_bind]
  refine hoperand.bind ?_
  exact hoperations.bind (gives_pure.mpr ⟨rfl, rfl⟩)

theorem gives_arrayType {element : Code} (hkeeps : inner.Keeps element) {length : Token}
    (hexpression : Gives inner.expression [length] [length] []) :
    Gives (arrayType inner) (.group .bracket (element ++ semicolon ++ [length]) :: rest)
      (.plain (brackets (element ++ semicolon ++ [length]))) rest := by
  have hsemicolon : EndsType (semicolon ++ [length]) := endsType_of_mark (by decide) [length]
  have hlength : Gives (optional (Code.startsMark ';') do
      return (← mark ';') ++ (← inner.expression)) (semicolon ++ [length])
      (semicolon ++ [length]) [] :=
    gives_optional rfl
      ((gives_mark.mpr ⟨false, rfl, rfl⟩).bind (hexpression.bind (gives_pure.mpr ⟨rfl, rfl⟩)))
  rw [List.append_assoc, arrayType]
  refine (gives_group.mpr ⟨_, rfl, readAll_eq_ok.mpr ?_⟩).bind (gives_pure.mpr ⟨rfl, rfl⟩)
  refine (hkeeps.gives_sum hsemicolon).bind ?_
  exact hlength.bind (gives_pure.mpr ⟨rfl, rfl⟩)

end Types

end Reader

/-! ### Depth -/

theorem Code.size_append (front behind : Code) :
    Code.size (front ++ behind) = front.size + behind.size := by
  induction front with
  | nil => exact (Nat.zero_add _).symm
  | cons token front ih => rw [List.cons_append, Code.size, Code.size, ih, Nat.add_assoc]

/-- No element is larger than the list. -/
theorem Separated.size_le_size_code {α : Type} (separator : Code) (write : α → Code) {as : List α}
    {a : α} (h : a ∈ as) (trailing : Bool) :
    (write a).size ≤ (Separated.code ⟨as, trailing⟩ separator write).size := by
  induction as with
  | nil => cases h
  | cons first as ih =>
    rcases Separated.more_or_last as trailing with hmore | ⟨rfl, rfl⟩
    · rw [code_cons _ _ hmore, Code.size_append, Code.size_append]
      rcases List.mem_cons.mp h with rfl | hmem
      · omega
      · have hle := ih hmem
        omega
    · rw [List.mem_singleton.mp h, code_singleton]

theorem size_lt_size_pathTo (modules : List String) (name : String) {types : List Code}
    {type : Code} (h : type ∈ types) : type.size < (pathTo modules name types).code.size := by
  induction modules with
  | nil =>
    have hle := Separated.size_le_size_code comma id h false
    have hcode : (pathTo [] name types).code = .ident name :: angled types := by
      rw [code_pathTo_nil, applied, if_neg (by simp [List.ne_nil_of_mem h])]
      rfl
    rw [hcode, Code.size, angled, Code.size_append, Code.size_append]
    have hmark : Code.size (operator ['<']) = 1 := by decide
    rw [id] at hle
    omega
  | cons first modules ih =>
    rw [code_pathTo_cons, Code.size, Code.size_append]
    omega

theorem size_pathTo_pos (modules : List String) (name : String) (types : List Code) :
    0 < (pathTo modules name types).code.size := by
  cases modules with
  | nil =>
    rw [code_pathTo_nil, Segment.code, Code.size, Token.size]
    omega
  | cons first modules =>
    rw [code_pathTo_cons, Code.size, Token.size]
    omega

/-- **Plain types are kept as they are written**, by readers that go deep enough. -/
theorem IsPlain.keeps {code : Code} (h : IsPlain code) {depth : Nat} (hdepth : code.size ≤ depth) :
    (Inner.ofDepth depth).Keeps code := by
  -- What is inside of the type is smaller, so that readers of one depth less take it.
  induction h generalizing depth with
  | @path modules name types hmodules hname htypes ih =>
    intro sums rest hrest
    have hpos := size_pathTo_pos modules name types
    obtain ⟨depth, rfl⟩ : ∃ n, depth = n + 1 := ⟨depth - 1, by omega⟩
    have hkeeps (type : Code) (htype : type ∈ types) : (Inner.ofDepth depth).Keeps type := by
      have hlt := size_lt_size_pathTo modules name htype
      exact ih type htype (by omega)
    have hnamed := Reader.gives_namedType hmodules hname htypes hkeeps hrest sums
    obtain ⟨first, behind, hfirst, hcode⟩ := exists_pathTo_eq types hmodules hname rest
    rw [hcode] at hnamed ⊢
    exact ⟨_, Reader.gives_typeWith_name hfirst hnamed⟩
  | @tuple elements helements trailing ih =>
    intro sums rest hrest
    rw [parens, Code.size, Token.size, Code.size] at hdepth
    obtain ⟨depth, rfl⟩ : ∃ n, depth = n + 1 := ⟨depth - 1, by omega⟩
    have hkeeps (element : Code) (helement : element ∈ elements) :
        (Inner.ofDepth depth).Keeps element := by
      have hle := Separated.size_le_size_code comma id helement trailing
      rw [id] at hle
      exact ih element helement (by omega)
    have hplus := hrest.startsMark_eq '+' (by decide)
    exact ⟨none, Reader.gives_typeWith_group (by decide)
      (Reader.gives_typeInParens helements hkeeps trailing hplus)⟩
  | @array element helement length hlength ih =>
    intro sums rest hrest
    rw [brackets, Code.size, Token.size, Code.size_append, Code.size_append] at hdepth
    have hsemicolon : Code.size semicolon = 1 := by decide
    obtain ⟨depth, rfl⟩ : ∃ n, depth = n + 2 := ⟨depth - 2, by omega⟩
    exact ⟨none, Reader.gives_typeWith_group (by decide)
      (Reader.gives_arrayType (ih (by omega)) (Reader.gives_expression_of_isLength hlength))⟩

/-! ### Types and conditions that are read again -/

/-- The readers of what is inside go as deep as the code does. -/
theorem Reader.gives_inner_bind {β : Type} {f : Inner → Reader β} {code rest : Code} {b : β} :
    Gives (inner >>= f) code b rest ↔ Gives (f (Inner.ofDepth (code.size + 1))) code b rest := by
  have hinner (a : Inner) (behind : Code) : Gives inner code a behind ↔
      Inner.ofDepth (code.size + 1) = a ∧ code = behind := by
    rw [inner, gives_get_bind, gives_pure]
  simp only [gives_bind, hinner]
  constructor
  · rintro ⟨_, _, ⟨rfl, rfl⟩, h⟩
    exact h
  · exact fun h => ⟨_, _, ⟨rfl, rfl⟩, h⟩

/-- A plain type is read as it is written. -/
theorem IsPlain.readAll_type {code : Code} (h : IsPlain code) :
    Reader.type.readAll code = .ok code := by
  have hread := (h.keeps (Nat.le_succ _)).gives_sum endsType_nil
  rw [List.append_nil] at hread
  rw [Reader.readAll_eq_ok, Reader.type, Reader.gives_inner_bind]
  exact hread

/-- What is asked of a type is a name from the library, with a double colon in front. -/
theorem Bound.exists_code_eq (bound : Bound) : ∃ name, namesType name = true ∧
    bound.code = operator [':', ':'] ++ (pathTo ["ser_nu"] name []).code := by
  cases bound with
  | codec => exact ⟨"Serializable", by decide, by decide +kernel⟩
  | fixedCodec => exact ⟨"StaticallySized", by decide, by decide +kernel⟩

namespace Reader

variable {inner : Inner}

/-- A bound is read as it is written. -/
theorem gives_bound (asked : Bound) : Gives (bound inner) asked.code ⟨true, asked.code⟩ [] := by
  obtain ⟨name, hname, hcode⟩ := asked.exists_code_eq
  have hsegments : Gives (Path.readSegments inner true true) (pathTo ["ser_nu"] name []).code
      (pathTo ["ser_nu"] name []).segments [] := by
    rw [← List.append_nil (Path.code _)]
    exact gives_readSegments (by decide) hname nofun nofun endsType_nil
  have hpath : Gives (Path.read inner true) asked.code
      ⟨operator [':', ':'], false, (pathTo ["ser_nu"] name []).segments⟩ [] := by
    rw [hcode]
    exact (gives_optional rfl (gives_colons _)).bind (hsegments.bind (gives_pure.mpr ⟨rfl, rfl⟩))
  have htrait : Gives (trait inner) asked.code asked.code [] := by
    rw [trait]
    refine (gives_optional_of_not ?_).bind ((gives_optional_of_not ?_).bind ?_)
    · rw [hcode]
      rfl
    · rw [hcode]
      rfl
    · refine hpath.bind ((gives_readCalled endsType_nil _).bind (gives_pure.mpr ⟨?_, rfl⟩))
      rw [hcode]
      rfl
  rw [bound, gives_get_bind]
  have hlifetime : asked.code.startsLifetime = false := by
    rw [hcode]
    rfl
  have hparen : asked.code.startsGroup .paren = false := by
    rw [hcode]
    rfl
  rw [hlifetime, hparen]
  exact htrait.bind (gives_pure.mpr ⟨rfl, rfl⟩)

/-- One bound may be all there is. -/
theorem gives_bounds (asked : Bound) :
    Gives (separated '+' endsCondition (bound inner)) asked.code ⟨[⟨true, asked.code⟩], false⟩
      [] := by
  have hstop : endsCondition asked.code = false := by
    obtain ⟨name, -, hcode⟩ := asked.exists_code_eq
    rw [hcode]
    rfl
  rw [separated, gives_get_bind]
  exact (gives_separatedWithin_succ hstop).mpr
    ⟨_, [], gives_bound asked, .inr ⟨rfl, rfl, rfl⟩⟩

end Reader

/-- **A condition on a plain type is written as it is put together.** -/
theorem Condition.readAll_of_isPlain {c : Condition} (h : IsPlain c.type) :
    Reader.condition.readAll c.code = .ok c.code := by
  have hbegins := h.begins (colon ++ c.bound.code)
  have hends : EndsType (colon ++ c.bound.code) := endsType_of_mark (by decide) c.bound.code
  rw [Reader.readAll_eq_ok, code, List.append_assoc, Reader.condition, Reader.gives_get_bind,
    hbegins.startsLifetime_eq, Bool.false_and, if_neg Bool.false_ne_true, Reader.typeCondition,
    Reader.gives_inner_bind]
  refine (Reader.gives_binder_of_begins hbegins).bind ?_
  refine ((h.keeps ?_).gives_sum hends).bind ?_
  · rw [Code.size_append]
    omega
  · refine (Reader.gives_mark.mpr ⟨false, rfl, rfl⟩).bind ((Reader.gives_bounds c.bound).bind ?_)
    refine Reader.gives_pure.mpr ⟨?_, rfl⟩
    rw [Reader.sumCode, Separated.code_singleton, List.nil_append, List.append_assoc]
    rfl

theorem Condition.readable_of_isPlain {c : Condition} (h : IsPlain c.type) : c.Readable :=
  ⟨c.code, readAll_of_isPlain h⟩

theorem Condition.written_of_isPlain {c : Condition} (h : IsPlain c.type) : c.written = c.code :=
  Except.ok.inj ((readable_of_isPlain h).written_eq.symm.trans (readAll_of_isPlain h))

/-- **Conditions on plain types are added as they are**, for those that involve a type
parameter. -/
theorem Generics.addBounds_of_isPlain {g : Generics} {bounded : List Condition}
    (h : ∀ c ∈ bounded, g.Involves c.type → IsPlain c.type) :
    ∃ g', g.addBounds bounded = .ok g' ∧ g'.predicates =
      g.predicates ++ (bounded.filter fun c => g.Involves c.type).map Condition.code := by
  refine ⟨_, addBounds_eq_ok.mpr ⟨fun c hc hinvolves =>
    Condition.readable_of_isPlain (h c hc hinvolves), rfl⟩, ?_⟩
  have hwritten : (bounded.filter fun c => g.Involves c.type).map Condition.written =
      (bounded.filter fun c => g.Involves c.type).map Condition.code := by
    refine List.map_congr_left fun c hc => ?_
    obtain ⟨hmem, hinvolves⟩ := List.mem_filter.mp hc
    exact Condition.written_of_isPlain (h c hmem (of_decide_eq_true hinvolves))
  rw [predicates, predicates, List.map_append, hwritten, List.append_assoc]

end WireForm.Derivation
