import Mathlib.Data.Multiset.Filter
import WireForm.Proofs.DerivedRecord

/-!
# Options in any order

The options of an item are read argument by argument, with what was asked for so far in hand, and
only at the end it is looked at whether all of it goes together. What comes out has a rule that
mentions no order. Every argument is `fixed` or names an encoding, neither is done twice, and next
to `fixed` only such encodings are named as leave the size to another type.

So it makes no difference in which order the arguments are written, how many attributes they are
spread over, and what other attributes stand between them. That arguments can be read at all is
another matter: an attribute that is no list of names, each with a type in brackets or without,
spoils all.

## Main definitions

* `Argument.isFixed`, `Argument.Names` — what arguments are there
* `Legal` — arguments that go together
* `Options.AskedBy` — what comes out

## Main results

* `Options.foldlM_add_eq_ok` — what is in hand after some arguments
* `Options.gather_eq_ok` — what comes out, in terms of the arguments as a multiset
* `options_have_no_order`
-/

namespace WireForm.Derivation

/-! ### Arguments that go together -/

/-- The argument asks for a fixed size. -/
def Argument.isFixed (a : Argument) : Bool := a.name == "fixed" && a.type.isNone

/-- The argument names this encoding, with lengths of the default type where it gives none. -/
inductive Argument.Names : Argument → Encoding → Prop where
  | hybrid : Names ⟨"hybrid", none⟩ .hybrid
  | transparent : Names ⟨"transparent", none⟩ .single
  | mixed : Names ⟨"mixed", none⟩ (.mixed defaultSize)
  | mixedOf (size : Code) : Names ⟨"mixed", some size⟩ (.mixed size)
  | dynamic : Names ⟨"dynamic", none⟩ (.dynamic defaultSize)
  | dynamicOf (size : Code) : Names ⟨"dynamic", some size⟩ (.dynamic size)
  | via (base : Code) : Names ⟨"via", some base⟩ (.via base)

/-- Arguments that go together. -/
structure Legal (args : Multiset Argument) : Prop where
  /-- Each is one that is known. -/
  known : ∀ a ∈ args, a.isFixed ∨ ∃ encoding, a.Names encoding
  /-- A fixed size is asked for once. -/
  fixed_once : args.countP (·.isFixed) ≤ 1
  /-- At most one encoding is named. -/
  one_encoding : args.countP (¬ ·.isFixed) ≤ 1
  /-- Next to `fixed`, it is that of the only field or of another type. -/
  compatible : ∀ a ∈ args, a.isFixed → ∀ b ∈ args, ¬ b.isFixed →
    b.name = "transparent" ∨ b.name = "via"

/-- What these arguments ask for. -/
structure Options.AskedBy (args : Multiset Argument) (options : Options) : Prop where
  /-- The size is fixed just when that is asked for. -/
  isFixed_iff : options.isFixed = true ↔ ∃ a ∈ args, a.isFixed
  /-- The encoding is the one that is named. -/
  encoding_of_names : ∀ a ∈ args, ∀ encoding, a.Names encoding → options.encoding = some encoding
  /-- Where only a fixed size is asked for, that chooses the encoding too. -/
  encoding_of_fixed : args ≠ 0 → (∀ a ∈ args, a.isFixed) → options.encoding = some .packed
  /-- Where nothing is asked for, no encoding is chosen. -/
  encoding_of_nothing : args = 0 → options.encoding = none

namespace Argument

variable {a : Argument} {encoding encoding' : Encoding}

theorem request_eq_fixed : a.request = .ok .fixed ↔ a.isFixed = true := by
  obtain ⟨name, type⟩ := a
  rw [request]
  split <;> simp_all [isFixed]

theorem request_eq_encoding : a.request = .ok (.encoding encoding) ↔ a.Names encoding := by
  obtain ⟨name, type⟩ := a
  constructor
  · intro h
    rw [request] at h
    split at h <;> cases h <;> dsimp only at * <;> subst_vars
    · exact .hybrid
    · cases type with
      | none => exact .mixed
      | some size => exact .mixedOf size
    · cases type with
      | none => exact .dynamic
      | some size => exact .dynamicOf size
    · exact .transparent
    · exact .via _
  · rintro (_ | _ | _ | _ | _ | _ | _) <;> rfl

theorem Names.unique (h : a.Names encoding) (h' : a.Names encoding') : encoding = encoding' := by
  rw [← request_eq_encoding] at h h'
  rw [h] at h'
  exact Request.encoding.inj (Except.ok.inj h')

/-- Asking for a fixed size names no encoding. -/
theorem Names.isFixed_eq_false (h : a.Names encoding) : a.isFixed = false := by
  cases h <;> rfl

end Argument

/-- An argument that names an encoding goes together with the absence of all others. -/
theorem Legal.of_names {a : Argument} {encoding : Encoding} (h : a.Names encoding) :
    Legal ↑[a] where
  known b hb := by
    obtain rfl := List.mem_singleton.mp hb
    exact .inr ⟨encoding, h⟩
  fixed_once := (Multiset.countP_le_card _ _).trans (Nat.le_refl 1)
  one_encoding := (Multiset.countP_le_card _ _).trans (Nat.le_refl 1)
  compatible b hb hfixed := by
    obtain rfl := List.mem_singleton.mp hb
    rw [h.isFixed_eq_false] at hfixed
    cases hfixed

/-! ### One argument after the other -/

namespace Options

variable {options options' : Options} {a : Argument} {args : List Argument}

/-- A fixed size is asked for if it was not before. -/
theorem add_of_fixed (ha : a.isFixed = true) : options.add a = .ok options' ↔
    options.isFixed = false ∧ options' = { options with isFixed := true } := by
  rw [add, Argument.request_eq_fixed.mpr ha]
  obtain ⟨encoding, isFixed⟩ := options
  cases isFixed with
  | true => exact ⟨nofun, nofun⟩
  | false => exact ⟨fun h => ⟨rfl, (Except.ok.inj h).symm⟩, fun h => congrArg _ h.2.symm⟩

/-- Any other argument has to name an encoding, and none was named before. -/
theorem add_of_other (ha : a.isFixed = false) : options.add a = .ok options' ↔
    ∃ named, a.Names named ∧ options.encoding = none ∧
      options' = { options with encoding := some named } := by
  rw [add, Outcome.bind_eq_ok]
  obtain ⟨encoding, isFixed⟩ := options
  constructor
  · rintro ⟨request, hrequest, h⟩
    cases request with
    | fixed =>
      rw [Argument.request_eq_fixed.mp hrequest] at ha
      cases ha
    | encoding named =>
      cases encoding with
      | some other => cases h
      | none => exact ⟨named, Argument.request_eq_encoding.mp hrequest, rfl, (Except.ok.inj h).symm⟩
  · rintro ⟨named, hnamed, hnone, rfl⟩
    obtain rfl : encoding = none := hnone
    exact ⟨.encoding named, Argument.request_eq_encoding.mpr hnamed, rfl⟩

/-- The arguments besides those that ask for a fixed size. -/
def others (args : List Argument) : List Argument := args.filter (!·.isFixed)

theorem mem_others : a ∈ others args ↔ a ∈ args ∧ a.isFixed = false := by
  rw [others, List.mem_filter, Bool.not_eq_true']

/-- What is in hand after these arguments. -/
structure InHand (args : List Argument) (options : Options) : Prop where
  /-- A fixed size was asked for once, or not at all. -/
  fixed : options.isFixed.toNat = args.countP (·.isFixed)
  /-- An encoding is in hand that the only other argument names. -/
  named : ∀ encoding, options.encoding = some encoding →
    ∃ a, others args = [a] ∧ a.Names encoding
  /-- None is in hand where there is no other argument. -/
  unnamed : options.encoding = none → others args = []

theorem inHand_nil : InHand [] options ↔ options = ⟨none, false⟩ := by
  constructor
  · rintro ⟨hfixed, hnamed, -⟩
    obtain ⟨_ | encoding, isFixed⟩ := options
    · obtain rfl : isFixed = false := Bool.toNat_eq_zero.mp hfixed
      rfl
    · obtain ⟨a, ha, -⟩ := hnamed encoding rfl
      cases ha
  · rintro rfl
    exact ⟨rfl, nofun, fun _ => rfl⟩

theorem inHand_concat_of_fixed (ha : a.isFixed = true) :
    InHand (args ++ [a]) options' ↔ ∃ options, InHand args options ∧
      options.isFixed = false ∧ options' = { options with isFixed := true } := by
  have hcount : (args ++ [a]).countP (·.isFixed) = args.countP (·.isFixed) + 1 := by
    rw [List.countP_append, List.countP_singleton, if_pos ha]
  have hothers : others (args ++ [a]) = others args := by simp [others, ha]
  constructor
  · rintro ⟨hfixed, hnamed, hunnamed⟩
    rw [hcount] at hfixed
    rw [hothers] at hnamed hunnamed
    have hle := Bool.toNat_le options'.isFixed
    refine ⟨{ options' with isFixed := false }, ⟨?_, hnamed, hunnamed⟩, rfl, ?_⟩
    · show 0 = args.countP (·.isFixed)
      omega
    · have htrue : options'.isFixed = true := Bool.toNat_eq_one.mp (by omega)
      rw [← htrue]
  · rintro ⟨options, ⟨hfixed, hnamed, hunnamed⟩, hfalse, rfl⟩
    refine ⟨?_, by rwa [hothers], by rwa [hothers]⟩
    rw [hcount, ← hfixed, hfalse]
    rfl

theorem inHand_concat_of_other (ha : a.isFixed = false) :
    InHand (args ++ [a]) options' ↔ ∃ options, InHand args options ∧
      ∃ encoding, a.Names encoding ∧ options.encoding = none ∧
        options' = { options with encoding := some encoding } := by
  have hcount : (args ++ [a]).countP (·.isFixed) = args.countP (·.isFixed) := by simp [ha]
  have hothers : others (args ++ [a]) = others args ++ [a] := by simp [others, ha]
  constructor
  · rintro ⟨hfixed, hnamed, hunnamed⟩
    rw [hcount] at hfixed
    rw [hothers] at hnamed hunnamed
    obtain ⟨_ | encoding, isFixed⟩ := options'
    · exact absurd (hunnamed rfl) (by simp)
    -- There is room for one encoding, and the last argument names it.
    · obtain ⟨b, hb, hnames⟩ := hnamed encoding rfl
      have hsplit : others args ++ [a] = [] ++ [b] := hb
      obtain ⟨hnone, hlast⟩ := List.append_inj' hsplit rfl
      rw [← List.singleton_injective hlast] at hnames
      exact ⟨⟨none, isFixed⟩, ⟨hfixed, nofun, fun _ => hnone⟩, encoding, hnames, rfl, rfl⟩
  · rintro ⟨options, ⟨hfixed, -, hunnamed⟩, encoding, hnames, hnone, rfl⟩
    refine ⟨by rwa [hcount], ?_, nofun⟩
    rintro _ ⟨⟩
    exact ⟨a, by rw [hothers, hunnamed hnone, List.nil_append], hnames⟩

/-- Reading argument by argument keeps in hand what was asked for. -/
theorem foldlM_add_eq_ok : args.foldlM add ⟨none, false⟩ = .ok options ↔ InHand args options := by
  induction args using List.reverseRecOn generalizing options with
  | nil =>
    rw [inHand_nil]
    exact ⟨fun h => (Except.ok.inj h).symm, fun h => congrArg _ h.symm⟩
  | append_singleton args a ih =>
    rw [List.foldlM_append, Outcome.bind_eq_ok]
    simp only [ih, List.foldlM_cons, List.foldlM_nil, bind_pure]
    cases ha : a.isFixed with
    | true => simp only [add_of_fixed ha, inHand_concat_of_fixed ha]
    | false => simp only [add_of_other ha, inHand_concat_of_other ha]

/-! ### All arguments together -/

namespace InHand

variable {encoding : Encoding}

theorem isFixed_iff (h : InHand args options) :
    options.isFixed = true ↔ ∃ a ∈ args, a.isFixed = true := by
  have hle := Bool.toNat_le options.isFixed
  rw [← List.countP_pos_iff, ← h.fixed, ← Bool.toNat_eq_one]
  omega

/-- An argument that asks for no fixed size names the encoding in hand. -/
theorem exists_named (h : InHand args options) (ha : a ∈ args) (hother : a.isFixed = false) :
    ∃ encoding, options.encoding = some encoding ∧ a.Names encoding := by
  have hmem : a ∈ others args := mem_others.mpr ⟨ha, hother⟩
  cases hencoding : options.encoding with
  | none =>
    rw [h.unnamed hencoding] at hmem
    cases hmem
  | some encoding =>
    obtain ⟨b, hb, hnames⟩ := h.named encoding hencoding
    rw [hb, List.mem_singleton] at hmem
    exact ⟨encoding, rfl, hmem ▸ hnames⟩

theorem encoding_of_names (h : InHand args options) (ha : a ∈ args) (hnames : a.Names encoding) :
    options.encoding = some encoding := by
  obtain ⟨named, hencoding, hnamed⟩ := h.exists_named ha hnames.isFixed_eq_false
  rw [hencoding, hnamed.unique hnames]

theorem exists_names (h : InHand args options) (hencoding : options.encoding = some encoding) :
    ∃ a ∈ args, a.isFixed = false ∧ a.Names encoding := by
  obtain ⟨a, ha, hnames⟩ := h.named encoding hencoding
  obtain ⟨hmem, hother⟩ := mem_others.mp (ha ▸ List.mem_singleton_self a)
  exact ⟨a, hmem, hother, hnames⟩

theorem length_others_le (h : InHand args options) : (others args).length ≤ 1 := by
  cases hencoding : options.encoding with
  | none =>
    rw [h.unnamed hencoding]
    exact Nat.zero_le 1
  | some encoding =>
    obtain ⟨a, ha, -⟩ := h.named encoding hencoding
    rw [ha]
    exact Nat.le_refl 1

end InHand

/-- A fixed size can be had where no encoding is in hand, or one that leaves the size to another
type. -/
theorem finish_eq_ok : options.finish = .ok options' ↔
    (options.isFixed = true → ∀ encoding, options.encoding = some encoding →
      encoding = .single ∨ ∃ base, encoding = .via base) ∧
    options' = { options with
      encoding := options.encoding.or (if options.isFixed then some .packed else none) } := by
  obtain ⟨encoding, isFixed⟩ := options
  cases isFixed with
  | false =>
    rw [finish, Except.ok.injEq]
    simp [eq_comm]
  | true =>
    rcases encoding with _ | _ | _ | _ | _ | _ | _ <;> simp [finish, eq_comm]

theorem countP_others (args : List Argument) :
    (args : Multiset Argument).countP (¬ ·.isFixed) = (others args).length := by
  rw [Multiset.coe_countP, List.countP_eq_length_filter, others]
  simp

theorem countP_fixed (args : List Argument) :
    (args : Multiset Argument).countP (·.isFixed) = args.countP (·.isFixed) := by
  rw [Multiset.coe_countP]
  simp

namespace InHand

/-- What is in hand in the end goes together, if it can be finished. -/
theorem legal (h : InHand args options) (hfinish : options.finish = .ok options') :
    Legal ↑args where
  known a ha := by
    cases hother : a.isFixed with
    | true => exact .inl rfl
    | false =>
      obtain ⟨encoding, -, hnames⟩ := h.exists_named ha hother
      exact .inr ⟨encoding, hnames⟩
  fixed_once := by
    rw [countP_fixed, ← h.fixed]
    exact Bool.toNat_le _
  one_encoding := by
    rw [countP_others]
    exact h.length_others_le
  compatible a ha hfixed b hb hother := by
    obtain ⟨encoding, hencoding, hnames⟩ := h.exists_named hb (Bool.eq_false_iff.mpr hother)
    have hisFixed : options.isFixed = true := h.isFixed_iff.mpr ⟨a, ha, hfixed⟩
    obtain rfl | ⟨base, rfl⟩ := (finish_eq_ok.mp hfinish).1 hisFixed encoding hencoding
    · cases hnames
      exact .inl rfl
    · cases hnames
      exact .inr rfl

theorem askedBy (h : InHand args options) (hfinish : options.finish = .ok options') :
    options'.AskedBy ↑args := by
  obtain ⟨-, rfl⟩ := finish_eq_ok.mp hfinish
  refine ⟨h.isFixed_iff, fun a ha encoding hnames => ?_, fun hne hall => ?_, fun hnil => ?_⟩
  · rw [h.encoding_of_names ha hnames]
    rfl
  · have hnone : options.encoding = none := by
      cases hencoding : options.encoding with
      | none => rfl
      | some encoding =>
        obtain ⟨a, ha, hother, -⟩ := h.exists_names hencoding
        rw [hall a ha] at hother
        cases hother
    obtain ⟨a, ha⟩ := Multiset.exists_mem_of_ne_zero hne
    rw [hnone, if_pos (h.isFixed_iff.mpr ⟨a, ha, hall a ha⟩)]
    rfl
  · obtain rfl := (Multiset.coe_eq_zero args).mp hnil
    rw [inHand_nil.mp h]
    rfl

end InHand

/-- Arguments that go together are read, and what is in hand then can be finished. -/
theorem exists_finish_of_legal (h : Legal ↑args) :
    ∃ options options', InHand args options ∧ options.finish = .ok options' := by
  obtain ⟨isFixed, hisFixed⟩ : ∃ isFixed : Bool, isFixed.toNat = args.countP (·.isFixed) := by
    have hle := h.fixed_once
    rw [countP_fixed] at hle
    obtain hcount | hcount := Nat.le_one_iff_eq_zero_or_eq_one.mp hle
    · exact ⟨false, hcount.symm⟩
    · exact ⟨true, hcount.symm⟩
  have hle := h.one_encoding
  rw [countP_others] at hle
  cases hothers : others args with
  | nil =>
    exact ⟨⟨none, isFixed⟩, _, ⟨hisFixed, nofun, fun _ => hothers⟩,
      finish_eq_ok.mpr ⟨fun _ => nofun, rfl⟩⟩
  | cons b bs =>
    obtain rfl : bs = [] := List.length_eq_zero_iff.mp (by rw [hothers] at hle; simpa using hle)
    obtain ⟨hb, hother⟩ := mem_others.mp (hothers ▸ List.mem_singleton_self b)
    obtain ⟨encoding, hnames⟩ := (h.known b hb).resolve_left (by simp [hother])
    have hhand : InHand args ⟨some encoding, isFixed⟩ := by
      refine ⟨hisFixed, ?_, nofun⟩
      rintro _ ⟨⟩
      exact ⟨b, hothers, hnames⟩
    refine ⟨_, _, hhand, finish_eq_ok.mpr ⟨fun htrue named hnamed => ?_, rfl⟩⟩
    obtain rfl := Option.some.inj hnamed
    obtain ⟨a, ha, hfixed⟩ := hhand.isFixed_iff.mp htrue
    have hname := h.compatible a ha hfixed b hb (by simp [hother])
    cases hnames with
    | transparent => exact .inl rfl
    | via base => exact .inr ⟨base, rfl⟩
    | _ => simp at hname

/-- No two options are what the same arguments ask for. -/
theorem AskedBy.unique {args : Multiset Argument} (hlegal : Legal args)
    (h : options.AskedBy args) (h' : options'.AskedBy args) : options = options' := by
  have hisFixed : options.isFixed = options'.isFixed :=
    Bool.eq_iff_iff.mpr (h.isFixed_iff.trans h'.isFixed_iff.symm)
  have hencoding : options.encoding = options'.encoding := by
    by_cases hall : ∀ a ∈ args, a.isFixed
    · by_cases hne : args = 0
      · rw [h.encoding_of_nothing hne, h'.encoding_of_nothing hne]
      · rw [h.encoding_of_fixed hne hall, h'.encoding_of_fixed hne hall]
    · obtain ⟨a, ha, hother⟩ : ∃ a ∈ args, ¬a.isFixed := by simpa using hall
      obtain ⟨encoding, hnames⟩ := (hlegal.known a ha).resolve_left hother
      rw [h.encoding_of_names a ha encoding hnames, h'.encoding_of_names a ha encoding hnames]
  obtain ⟨encoding, isFixed⟩ := options
  obtain rfl : isFixed = options'.isFixed := hisFixed
  obtain rfl : encoding = options'.encoding := hencoding
  rfl

/-- **What comes out is what the arguments ask for**, whatever their order. -/
theorem gather_eq_ok : args.foldlM add ⟨none, false⟩ >>= finish = .ok options ↔
    Legal ↑args ∧ options.AskedBy ↑args := by
  rw [Outcome.bind_eq_ok]
  constructor
  · rintro ⟨gathered, hgathered, hfinish⟩
    have hhand := foldlM_add_eq_ok.mp hgathered
    exact ⟨hhand.legal hfinish, hhand.askedBy hfinish⟩
  · rintro ⟨hlegal, hasked⟩
    obtain ⟨gathered, finished, hhand, hfinish⟩ := exists_finish_of_legal hlegal
    obtain rfl := hasked.unique hlegal (hhand.askedBy hfinish)
    exact ⟨gathered, foldlM_add_eq_ok.mpr hhand, hfinish⟩

/-! ### Attributes -/

/-- The attributes can be read one after the other only if each can be read. -/
theorem exists_lists_of_addAttribute {attrs : List Attribute}
    (h : attrs.foldlM addAttribute options = .ok options') :
    ∃ lists, attrs.mapM (fun attr => argumentsOf attr.content) = .ok lists := by
  induction attrs generalizing options with
  | nil => exact ⟨[], rfl⟩
  | cons attr attrs ih =>
    rw [List.foldlM_cons, Outcome.bind_eq_ok] at h
    obtain ⟨next, hnext, h⟩ := h
    rw [addAttribute, Outcome.bind_eq_ok] at hnext
    obtain ⟨first, hfirst, -⟩ := hnext
    obtain ⟨rest, hrest⟩ := ih h
    exact ⟨first :: rest, by rw [List.mapM_cons, hfirst, hrest]; rfl⟩

theorem exists_arguments {item : Item} (h : ofAttributes item.attributes = .ok options) :
    ∃ args, item.arguments = .ok args := by
  rw [ofAttributes, Outcome.bind_eq_ok] at h
  obtain ⟨gathered, hgathered, -⟩ := h
  obtain ⟨lists, hlists⟩ := exists_lists_of_addAttribute hgathered
  exact ⟨lists.flatten, by rw [Item.arguments, hlists]; rfl⟩

end Options

/-- All arguments are those of each attribute about the encoding, one attribute after the other. -/
theorem Item.arguments_eq_ok {item : Item} {args : List Argument} :
    item.arguments = .ok args ↔ ∃ lists,
      List.Forall₂ (fun attr list => argumentsOf attr.content = .ok list)
        (item.attributes.filter (·.isNamed "squash")) lists ∧ lists.flatten = args := by
  rw [arguments, Outcome.bind_eq_ok]
  simp only [Outcome.mapM_eq_ok]
  exact exists_congr fun lists => and_congr_right fun _ => ⟨Except.ok.inj, congrArg _⟩

theorem Options.ofAttributes_eq_ok {item : Item} {options : Options} :
    ofAttributes item.attributes = .ok options ↔
      ∃ args, item.arguments = .ok args ∧ Legal ↑args ∧ options.AskedBy ↑args := by
  constructor
  · intro h
    obtain ⟨args, hargs⟩ := exists_arguments h
    rw [ofAttributes_eq hargs] at h
    exact ⟨args, hargs, gather_eq_ok.mp h⟩
  · rintro ⟨args, hargs, h⟩
    rw [ofAttributes_eq hargs]
    exact gather_eq_ok.mpr h

/-- **What an item asks for depends on the arguments of its attributes alone, and not on their
order.** Options come out just when every attribute about the encoding is a list of arguments and
all of these go together. A list of arguments is names with commas between them in one group of
brackets, each with round brackets behind it that have just a type in them, or without; every name
is kept, and every type as what it is read as.

The options are what the arguments ask for as a multiset, so items whose arguments are the same up
to their order get the same options, however many attributes these are spread over and whatever
other attributes there are. -/
theorem options_have_no_order :
    (∀ (content : Code) (args : List Argument), argumentsOf content = .ok args ↔
      ∃ delimiter inside, content = [.group delimiter inside] ∧
        Commas Argument.WrittenAs args inside) ∧
    (∀ (item : Item) (args : List Argument), item.arguments = .ok args ↔ ∃ lists,
      List.Forall₂ (fun attr list => argumentsOf attr.content = .ok list)
        (item.attributes.filter (·.isNamed "squash")) lists ∧ lists.flatten = args) ∧
    (∀ item : Item, (∃ options, Options.ofAttributes item.attributes = .ok options) ↔
      ∃ args, item.arguments = .ok args ∧ Legal ↑args) ∧
    (∀ (item : Item) (args : List Argument) (options : Options), item.arguments = .ok args →
      Options.ofAttributes item.attributes = .ok options → options.AskedBy ↑args) ∧
    (∀ (item item' : Item) (args args' : List Argument),
      item.arguments = .ok args → item'.arguments = .ok args' → args.Perm args' →
      ∀ options, Options.ofAttributes item.attributes = .ok options ↔
        Options.ofAttributes item'.attributes = .ok options) ∧
    ∀ attributes : List Attribute,
      Options.ofAttributes (attributes.filter (·.isNamed "squash")) =
        Options.ofAttributes attributes := by
  refine ⟨fun content args => argumentsOf_eq_ok, fun item args => Item.arguments_eq_ok,
    fun item => ?_, fun item args options hargs h => ?_,
    fun item item' args args' hargs hargs' hperm options => ?_, fun attributes => ?_⟩
  · constructor
    · rintro ⟨options, h⟩
      obtain ⟨args, hargs, hlegal, -⟩ := Options.ofAttributes_eq_ok.mp h
      exact ⟨args, hargs, hlegal⟩
    · rintro ⟨args, hargs, hlegal⟩
      obtain ⟨gathered, options, hhand, hfinish⟩ := Options.exists_finish_of_legal hlegal
      exact ⟨options, Options.ofAttributes_eq_ok.mpr
        ⟨args, hargs, hlegal, hhand.askedBy hfinish⟩⟩
  · rw [Options.ofAttributes_eq hargs] at h
    exact (Options.gather_eq_ok.mp h).2
  · rw [Options.ofAttributes_eq hargs, Options.ofAttributes_eq hargs', Options.gather_eq_ok,
      Options.gather_eq_ok, Multiset.coe_eq_coe.mpr hperm]
  · rw [Options.ofAttributes, List.filter_filter]
    simp only [Bool.and_self]
    rfl

/-- A record without fields and with these attributes, each given by its name and what is in its
brackets. -/
def attributed (attributes : List (String × Code)) : Item :=
  ⟨"Colour", attributes.map fun (name, inside) => ⟨[.ident name], [.group .paren inside]⟩,
    ⟨.empty, .empty, []⟩, .record []⟩

/-- A base and a fixed size are asked for by two attributes with another one between them, or by one
attribute the other way round. Lengths of two bytes are asked for in an attribute with a comma too
much, and lengths of one byte in another. -/
theorem options_have_no_order_at_via :
    let base : Code := [.ident "u32"]
    let via : Code := .ident "via" :: parens base
    let fixed : Code := [.ident "fixed"]
    let apart := attributed [("squash", via), ("repr", [.ident "C"]), ("squash", fixed)]
    let together := attributed [("squash", fixed ++ comma ++ via)]
    let args : List Argument := [⟨"via", some base⟩, ⟨"fixed", none⟩]
    let word : Code := [.ident "u16"]
    let mixed := attributed [("squash", .ident "mixed" :: parens word ++ comma)]
    let byte : Code := [.ident "u8"]
    let dynamic := attributed [("squash", .ident "dynamic" :: parens byte)]
    apart.arguments = .ok args ∧ together.arguments = .ok args.reverse ∧ args.Perm args.reverse ∧
      Legal ↑args ∧ (∃ options, Options.ofAttributes apart.attributes = .ok options ∧
        options.AskedBy ↑args ∧ Options.ofAttributes together.attributes = .ok options) ∧
      mixed.arguments = .ok [⟨"mixed", some word⟩] ∧
      (∃ options, Options.ofAttributes mixed.attributes = .ok options ∧
        options.encoding = some (.mixed word)) ∧
      dynamic.arguments = .ok [⟨"dynamic", some byte⟩] ∧
      ∃ options, Options.ofAttributes dynamic.attributes = .ok options ∧
        options.encoding = some (.dynamic byte) := by
  intro base via fixed apart together args word mixed byte dynamic
  obtain ⟨hwritten, hlists, hlegal, hasked, hperm, -⟩ := options_have_no_order
  have hbase : Reader.type.readAll base = .ok base := by decide +kernel
  have hword : Reader.type.readAll word = .ok word := by decide +kernel
  have hbyte : Reader.type.readAll byte = .ok byte := by decide +kernel
  have hvia : Argument.WrittenAs ⟨"via", some base⟩ via := .typed rfl hbase
  have hfixed : Argument.WrittenAs ⟨"fixed", none⟩ fixed := .bare rfl
  have hparens {args : List Argument} {inside : Code} (h : Commas Argument.WrittenAs args inside) :
      argumentsOf (parens inside) = .ok args :=
    (hwritten _ _).mpr ⟨.paren, inside, rfl, h⟩
  have hapart : apart.arguments = .ok args := (hlists _ _).mpr
    ⟨[[⟨"via", some base⟩], [⟨"fixed", none⟩]],
      .cons (hparens (.last hvia)) (.cons (hparens (.last hfixed)) .nil), rfl⟩
  have htogether : together.arguments = .ok args.reverse := (hlists _ _).mpr
    ⟨[args.reverse], .cons (hparens (.cons hfixed false (.last hvia))) .nil, rfl⟩
  have hmixed : mixed.arguments = .ok [⟨"mixed", some word⟩] := (hlists _ _).mpr
    ⟨[[⟨"mixed", some word⟩]], .cons (hparens (.cons (.typed rfl hword) false .nil)) .nil, rfl⟩
  have hdynamic : dynamic.arguments = .ok [⟨"dynamic", some byte⟩] := (hlists _ _).mpr
    ⟨[[⟨"dynamic", some byte⟩]], .cons (hparens (.last (.typed rfl hbyte))) .nil, rfl⟩
  have hnamed {item : Item} {a : Argument} {encoding : Encoding} (h : item.arguments = .ok [a])
      (hnames : a.Names encoding) : ∃ options, Options.ofAttributes item.attributes = .ok options ∧
        options.encoding = some encoding := by
    obtain ⟨options, hoptions⟩ := (hlegal item).mpr ⟨[a], h, .of_names hnames⟩
    exact ⟨options, hoptions, (hasked item [a] options h hoptions).encoding_of_names a
      (List.mem_singleton_self a) encoding hnames⟩
  have hreverse : args.Perm args.reverse := (List.reverse_perm args).symm
  have hoptions : Options.ofAttributes apart.attributes = .ok ⟨some (.via base), true⟩ := rfl
  obtain ⟨_, hargs, hargsLegal⟩ := (hlegal apart).mp ⟨_, hoptions⟩
  obtain rfl := Except.ok.inj (hapart.symm.trans hargs)
  exact ⟨hapart, htogether, hreverse, hargsLegal,
    ⟨_, hoptions, hasked apart args _ hapart hoptions,
      (hperm apart together args _ hapart htogether hreverse _).mp hoptions⟩,
    hmixed, hnamed hmixed (.mixedOf word), hdynamic, hnamed hdynamic (.dynamicOf byte)⟩

/-- Two encodings do not go together, in whatever attributes they are named. -/
example : ¬ Legal ↑[⟨"hybrid", none⟩, (⟨"mixed", none⟩ : Argument)] :=
  fun h => absurd h.one_encoding (by decide)

end WireForm.Derivation
