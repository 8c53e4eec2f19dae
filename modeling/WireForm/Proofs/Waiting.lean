import WireForm.Proofs.Recording

/-!
# Results that wait in line

A result that waits for an item does so in one queue, and once. Its provider is in the queue and
nowhere else, so that nothing can be set before the item comes; all that can happen to it is that a
consumer cancels it. The line of a queue moves on by results that leave it, served or not, and by
new ones that join it at the back, and calls about one queue do not touch results that wait in
another.

## Main definitions

* `Store.Unset` — nothing was set, though the result may have been cancelled
* `Queue.Advances` — how the line of a queue moves on
* `Session.InLine` — the invariant

## Main results

* `Queue.advances_push`, `Queue.advances_pop`, `Queue.advances_close`
* `Session.event?_ne_set` — without a provider of a name nothing is set
* `Session.InLine.perform`, `Session.InLine.run` — the invariant, for a call and for a run
-/

namespace WireForm.Sync

variable {V : Type}

/-- Nothing was set: the result is undecided, or it was cancelled. -/
def Store.Unset (s : Store V) (id : Nat) : Prop :=
  (s.cell id).state = .undecided ∨ (s.cell id).state = .cancelled

theorem Store.Unset.forgets {s s' : Store V} {id : Nat} (h : s.Unset id) (hs : s.Coherent)
    (hforgets : s.Forgets s') : s'.Unset id := by
  rw [Unset]
  rcases hforgets.cell_eq id with hcell | ⟨-, hcell⟩
  · rw [hcell]
    exact h
  · cases hstate : (s.cell id).state.isFinal with
    | true =>
      rw [hcell, (hs id).cancel_of_final hstate]
      exact h
    | false =>
      rw [hcell, (hs id).cancel_of_pending hstate]
      exact Or.inr rfl

/-! ### How a line moves on -/

namespace Queue

variable {s : Store V} {q : Queue V} {id : Nat} {item : V} {waiting : List Nat}

/-- The line of a queue moves on: results leave it, and at most a new one joins it, at the back. -/
structure Advances (s : Store V) (waiting : List Nat) (s' : Store V) (waiting' : List Nat) :
    Prop where
  /-- Who stays keeps the order. -/
  sublist : ∃ kept, kept.Sublist waiting ∧ (waiting' = kept ∨ waiting' = kept ++ [s.cells.length])
  /-- Results that are neither in line nor new are as they were. -/
  cell_eq : ∀ id, id ∉ waiting → id ≠ s.cells.length → s'.cell id = s.cell id
  /-- Whoever is in line afterwards has not got anything. -/
  unset : ∀ id ∈ waiting', s'.Unset id

theorem Advances.refl (h : ∀ id ∈ waiting, s.Unset id) : Advances s waiting s waiting :=
  ⟨⟨waiting, List.Sublist.refl _, Or.inl rfl⟩, fun _ _ _ => rfl, h⟩

namespace Advances

variable {s' : Store V} {waiting' : List Nat}

/-- Whoever is in line was in line, or is new. -/
theorem mem (h : Advances s waiting s' waiting') (hid : id ∈ waiting') :
    id ∈ waiting ∨ id = s.cells.length := by
  obtain ⟨kept, hkept, hline | hline⟩ := h.sublist
  · exact Or.inl (hkept.subset (hline ▸ hid))
  · rw [hline] at hid
    exact (List.mem_append.mp hid).imp (fun h => hkept.subset h) List.mem_singleton.mp

theorem nodup (h : Advances s waiting s' waiting') (hnodup : waiting.Nodup)
    (hnew : s.cells.length ∉ waiting) : waiting'.Nodup := by
  obtain ⟨kept, hkept, hline | hline⟩ := h.sublist
  · rw [hline]
    exact hkept.nodup hnodup
  · rw [hline]
    refine List.nodup_append.mpr ⟨hkept.nodup hnodup, List.nodup_singleton _, fun id hid j hj => ?_⟩
    rw [List.mem_singleton.mp hj]
    rintro rfl
    exact hnew (hkept.subset hid)

end Advances

theorem cell_serve_of_notMem (hs : s.Coherent) (item : V) (h : id ∉ waiting) :
    (serve item waiting s).2.cell id = s.cell id := by
  induction waiting generalizing s with
  | nil => rfl
  | cons first waiting ih =>
    rw [List.mem_cons, not_or] at h
    have hfirst : (s.dropProvider first).cell id = s.cell id := Store.cell_setCell_of_ne h.1
    rw [serve_cons hs]
    split
    · exact Store.cell_setCell_of_ne h.1
    · rw [ih ((Store.evolves_dropProvider s first).coherent hs) h.2, hfirst]

theorem cell_push_of_notMem (hs : s.Coherent) (item : V) (h : id ∉ q.waiting) :
    (q.push item s).1.cell id = s.cell id := by
  rw [store_push]
  exact cell_serve_of_notMem hs item h

theorem advances_push (hs : s.Coherent) (item : V) (hnodup : q.waiting.Nodup)
    (hunset : ∀ id ∈ q.waiting, s.Unset id) :
    Advances s q.waiting (q.push item s).1 (q.push item s).2.waiting := by
  rcases push_cases hs item q with
    ⟨s', -, -, hpush⟩ | ⟨stale, first, rest, s', hwaiting, -, -, hforgets, hpush⟩
  · refine ⟨⟨[], List.nil_sublist _, Or.inl ?_⟩, fun id hid _ => cell_push_of_notMem hs item hid,
      fun id hid => ?_⟩
    · rw [hpush]
    · rw [hpush] at hid
      cases hid
  · have hsublist : rest.Sublist q.waiting := by
      rw [hwaiting]
      exact (List.sublist_cons_self first rest).trans (List.sublist_append_right stale _)
    refine ⟨⟨rest, hsublist, Or.inl ?_⟩, fun id hid _ => cell_push_of_notMem hs item hid,
      fun id hid => ?_⟩
    · rw [hpush]
    · rw [hpush] at hid ⊢
      rw [hwaiting] at hnodup
      have hne : id ≠ first := by
        rintro rfl
        exact (List.nodup_cons.mp (List.nodup_append.mp hnodup).2.1).1 hid
      rw [Store.Unset, Store.cell_setCell_of_ne hne]
      exact (hunset id (hsublist.subset hid)).forgets hs hforgets

theorem advances_pop (hs : s.Coherent) (name : String) (hq : q.Sound s)
    (hunset : ∀ id ∈ q.waiting, s.Unset id) :
    Advances s q.waiting (q.pop name s).1 (q.pop name s).2.waiting := by
  cases hitems : q.items with
  | cons item items =>
    rw [pop_of_cons name s hitems]
    refine ⟨⟨q.waiting, List.Sublist.refl _, Or.inl rfl⟩, fun id _ hid => ?_, fun id hid => ?_⟩
    · exact (Store.cell_setCell_of_ne hid).trans (cell_popStore name)
    · rw [hq.waiting_eq_nil hitems] at hid
      cases hid
  | nil =>
    obtain ⟨s', hforgets, hpop⟩ := pop_of_nil hs name hitems
    have hstore := store_pop_of_nil (s := s) name hitems
    have hs' := (evolves_popStore name).coherent hs
    refine ⟨⟨_, List.filter_sublist, Or.inr (by rw [hpop])⟩, fun id hid _ => ?_, fun id hid => ?_⟩
    · rw [hstore, Store.cell_foldl_of_notMem (fun h => hid (List.mem_filter.mp h).1), cell_popStore]
    · rw [hpop] at hid ⊢
      refine Store.Unset.forgets ?_ hs' hforgets
      rw [Store.Unset, cell_popStore]
      rcases List.mem_append.mp hid with hkept | hnew
      · exact hunset id (List.mem_filter.mp hkept).1
      · rw [List.mem_singleton.mp hnew, Store.cell_of_le (Nat.le_refl _)]
        exact Or.inl rfl

theorem advances_close (s : Store V) (q : Queue V) : Advances s q.waiting (q.close s) [] :=
  ⟨⟨[], List.nil_sublist _, Or.inl rfl⟩, fun _ hid _ => Store.cell_foldl_of_notMem hid, nofun⟩

end Queue

namespace Session

variable {s : Session V} {name : String} {id : Nat} {a : Action V}

/-! ### The invariant -/

/-- Results wait in one queue and once, and nothing was set before they are served. -/
structure InLine (s : Session V) : Prop where
  /-- No result waits twice in a queue. -/
  nodup : ∀ name, (s.waiting name).Nodup
  /-- None waits in two. -/
  disjoint : ∀ name other id, id ∈ s.waiting name → id ∈ s.waiting other → name = other
  /-- What waits has not got anything. -/
  unset : ∀ name id, id ∈ s.waiting name → s.store.Unset id

theorem inLine_start : (start : Session V).InLine :=
  ⟨fun _ => List.nodup_nil, nofun, nofun⟩

/-- No answer to a consumer says that a value was set. -/
theorem event?_call_ne_set {call : Call} {before : State} {reply : Reply V} {v : V}
    {isFinal : Bool} : call.event? before reply ≠ some (.set v isFinal) := by
  intro h
  unfold Call.event? at h
  split at h
  · split at h <;> cases h
  · split at h <;> cases h
  · split at h <;> cases h
  · split at h
    · split at h <;> cases h
    · split at h <;> cases h
    · cases h
  · cases h

/-- Only queues and providers of a name set values. -/
theorem event?_ne_set (hqueue : a.queue? = none)
    (hname : ∀ name, s.providers.lookup name ≠ some id) {v : V} {isFinal : Bool} :
    s.event? id a ≠ some (.set v isFinal) := by
  intro hevent
  rw [event?, hqueue] at hevent
  dsimp only at hevent
  split at hevent
  · rename_i hsubject
    cases a with
    | provider name => exact hname name hsubject
    | dropProvider name => exact hname name hsubject
    | provide name v => exact hname name hsubject
    | tryProvide name v => exact hname name hsubject
    | update name v => exact hname name hsubject
    | produce name produced isFinal => exact hname name hsubject
    | cancelProvider name => exact hname name hsubject
    | call name call => exact event?_call_ne_set hevent
    | join name =>
      cases hreply : (s.perform (.join name)).1 with
      | joined reply state =>
        rw [hreply] at hevent
        obtain ⟨call, -, hset⟩ := Option.bind_eq_some_iff.mp hevent
        exact event?_call_ne_set hset
      | _ =>
        rw [hreply] at hevent
        cases hevent
    | _ => cases hevent
  · cases hevent

/-- A result that waits is not set by a call about no queue. -/
theorem unset_perform (hs : s.Sound) (ho : s.Owned) (hqueue : a.queue? = none)
    (hid : id ∈ s.waiting name) (h : s.store.Unset id) : (s.perform a).2.store.Unset id := by
  obtain ⟨-, hslot⟩ := records_perform hs ho a id
  have hstate : ((s.perform a).2.store.cell id).state = _ := congrArg Slot.state hslot
  rw [Store.Unset, hstate]
  cases hevent : s.event? id a with
  | none => exact h
  | some e =>
    cases e with
    | set v isFinal =>
      refine absurd hevent (event?_ne_set hqueue fun provider hprovider => ?_)
      exact ho.not_mem_waiting provider id hprovider name hid
    | cancelled => exact Or.inr rfl
    | taken => exact h

theorem advances_perform (hs : s.Sound) (hl : s.InLine) (h : a.queue? = some name) :
    Queue.Advances s.store (s.waiting name) (s.perform a).2.store
      ((s.perform a).2.waiting name) := by
  have hnodup := hl.nodup name
  have hunset := hl.unset name
  refine perform_queue h (Queue.Advances.refl hunset) (fun q item hq => ?_)
    (fun q consumer hq => ?_) fun q hq => ?_
  · rw [waiting_of_lookup hq] at hnodup hunset ⊢
    exact Queue.advances_push hs.coherent item hnodup hunset
  · rw [waiting_of_lookup hq] at hunset ⊢
    exact Queue.advances_pop hs.coherent consumer (hs.queue name q hq) hunset
  · rw [waiting_of_lookup hq]
    exact Queue.advances_close s.store q

theorem InLine.advances (hl : s.InLine) (hs : s.Sound) {s' : Session V}
    (htouches : Touches name s s')
    (hadvances : Queue.Advances s.store (s.waiting name) s'.store (s'.waiting name)) :
    s'.InLine := by
  have hwaiting (other : String) (h : other ≠ name) : s'.waiting other = s.waiting other := by
    rw [waiting, htouches.lookup_of_ne other h, waiting]
  have hnew (other : String) : s.store.cells.length ∉ s.waiting other := fun h =>
    Nat.lt_irrefl _ (hs.waiting_lt h)
  -- A result that waits in the queue that moves on does not wait in another.
  have hother (other : String) (id : Nat) (hne : other ≠ name) (hid : id ∈ s.waiting other) :
      id ∉ s'.waiting name := by
    intro hid'
    rcases hadvances.mem hid' with hold | rfl
    · exact hne (hl.disjoint other name id hid hold)
    · exact hnew other hid
  refine ⟨fun other => ?_, fun first second id hfirst hsecond => ?_, fun other id hid => ?_⟩
  · by_cases hne : other = name
    · subst hne
      exact hadvances.nodup (hl.nodup other) (hnew other)
    · rw [hwaiting other hne]
      exact hl.nodup other
  · by_cases hne : first = name
    · subst hne
      by_cases hne' : second = first
      · exact hne'.symm
      · rw [hwaiting second hne'] at hsecond
        exact absurd hfirst (hother second id hne' hsecond)
    · rw [hwaiting first hne] at hfirst
      by_cases hne' : second = name
      · subst hne'
        exact absurd hsecond (hother first id hne hfirst)
      · rw [hwaiting second hne'] at hsecond
        exact hl.disjoint first second id hfirst hsecond
  · by_cases hne : other = name
    · subst hne
      exact hadvances.unset id hid
    · rw [hwaiting other hne] at hid
      rw [Store.Unset, hadvances.cell_eq id (fun h => hne (hl.disjoint other name id hid h)) ?_]
      · exact hl.unset other id hid
      · rintro rfl
        exact hnew other hid

/-- **A call keeps the lines in order.** -/
theorem InLine.perform (hl : s.InLine) (hs : s.Sound) (ho : s.Owned) (a : Action V) :
    (s.perform a).2.InLine := by
  cases hqueue : a.queue? with
  | some name => exact hl.advances hs (touches_perform hs hqueue) (advances_perform hs hl hqueue)
  | none =>
    have hwaiting (name : String) : (s.perform a).2.waiting name = s.waiting name := by
      rw [waiting, (proceeds_perform hqueue).queues_eq, waiting]
    refine ⟨fun name => ?_, fun name other id hid hid' => ?_, fun name id hid => ?_⟩
    · rw [hwaiting]
      exact hl.nodup name
    · rw [hwaiting] at hid hid'
      exact hl.disjoint name other id hid hid'
    · rw [hwaiting] at hid
      exact unset_perform hs ho hqueue hid (hl.unset name id hid)

/-- **A run keeps the lines in order.** -/
theorem InLine.run (hl : s.InLine) (hs : s.Sound) (ho : s.Owned) (actions : List (Action V)) :
    (s.run actions).2.InLine := by
  induction actions generalizing s with
  | nil => exact hl
  | cons a actions ih => exact ih (hl.perform hs ho a) (hs.perform a) (ho.perform hs a)

end Session

end WireForm.Sync
