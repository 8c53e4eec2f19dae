import WireForm.Proofs.Locality

/-!
# Results and their providers

A result has one provider, which goes by a name or waits in a queue for an item. Calls hand
providers on in few ways: a name is given to a new result or taken back, and a queue takes the
result of a pop in and lets it go when it is served, found stale, or the queue itself goes. Whenever
a provider goes away the result is final from then on, so a result that is not final can still be
decided by somebody.

Handles are followed in the same way. A new one is on a result that another handle or a named
provider is on already, or on the result of a pop, so that nobody ever gets back to a result whose
last handle has gone while it waits in a queue.

## Main definitions

* `Session.waiting` — the results that wait in the queue of a name
* `Session.HasProvider` — the provider of a result is there
* `Session.Owned` — the invariant
* `Session.Keeps`, `Queue.Serves` — what calls about no queue, and about a queue, do to providers

## Main results

* `Session.keeps_perform`, `Session.serves_perform` — whatever is called
* `Session.perform_queue` — a call about a queue is one of three things that queues do
* `Session.Owned.perform`, `Session.Owned.run` — the invariant, for a call and for a run
-/

namespace WireForm.Sync

variable {V : Type}

/-! ### What queues do with the results that wait -/

namespace Queue

variable {s s' : Store V} {q q' : Queue V} {id : Nat}

/-- A store and the results that wait in a queue go on to others: what waits afterwards has waited
before or is new, and what has waited or is new waits, or else is final. -/
structure Serves (s : Store V) (waiting : List Nat) (s' : Store V) (waiting' : List Nat) :
    Prop where
  /-- Only results that are new begin to wait. -/
  waited : ∀ id ∈ waiting', id ∈ waiting ∨ s.cells.length ≤ id
  /-- A result that stops to wait is final. -/
  final : ∀ id < s'.cells.length, id ∈ waiting ∨ s.cells.length ≤ id →
    id ∈ waiting' ∨ (s'.cell id).state.isFinal = true
  /-- Only results that are new get handles. -/
  consumers : ∀ id, s'.hasConsumers id = true →
    s.hasConsumers id = true ∨ s.cells.length ≤ id ∧ id < s'.cells.length

theorem Serves.refl (s : Store V) (waiting : List Nat) : Serves s waiting s waiting :=
  ⟨fun _ => Or.inl, fun _ hid hold => Or.inl (hold.resolve_right (Nat.not_le.mpr hid)),
    fun _ => Or.inl⟩

theorem isFinal_dropProvider (hs : s.Coherent) (hid : id < s.cells.length) :
    ((s.dropProvider id).cell id).state.isFinal = true := by
  rw [Store.dropProvider, Store.cell_setCell_self hid]
  cases hstate : (s.cell id).state.isFinal with
  | true => rw [(hs id).cancel_of_final hstate, hstate]
  | false =>
    rw [(hs id).cancel_of_pending hstate]
    rfl

/-- A final result stays final. -/
theorem isFinal_of_evolves (h : s.Evolves s') (hs : s.Coherent)
    (hfinal : (s.cell id).state.isFinal = true) : (s'.cell id).state.isFinal = true := by
  rw [h.state_eq hs hfinal]
  exact hfinal

theorem isFinal_foldl (hs : s.Coherent) {ids : List Nat} (hmem : id ∈ ids)
    (hid : id < s.cells.length) :
    ((ids.foldl (fun s id => s.dropProvider id) s).cell id).state.isFinal = true := by
  induction ids generalizing s with
  | nil => cases hmem
  | cons first ids ih =>
    have hstep := Store.evolves_dropProvider s first
    have hs' := hstep.coherent hs
    rcases List.mem_cons.mp hmem with rfl | hmem
    · exact isFinal_of_evolves (Store.evolves_foldl_dropProvider _ ids) hs'
        (isFinal_dropProvider hs hid)
    · exact ih hs' hmem (Nat.lt_of_lt_of_le hid hstep.length_le)

theorem length_foldl_dropProvider (ids : List Nat) :
    (ids.foldl (fun s id => s.dropProvider id) s).cells.length = s.cells.length := by
  induction ids generalizing s with
  | nil => rfl
  | cons first ids ih => exact ih.trans Store.length_setCell

theorem hasConsumers_foldl_dropProvider (ids : List Nat) :
    (ids.foldl (fun s id => s.dropProvider id) s).hasConsumers id = s.hasConsumers id := by
  induction ids generalizing s with
  | nil => rfl
  | cons first ids ih => exact ih

theorem store_push (item : V) : (q.push item s).1 = (serve item q.waiting s).2 := by
  rw [push]
  split <;> rename_i hserve <;> rw [hserve]

theorem waiting_push (item : V) : (q.push item s).2.waiting = (serve item q.waiting s).1.2 := by
  rw [push]
  split <;> rename_i hserve <;> rw [hserve]

/-- Offering an item leaves every result that was asked final, be it stale or served. -/
theorem isFinal_serve (hs : s.Coherent) (item : V) {waiting : List Nat} (hmem : id ∈ waiting)
    (hid : id < s.cells.length) :
    id ∈ (serve item waiting s).1.2 ∨ ((serve item waiting s).2.cell id).state.isFinal = true := by
  induction waiting generalizing s with
  | nil => cases hmem
  | cons first waiting ih =>
    rw [serve_cons hs]
    split
    · rcases List.mem_cons.mp hmem with rfl | hmem
      · rw [Store.cell_setCell_self hid]
        exact Or.inr rfl
      · exact Or.inl hmem
    · have hstep := Store.evolves_dropProvider s first
      have hs' := hstep.coherent hs
      rcases List.mem_cons.mp hmem with rfl | hmem
      · refine Or.inr (isFinal_of_evolves ?_ hs' (isFinal_dropProvider hs hid))
        rw [← store_push (q := ⟨[], waiting⟩)]
        exact evolves_push hs' item _
      · exact ih hs' hmem (Nat.lt_of_lt_of_le hid hstep.length_le)

theorem length_push (hs : s.Coherent) (item : V) (q : Queue V) :
    (q.push item s).1.cells.length = s.cells.length := by
  rcases push_cases hs item q with
    ⟨s', hforgets, -, hpush⟩ | ⟨stale, first, rest, s', -, -, -, hforgets, hpush⟩
  · rw [hpush, hforgets.length_eq]
  · rw [hpush, Store.length_setCell, hforgets.length_eq]

theorem hasConsumers_push (hs : s.Coherent) (item : V) (q : Queue V) (id : Nat) :
    (q.push item s).1.hasConsumers id = s.hasConsumers id := by
  rcases push_cases hs item q with
    ⟨s', hforgets, -, hpush⟩ | ⟨stale, first, rest, s', -, -, -, hforgets, hpush⟩
  · rw [hpush, hforgets.hasConsumers_eq]
  · rw [hpush, Store.hasConsumers_setCell, hforgets.hasConsumers_eq]

theorem serves_push (hs : s.Coherent) (item : V) (q : Queue V) :
    Serves s q.waiting (q.push item s).1 (q.push item s).2.waiting where
  waited id hid := by
    rcases push_cases hs item q with
      ⟨s', -, -, hpush⟩ | ⟨stale, first, rest, s', hwaiting, -, -, -, hpush⟩
    · rw [hpush] at hid
      cases hid
    · rw [hpush] at hid
      rw [hwaiting]
      exact Or.inl (List.mem_append_right stale (List.mem_cons_of_mem first hid))
  final id hid hold := by
    rw [length_push hs] at hid
    have hmem : id ∈ q.waiting := hold.resolve_right (Nat.not_le.mpr hid)
    rw [waiting_push, store_push]
    exact isFinal_serve hs item hmem hid
  consumers id hid := by
    rw [hasConsumers_push hs] at hid
    exact Or.inl hid

/-- What a pop lets go of when there are no items. -/
theorem store_pop_of_nil (name : String) (h : q.items = []) :
    (q.pop name s).1 = (q.waiting.filter (not ∘ isWaiting (popStore name s))).foldl
      (fun s id => s.dropProvider id) (popStore name s) := by
  obtain ⟨items, waiting⟩ := q
  obtain rfl : items = [] := h
  show (waiting.partition (isWaiting (popStore name s))).2.foldl _ (popStore name s) = _
  rw [List.partition_eq_filter_filter]

theorem hasConsumers_popStore {name : String} (h : (popStore name s).hasConsumers id = true) :
    s.hasConsumers id = true ∨ id = s.cells.length :=
  Store.hasConsumers_of_addHandle h

theorem serves_pop (hs : s.Coherent) (name : String) (q : Queue V) :
    Serves s q.waiting (q.pop name s).1 (q.pop name s).2.waiting := by
  have hlt : s.cells.length < (popStore name s).cells.length := by
    rw [length_popStore]
    exact Nat.lt_succ_self _
  cases hitems : q.items with
  | cons item items =>
    rw [pop_of_cons name s hitems]
    refine ⟨fun id hid => Or.inl hid, fun id hid hold => ?_, fun id hid => ?_⟩
    · refine hold.imp_right fun hnew => ?_
      rw [Store.length_setCell, length_popStore] at hid
      obtain rfl : id = s.cells.length := Nat.le_antisymm (Nat.le_of_lt_succ hid) hnew
      rw [Store.cell_setCell_self hlt]
      rfl
    · refine (hasConsumers_popStore hid).imp_right ?_
      rintro rfl
      rw [Store.length_setCell]
      exact ⟨Nat.le_refl _, hlt⟩
  | nil =>
    obtain ⟨s', hforgets, hpop⟩ := pop_of_nil hs name hitems
    have hstore := store_pop_of_nil (s := s) name hitems
    rw [hpop] at hstore ⊢
    refine ⟨fun id hid => ?_, fun id hid hold => ?_, fun id hid => ?_⟩
    · rcases List.mem_append.mp hid with hkept | hnew
      · exact Or.inl (List.mem_filter.mp hkept).1
      · exact Or.inr (Nat.le_of_eq (List.mem_singleton.mp hnew).symm)
    · rw [hforgets.length_eq] at hid
      rcases hold with hold | hnew
      · cases hwaits : isWaiting (popStore name s) id with
        | true =>
          exact Or.inl (List.mem_append_left _ (List.mem_filter.mpr ⟨hold, hwaits⟩))
        | false =>
          refine Or.inr ?_
          rw [show s' = _ from hstore]
          refine isFinal_foldl ((evolves_popStore name).coherent hs) ?_ hid
          exact List.mem_filter.mpr ⟨hold, by simp [hwaits]⟩
      · rw [length_popStore] at hid
        obtain rfl : id = s.cells.length := Nat.le_antisymm (Nat.le_of_lt_succ hid) hnew
        exact Or.inl (List.mem_append_right _ (List.mem_singleton_self _))
    · rw [hforgets.hasConsumers_eq] at hid
      refine (hasConsumers_popStore hid).imp_right ?_
      rintro rfl
      rw [hforgets.length_eq]
      exact ⟨Nat.le_refl _, hlt⟩

theorem waiting_tryPop (q : Queue V) : q.tryPop.2.waiting = q.waiting := by
  rw [tryPop]
  split <;> rfl

/-- When a queue goes, nothing waits in it any more. -/
theorem serves_close (hs : s.Coherent) (q : Queue V) : Serves s q.waiting (q.close s) [] := by
  refine ⟨nofun, fun id hid hold => ?_, fun id hid => ?_⟩
  · rw [close, length_foldl_dropProvider] at hid
    exact Or.inr (isFinal_foldl hs (hold.resolve_right (Nat.not_le.mpr hid)) hid)
  · rw [close, hasConsumers_foldl_dropProvider] at hid
    exact Or.inl hid

end Queue

namespace Session

variable {s s' s'' : Session V} {name : String} {id : Nat}

/-! ### Who has the providers -/

/-- The results that wait in the queue of this name. -/
def waiting (s : Session V) (name : String) : List Nat :=
  (s.queues.lookup name).elim [] (·.waiting)

/-- The provider of a result is there: it goes by a name, or it waits in a queue. -/
def HasProvider (s : Session V) (id : Nat) : Prop :=
  (∃ name, s.providers.lookup name = some id) ∨ ∃ queue, id ∈ s.waiting queue

/-- Names lead to results that there are, no provider is held twice over, and a result whose
provider is gone is final. -/
structure Owned (s : Session V) : Prop where
  /-- Handles are on results that there are. -/
  consumers_lt : ∀ id, s.store.hasConsumers id = true → id < s.store.cells.length
  /-- Providers of a name are those of results that there are. -/
  providers_lt : ∀ name id, s.providers.lookup name = some id → id < s.store.cells.length
  /-- A provider with a name waits in no queue. -/
  not_mem_waiting : ∀ name id, s.providers.lookup name = some id → ∀ queue, id ∉ s.waiting queue
  /-- A result without its provider is final. -/
  final : ∀ id < s.store.cells.length, ¬ s.HasProvider id →
    (s.store.cell id).state.isFinal = true

theorem owned_start : (start : Session V).Owned := ⟨nofun, nofun, nofun, nofun⟩

/-! ### Calls about no queue -/

/-- No provider comes up, one that goes away leaves its result final, and new handles are on results
that handles or named providers are on already. -/
structure Keeps (s s' : Session V) : Prop where
  /-- There are no new results. -/
  length_eq : s'.store.cells.length = s.store.cells.length
  /-- Every provider was there. -/
  providers : ∀ name id, s'.providers.lookup name = some id → s.providers.lookup name = some id
  /-- The result of a provider that goes away is final. -/
  final : ∀ name id, s.providers.lookup name = some id →
    s'.providers.lookup name = some id ∨
      (id < s.store.cells.length → (s'.store.cell id).state.isFinal = true)
  /-- Handles are on results that something was on. -/
  consumers : ∀ id, s'.store.hasConsumers id = true →
    s.store.hasConsumers id = true ∨ ∃ name, s.providers.lookup name = some id

namespace Keeps

/-- Nothing happens to providers. -/
theorem of_providers_eq (hlength : s'.store.cells.length = s.store.cells.length)
    (hproviders : s'.providers = s.providers)
    (hconsumers : ∀ id, s'.store.hasConsumers id = true →
      s.store.hasConsumers id = true ∨ ∃ name, s.providers.lookup name = some id) : s.Keeps s' where
  length_eq := hlength
  providers _ _ h := hproviders ▸ h
  final _ _ h := Or.inl (hproviders ▸ h)
  consumers := hconsumers

theorem refl (s : Session V) : s.Keeps s := of_providers_eq rfl rfl fun _ => Or.inl

/-- What happens to handles that come back does not matter to providers. -/
theorem congr (h : s.Keeps s') (hproviders : s''.providers = s'.providers)
    (hcells : s''.store.cells = s'.store.cells)
    (hconsumers : ∀ id, s''.store.hasConsumers id = true → s'.store.hasConsumers id = true) :
    s.Keeps s'' where
  length_eq := by rw [hcells, h.length_eq]
  providers name id hid := h.providers name id (hproviders ▸ hid)
  final name id hid := by
    rw [hproviders, Store.cell, hcells]
    exact h.final name id hid
  consumers id hid := h.consumers id (hconsumers id hid)

theorem setCell (s : Session V) (id : Nat) (c : Cell V) : s.Keeps (s.setCell id c) :=
  of_providers_eq Store.length_setCell rfl fun _ => Or.inl

theorem addHandle {h : Handle V} (name : String)
    (hid : s.store.hasConsumers h.cell = true ∨ ∃ name, s.providers.lookup name = some h.cell) :
    s.Keeps (s.addHandle name h) := by
  refine of_providers_eq rfl rfl fun id hhas => ?_
  rcases Store.hasConsumers_of_addHandle hhas with hold | rfl
  · exact Or.inl hold
  · exact hid

theorem withProvider {f : Nat → Cell V → Reply V × Session V}
    (h : ∀ id, s.providers.lookup name = some id → s.Keeps (f id (s.store.cell id)).2) :
    s.Keeps (s.withProvider name f).2 := by
  rw [Session.withProvider]
  split
  · rename_i id hid
    exact h id hid
  · exact refl s

theorem withConsumer {f : Handle V → Reply V × Session V}
    (h : ∀ handle, s.store.hasConsumers handle.cell = true → s.Keeps (f handle).2) :
    s.Keeps (s.withConsumer name f).2 := by
  rw [Session.withConsumer]
  split
  · rename_i handle hfound
    exact h handle (Store.hasConsumers_of_lookup hfound (Or.inl rfl))
  · exact refl s

theorem call (s : Session V) (h : Handle V) (call : Call) : s.Keeps (s.call h call).2 := by
  obtain ⟨reply, after, labels, hcall⟩ := concerns_call h call
  rw [show s.call h call = _ from hcall s]
  exact of_providers_eq Store.length_setCell rfl fun _ => Or.inl

end Keeps

theorem keeps_dropProvider (hs : s.Sound) (name : String) : s.Keeps (s.dropProvider name) := by
  rw [dropProvider]
  split
  · rename_i id hid
    refine ⟨Store.length_setCell, fun other j hj => ?_, fun other j hj => ?_, fun _ => Or.inl⟩
    · by_cases hother : other = name
      · subst hother
        rw [lookup_filter_self] at hj
        cases hj
      · rwa [lookup_filter_of_ne hother] at hj
    · by_cases hother : other = name
      · subst hother
        obtain rfl : id = j := Option.some.inj (hid.symm.trans hj)
        exact Or.inr (Queue.isFinal_dropProvider hs.coherent)
      · exact Or.inl ((lookup_filter_of_ne hother).trans hj)
  · exact Keeps.refl s

theorem keeps_perform (hs : s.Sound) {a : Action V} (hqueue : a.queue? = none)
    (hnew : ∀ name, a ≠ .provider name) : s.Keeps (s.perform a).2 := by
  cases a with
  | provider name => exact absurd rfl (hnew name)
  | consumer provider name =>
    exact .withProvider fun id hid => .addHandle name (Or.inr ⟨provider, hid⟩)
  | dropProvider name => exact .withProvider fun _ _ => keeps_dropProvider hs name
  | dropConsumer name =>
    exact .withConsumer fun _ _ =>
      .of_providers_eq rfl rfl fun _ h => Or.inl (Store.hasConsumers_of_dropHandle h)
  | clone consumer name => exact .withConsumer fun _ h => .addHandle name (Or.inl h)
  | map owned f consumer name =>
    refine .withConsumer fun handle hhas => .of_providers_eq rfl rfl fun id h => Or.inl ?_
    rcases Store.hasConsumers_of_addHandle h with hold | rfl
    · exact Store.hasConsumers_of_dropHandle hold
    · exact hhas
  | countCalls => exact Keeps.refl s
  | provide provider value => exact .withProvider fun _ _ => .setCell s _ _
  | tryProvide provider value => exact .withProvider fun _ _ => .setCell s _ _
  | update provider value => exact .withProvider fun _ _ => .setCell s _ _
  | produce provider produced isFinal => exact .withProvider fun _ _ => .setCell s _ _
  | cancelProvider provider => exact .withProvider fun _ _ => .setCell s _ _
  | providerState provider => exact .withProvider fun _ _ => Keeps.refl s
  | consumerState consumer => exact .withConsumer fun _ _ => Keeps.refl s
  | call consumer call => exact .withConsumer fun h _ => .call s h call
  | spawn consumer call =>
    exact .withConsumer fun _ _ => .of_providers_eq (by rw [Store.cells_sendAway]) rfl
      fun _ h => Or.inl (Store.hasConsumers_of_sendAway h)
  | join consumer =>
    rw [perform]
    split
    · rename_i handle call _ _
      have hcall := Keeps.call s handle call
      exact hcall.congr rfl (Store.cells_bringBack consumer)
        fun _ => Store.hasConsumers_of_bringBack
    · exact Keeps.refl s
  | _ => cases hqueue

/-! ### Every call -/

theorem waiting_of_lookup {q : Queue V} (h : s.queues.lookup name = some q) :
    s.waiting name = q.waiting := by
  rw [waiting, h]
  rfl

theorem waiting_of_none (h : s.queues.lookup name = none) : s.waiting name = [] := by
  rw [waiting, h]
  rfl

theorem waiting_put (q : Queue V) {queues : List (String × Queue V)} {store : Store V} :
    waiting { s with store := store, queues := put name q queues } name = q.waiting :=
  waiting_of_lookup (lookup_put_self q)

theorem Sound.waiting_lt (hs : s.Sound) (hid : id ∈ s.waiting name) :
    id < s.store.cells.length := by
  cases hq : s.queues.lookup name with
  | none =>
    rw [waiting_of_none hq] at hid
    cases hid
  | some q =>
    rw [waiting_of_lookup hq] at hid
    exact (hs.queue name q hq).waiting_lt id hid

namespace Owned

theorem keeps (ho : s.Owned) (hs : s.Sound) (hkeeps : s.Keeps s') (hproceeds : s.Proceeds s') :
    s'.Owned := by
  have hwaiting (queue : String) : s'.waiting queue = s.waiting queue := by
    rw [waiting, hproceeds.queues_eq, waiting]
  refine ⟨fun id hid => ?_, fun name id hid => ?_, fun name id hid queue => ?_,
    fun id hid hgone => ?_⟩
  · rw [hkeeps.length_eq]
    rcases hkeeps.consumers id hid with hold | ⟨name, hname⟩
    · exact ho.consumers_lt id hold
    · exact ho.providers_lt name id hname
  · rw [hkeeps.length_eq]
    exact ho.providers_lt name id (hkeeps.providers name id hid)
  · rw [hwaiting]
    exact ho.not_mem_waiting name id (hkeeps.providers name id hid) queue
  · rw [hkeeps.length_eq] at hid
    by_cases hprovider : s.HasProvider id
    · rcases hprovider with ⟨name, hname⟩ | ⟨queue, hqueue⟩
      · rcases hkeeps.final name id hname with hstays | hfinal
        · exact absurd (Or.inl ⟨name, hstays⟩) hgone
        · exact hfinal hid
      · rw [← hwaiting] at hqueue
        exact absurd (Or.inr ⟨queue, hqueue⟩) hgone
    · exact Queue.isFinal_of_evolves hproceeds.evolves hs.coherent (ho.final id hid hprovider)

/-- A name that has no provider gets that of a new result. -/
theorem create (ho : s.Owned) (hs : s.Sound) (hfree : s.providers.lookup name = none) :
    Owned { s with
      store := s.store.create .fresh
      providers := put name s.store.cells.length s.providers } := by
  have hlookup (other : String) (hother : other ≠ name) :
      (put name s.store.cells.length s.providers).lookup other = s.providers.lookup other :=
    lookup_put_of_ne _ hother
  refine ⟨fun id hid => ?_, fun other id hid => ?_, fun other id hid queue hmem => ?_,
    fun id hid hgone => ?_⟩
  · exact Nat.lt_of_lt_of_le (ho.consumers_lt id hid) Store.evolves_create.length_le
  · by_cases hother : other = name
    · subst hother
      obtain rfl := Option.some.inj ((lookup_put_self _).symm.trans hid)
      rw [Store.length_create]
      exact Nat.lt_succ_self _
    · exact Nat.lt_of_lt_of_le (ho.providers_lt other id (hlookup other hother ▸ hid))
        Store.evolves_create.length_le
  · by_cases hother : other = name
    · subst hother
      obtain rfl := Option.some.inj ((lookup_put_self _).symm.trans hid)
      exact Nat.lt_irrefl _ (hs.waiting_lt hmem)
    · exact ho.not_mem_waiting other id (hlookup other hother ▸ hid) queue hmem
  · have hne : id ≠ s.store.cells.length := by
      rintro rfl
      exact hgone (Or.inl ⟨name, lookup_put_self _⟩)
    rw [Store.length_create] at hid
    rw [Store.cell_create_of_ne hne]
    refine ho.final id (by omega) fun hprovider => hgone ?_
    refine hprovider.imp_left fun ⟨other, hid⟩ => ⟨other, ?_⟩
    rw [hlookup other, hid]
    rintro rfl
    rw [hfree] at hid
    cases hid

theorem serves (ho : s.Owned) (hs : s.Sound) (htouches : Touches name s s')
    (hproviders : s'.providers = s.providers)
    (hserves : Queue.Serves s.store (s.waiting name) s'.store (s'.waiting name)) : s'.Owned := by
  have hlength := htouches.evolves.length_le
  have hwaiting (queue : String) (h : queue ≠ name) : s'.waiting queue = s.waiting queue := by
    rw [waiting, htouches.lookup_of_ne queue h, waiting]
  refine ⟨fun id hid => ?_, fun other id hid => ?_, fun other id hid queue hmem => ?_,
    fun id hid hgone => ?_⟩
  · rcases hserves.consumers id hid with hold | ⟨-, hnew⟩
    · exact Nat.lt_of_lt_of_le (ho.consumers_lt id hold) hlength
    · exact hnew
  · rw [hproviders] at hid
    exact Nat.lt_of_lt_of_le (ho.providers_lt other id hid) hlength
  · rw [hproviders] at hid
    refine ho.not_mem_waiting other id hid queue ?_
    by_cases hqueue : queue = name
    · subst hqueue
      exact (hserves.waited id hmem).resolve_right (Nat.not_le.mpr (ho.providers_lt other id hid))
    · rwa [← hwaiting queue hqueue]
  · by_cases hold : id ∈ s.waiting name ∨ s.store.cells.length ≤ id
    · exact (hserves.final id hid hold).resolve_left fun hmem => hgone (Or.inr ⟨name, hmem⟩)
    · rw [not_or, Nat.not_le] at hold
      refine Queue.isFinal_of_evolves htouches.evolves hs.coherent
        (ho.final id hold.2 fun hprovider => hgone ?_)
      rw [HasProvider, hproviders]
      refine hprovider.imp_right fun ⟨queue, hmem⟩ => ⟨queue, ?_⟩
      rw [hwaiting queue]
      · exact hmem
      · rintro rfl
        exact hold.1 hmem

end Owned

theorem providers_dropQueue (s : Session V) (name : String) :
    (s.dropQueue name).providers = s.providers := by
  rw [dropQueue]
  split <;> rfl

theorem waiting_dropQueue (s : Session V) (name : String) :
    (s.dropQueue name).waiting name = [] := by
  rw [dropQueue]
  split
  · exact waiting_of_none lookup_filter_self
  · exact waiting_of_none ‹_›

/-- A call about a queue leaves named providers alone. -/
theorem providers_perform {a : Action V} (h : a.queue? = some name) :
    (s.perform a).2.providers = s.providers := by
  have hwith {f : Queue V → Reply V × Session V} (queue : String)
      (hf : ∀ q, (f q).2.providers = s.providers) :
      (s.withQueue queue f).2.providers = s.providers := by
    rw [withQueue]
    split
    · exact hf _
    · rfl
  cases a with
  | queue queue => exact providers_dropQueue s queue
  | push queue item => exact hwith queue fun _ => rfl
  | pop queue consumer => exact hwith queue fun _ => rfl
  | tryPop queue => exact hwith queue fun _ => rfl
  | length queue => exact hwith queue fun _ => rfl
  | dropQueue queue => exact hwith queue fun _ => providers_dropQueue s queue
  | _ => cases h

/-- A call about a queue pushes, pops or closes it, or leaves the store and what waits as they
were. -/
theorem perform_queue {R : Store V → List Nat → Prop} {a : Action V} (h : a.queue? = some name)
    (hrefl : R s.store (s.waiting name))
    (hpush : ∀ q item, s.queues.lookup name = some q →
      R (q.push item s.store).1 (q.push item s.store).2.waiting)
    (hpop : ∀ q consumer, s.queues.lookup name = some q →
      R (q.pop consumer s.store).1 (q.pop consumer s.store).2.waiting)
    (hclose : ∀ q, s.queues.lookup name = some q → R (q.close s.store) []) :
    R (s.perform a).2.store ((s.perform a).2.waiting name) := by
  have hdrop : R (s.dropQueue name).store [] := by
    rw [dropQueue]
    cases hq : s.queues.lookup name with
    | some q => exact hclose q hq
    | none =>
      rw [waiting_of_none hq] at hrefl
      exact hrefl
  have hwith {f : Queue V → Reply V × Session V}
      (hf : ∀ q, s.queues.lookup name = some q → R (f q).2.store ((f q).2.waiting name)) :
      R (s.withQueue name f).2.store ((s.withQueue name f).2.waiting name) := by
    cases hq : s.queues.lookup name with
    | some q =>
      rw [withQueue_of_some hq]
      exact hf q hq
    | none =>
      rw [withQueue_of_none hq]
      exact hrefl
  cases a with
  | queue queue =>
    obtain rfl : queue = name := Option.some.inj h
    have hempty : (s.perform (.queue queue)).2.waiting queue = [] := waiting_put .empty
    rw [hempty]
    exact hdrop
  | push queue item =>
    obtain rfl : queue = name := Option.some.inj h
    refine hwith fun q hq => ?_
    rw [waiting_put]
    exact hpush q item hq
  | pop queue consumer =>
    obtain rfl : queue = name := Option.some.inj h
    refine hwith fun q hq => ?_
    rw [waiting_put]
    exact hpop q consumer hq
  | tryPop queue =>
    obtain rfl : queue = name := Option.some.inj h
    refine hwith fun q hq => ?_
    show R s.store
      (waiting { s with store := s.store, queues := put queue q.tryPop.2 s.queues } queue)
    rw [waiting_put, Queue.waiting_tryPop, ← waiting_of_lookup hq]
    exact hrefl
  | length queue =>
    obtain rfl : queue = name := Option.some.inj h
    exact hwith fun _ _ => hrefl
  | dropQueue queue =>
    obtain rfl : queue = name := Option.some.inj h
    refine hwith fun q hq => ?_
    rw [waiting_dropQueue]
    exact hdrop
  | _ => cases h

theorem serves_perform (hs : s.Sound) {a : Action V} (h : a.queue? = some name) :
    Queue.Serves s.store (s.waiting name) (s.perform a).2.store ((s.perform a).2.waiting name) := by
  refine perform_queue h (Queue.Serves.refl _ _) (fun q item hq => ?_) (fun q consumer hq => ?_)
    fun q hq => ?_
  · rw [waiting_of_lookup hq]
    exact Queue.serves_push hs.coherent item q
  · rw [waiting_of_lookup hq]
    exact Queue.serves_pop hs.coherent consumer q
  · rw [waiting_of_lookup hq]
    exact Queue.serves_close hs.coherent q

/-- **A call keeps the providers in order.** -/
theorem Owned.perform (ho : s.Owned) (hs : s.Sound) (a : Action V) : (s.perform a).2.Owned := by
  cases hqueue : a.queue? with
  | some name =>
    exact ho.serves hs (touches_perform hs hqueue) (providers_perform hqueue)
      (serves_perform hs hqueue)
  | none =>
    by_cases hnew : ∃ name, a = .provider name
    · obtain ⟨name, rfl⟩ := hnew
      have hdrop := ho.keeps hs (keeps_dropProvider hs name) (proceeds_dropProvider s name)
      refine hdrop.create (hs.proceeds (proceeds_dropProvider s name)) ?_
      rw [dropProvider]
      split
      · exact lookup_filter_self
      · assumption
    · exact ho.keeps hs (keeps_perform hs hqueue fun name h => hnew ⟨name, h⟩)
        (proceeds_perform hqueue)

/-- **A run keeps the providers in order.** -/
theorem Owned.run (ho : s.Owned) (hs : s.Sound) (actions : List (Action V)) :
    (s.run actions).2.Owned := by
  induction actions generalizing s with
  | nil => exact ho
  | cons a actions ih => exact ih (ho.perform hs a) (hs.perform a)

end Session

end WireForm.Sync
