import WireForm.Proofs.Locality

/-!
# Sessions that differ in what nobody sees

Two sessions are alike up to some results when they differ in no more than what became of the
others, and in their queues. As long as every handle and every provider of a name is on a result in
which they agree, no call about a provider or a consumer can tell them apart, and they stay alike.

## Main definitions

* `Store.Alike`, `Session.Alike` — agreement up to some results
* `Session.Agree` — the same answer, and sessions that are alike

## Main results

* `Session.Alike.concerns` — a step that is about one result
* `Session.Alike.perform` — a call about no queue
-/

namespace WireForm.Sync

variable {V : Type} {P Q : Nat → Prop}

/-! ### Stores -/

/-- The same handles, as many results, and the same result under every number that has `P`. -/
structure Store.Alike (P : Nat → Prop) (s t : Store V) : Prop where
  /-- The live handles are the same. -/
  handles_eq : t.handles = s.handles
  /-- So are those that are away. -/
  away_eq : t.away = s.away
  /-- There are as many results. -/
  length_eq : t.cells.length = s.cells.length
  /-- The results that matter are the same. -/
  cell_eq : ∀ id, P id → t.cell id = s.cell id

namespace Store.Alike

variable {s t : Store V} {id : Nat} {c : Cell V} {name : String}

theorem mono (h : s.Alike P t) (hP : ∀ id, Q id → P id) : s.Alike Q t :=
  ⟨h.handles_eq, h.away_eq, h.length_eq, fun id hid => h.cell_eq id (hP id hid)⟩

theorem hasConsumers_eq (h : s.Alike P t) (id : Nat) : t.hasConsumers id = s.hasConsumers id := by
  rw [hasConsumers, h.handles_eq, h.away_eq, hasConsumers]

/-- Only handles change, and in the same way. -/
theorem of_cells_eq (h : s.Alike P t) {s' t' : Store V} (hs : s'.cells = s.cells)
    (ht : t'.cells = t.cells) (hhandles : t'.handles = s'.handles) (haway : t'.away = s'.away) :
    s'.Alike P t' where
  handles_eq := hhandles
  away_eq := haway
  length_eq := by rw [hs, ht, h.length_eq]
  cell_eq id hid := by rw [cell_of_cells_eq hs, cell_of_cells_eq ht, h.cell_eq id hid]

/-- A result that is changed need not have been the same before. -/
theorem setCell (h : s.Alike (fun j => j ≠ id ∧ P j) t) (c : Cell V) :
    (s.setCell id c).Alike P (t.setCell id c) where
  handles_eq := h.handles_eq
  away_eq := h.away_eq
  length_eq := by rw [length_setCell, length_setCell, h.length_eq]
  cell_eq j hj := by
    by_cases hne : j = id
    · subst hne
      by_cases hlt : j < s.cells.length
      · rw [cell_setCell_self hlt, cell_setCell_self (by rwa [h.length_eq])]
      · have hle : s.cells.length ≤ j := Nat.not_lt.mp hlt
        have hle' : t.cells.length ≤ j := by rwa [h.length_eq]
        rw [cell_of_le (by rwa [length_setCell]), cell_of_le (by rwa [length_setCell])]
    · rw [cell_setCell_of_ne hne, cell_setCell_of_ne hne, h.cell_eq j ⟨hne, hj⟩]

theorem create (h : s.Alike P t) : (s.create .fresh).Alike P (t.create .fresh) where
  handles_eq := h.handles_eq
  away_eq := h.away_eq
  length_eq := by rw [length_create, length_create, h.length_eq]
  cell_eq id hid := by rw [cell_create_fresh, cell_create_fresh, h.cell_eq id hid]

theorem dropHandle (h : s.Alike P t) (name : String) :
    (s.dropHandle name).Alike P (t.dropHandle name) :=
  h.of_cells_eq rfl rfl (by rw [Store.dropHandle, h.handles_eq, Store.dropHandle]) h.away_eq

theorem addHandle (h : s.Alike P t) (name : String) (handle : Handle V) :
    (s.addHandle name handle).Alike P (t.addHandle name handle) := by
  have hdrop := h.dropHandle name
  refine hdrop.of_cells_eq rfl rfl ?_ hdrop.away_eq
  exact congrArg (· ++ [(name, handle)]) hdrop.handles_eq

theorem sendAway (h : s.Alike P t) (name : String) :
    (s.sendAway name).Alike P (t.sendAway name) := by
  rw [Store.sendAway, Store.sendAway, h.handles_eq]
  split
  · refine h.of_cells_eq rfl rfl (h.dropHandle name).handles_eq ?_
    exact congrArg (_ :: ·) h.away_eq
  · exact h

theorem bringBack (h : s.Alike P t) (name : String) :
    (s.bringBack name).Alike P (t.bringBack name) := by
  rw [Store.bringBack, Store.bringBack, h.away_eq]
  split
  · have hback : Alike P { s with away := s.away.filter (·.1 != name) }
        { t with away := s.away.filter (·.1 != name) } := h.of_cells_eq rfl rfl h.handles_eq rfl
    exact hback.addHandle name _
  · exact h

theorem dropProvider (h : s.Alike P t) (hid : P id) :
    (s.dropProvider id).Alike P (t.dropProvider id) := by
  rw [Store.dropProvider, Store.dropProvider, h.cell_eq id hid]
  exact setCell (h.mono fun _ => And.right) _

/-- One of the stores forgets some results. -/
theorem forgets (h : s.Alike P t) {s' : Store V} (hforgets : s.Forgets s')
    (hcell : ∀ id, P id → s'.cell id = s.cell id) : s'.Alike P t where
  handles_eq := by rw [h.handles_eq, hforgets.handles_eq]
  away_eq := by rw [h.away_eq, hforgets.away_eq]
  length_eq := by rw [h.length_eq, hforgets.length_eq]
  cell_eq id hid := by rw [hcell id hid, h.cell_eq id hid]

end Store.Alike

/-! ### Sessions -/

namespace Session

variable {s t : Session V} {name : String} {id : Nat}

/-- The same but for the queues and the results that do not have `P`. -/
structure Alike (P : Nat → Prop) (s t : Session V) : Prop where
  /-- The stores are alike. -/
  store : s.store.Alike P t.store
  /-- The same names have providers. -/
  providers_eq : t.providers = s.providers
  /-- The same calls are on threads. -/
  spawned_eq : t.spawned = s.spawned
  /-- The same transforms were called. -/
  calls_eq : t.calls = s.calls

/-- The same answer, and sessions that are alike. -/
def Agree (P : Nat → Prop) (x y : Reply V × Session V) : Prop := y.1 = x.1 ∧ Alike P x.2 y.2

namespace Alike

theorem mono (h : Alike P s t) (hP : ∀ id, Q id → P id) : Alike Q s t :=
  ⟨h.store.mono hP, h.providers_eq, h.spawned_eq, h.calls_eq⟩

/-- Only the stores change. -/
theorem congr_store (h : Alike P s t) {store store' : Store V} (hstore : store.Alike P store') :
    Alike P { s with store := store } { t with store := store' } :=
  ⟨hstore, h.providers_eq, h.spawned_eq, h.calls_eq⟩

/-- A step that is about a result in which the sessions agree. -/
theorem concerns (h : Alike P s t) (hid : P id) {f : Session V → Reply V × Session V}
    (hf : Concerns id f) : Agree P (f s) (f t) := by
  obtain ⟨reply, after, labels, hstep⟩ := hf
  rw [hstep s, hstep t, h.store.cell_eq id hid]
  exact ⟨rfl, .setCell (h.store.mono fun _ => And.right) _, h.providers_eq, h.spawned_eq,
    by rw [h.calls_eq]⟩

theorem withProvider (h : Alike P s t) {f g : Nat → Cell V → Reply V × Session V}
    (hfg : ∀ id, s.providers.lookup name = some id →
      Agree P (f id (s.store.cell id)) (g id (t.store.cell id))) :
    Agree P (s.withProvider name f) (t.withProvider name g) := by
  rw [Session.withProvider, Session.withProvider, h.providers_eq]
  split
  · rename_i id hid
    exact hfg id hid
  · exact ⟨rfl, h⟩

theorem withConsumer (h : Alike P s t) {f g : Handle V → Reply V × Session V}
    (hfg : ∀ handle, s.store.hasConsumers handle.cell = true → Agree P (f handle) (g handle)) :
    Agree P (s.withConsumer name f) (t.withConsumer name g) := by
  rw [Session.withConsumer, Session.withConsumer, h.store.handles_eq]
  split
  · rename_i handle hfound
    exact hfg handle (Store.hasConsumers_of_lookup hfound (Or.inl rfl))
  · exact ⟨rfl, h⟩

/-- A call on a provider that changes the result and answers as the result decides. -/
theorem provider (h : Alike P s t) (hP : ∀ name id, s.providers.lookup name = some id → P id)
    (reply : Cell V → Reply V) (after : Cell V → Cell V) :
    Agree P (s.withProvider name fun id c => (reply c, s.setCell id (after c)))
      (t.withProvider name fun id c => (reply c, t.setCell id (after c))) :=
  h.withProvider fun id hid => h.concerns (hP name id hid) (concerns_setCell reply after)

theorem dropProvider (h : Alike P s t)
    (hP : ∀ name id, s.providers.lookup name = some id → P id) (name : String) :
    Alike P (s.dropProvider name) (t.dropProvider name) := by
  rw [Session.dropProvider, Session.dropProvider, h.providers_eq]
  split
  · rename_i id hid
    exact ⟨h.store.dropProvider (hP name id hid), rfl, h.spawned_eq, h.calls_eq⟩
  · exact h

/-- **A call about no queue cannot tell sessions apart** that agree in all results which have
handles or providers of a name, and they stay alike. -/
theorem perform (h : Alike P s t) (hproviders : ∀ name id, s.providers.lookup name = some id → P id)
    (hconsumers : ∀ id, s.store.hasConsumers id = true → P id) {a : Action V}
    (hqueue : a.queue? = none) : Agree P (s.perform a) (t.perform a) := by
  cases a with
  | provider name =>
    have hdrop := h.dropProvider hproviders name
    refine ⟨rfl, hdrop.store.create, ?_, hdrop.spawned_eq, hdrop.calls_eq⟩
    show put name _ _ = put name _ _
    rw [hdrop.providers_eq, hdrop.store.length_eq]
  | consumer provider name =>
    exact h.withProvider fun id _ => ⟨rfl, h.congr_store (h.store.addHandle name _)⟩
  | dropProvider name => exact h.withProvider fun _ _ => ⟨rfl, h.dropProvider hproviders name⟩
  | dropConsumer name =>
    exact h.withConsumer fun _ _ => ⟨rfl, h.congr_store (h.store.dropHandle name)⟩
  | clone consumer name =>
    exact h.withConsumer fun handle _ => ⟨rfl, h.congr_store (h.store.addHandle name handle)⟩
  | map owned f consumer name =>
    exact h.withConsumer fun _ _ =>
      ⟨rfl, h.congr_store ((h.store.dropHandle consumer).addHandle name _)⟩
  | countCalls => exact ⟨by rw [Session.perform, h.calls_eq, Session.perform], h⟩
  | provide name v =>
    exact h.provider hproviders (fun c => .flag (c.provide v).1.isNone) fun c => (c.provide v).2
  | tryProvide name v =>
    rw [perform_tryProvide, perform_tryProvide]
    exact h.provider hproviders (fun c => offered (c.provide v).1) fun c => (c.provide v).2
  | update name v =>
    exact h.provider hproviders (fun c => .flag (c.update v).1) fun c => (c.update v).2
  | produce name produced isFinal =>
    exact h.provider hproviders
      (fun c => .produced (c.produce produced isFinal).1.1 (c.produce produced isFinal).1.2)
      fun c => (c.produce produced isFinal).2
  | cancelProvider name =>
    exact h.provider hproviders (fun c => .flag c.cancel.1) fun c => c.cancel.2
  | providerState name =>
    exact h.withProvider fun id hid =>
      h.concerns (hproviders name id hid) (concerns_look fun c => .state "Provider" c.state)
  | consumerState name =>
    exact h.withConsumer fun handle hhas =>
      h.concerns (hconsumers _ hhas)
        (concerns_look fun c => .state "Cancellable" (handle.chain.control.state c))
  | call name call =>
    exact h.withConsumer fun handle hhas =>
      h.concerns (hconsumers _ hhas) (concerns_call handle call)
  | spawn name call =>
    refine h.withConsumer fun handle _ =>
      ⟨rfl, h.store.sendAway name, h.providers_eq, ?_, h.calls_eq⟩
    show put name call _ = put name call _
    rw [h.spawned_eq]
  | join name =>
    rw [Session.perform, Session.perform, h.store.away_eq, h.spawned_eq]
    split
    · rename_i handle call hfound _
      have hid : P handle.cell :=
        hconsumers _ (Store.hasConsumers_of_lookup hfound (Or.inr rfl))
      obtain ⟨hreply, hafter⟩ := h.concerns hid (concerns_call handle call)
      refine ⟨?_, hafter.store.bringBack name, hafter.providers_eq, ?_, hafter.calls_eq⟩
      · dsimp only at hreply ⊢
        rw [hreply, hafter.store.cell_eq _ hid]
      · exact congrArg (List.filter _) hafter.spawned_eq
    · exact ⟨rfl, h⟩
  | _ => cases hqueue

end Alike

end Session

end WireForm.Sync
