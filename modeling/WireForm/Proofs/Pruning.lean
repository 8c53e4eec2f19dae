import WireForm.Proofs.PromptQueue

/-!
# Lazy pruning is not to be seen

Two sessions run side by side, one with queues that forget stale waiters lazily, one with queues
that forget them at once. Their lines differ in stale waiters, and their results where the one
session has cancelled a result that the other has only forgotten. Nobody has a handle on such a
result, or will get one: it has no provider of a name, from which a consumer could be made. So all
answers are the same.

## Main definitions

* `Session.Seen` — the results that can be got at
* `Session.Simulates` — how the two sessions agree

## Main results

* `Session.seen_perform` — what cannot be got at stays so
* `Session.wants_perform` — who wants no item any more will never want one
* `Session.Simulates.perform`, `Session.Simulates.run` — a call and a run, side by side
* `pruning_unobservable` — the answers of every run are the same
-/

namespace WireForm.Sync

variable {V : Type}

namespace Session

variable {s s' t t' : Session V} {name : String} {id : Nat} {a : Action V}

/-! ### Sessions side by side -/

/-- A result that can be got at: it has a handle or a provider of a name, or is not there yet. -/
def Seen (s : Session V) (id : Nat) : Prop :=
  s.store.hasConsumers id = true ∨ (∃ name, s.providers.lookup name = some id) ∨
    s.store.cells.length ≤ id

/-- The sessions agree in all that can be seen, and the lines of the one are those of the other
without who does not want an item any more. -/
structure Simulates (s t : Session V) : Prop where
  /-- Nobody sees a difference. -/
  alike : Alike s.Seen s t
  /-- The queues differ in stale waiters. -/
  lookup_eq : ∀ name, t.queues.lookup name = (s.queues.lookup name).map (·.forget s.store)

theorem simulates_start : (start : Session V).Simulates start :=
  ⟨⟨⟨rfl, rfl, rfl, fun _ _ => rfl⟩, rfl, rfl, rfl⟩, fun _ => rfl⟩

theorem lookup_forget (s : Session V) (name : String) :
    s.forget.queues.lookup name = (s.queues.lookup name).map (·.forget s.store) := by
  obtain ⟨store, providers, queues, spawned, calls⟩ := s
  show (queues.map _).lookup name = (queues.lookup name).map _
  induction queues with
  | nil => rfl
  | cons entry queues ih =>
    obtain ⟨first, q⟩ := entry
    rw [List.map_cons, List.lookup_cons, List.lookup_cons]
    cases name == first with
    | true => rfl
    | false => exact ih

/-- A result that waits can be got at through its handles only. -/
theorem hasConsumers_of_seen (hs : s.Sound) (ho : s.Owned) (hid : s.Seen id) :
    s.store.hasConsumers id = true ∨ id ∉ s.waiting name := by
  rcases hid with hhas | ⟨provider, hprovider⟩ | hle
  · exact Or.inl hhas
  · exact Or.inr (ho.not_mem_waiting provider id hprovider name)
  · exact Or.inr fun hmem => Nat.not_lt.mpr hle (hs.waiting_lt hmem)

theorem Keeps.seen (h : s.Keeps s') (hid : s'.Seen id) : s.Seen id := by
  rcases hid with hhas | ⟨name, hname⟩ | hle
  · exact (h.consumers id hhas).imp_right Or.inl
  · exact Or.inr (Or.inl ⟨name, h.providers name id hname⟩)
  · exact Or.inr (Or.inr (h.length_eq ▸ hle))

/-- A new result can be got at, and was not there before. -/
theorem seen_of_create (h : Seen { s with
    store := s.store.create .fresh
    providers := put name s.store.cells.length s.providers } id) : s.Seen id := by
  rcases h with hhas | ⟨other, hother⟩ | hle
  · exact Or.inl hhas
  · by_cases hname : other = name
    · subst hname
      have hid : s.store.cells.length = id :=
        Option.some.inj ((lookup_put_self _).symm.trans hother)
      exact Or.inr (Or.inr (Nat.le_of_eq hid))
    · exact Or.inr (Or.inl ⟨other, (lookup_put_of_ne _ hname).symm.trans hother⟩)
  · exact Or.inr (Or.inr (Nat.le_trans Store.evolves_create.length_le hle))

/-- What can be got at after a call could be got at before, or is new. -/
theorem seen_perform (hs : s.Sound) (h : (s.perform a).2.Seen id) : s.Seen id := by
  cases hqueue : a.queue? with
  | some queue =>
    rcases h with hhas | ⟨name, hname⟩ | hle
    · exact ((serves_perform hs hqueue).consumers id hhas).imp_right fun hnew => Or.inr hnew.1
    · exact Or.inr (Or.inl ⟨name, providers_perform hqueue ▸ hname⟩)
    · exact Or.inr (Or.inr (Nat.le_trans (evolves_perform hs a).length_le hle))
  | none =>
    by_cases hnew : ∃ name, a = .provider name
    · obtain ⟨name, rfl⟩ := hnew
      exact (keeps_dropProvider hs name).seen (seen_of_create h)
    · exact (keeps_perform hs hqueue fun name h => hnew ⟨name, h⟩).seen h

/-- Who does not want an item any more will never want one. -/
theorem wants_perform (hs : s.Sound) (ho : s.Owned) (hid : id ∈ s.waiting name)
    (h : (s.perform a).2.store.wants id = true) : s.store.wants id = true := by
  obtain ⟨hstate, hhas⟩ := Store.wants_iff.mp h
  refine Store.wants_iff.mpr ⟨fun hcancelled => hstate ?_, ?_⟩
  · rw [(evolves_perform hs a).state_eq hs.coherent (by rw [hcancelled]; rfl), hcancelled]
  · exact (hasConsumers_of_seen hs ho (seen_perform hs (Or.inl hhas))).resolve_right fun h => h hid

/-- The sessions stay side by side if they are alike after a call, and if the queues are the same
once all are forgotten that want no item any more. -/
theorem Simulates.of_alike (halike : Alike s.Seen s t)
    (hqueues : ∀ name, (t.queues.lookup name).map (·.forget s.store) =
      (s.queues.lookup name).map (·.forget s.store)) : s.Simulates t.forget := by
  refine ⟨⟨halike.store, halike.providers_eq, halike.spawned_eq, halike.calls_eq⟩, fun name => ?_⟩
  have hwants : t.store.wants = s.store.wants := halike.store.wants_eq fun _ => Or.inl
  have hforget : (·.forget t.store : Queue V → Queue V) = (·.forget s.store) := by
    funext q
    rw [Queue.forget, hwants, Queue.forget]
  rw [lookup_forget, hforget, hqueues]

namespace Simulates

/-- A queue that a call is not about. -/
theorem forget_lookup (h : s.Simulates t) (hs : s.Sound) (ho : s.Owned) (a : Action V)
    (hsame : (s.perform a).2.queues.lookup name = s.queues.lookup name)
    (hsame' : t'.queues.lookup name = t.queues.lookup name) :
    (t'.queues.lookup name).map (·.forget (s.perform a).2.store) =
      ((s.perform a).2.queues.lookup name).map (·.forget (s.perform a).2.store) := by
  rw [hsame, hsame', h.lookup_eq]
  cases hq : s.queues.lookup name with
  | none => rfl
  | some q =>
    refine congrArg some (Queue.forget_forget fun id hid hwants => ?_)
    exact wants_perform hs ho (waiting_of_lookup hq ▸ hid) hwants

/-- A call about no queue. -/
theorem perform_of_none (h : s.Simulates t) (hs : s.Sound) (ho : s.Owned)
    (hqueue : a.queue? = none) :
    (t.perform a).1 = (s.perform a).1 ∧ (s.perform a).2.Simulates (t.perform a).2.forget := by
  obtain ⟨hreply, halike⟩ := h.alike.perform (fun name id hid => Or.inr (Or.inl ⟨name, hid⟩))
    (fun _ => Or.inl) hqueue
  -- Alike in what could be got at before is enough, since nothing else can be got at afterwards.
  refine ⟨hreply, .of_alike (halike.mono fun _ => seen_perform hs) fun name => ?_⟩
  exact h.forget_lookup hs ho a (by rw [(proceeds_perform hqueue).queues_eq])
    (by rw [(proceeds_perform hqueue).queues_eq])

/-- A call that changes nothing. -/
theorem of_unchanged (h : s.Simulates t) : s.Simulates t.forget := by
  refine .of_alike h.alike fun name => ?_
  rw [h.lookup_eq]
  cases s.queues.lookup name with
  | none => rfl
  | some q => exact congrArg some (Queue.forget_forget fun _ _ => id)

/-- A call about a queue that changes that queue and the store. -/
theorem of_queues (h : s.Simulates t) (hs : s.Sound) (ho : s.Owned) {store store' : Store V}
    {queues queues' : List (String × Queue V)} (hqueue : a.queue? = some name)
    (hperform : (s.perform a).2 = { s with store := store, queues := queues })
    (halike : store.Alike (s.perform a).2.Seen store')
    (hforget : (queues'.lookup name).map (·.forget store) =
      (queues.lookup name).map (·.forget store))
    (hothers : ∀ other, other ≠ name → queues'.lookup other = t.queues.lookup other) :
    (s.perform a).2.Simulates (forget { t with store := store', queues := queues' }) := by
  refine .of_alike ?_ fun other => ?_
  · refine ⟨?_, ?_, ?_, ?_⟩ <;> rw [hperform]
    · rw [hperform] at halike
      exact halike
    · exact h.alike.providers_eq
    · exact h.alike.spawned_eq
    · exact h.alike.calls_eq
  · by_cases hother : other = name
    · subst hother
      rw [hperform]
      exact hforget
    · refine h.forget_lookup hs ho a (lookup_perform hs ?_) (hothers other hother)
      rw [hqueue]
      exact fun heq => hother (Option.some.inj heq).symm

/-- The same, where the queue is replaced by another. -/
theorem of_put (h : s.Simulates t) (hs : s.Sound) (ho : s.Owned) {store store' : Store V}
    {q p : Queue V} (hqueue : a.queue? = some name)
    (hperform : (s.perform a).2 = { s with store := store, queues := put name q s.queues })
    (halike : store.Alike (s.perform a).2.Seen store')
    (hforget : p.forget store = q.forget store) :
    (s.perform a).2.Simulates
      (forget { t with store := store', queues := put name p t.queues }) := by
  refine h.of_queues hs ho hqueue hperform halike ?_ fun other hother => lookup_put_of_ne _ hother
  rw [lookup_put_self, lookup_put_self]
  exact congrArg some hforget

section Queues

variable {q : Queue V}

theorem lookup_some (h : s.Simulates t) (hq : s.queues.lookup name = some q) :
    t.queues.lookup name = some (q.forget s.store) := by
  rw [h.lookup_eq, hq]
  rfl

theorem lookup_none (h : s.Simulates t) (hq : s.queues.lookup name = none) :
    t.queues.lookup name = none := by
  rw [h.lookup_eq, hq]
  rfl

/-- Whoever is in line and can be got at after a call has a handle. -/
theorem hasConsumers_or_notMem (hs : s.Sound) (ho : s.Owned) (hq : s.queues.lookup name = some q)
    (hqueue : a.queue? = some name) (hid : (s.perform a).2.Seen id) :
    (s.perform a).2.store.hasConsumers id = true ∨ id ∉ q.waiting := by
  rcases hid with hhas | ⟨provider, hprovider⟩ | hle
  · exact Or.inl hhas
  · rw [providers_perform hqueue] at hprovider
    rw [← waiting_of_lookup hq]
    exact Or.inr (ho.not_mem_waiting provider id hprovider name)
  · refine Or.inr fun hmem => ?_
    have hlt := (hs.queue name q hq).waiting_lt id hmem
    exact Nat.not_lt.mpr (Nat.le_trans (evolves_perform hs a).length_le hle) hlt

theorem push (h : s.Simulates t) (hs : s.Sound) (ho : s.Owned) (hl : s.InLine)
    (hq : s.queues.lookup name = some q) (item : V) :
    (t.performPrompt (.push name item)).1 = (s.perform (.push name item)).1 ∧
      (s.perform (.push name item)).2.Simulates (t.performPrompt (.push name item)).2 := by
  have hprompt : t.performPrompt (.push name item) =
      (.done, forget { t with
        store := ((q.forget s.store).hand item t.store).1
        queues := put name ((q.forget s.store).hand item t.store).2 t.queues }) := by
    rw [performPrompt, withQueue_of_some (h.lookup_some hq)]
  have hperform := perform_push hq item
  have hline := waiting_of_lookup hq
  obtain ⟨halike, hforget⟩ := Queue.push_eq_hand (P := (s.perform (.push name item)).2.Seen)
    hs.coherent item (fun id hid => hl.unset name id (hline ▸ hid))
    (h.alike.store.mono fun id => seen_perform hs)
    (fun id hid => by
      have hhas := hasConsumers_or_notMem hs ho hq (a := .push name item) rfl hid
      rw [hperform] at hhas
      rwa [← Queue.hasConsumers_push hs.coherent item q])
    (fun id hid hwants => by
      refine wants_perform (a := .push name item) hs ho (hline ▸ hid) ?_
      rw [hperform]
      exact hwants)
  rw [hprompt]
  exact ⟨by rw [hperform], h.of_put hs ho rfl (by rw [hperform]) halike hforget⟩

theorem pop (h : s.Simulates t) (hs : s.Sound) (ho : s.Owned) (hl : s.InLine)
    (hq : s.queues.lookup name = some q) (consumer : String) :
    (t.performPrompt (.pop name consumer)).1 = (s.perform (.pop name consumer)).1 ∧
      (s.perform (.pop name consumer)).2.Simulates (t.performPrompt (.pop name consumer)).2 := by
  have hprompt : t.performPrompt (.pop name consumer) =
      (.popped (((q.forget s.store).await consumer t.store).1.cell t.store.cells.length).state,
        forget { t with
          store := ((q.forget s.store).await consumer t.store).1
          queues := put name ((q.forget s.store).await consumer t.store).2 t.queues }) := by
    rw [performPrompt, withQueue_of_some (h.lookup_some hq)]
  have hperform := perform_pop hq consumer
  have hline := waiting_of_lookup hq
  have hstore : (s.perform (.pop name consumer)).2.store = (q.pop consumer s.store).1 := by
    rw [hperform]
  obtain ⟨halike, hforget⟩ := Queue.pop_eq_await (P := (s.perform (.pop name consumer)).2.Seen)
    hs.coherent consumer (hs.queue name q hq) (fun id hid => hl.unset name id (hline ▸ hid))
    (h.alike.store.mono fun id => seen_perform hs)
    (fun id hid => hstore ▸ hasConsumers_or_notMem hs ho hq (a := .pop name consumer) rfl hid)
    (fun id hid hwants =>
      wants_perform (a := .pop name consumer) hs ho (hline ▸ hid) (hstore ▸ hwants))
  have hnew : (s.perform (.pop name consumer)).2.Seen s.store.cells.length :=
    Or.inl (hstore ▸ Queue.hasConsumers_pop hs.coherent consumer q)
  rw [hprompt]
  refine ⟨?_, h.of_put hs ho rfl (by rw [hperform]) halike hforget⟩
  rw [hperform, h.alike.store.length_eq]
  exact congrArg (fun c : Cell V => Reply.popped c.state) (halike.cell_eq _ hnew)

theorem tryPop (h : s.Simulates t) (hs : s.Sound) (ho : s.Owned)
    (hq : s.queues.lookup name = some q) :
    (t.perform (.tryPop name)).1 = (s.perform (.tryPop name)).1 ∧
      (s.perform (.tryPop name)).2.Simulates (t.perform (.tryPop name)).2.forget := by
  have hperform : s.perform (.tryPop name) =
      (.value q.tryPop.1, { s with store := s.store, queues := put name q.tryPop.2 s.queues }) :=
    perform_tryPop hq
  have hitems : (q.forget s.store).tryPop = (q.tryPop.1, q.tryPop.2.forget s.store) := by
    obtain ⟨items, waiting⟩ := q
    cases items <;> rfl
  rw [perform_tryPop (h.lookup_some hq), hitems]
  refine ⟨by rw [hperform], h.of_put hs ho rfl (congrArg Prod.snd hperform) ?_ ?_⟩
  · exact h.alike.store.mono fun id => seen_perform hs
  · exact Queue.forget_forget fun _ _ => id

/-- A queue that goes, in both sessions. -/
theorem close (h : s.Simulates t) (hs : s.Sound) (ho : s.Owned)
    (hq : s.queues.lookup name = some q) (hqueue : a.queue? = some name)
    (hstore : (s.perform a).2.store = q.close s.store) :
    (q.close s.store).Alike (s.perform a).2.Seen ((q.forget s.store).close t.store) := by
  refine Queue.alike_close hs.coherent (hs.queue name q hq)
    (h.alike.store.mono fun id => seen_perform hs) fun id hid => ?_
  have hhas := hasConsumers_or_notMem hs ho hq hqueue hid
  rw [hstore] at hhas
  rwa [← Queue.hasConsumers_foldl_dropProvider q.waiting]

end Queues

/-- A new queue takes the place of one of its name. -/
theorem perform_newQueue (s : Session V) (name : String) :
    s.perform (.queue name) = (.done, { s with
      store := (s.queues.lookup name).elim s.store (·.close s.store)
      queues := put name .empty s.queues }) := by
  have hput : put name .empty (s.queues.filter (·.1 != name)) = put name .empty s.queues := by
    rw [put, List.filter_filter, put]
    simp only [Bool.and_self]
  rw [Session.perform, Session.dropQueue]
  cases hq : s.queues.lookup name with
  | none => rfl
  | some q =>
    dsimp only
    rw [hput]
    rfl

theorem perform_dropQueue {q : Queue V} (hq : s.queues.lookup name = some q) :
    s.perform (.dropQueue name) = (.done, { s with
      store := q.close s.store
      queues := s.queues.filter (·.1 != name) }) := by
  rw [Session.perform, withQueue_of_some hq, Session.dropQueue, hq]

theorem newQueue (h : s.Simulates t) (hs : s.Sound) (ho : s.Owned) (name : String) :
    (s.perform (.queue name)).2.Simulates (t.perform (.queue name)).2.forget := by
  have hperform := congrArg Prod.snd (perform_newQueue s name)
  rw [perform_newQueue t name]
  refine h.of_put hs ho rfl hperform ?_ rfl
  cases hq : s.queues.lookup name with
  | none =>
    rw [h.lookup_none hq]
    exact h.alike.store.mono fun id => seen_perform hs
  | some q =>
    rw [h.lookup_some hq]
    refine h.close hs ho hq rfl ?_
    rw [hperform, hq]
    rfl

theorem dropQueue {q : Queue V} (h : s.Simulates t) (hs : s.Sound) (ho : s.Owned)
    (hq : s.queues.lookup name = some q) :
    (s.perform (.dropQueue name)).2.Simulates (t.perform (.dropQueue name)).2.forget := by
  have hperform := congrArg Prod.snd (perform_dropQueue hq)
  rw [perform_dropQueue (h.lookup_some hq)]
  refine h.of_queues hs ho rfl hperform ?_ ?_ fun other hother => lookup_filter_of_ne hother
  · refine h.close hs ho hq rfl ?_
    rw [hperform]
  · rw [lookup_filter_self, lookup_filter_self]

/-- A call about a queue that is not there changes nothing. -/
theorem of_unknown (h : s.Simulates t) (hq : s.queues.lookup name = none)
    {f g : Queue V → Reply V × Session V} :
    (t.withQueue name g).1 = (s.withQueue name f).1 ∧
      (s.withQueue name f).2.Simulates (t.withQueue name g).2.forget := by
  rw [withQueue_of_none hq, withQueue_of_none (h.lookup_none hq)]
  exact ⟨rfl, h.of_unchanged⟩

theorem perform_of_some (h : s.Simulates t) (hs : s.Sound) (ho : s.Owned) (hl : s.InLine)
    (hqueue : a.queue? = some name) :
    (t.performPrompt a).1 = (s.perform a).1 ∧ (s.perform a).2.Simulates (t.performPrompt a).2 := by
  cases a with
  | push name item =>
    cases hq : s.queues.lookup name with
    | none => exact h.of_unknown hq
    | some q => exact h.push hs ho hl hq item
  | pop name consumer =>
    cases hq : s.queues.lookup name with
    | none => exact h.of_unknown hq
    | some q => exact h.pop hs ho hl hq consumer
  | tryPop name =>
    cases hq : s.queues.lookup name with
    | none => exact h.of_unknown hq
    | some q => exact h.tryPop hs ho hq
  | length name =>
    cases hq : s.queues.lookup name with
    | none => exact h.of_unknown hq
    | some q =>
      show (t.perform (.length name)).1 = _ ∧ Simulates _ (t.perform (.length name)).2.forget
      rw [perform_length hq, perform_length (h.lookup_some hq)]
      exact ⟨rfl, h.of_unchanged⟩
  | queue name => exact ⟨rfl, h.newQueue hs ho name⟩
  | dropQueue name =>
    cases hq : s.queues.lookup name with
    | none => exact h.of_unknown hq
    | some q =>
      have hreply : (t.perform (.dropQueue name)).1 = (s.perform (.dropQueue name)).1 := by
        rw [perform_dropQueue hq, perform_dropQueue (h.lookup_some hq)]
      exact ⟨hreply, h.dropQueue hs ho hq⟩
  | _ => cases hqueue

/-- **A call, with queues that forget later and with queues that forget at once**: the answers are
the same, and the sessions stay side by side. -/
theorem perform (h : s.Simulates t) (hs : s.Sound) (ho : s.Owned) (hl : s.InLine) (a : Action V) :
    (t.performPrompt a).1 = (s.perform a).1 ∧ (s.perform a).2.Simulates (t.performPrompt a).2 := by
  cases hqueue : a.queue? with
  | some name => exact h.perform_of_some hs ho hl hqueue
  | none =>
    have hprompt : t.performPrompt a = ((t.perform a).1, (t.perform a).2.forget) := by
      cases a with
      | push name item => cases hqueue
      | pop name consumer => cases hqueue
      | _ => rfl
    rw [hprompt]
    exact h.perform_of_none hs ho hqueue

/-- **A run, with queues that forget later and with queues that forget at once.** -/
theorem run (h : s.Simulates t) (hs : s.Sound) (ho : s.Owned) (hl : s.InLine)
    (actions : List (Action V)) :
    (t.runPrompt actions).1 = (s.run actions).1 ∧
      (s.run actions).2.Simulates (t.runPrompt actions).2 := by
  induction actions generalizing s t with
  | nil => exact ⟨rfl, h⟩
  | cons a actions ih =>
    obtain ⟨hreply, hstep⟩ := h.perform hs ho hl a
    obtain ⟨hreplies, hrun⟩ := ih hstep (hs.perform a) (ho.perform hs a) (hl.perform hs ho a)
    exact ⟨congrArg₂ List.cons hreply hreplies, hrun⟩

end Simulates

end Session

/-- **A queue that prunes stale waiters lazily cannot be told from one that forgets them at once.**
In every run all answers — lengths, items, states and whatever consumers retrieve, through all
handles and transforms — are those of the run in which a consumer is out of line as soon as it
cancels or its last handle goes, a pushed item goes to whoever is first in line or else to the back,
and a consumer gets the front item or else joins the line. In every session that a run comes to, a
queue has no items or nobody in line. -/
theorem pruning_unobservable {V : Type} :
    (∀ actions : List (Action V),
      (Session.start.run actions).1 = (Session.start.runPrompt actions).1) ∧
    (∀ (actions : List (Action V)) (name : String) (q : Queue V),
      (Session.start.run actions).2.queues.lookup name = some q →
      q.items = [] ∨ q.waiting = []) := by
  constructor
  · intro actions
    exact (Session.simulates_start.run Session.sound_start Session.owned_start
      Session.inLine_start actions).1.symm
  · intro actions name q hq
    exact ((Session.sound_start.run actions).queue name q hq).items_or_waiting

/-- Three consumers wait, one of them cancels and one goes away. Both stay in line and are passed
over when an item comes. -/
theorem pruning_unobservable_at_stale :
    let before : List (Action Nat) := [.queue "q", .pop "q" "a", .pop "q" "b", .pop "q" "c",
      .call "a" .cancel, .dropConsumer "b"]
    let actions := before ++ [.push "q" 7, .call "c" .tryTake]
    let q : Queue Nat := ⟨[], [0, 1, 2]⟩
    (Session.start.run before).2.queues.lookup "q" = some q ∧ (q.items = [] ∨ q.waiting = []) ∧
      (Session.start.runPrompt before).2.queues.lookup "q" = some ⟨[], [2]⟩ ∧
      (Session.start.run actions).1 = (Session.start.runPrompt actions).1 := by
  intro before actions q
  obtain ⟨hanswers, hempty⟩ := pruning_unobservable (V := Nat)
  have hq : (Session.start.run before).2.queues.lookup "q" = some q := rfl
  exact ⟨hq, hempty before "q" q hq, rfl, hanswers actions⟩

end WireForm.Sync
