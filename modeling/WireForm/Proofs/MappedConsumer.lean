import WireForm.Proofs.Outlook

/-!
# Mapped consumers are faithful lazy views

A consumer that was made from another by putting pure transforms on it, one after the other, shows
the same result. Whatever is called through it comes to what the same call through the other
consumer comes to, with the transforms applied to a value that is retrieved. That holds of each call
in every session, and so of runs: any of their calls can be made through a mapped consumer instead,
and nothing changes but the answers to these.

The transforms are called when a value is retrieved and at no other time. So it does not matter
either whether they are put on one by one or as one function.

## Main definitions

* `Link`, `Mapping.ofLinks` — transforms to be put on a consumer, and the mapping that they make
* `Operation`, `Session.Allows` — runs of which some calls can be made through mapped consumers
* `Mapping.Faithful`, `Session.Shows` — what is retrieved through a mapping, and what calls come to

## Main results

* `Session.run_links` — putting transforms on a consumer
* `Session.calls_perform` — no transform is called but by a consumer's call
* `Session.run_viaMapped` — runs with calls through mapped consumers
* `mapped_consumers_are_faithful` — all of it
-/

namespace WireForm.Sync

variable {V : Type}

/-! ### Putting transforms on a consumer -/

/-- A pure transform that is put on a consumer. -/
structure Link (V : Type) where
  /-- Whether it is of values that are taken. -/
  owned : Bool
  /-- The label of its calls. -/
  label : Nat
  /-- What it applies to values. -/
  function : V → V

/-- Put the transform on the consumer of this name, which keeps the name. -/
def Link.action (name : String) (l : Link V) : Action V :=
  .map l.owned (.pure l.label l.function) name name

/-- These transforms on top of a mapping. -/
def Mapping.links (m : Mapping V V) (links : List (Link V)) : Mapping V V :=
  links.foldl (fun m l => m.andThen l.owned l.label l.function) m

/-- The mapping that these transforms make. -/
def Mapping.ofLinks (links : List (Link V)) : Mapping V V := Mapping.identity.links links

/-- Whether an action makes a call of a consumer. -/
def Action.makesCall : Action V → Bool
  | .call _ _ | .join _ => true
  | _ => false

namespace Store

variable {s : Store V} {name : String}

theorem lookup_addHandle (s : Store V) (name : String) (h : Handle V) :
    (s.addHandle name h).handles.lookup name = some h := by
  show ((s.handles.filter (·.1 != name)) ++ [(name, h)]).lookup name = some h
  rw [List.lookup_append, Session.lookup_filter_self]
  exact List.lookup_cons_self

/-- A handle that is let go before another takes its name leaves no trace. -/
theorem addHandle_dropHandle (s : Store V) (name : String) (h : Handle V) :
    (s.dropHandle name).addHandle name h = s.addHandle name h := by
  simp [addHandle, dropHandle, List.filter_filter]

/-- Nor does one that is replaced. -/
theorem addHandle_addHandle (s : Store V) (name : String) (h h' : Handle V) :
    (s.addHandle name h).addHandle name h' = s.addHandle name h' := by
  simp [addHandle, dropHandle, List.filter_filter]

end Store

namespace Session

variable {s t : Session V} {name : String} {h : Handle V}

theorem withConsumer_of_some (hfound : s.store.handles.lookup name = some h)
    (f : Handle V → Reply V × Session V) : s.withConsumer name f = f h := by
  rw [withConsumer, hfound]

theorem perform_link (hfound : s.store.handles.lookup name = some h) (l : Link V) :
    s.perform (l.action name) = (.done,
      s.addHandle name { h with chain := h.chain.link l.owned (.pure l.label l.function) }) := by
  refine (withConsumer_of_some hfound _).trans (congrArg (Prod.mk _) ?_)
  show addHandle { s with store := s.store.dropHandle name } name _ = _
  rw [addHandle, Store.addHandle_dropHandle]
  rfl

/-- Putting transforms on a consumer that has some already. -/
theorem run_links_on (s : Session V) (h : Handle V) (m : Mapping V V) (links : List (Link V)) :
    (s.addHandle name (m.on h)).run (links.map (Link.action name)) =
      (links.map fun _ => .done, s.addHandle name ((m.links links).on h)) := by
  induction links generalizing m with
  | nil => rfl
  | cons l links ih =>
    have hfirst : (s.addHandle name (m.on h)).perform (l.action name) =
        (.done, s.addHandle name ((m.andThen l.owned l.label l.function).on h)) := by
      rw [perform_link (Store.lookup_addHandle _ _ _)]
      show (_, { s with store := (s.store.addHandle name _).addHandle name _ }) = _
      rw [Store.addHandle_addHandle]
      rfl
    rw [List.map_cons, run, hfirst]
    dsimp only
    rw [ih]
    rfl

/-- **Putting transforms on a consumer** makes one that goes through the mapping, in place of the
other, and does nothing else. -/
theorem run_links (hfound : s.store.handles.lookup name = some h) (first : Link V)
    (rest : List (Link V)) :
    s.run ((first :: rest).map (Link.action name)) = ((first :: rest).map fun _ => .done,
      s.addHandle name ((Mapping.ofLinks (first :: rest)).on h)) := by
  have hfirst : s.perform (first.action name) = (.done, s.addHandle name
      ((Mapping.identity.andThen first.owned first.label first.function).on h)) :=
    perform_link hfound first
  rw [List.map_cons, run, hfirst]
  dsimp only
  rw [run_links_on]
  rfl

/-! ### Transforms are called late -/

theorem calls_withProvider {f : Nat → Cell V → Reply V × Session V}
    (hf : ∀ id c, (f id c).2.calls = s.calls) : (s.withProvider name f).2.calls = s.calls := by
  rw [withProvider]
  split
  · exact hf _ _
  · rfl

theorem calls_withConsumer {f : Handle V → Reply V × Session V}
    (hf : ∀ handle, (f handle).2.calls = s.calls) : (s.withConsumer name f).2.calls = s.calls := by
  rw [withConsumer]
  split
  · exact hf _
  · rfl

theorem calls_withQueue {f : Queue V → Reply V × Session V}
    (hf : ∀ q, (f q).2.calls = s.calls) : (s.withQueue name f).2.calls = s.calls := by
  rw [withQueue]
  split
  · exact hf _
  · rfl

theorem calls_dropProvider (s : Session V) (name : String) :
    (s.dropProvider name).calls = s.calls := by
  rw [dropProvider]
  split <;> rfl

theorem calls_dropQueue (s : Session V) (name : String) : (s.dropQueue name).calls = s.calls := by
  rw [dropQueue]
  split <;> rfl

/-- **No transform is called but by a call of a consumer.** -/
theorem calls_perform {a : Action V} (ha : a.makesCall = false) :
    (s.perform a).2.calls = s.calls := by
  cases a with
  | provider name => exact calls_dropProvider s name
  | queue name => exact calls_dropQueue s name
  | dropProvider name => exact calls_withProvider fun _ _ => calls_dropProvider s name
  | dropQueue name => exact calls_withQueue fun _ => calls_dropQueue s name
  | countCalls => rfl
  | consumer _ _ | provide _ _ | tryProvide _ _ | update _ _ | produce _ _ _ | cancelProvider _
  | providerState _ => exact calls_withProvider fun _ _ => rfl
  | dropConsumer _ | clone _ _ | map _ _ _ _ | consumerState _ | spawn _ _ =>
    exact calls_withConsumer fun _ => rfl
  | push _ _ | pop _ _ | tryPop _ | length _ => exact calls_withQueue fun _ => rfl
  | call _ _ | join _ => cases ha

/-- Nor by one that touches no value. -/
theorem calls_call_of_control (s : Session V) (h : Handle V) {call : Call}
    (htakes : call.takes = false) (hlooks : call.looks = false) :
    (s.call h call).2.calls = s.calls := by
  rw [call_eq]
  cases call with
  | wait | waitFinal | waitFor p | waitFinalFor p | cancelAfter p =>
    simp only [callThrough]
    split <;> rfl
  | cancel => rfl
  | tryGet | getOrCancel | getOrCancelAfter p => cases hlooks
  | tryTake | tryTakeFinal | takeOrCancelAfter p => cases htakes

/-- Nor by one that looks in vain. -/
theorem calls_call_on_of_owned (s : Session V) (h : Handle V) {m : Mapping V V}
    (hm : m.isOwned = true) {call : Call} (hlooks : call.looks = true) :
    (s.call (m.on h) call).2.calls = s.calls := by
  have hhidden (c : Cell V) : (m.on h).chain.get c = ⟨.ok none, [], c⟩ :=
    Mapping.get_onto_of_owned _ _ _ hm
  cases call with
  | tryGet => rw [call_on_tryGet_of_owned hm]
  | getOrCancel =>
    rw [call_getOrCancel, hhidden]
    exact List.append_nil _
  | getOrCancelAfter p =>
    rw [call_getOrCancelAfter]
    cases (s.store.cell (m.on h).cell).cancelAfter p with
    | none => rfl
    | some x =>
      rw [Option.map_some, hhidden]
      exact List.append_nil _
  | wait | waitFinal | waitFor p | waitFinalFor p | cancelAfter p | cancel | tryTake | tryTakeFinal
  | takeOrCancelAfter p => cases hlooks

end Session

/-! ### Runs with calls through mapped consumers -/

/-- A call of a run that may be made in another way. -/
inductive Operation (V : Type) : Type 1 where
  /-- Any call, made as it is. -/
  | plain (a : Action V)
  /-- A consumer's call, that can be made through a mapped consumer as well. -/
  | through (consumer mapped : String) (m : Mapping V V) (call : Call)

namespace Operation

/-- The call itself. -/
def itself : Operation V → Action V
  | .plain a => a
  | .through consumer _ _ call => .call consumer call

/-- The call made through the mapped consumer. -/
def viaMapped : Operation V → Action V
  | .plain a => a
  | .through _ mapped _ call => .call mapped call

/-- The answer to the call made through the mapped consumer, given that to the call itself. -/
def answer : Operation V → Reply V → Reply V
  | .plain _, reply => reply
  | .through _ _ m call, reply => m.answer call reply

/-- One name stands for a consumer here, and the other for the same with the mapping put on it. A
call that is made as it is does not count the calls of transforms. -/
def Fits (s : Session V) : Operation V → Prop
  | .plain a => a ≠ .countCalls
  | .through consumer mapped m _ => ∃ h, s.store.handles.lookup consumer = some h ∧
      s.store.handles.lookup mapped = some (m.on h)

end Operation

namespace Session

variable {s t : Session V}

/-- Each call of a run, when its turn comes, can be made in either way. -/
def Allows (s : Session V) : List (Operation V) → Prop
  | [] => True
  | o :: operations => o.Fits s ∧ (s.perform o.itself).2.Allows operations

theorem perform_viaMapped (hs : s.Sound) (hst : s.Indistinct t) {o : Operation V}
    (hfits : o.Fits s) :
    (t.perform o.viaMapped).1 = o.answer (s.perform o.itself).1 ∧
      (s.perform o.itself).2.Indistinct (t.perform o.viaMapped).2 := by
  cases o with
  | plain a => exact hst.perform hfits
  | through consumer mapped m call =>
    obtain ⟨h, hconsumer, hmapped⟩ := hfits
    have hitself : s.perform (.call consumer call) = s.call h call :=
      withConsumer_of_some hconsumer _
    have hvia : s.perform (.call mapped call) = s.call (m.on h) call :=
      withConsumer_of_some hmapped _
    obtain ⟨hreply, hafter⟩ := hst.perform (a := .call mapped call) nofun
    show (t.perform (.call mapped call)).1 = m.answer call (s.perform (.call consumer call)).1 ∧
      (s.perform (.call consumer call)).2.Indistinct (t.perform (.call mapped call)).2
    rw [hvia] at hreply hafter
    rw [hitself, hreply, answer_call_on (hs.coherent h.cell)]
    have hcell : (m.on h).cell = h.cell := rfl
    have hsame : (s.call h call).2.Indistinct (s.call (m.on h) call).2 :=
      .of_uncounted (uncounted_call hcell call)
    exact ⟨rfl, hsame.trans hafter⟩

/-- **Calls of a run can be made through mapped consumers.** The answers to these are those to the
calls themselves, as they are heard through the transforms, and all else is the same. -/
theorem run_viaMapped (hs : s.Sound) (hst : s.Indistinct t) {operations : List (Operation V)}
    (hallows : s.Allows operations) :
    (t.run (operations.map Operation.viaMapped)).1 =
        List.zipWith Operation.answer operations (s.run (operations.map Operation.itself)).1 ∧
      (s.run (operations.map Operation.itself)).2.Indistinct
        (t.run (operations.map Operation.viaMapped)).2 := by
  induction operations generalizing s t with
  | nil => exact ⟨rfl, hst⟩
  | cons o operations ih =>
    obtain ⟨hfits, hrest⟩ := hallows
    obtain ⟨hreply, hafter⟩ := perform_viaMapped hs hst hfits
    obtain ⟨hreplies, hend⟩ := ih (hs.perform o.itself) hafter hrest
    exact ⟨List.cons_eq_cons.mpr ⟨hreply, hreplies⟩, hend⟩

end Session

/-! ### Transforms put on as one -/

/-- What is found through a mapping depends on the function that it is and on whether it shows
values that are looked at. -/
theorem Handle.outlook_on {m m' : Mapping V V} (hfunction : m'.function = m.function)
    (howned : m'.isOwned = m.isOwned) (h : Handle V) :
    (m'.on h).outlook = (m.on h).outlook := by
  have hview (r : Retrieval V V) : (m'.view r).value = (m.view r).value := by
    rw [Mapping.view, Mapping.view, hfunction]
  refine outlook_eq_iff.mpr ⟨rfl, fun c => ⟨?_, ?_, ?_⟩⟩
  · show ((m'.onto h.chain).get c).value = ((m.onto h.chain).get c).value
    cases hm : m.isOwned with
    | true =>
      rw [Mapping.get_onto_of_owned _ _ _ hm, Mapping.get_onto_of_owned _ _ _ (howned.trans hm)]
    | false => rw [Mapping.get_onto _ _ _ hm, Mapping.get_onto _ _ _ (howned.trans hm), hview]
  · show ((m'.onto h.chain).take c).value = ((m.onto h.chain).take c).value
    rw [Mapping.take_onto, Mapping.take_onto, hview]
  · show ((m'.onto h.chain).takeFinal c).value = ((m.onto h.chain).takeFinal c).value
    rw [Mapping.takeFinal_onto, Mapping.takeFinal_onto, hview]

/-! ### The whole of it -/

/-- What is retrieved through a mapping, and what becomes of the result, by what is retrieved
without it. -/
structure Mapping.Faithful {α β γ : Type} (m : Mapping β γ) (ch : Chain α β) : Prop where
  /-- Calls that touch no value are the same. -/
  control : (m.onto ch).control = ch.control
  /-- A value that is taken is mapped. -/
  take : ∀ c, (m.onto ch).take c = m.view (ch.take c)
  /-- So is a final value. -/
  takeFinal : ∀ c, (m.onto ch).takeFinal c = m.view (ch.takeFinal c)
  /-- Also after waiting for it. -/
  takeOrCancelAfter : ∀ p c,
    (m.onto ch).takeOrCancelAfter p c = (ch.takeOrCancelAfter p c).map m.view
  /-- A value that is looked at is mapped. -/
  get : m.isOwned = false → ∀ c, (m.onto ch).get c = m.view (ch.get c)
  /-- Also after cancelling. -/
  getOrCancel : m.isOwned = false → ∀ c, (m.onto ch).getOrCancel c = m.view (ch.getOrCancel c)
  /-- Also after waiting for it. -/
  getOrCancelAfter : m.isOwned = false → ∀ p c,
    (m.onto ch).getOrCancelAfter p c = (ch.getOrCancelAfter p c).map m.view
  /-- A transform of values that are taken shows none that is looked at, and is not called. -/
  get_of_owned : m.isOwned = true → ∀ c, (m.onto ch).get c = ⟨.ok none, [], c⟩

theorem Mapping.faithful {α β γ : Type} (m : Mapping β γ) (ch : Chain α β) : m.Faithful ch where
  control := control_onto ch m
  take := take_onto ch m
  takeFinal := takeFinal_onto ch m
  takeOrCancelAfter := takeOrCancelAfter_onto ch m
  get hm c := get_onto ch m c hm
  getOrCancel hm c := getOrCancel_onto ch m c hm
  getOrCancelAfter hm p c := getOrCancelAfter_onto ch m p c hm
  get_of_owned hm c := get_onto_of_owned ch m c hm

/-- What the calls of a consumer come to when they are made through a mapping on it. -/
structure Session.Shows (s : Session V) (h : Handle V) (m : Mapping V V) : Prop where
  /-- The state is that of the result. -/
  state : ∀ c, (m.on h).chain.control.state c = h.chain.control.state c
  /-- Waiting and cancelling is the same, and calls no transform. -/
  control : ∀ call : Call, call.takes = false → call.looks = false →
    s.call (m.on h) call = s.call h call ∧ (s.call h call).2.calls = s.calls
  /-- A call that takes the value does the same, and gets it mapped. -/
  take : ∀ call : Call, call.takes = true → s.call (m.on h) call = m.seen (s.call h call)
  /-- So does one that looks at it. -/
  look : m.isOwned = false → ∀ call : Call, call.looks = true →
    s.call (m.on h) call = m.seen (s.call h call)
  /-- Looking leaves the value where it is. -/
  store_tryGet : (s.call (m.on h) .tryGet).2.store = s.store
  /-- So it does after cancelling. -/
  store_getOrCancel : (s.call (m.on h) .getOrCancel).2.store = (s.call h .cancel).2.store
  /-- Also after waiting. -/
  store_getOrCancelAfter : ∀ p,
    (s.call (m.on h) (.getOrCancelAfter p)).2.store = (s.call h (.cancelAfter p)).2.store
  /-- Looking through a transform of values that are taken shows none and changes nothing. -/
  tryGet_of_owned : m.isOwned = true → s.call (m.on h) .tryGet = (.value none, s)
  /-- However it looks, no transform is called. -/
  calls_of_owned : m.isOwned = true → ∀ call : Call, call.looks = true →
    (s.call (m.on h) call).2.calls = s.calls

/-- A call that takes the value does not look at it. -/
theorem Call.looks_of_takes (call : Call) (htakes : call.takes = true) : call.looks = false := by
  cases call with
  | tryTake | tryTakeFinal | takeOrCancelAfter p => rfl
  | _ => cases htakes

theorem Session.shows (s : Session V) (h : Handle V) (m : Mapping V V) : s.Shows h m where
  state c := congrArg (Control.state · c) (Mapping.control_onto h.chain m)
  control _ htakes hlooks :=
    ⟨s.call_on_of_control h m htakes hlooks, s.calls_call_of_control h htakes hlooks⟩
  take call htakes := s.call_on h m call fun hlooks => by
    rw [call.looks_of_takes htakes] at hlooks
    cases hlooks
  look hm call _ := s.call_on h m call fun _ => hm
  store_tryGet := s.store_tryGet _
  store_getOrCancel := (s.store_getOrCancel _).trans
    (congrArg (·.2.store) (s.call_on_of_control h m rfl rfl))
  store_getOrCancelAfter p := (s.store_getOrCancelAfter _ p).trans
    (congrArg (·.2.store) (s.call_on_of_control h m rfl rfl))
  tryGet_of_owned := call_on_tryGet_of_owned
  calls_of_owned hm _ := s.calls_call_on_of_owned h hm

/-- **Mapped consumers are faithful lazy views.** Whatever the types, a retrieval through pure
transforms is the retrieval without them, seen through the transforms; so are the calls of a
consumer with transforms on it in any session. In a run from the start any of a consumer's calls can
be made through a consumer that was mapped from it, with the answer that is heard through the
transforms and no other difference. Putting transforms on a consumer does nothing else, no action
but a call of a consumer calls any, and no run can tell whether they were put on one by one or as
one function. -/
theorem mapped_consumers_are_faithful {V : Type} :
    (∀ {α β γ : Type} (ch : Chain α β) (m : Mapping β γ), m.Faithful ch) ∧
    (∀ (s : Session V) (h : Handle V) (m : Mapping V V), s.Shows h m) ∧
    (∀ (before : List (Action V)) (operations : List (Operation V)),
      let s := (Session.start.run before).2
      s.Allows operations →
      (s.run (operations.map Operation.viaMapped)).1 =
          List.zipWith Operation.answer operations (s.run (operations.map Operation.itself)).1 ∧
        (s.run (operations.map Operation.itself)).2.Indistinct
          (s.run (operations.map Operation.viaMapped)).2) ∧
    (∀ (s : Session V) (name : String) (h : Handle V) (first : Link V) (rest : List (Link V)),
      s.store.handles.lookup name = some h →
      s.run ((first :: rest).map (Link.action name)) = ((first :: rest).map fun _ => .done,
        s.addHandle name ((Mapping.ofLinks (first :: rest)).on h))) ∧
    (∀ (s : Session V) (a : Action V), a.makesCall = false → (s.perform a).2.calls = s.calls) ∧
    ∀ (s : Session V) (name : String) (h : Handle V) (first : Link V) (rest : List (Link V))
      (label : Nat) (actions : List (Action V)),
      s.store.handles.lookup name = some h → (∀ a ∈ actions, a ≠ .countCalls) →
      let m := Mapping.ofLinks (first :: rest)
      let oneByOne := (s.run ((first :: rest).map (Link.action name))).2
      let asOne := (s.perform (.map m.isOwned (.pure label m.function) name name)).2
      (asOne.run actions).1 = (oneByOne.run actions).1 ∧
        (oneByOne.run actions).2.Indistinct (asOne.run actions).2 := by
  refine ⟨fun ch m => m.faithful ch, fun s h m => s.shows h m, fun before operations => ?_,
    fun s name h first rest hfound => Session.run_links hfound first rest,
    fun s a ha => Session.calls_perform ha,
    fun s name h first rest label actions hfound hactions => ?_⟩
  · intro s hallows
    exact Session.run_viaMapped (Session.sound_start.run before) (.refl s) hallows
  · intro m oneByOne asOne
    let single := Mapping.identity.andThen m.isOwned label m.function
    have hone : oneByOne = s.addHandle name (m.on h) :=
      congrArg Prod.snd (Session.run_links hfound first rest)
    have hall : asOne = s.addHandle name (single.on h) :=
      congrArg Prod.snd (Session.perform_link hfound ⟨m.isOwned, label, m.function⟩)
    have hfunction : single.function = m.function := rfl
    have hsame : (single.on h).outlook = (m.on h).outlook :=
      Handle.outlook_on hfunction (Bool.false_or _) h
    have hstart : oneByOne.Indistinct asOne := by
      rw [hone, hall]
      exact (Session.Indistinct.refl s).congr_store ((Store.Indistinct.refl _).addHandle hsame name)
    exact hstart.run hactions

/-- A provisional value is taken through a consumer with two transforms on it, and the final one
looked at in vain through a consumer with one of values that are taken. -/
theorem mapped_consumers_are_faithful_at_two :
    let before : List (Action Nat) := [.provider "p", .consumer "p" "c", .clone "c" "d",
      .clone "c" "e", .update "p" 1]
    let increase : Link Nat := ⟨false, 0, (· + 1)⟩
    let double : Link Nat := ⟨false, 1, (2 * ·)⟩
    let take : Link Nat := ⟨true, 2, (· + 5)⟩
    let c : Handle Nat := ⟨0, .direct⟩
    let m := Mapping.ofLinks [increase, double]
    let s := (Session.start.run (before ++ [increase.action "d", double.action "d",
      take.action "e"])).2
    let t := (Session.start.run before).2
    let operations : List (Operation Nat) := [.through "c" "d" m .tryTake,
      .plain (.provide "p" 2), .through "c" "e" (Mapping.ofLinks [take]) .getOrCancel]
    (Mapping.ofLinks [take]).Faithful c.chain ∧ s.Shows c m ∧ s.Allows operations ∧
      (s.run (operations.map Operation.viaMapped)).1 =
        List.zipWith Operation.answer operations (s.run (operations.map Operation.itself)).1 ∧
      t.store.handles.lookup "d" = some c ∧
      t.run ([increase, double].map (Link.action "d")) =
        ([.done, .done], t.addHandle "d" (m.on c)) ∧
      (t.perform (.update "p" 3)).2.calls = t.calls ∧
      ((t.perform (.map false (.pure 7 m.function) "d" "d")).2.run [.call "d" .tryGet]).1 =
        ((t.run ([increase, double].map (Link.action "d"))).2.run [.call "d" .tryGet]).1 := by
  intro before increase double take c m s t operations
  obtain ⟨hfaithful, hshows, hruns, hlinks, hlazy, hasOne⟩ :=
    mapped_consumers_are_faithful (V := Nat)
  have hallows : s.Allows operations :=
    ⟨⟨c, rfl, rfl⟩, nofun, ⟨c, rfl, rfl⟩, trivial⟩
  have hfound : t.store.handles.lookup "d" = some c := rfl
  have hactions : ∀ a ∈ [Action.call "d" Call.tryGet], a ≠ (.countCalls : Action Nat) := by
    rintro a (_ | _) ⟨⟩
    contradiction
  exact ⟨hfaithful _ _, hshows s c m, hallows, (hruns _ operations hallows).1, hfound,
    hlinks t "d" c increase [double] hfound, hlazy t (.update "p" 3) rfl,
    (hasOne t "d" c increase [double] 7 [.call "d" .tryGet] hfound hactions).1⟩

/-- Two transforms put on one by one are their composite put on as one. -/
example (f g : V → V) :
    (Mapping.ofLinks [⟨false, 0, f⟩, ⟨false, 1, g⟩]).function = g ∘ f := rfl

end WireForm.Sync
