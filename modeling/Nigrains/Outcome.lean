import Nigrains.Eviction

/-!
# What a caller gets of what its call came to

A call runs on an activation of the identity it was routed to, as long as factories build
what they are asked for (`Identified`). When its method has ended, a bounded runtime moves
that identity to the recent end of its table, and raises a `KeyError` in place of the
outcome if the identity is not there any more. So the caller gets what its method came to
exactly when the runtime is not bounded or the table still holds an entry of the identity
(`outcome_kept`).
-/

namespace Nigrains

/-- Factories build grains that carry the identity they were given. -/
def Config.Honest (cfg : Config) : Prop :=
  ∀ type factory g grain, cfg.factories type = some factory → factory g = .ok grain → grain.id = g

section

variable {cfg : Config} {s s' : State} {t : TaskId} {n : Next Frame Outcome}

/-! ## Whose activation a call runs on -/

/-- The identity an activation was built for, as its grain carries it. -/
def State.identity (s : State) (a : ActId) : GrainId :=
  (s.heap a).grain.id

/-- The activation a frame works on carries the identity the frame is for. -/
def Frame.Serves (s : State) : Frame → Prop
  | .activated g (.waiting a) => s.identity a = g
  | .activated g (.reading a) => s.identity a = g
  | .activated g (.hook a) => s.identity a = g
  | .dispatchHere call (.entered _ a) => s.identity a = call.grain
  | .dispatchHere call (.queued _ a) => s.identity a = call.grain
  | .dispatchHere call (.running _ a _) => s.identity a = call.grain
  | _ => True

theorem serves_of_called {f : Frame} (h : f.called) : f.Serves s := by
  unfold Frame.Serves
  unfold Frame.called Frame.entry at h
  split <;> simp_all

theorem heap_modify (a : ActId) (f : Activation → Activation) (b : ActId) :
    (s.modify a f).heap b = if b = a then f (s.heap a) else s.heap b :=
  Function.update_apply ..

/-- Starting timers writes nothing of a record but its list of timers. -/
theorem heap_startTimers (a b : ActId) (s : State) :
    ∃ timers, (s.startTimers t a).heap b = { s.heap b with timers := timers } := by
  obtain ⟨L, timers, h⟩ := startTimers_eq (t := t) a s
  rw [h]
  show ∃ timers', (s.modify a fun x => { x with timers := timers }).heap b = _
  rw [heap_modify]
  split_ifs with hb
  · exact ⟨timers, by rw [hb]⟩
  · exact ⟨(s.heap b).timers, rfl⟩

theorem grain_startTimers (a b : ActId) (s : State) :
    ((s.startTimers t a).heap b).grain = (s.heap b).grain := by
  obtain ⟨timers, h⟩ := heap_startTimers (t := t) a b s
  rw [h]

theorem heap_cancel_all (τs : List TaskId) (s : State) :
    (τs.foldl State.cancel s).heap = s.heap := by
  obtain ⟨L, h⟩ := cancel_all_eq τs s
  rw [h]

theorem heap_startBackground : (s.startBackground cfg t).heap = s.heap := by
  obtain ⟨L, sweeper, scanner, h⟩ := startBackground_eq cfg s t
  rw [h]

/-- Activations, once built, keep their grain. -/
theorem exec_grain {c : Choice} {f : Frame} {r : Resume Outcome}
    (h : exec cfg s t c f r = some (s', n)) {b : ActId} (hb : b < s.built) :
    (s'.heap b).grain = (s.heap b).grain := by
  cases exec_effect h
  case publishes => exact congrArg Activation.grain (Function.update_of_ne hb.ne _ _)
  case takes who g a hentry =>
    exact congrArg (fun h => (h b).grain) (heap_cancel_all _ (s.take who g a))
  case begins => exact congrArg (fun h => (h b).grain) heap_startBackground
  all_goals
    first
      | rfl
      | (simp only [State.enter, State.leave, State.setLock, State.fail, State.tick, State.tock,
           State.activate, State.emit, heap_modify]
         split_ifs <;> simp_all [grain_startTimers])

/-- What a caller of the runtime may count on about identities. -/
structure Known (s : State) (f : Frame) (r : Resume Outcome) : Prop where
  serves : f.Serves s
  lt_built : ∀ x ∈ f.activity, ∀ a, x.about = some a → a < s.built
  entry : ∀ g a, s.activations.get g = some a → a < s.built ∧ s.identity a = g
  given : ∀ call c a, f = .dispatchHere call (.activating c) → r = .got (.ok (.activation a)) →
    a < s.built ∧ s.identity a = call.grain

theorem identity_publish {g : GrainId} {grain : Grain} :
    (s.publish g grain).identity s.built = grain.id := by
  simp [State.identity, State.publish, Activation.new]

theorem activated_serves {g : GrainId} {pc : ActivatedAt} {r : Resume Outcome}
    (hcfg : cfg.Honest) (hk : Known s (.activated g pc) r)
    (hgrain : ∀ b < s.built, s'.identity b = s.identity b)
    (h : activated cfg s t g pc r = some (s', n)) {pc' : ActivatedAt}
    (hf' : .activated g pc' ∈ n.frames) : Frame.Serves s' (.activated g pc') := by
  have hbuild : ∀ grain, build cfg g = some (.ok grain) → grain.id = g := by
    intro grain hg
    obtain ⟨factory, hfac, hok⟩ := Option.map_eq_some_iff.1 hg
    exact hcfg _ _ _ _ hfac hok
  unfold activated at h
  split at h
  · split at h
    · next a ha =>
      have hid := hk.entry g a ha
      split_ifs at h <;> cases h
      · obtain rfl : pc' = .waiting a := by simpa [Next.frames] using hf'
        exact (hgrain a hid.1).trans hid.2
      · cases hf'
    · split at h <;> cases h
      · cases hf'
      · obtain rfl : pc' = .room := by simpa [Next.frames] using hf'
        trivial
  · split at h
    · cases h
      cases hf'
    · split_ifs at h <;> cases h
      · obtain rfl : pc' = .lookup := by simpa [Next.frames] using hf'
        trivial
      · cases hf'
  · cases h
    cases hf'
  · split at h
    · next grain hg =>
      split_ifs at h <;> cases h
      · obtain rfl : pc' = .reading s.built := by simpa [Next.frames] using hf'
        exact identity_publish.trans (hbuild grain hg)
      · obtain rfl : pc' = .hook s.built := by simpa [Next.frames] using hf'
        exact identity_publish.trans (hbuild grain hg)
    · cases h
      cases hf'
    · cases h
  · cases h
    cases hf'
  · next a _ =>
    cases h
    obtain rfl : pc' = .hook a := by simpa [Next.frames] using hf'
    exact hk.serves
  all_goals
    cases h
    try cases hf'

theorem dispatchHere_serves {call : Call} {pc : DispatchAt} {r : Resume Outcome}
    (hk : Known s (.dispatchHere call pc) r)
    (hgrain : ∀ b < s.built, s'.identity b = s.identity b)
    (h : dispatchHere cfg s call pc r = some (s', n)) {pc' : DispatchAt}
    (hf' : .dispatchHere call pc' ∈ n.frames) : Frame.Serves s' (.dispatchHere call pc') := by
  have hserves := hk.serves
  have hlt := hk.lt_built
  unfold dispatchHere interrupted at h
  split at h
  · cases h
    obtain rfl : pc' = .activating s.served := by simpa [Next.frames] using hf'
    trivial
  · split at h <;> cases h
    cases hf'
  · next c a =>
    have hid := hk.given call c a rfl rfl
    split_ifs at h <;> cases h
    · obtain rfl : pc' = .entered c a := by simpa [Next.frames] using hf'
      exact (hgrain a hid.1).trans hid.2
    · cases hf'
  · cases h
    cases hf'
  · next c a =>
    have ha : s'.identity a = call.grain :=
      (hgrain a (hlt (.use a) (Multiset.mem_singleton_self _) a rfl)).trans hserves
    split_ifs at h <;> cases h
    · obtain rfl : pc' = .running c a false := by simpa [Next.frames] using hf'
      exact ha
    · obtain rfl : pc' = .running c a true := by simpa [Next.frames] using hf'
      exact ha
    · obtain rfl : pc' = .queued c a := by simpa [Next.frames] using hf'
      exact ha
  · next c a =>
    have ha : s'.identity a = call.grain :=
      (hgrain a (hlt (.use a) (Multiset.mem_singleton_self _) a rfl)).trans hserves
    cases h
    obtain rfl : pc' = .running c a true := by simpa [Next.frames] using hf'
    exact ha
  all_goals
    cases h
    try cases hf'

/-- The frames of a segment serve the identity they are for, if its own frame does. -/
theorem exec_serves {c : Choice} {f : Frame} {r : Resume Outcome} (hcfg : cfg.Honest)
    (hk : Known s f r) (h : exec cfg s t c f r = some (s', n)) {f' : Frame}
    (hf' : f' ∈ n.frames) : f'.Serves s' := by
  have hgrain : ∀ b < s.built, s'.identity b = s.identity b := fun b hb =>
    congrArg Grain.id (exec_grain h hb)
  rcases exec_left h hf' with he | hc
  · cases f
    case activated g pc =>
      obtain ⟨pc', rfl⟩ : ∃ pc', f' = .activated g pc' := by
        cases f' <;> simp [Frame.entry] at he
        exact ⟨_, by rw [he]⟩
      exact activated_serves hcfg hk hgrain h hf'
    case dispatchHere call pc =>
      obtain ⟨pc', rfl⟩ : ∃ pc', f' = .dispatchHere call pc' := by
        cases f' <;> simp [Frame.entry] at he
        exact ⟨_, by rw [he]⟩
      exact dispatchHere_serves hk hgrain h hf'
    all_goals
      cases f' <;> simp [Frame.entry] at he
      all_goals trivial
  · exact serves_of_called hc

/-- `_activated` returns an activation of the identity it was asked for. -/
theorem activated_returns {g : GrainId} {pc : ActivatedAt} {r : Resume Outcome} {a : ActId}
    (hk : Known s (.activated g pc) r) (h : activated cfg s t g pc r = some (s', n))
    (hn : n = .done (.ok (.activation a))) : a < s.built ∧ s.identity a = g := by
  subst hn
  have hserves := hk.serves
  have hlt := hk.lt_built
  unfold activated at h
  split at h
  · split at h
    · next b hb =>
      split_ifs at h <;> cases h
      exact hk.entry g a hb
    · split at h <;> cases h
  · split at h
    · cases h
      exact ⟨hlt (.wait a) (Multiset.mem_singleton_self _) a rfl, hserves⟩
    · split_ifs at h <;> cases h
  · cases h
  · split at h
    · split_ifs at h <;> cases h
    · cases h
    · cases h
  · cases h
  · cases h
  · cases h
  · cases h
    exact ⟨hlt (.build g a) (Multiset.mem_singleton_self _) a rfl, hserves⟩
  · cases h
  · cases h

/-! ## Every reachable state -/

/-- Calls and callers of `_activated` have activations of the identities they are for. -/
structure Identified (s : State) : Prop where
  frames : ∀ u f, f ∈ (s.tasks u).stack → f.Serves s
  entry : ∀ g a, s.activations.get g = some a → s.identity a = g
  given : ∀ t call c rest a, s.running = some (t, .got (.ok (.activation a))) →
    (s.tasks t).stack = .dispatchHere call (.activating c) :: rest → s.identity a = call.grain

theorem Reached.about_lt (hI : Reached s) {u : TaskId} {f : Frame} (hf : f ∈ (s.tasks u).stack) :
    ∀ x ∈ f.activity, ∀ a, x.about = some a → a < s.built :=
  fun x hx a ha => hI.sound.about_lt x (hI.nested.mem_pending hf hx) a ha

/-- What is on its way to the frame that runs has been built. -/
theorem Reached.held_lt (hI : Reached s) {a : ActId}
    (hr : s.running = some (t, .got (.ok (.activation a)))) : a < s.built := by
  refine hI.sound.about_lt (.hold a) (Multiset.mem_add.2 (.inr ?_)) a rfl
  rw [hr]
  exact Multiset.mem_singleton_self _

theorem Identified.known {f : Frame} {rest : List Frame} {r : Resume Outcome}
    (hid : Identified s) (hI : Reached s) (hr : s.running = some (t, r))
    (hs : (s.tasks t).stack = f :: rest) : Known s f r where
  serves := hid.frames t f (by rw [hs]; exact List.mem_cons_self)
  lt_built := hI.about_lt (u := t) (by rw [hs]; exact List.mem_cons_self)
  entry g a ha := ⟨hI.sound.entry_lt g a ha, hid.entry g a ha⟩
  given := by
    rintro call c a rfl rfl
    exact ⟨hI.held_lt hr, hid.given t call c rest a hr hs⟩

theorem step_grain {l : Label} (h : step cfg s l = some s') {b : ActId} (hb : b < s.built) :
    (s'.heap b).grain = (s.heap b).grain := by
  rcases step_cases h with ⟨t, r, f, rest, c, s1, n, hr, hs, he, rfl⟩ |
    ⟨t, r, f, rest, hr, ht, hs, hf, rfl⟩ | ⟨t, i, call, saved, hr, hs, hdue, rfl⟩ | hw
  · exact exec_grain he hb
  · rfl
  · rfl
  · rw [hw.heap]

theorem step_identity {l : Label} (h : step cfg s l = some s') {b : ActId} (hb : b < s.built) :
    s'.identity b = s.identity b :=
  congrArg Grain.id (step_grain h hb)

/-- Whoever builds an activation stands in `_activated`. -/
theorem exists_frame_of_build {g : GrainId} {a : ActId} (h : .build g a ∈ s.pending) :
    ∃ u pc, .activated g pc ∈ (s.tasks u).stack ∧ (pc = .reading a ∨ pc = .hook a) := by
  obtain ⟨u, f, hf, hx⟩ := exists_frame_of_pending h (by simp)
  unfold Frame.activity at hx
  split at hx <;> simp at hx
  · obtain ⟨rfl, rfl⟩ := hx
    exact ⟨u, _, hf, .inl rfl⟩
  · obtain ⟨rfl, rfl⟩ := hx
    exact ⟨u, _, hf, .inr rfl⟩

theorem Frame.Serves.mono {f : Frame} (h : f.Serves s)
    (hlt : ∀ x ∈ f.activity, ∀ a, x.about = some a → a < s.built)
    (hid : ∀ b < s.built, s'.identity b = s.identity b) : f.Serves s' := by
  unfold Frame.Serves at h ⊢
  split at h <;>
    first
      | trivial
      | exact (hid _ (hlt _ (Multiset.mem_singleton_self _) _ rfl)).trans h

theorem serves_of_new {f : Frame} (h : f.fresh ∨ f.hosted) : f.Serves s := by
  unfold Frame.fresh Frame.hosted at h
  unfold Frame.Serves
  split <;> simp_all

namespace Identified

variable {l : Label} (hcfg : cfg.Honest) (hI : Reached s) (hid : Identified s)
  (h : step cfg s l = some s')

include hcfg hI hid h in
theorem step_frames : ∀ u f, f ∈ (s'.tasks u).stack → f.Serves s' := by
  refine frames_step (Φ := fun _ f => f.Serves s ∧ ∀ x ∈ f.activity, ∀ a, x.about = some a →
    a < s.built) (Ψ := fun _ f => f.Serves s') h (fun u f hf => ⟨hid.frames u f hf, hI.about_lt hf⟩)
    ?_ ?_ ?_ ?_
  · exact fun _ f hf => hf.1.mono hf.2 fun b hb => step_identity h hb
  · rintro t r f rest c s1 n hr hs he rfl
    exact ⟨fun f' hf' => exec_serves hcfg (hid.known hI hr hs) he hf',
      fun _ f' _ _ hf' => serves_of_new (.inl hf'.1)⟩
  · exact fun _ f hf => serves_of_new (.inr hf)
  · exact fun _ _ _ _ _ => trivial

include hcfg hI hid h in
/-- What is entered into the table is still being built, by a frame that serves its
identity. -/
theorem step_entry {g : GrainId} {a : ActId} (ha : s'.activations.get g = some a) :
    s'.identity a = g := by
  have hkeep : s.activations.get g = some a → s'.identity a = g := fun hg =>
    (step_identity h (hI.sound.entry_lt g a hg)).trans (hid.entry g a hg)
  rcases hI.step_view h with hv | ⟨e, hv⟩
  · exact hkeep ((congrFun (congrArg Protocol.entry hv) g).symm.trans ha)
  · rcases hv.entry_of ha with hg | ⟨⟨old, rfl⟩, rfl⟩
    · exact hkeep hg
    · have hb : .build g s.view.built ∈ s'.pending := hv.gives_mem rfl
      obtain ⟨u, pc, hf, rfl | rfl⟩ := exists_frame_of_build hb
      · exact hid.step_frames hcfg hI h u _ hf
      · exact hid.step_frames hcfg hI h u _ hf

include hI hid h in
theorem step_given {t : TaskId} {call : Call} {c : CallId} {rest : List Frame} {a : ActId}
    (hr' : s'.running = some (t, .got (.ok (.activation a))))
    (hs' : (s'.tasks t).stack = .dispatchHere call (.activating c) :: rest) :
    s'.identity a = call.grain := by
  rcases given_cases hI.nested h hr' hs' with ⟨r, f, c, s1, hr, hs, hb, he, rfl⟩ | ⟨-, ho⟩ |
    ⟨hw, hlt, hr, hs⟩
  · rcases exec_ready (hI.asserted t r f _ hr hs) he with ho | ⟨g, pc, rfl⟩
    · simp [held] at ho
    · obtain rfl : g = _ := of_decide_eq_true hb
      have hret := activated_returns (hid.known hI hr hs) he rfl
      exact (congrArg Grain.id (exec_grain he hret.1)).trans hret.2
  · cases ho
  · exact (step_identity h (hI.held_lt hr)).trans (hid.given t call c rest a hr hs)

include hcfg hI hid h in
theorem step : Identified s' :=
  ⟨hid.step_frames hcfg hI h, fun _ _ => hid.step_entry hcfg hI h,
    fun _ _ _ _ _ => hid.step_given hI h⟩

end Identified

theorem identified_init (isMine : Option (GrainId → Bool)) : Identified (.init isMine) where
  frames _ _ h := by cases h
  entry _ _ h := by cases h
  given _ _ _ _ _ h := by cases h

theorem Run.identified {ok : State → State → Prop} {isMine : Option (GrainId → Bool)}
    (hcfg : cfg.Honest) (h : Run (step cfg) ok (.init isMine) s) : Identified s := by
  have hI := h.invariant (I := fun s => Reached s ∧ Identified s)
    ⟨reached_init _, identified_init _⟩
    fun s l s' hI hl _ => ⟨hI.1.step hl, hI.2.step hcfg hI.1 hl⟩
  exact hI.2

/-! ## The outcome of a call -/

/-- The frames `rest` of task `t` go on with the outcome `o`. -/
def Delivered (s : State) (t : TaskId) (rest : List Frame) (o : Outcome) : Prop :=
  (s.tasks t).stack = rest ∧
    match rest with
    | [] => (s.tasks t).result = some o
    | _ :: _ => s.running = some (t, .got o)

theorem delivered_land {rest : List Frame} {o o' : Outcome} :
    Delivered { s with toLoop := s.toLoop.land t rest (.done o) } t rest o' ↔ o = o' := by
  unfold Delivered
  rw [Loop.stack_land_self]
  cases rest with
  | nil => simp [Loop.land, Loop.setTask, Next.frames]
  | cons p rest => simp [Loop.land, Loop.setStack, Next.frames]

/-- The bookkeeping at the end of a call leaves an outcome as it is unless the runtime is
bounded and the identity is not in the table. -/
theorem countedOutcome_eq_iff {a : ActId} {o : Outcome} :
    countedOutcome cfg s a o = o ↔ cfg.maxActivations = none ∨
      (∃ b, s.activations.get (s.identity a) = some b) ∨
      o = .error (.keyError (s.identity a)) := by
  unfold countedOutcome
  split_ifs with hc
  · obtain ⟨hbounded, hnone⟩ := hc
    constructor
    · rintro rfl
      exact .inr (.inr rfl)
    · rintro (hm | ⟨b, hb⟩ | ho)
      · simp [hm] at hbounded
      · rw [show s.activations.get (s.identity a) = none from hnone] at hb
        cases hb
      · exact ho.symm
  · refine iff_of_true rfl ?_
    cases hm : cfg.maxActivations with
    | none => exact .inl rfl
    | some m =>
      refine .inr (.inl (Option.ne_none_iff_exists'.1 fun hnone => hc ⟨?_, hnone⟩))
      rw [hm]
      rfl

/-- In every reachable state : when the method of a call has ended with `o`, the caller
gets `o` exactly if the runtime is not bounded, or its table has an entry of the identity
the call was routed to (or `o` is the very error that would replace it). -/
theorem outcome_kept {isMine : Option (GrainId → Bool)} {call : Call} {c : CallId} {a : ActId}
    {locked : Bool} {rest : List Frame} {o : Outcome} {ch : Choice} (hcfg : cfg.Honest)
    (h : Run (step cfg) (fun _ _ => True) (.init isMine) s)
    (hr : s.running = some (t, .got o))
    (hs : (s.tasks t).stack = .dispatchHere call (.running c a locked) :: rest)
    (hl : step cfg s (.run ch) = some s') :
    Delivered s' t rest o ↔ cfg.maxActivations = none ∨
      (∃ b, s.activations.get call.grain = some b) ∨ o = .error (.keyError call.grain) := by
  have hid : s.identity a = call.grain :=
    (h.identified hcfg).frames t (.dispatchHere call (.running c a locked))
      (by rw [hs]; exact List.mem_cons_self)
  rw [← hid, ← countedOutcome_eq_iff]
  simp only [step, run, hr, hs, exec] at hl
  cases locked <;> cases hl <;> exact delivered_land

theorem small_honest (m : Option ℤ) : (Config.small m).Honest := by
  rintro type factory g grain hf hg
  cases hf
  cases hg
  rfl

/-- In a runtime without a bound a caller gets what the method came to. -/
theorem outcome_kept_unbounded : ∃ s s' : State,
    step (.small none) s (.run .go) = some s' ∧
    s.running = some (0, .got (.ok (.obj 0))) ∧
    Delivered s' 0 [.user .client] (.ok (.obj 0)) := by
  obtain ⟨s, hrun, hp⟩ := exists_free_run (.small none) none
    ([.arrive, .resume 0] ++ Label.invoke ⟨"counter", "x"⟩ ++ Label.serve.dropLast)
    (fun s => decide (s.running = some (0, .got (.ok (.obj 0))) ∧
      (s.tasks 0).stack = [.dispatchHere ⟨⟨"counter", "x"⟩, "get", 0, 0, none⟩
        (.running 0 0 true), .user .client]) && (step (.small none) s (.run .go)).isSome)
    (by decide +kernel)
  simp only [Bool.and_eq_true, decide_eq_true_eq] at hp
  obtain ⟨⟨hr, hs⟩, hsome⟩ := hp
  obtain ⟨s', hl⟩ := Option.isSome_iff_exists.1 hsome
  exact ⟨s, s', hl, hr, (outcome_kept (small_honest _) hrun hr hs hl).2 (.inl rfl)⟩

/-- A bounded runtime is left while a call is running, and the grace runs out : the
activation is taken out under the call, whose method then returns. -/
def lateReturn : List Label :=
  [.arrive, .resume 0] ++ Label.invoke ⟨"counter", "x"⟩ ++ Label.gos 2 ++ [Label.returns] ++
  Label.gos 3 ++ [.run .suspend, .arrive, .resume 1, .run .leave] ++ Label.gos 4 ++
  [.clock 30, .resume 1] ++ Label.gos 6 ++ [.run .suspend, .resume 0, Label.returns]

/-- The method returns a value and its caller gets a `KeyError`. -/
theorem lateReturn_raises : ∃ s s' : State,
    Run (step (.small (some 5))) (fun _ _ => True) (.init none) s ∧
    s.running = some (0, .got (.ok (.obj 0))) ∧
    (s.tasks 0).stack = [.dispatchHere ⟨⟨"counter", "x"⟩, "get", 0, 0, none⟩
      (.running 0 0 true), .user .client] ∧
    step (.small (some 5)) s (.run .go) = some s' ∧
    s'.running = some (0, .got (.error (.keyError ⟨"counter", "x"⟩))) := by
  obtain ⟨s, hrun, hp⟩ := exists_free_run (.small (some 5)) none lateReturn
    (fun s => decide (s.running = some (0, .got (.ok (.obj 0))) ∧
      (s.tasks 0).stack = [.dispatchHere ⟨⟨"counter", "x"⟩, "get", 0, 0, none⟩
        (.running 0 0 true), .user .client]) && (step (.small (some 5)) s (.run .go)).any fun s' =>
      s'.running = some (0, .got (.error (.keyError ⟨"counter", "x"⟩)))) (by decide +kernel)
  simp only [Bool.and_eq_true, decide_eq_true_eq, Option.any_eq_true] at hp
  obtain ⟨⟨hr, hs⟩, s', hl, hr'⟩ := hp
  exact ⟨s, s', hrun, hr, hs, hl, hr'⟩

end

end Nigrains
