import Nigrains.Outcome

/-!
# What works has been activated

A call or a tick works on an activation whose record is ready, and a record is made ready in
one place only : where `activate` has returned. A caller that waits sees its event set, which
the failing path does as well, so what tells the two apart is the failure it finds there
(`Protocol.Staged`). The invariant of the protocol is `Worked`. That a persistent grain has
been read by then is no event of the protocol, so a history variable records the reads that
have come back (`reading`), and the frames carry it (`Read`).
-/

set_option linter.unusedSectionVars false

namespace Nigrains

namespace Protocol

variable {P P' : Protocol} {e : Event} {a : ActId}

/-- What an activation's record and the trace say of each other. -/
structure Worked (P : Protocol) : Prop where
  activated : ∀ a < P.built, (P.life a).ready = false → ∃ g, .activated g a ∈ P.trace
  /-- What is on its way to a call, or in one, is ready. -/
  ready : ∀ a, .hold a ∈ P.pending ∨ .use a ∈ P.pending → (P.life a).ready = false
  failed : ∀ g a x old, .failed g a x old ∈ P.trace → a < P.built ∧ (P.life a).failed = true
  started : ∀ c a, .started c a ∈ P.trace → a < P.built ∧ (P.life a).ready = false
  ticked : ∀ a, .ticked a ∈ P.trace → a < P.built ∧ (P.life a).ready = false

/-- A tick starts on an activation that is ready. -/
def TicksReady (P : Protocol) : Event → Prop
  | .ticked a => (P.life a).ready = false
  | _ => True

theorem worked_init : Worked init where
  activated _ h := absurd h (Nat.not_lt_zero _)
  ready _ h := absurd h (by simp [init])
  failed _ _ _ _ h := nomatch h
  started _ _ h := nomatch h
  ticked _ h := nomatch h

/-- A record becomes ready by the event that says so. -/
theorem Step.ready_eq (h : Step P e P') (ha : a < P.built) (he : ∀ g, e ≠ .activated g a) :
    (P'.life a).ready = (P.life a).ready := by
  rw [h.life_eq]
  cases h
  case published =>
    dsimp only [Event.life]
    rw [if_neg ha.ne]
  case activated g b hp =>
    dsimp only [Event.life]
    split_ifs with hab
    · exact absurd (by rw [hab]) (he g)
    · rfl
  all_goals
    dsimp only [Event.life]
    try split_ifs
    all_goals rfl

/-- A ready record stays ready. -/
theorem Step.ready_false (h : Step P e P') (ha : a < P.built) (hr : (P.life a).ready = false) :
    (P'.life a).ready = false := by
  by_cases he : ∃ g, e = .activated g a
  · obtain ⟨g, rfl⟩ := he
    rw [h.life_eq]
    simp [Event.life]
  · rw [h.ready_eq ha fun g hg => he ⟨g, hg⟩, hr]

/-- A record that is ready was so, or `activate` has just returned. -/
theorem Step.ready_of_false (h : Step P e P') (ha : a < P'.built)
    (hr : (P'.life a).ready = false) :
    (∃ g, e = .activated g a) ∨ a < P.built ∧ (P.life a).ready = false := by
  by_cases he : ∃ g, e = .activated g a
  · exact .inl he
  · have hlt : a < P.built := by
      by_contra hge
      have hlife := h.life_eq a
      cases h
      case published =>
        obtain rfl : a = P.built := Nat.le_antisymm (Nat.lt_succ_iff.1 ha) (not_lt.1 hge)
        rw [hlife] at hr
        simp [Event.life, Life.new] at hr
      all_goals exact hge ha
    rw [h.ready_eq hlt fun g hg => he ⟨g, hg⟩] at hr
    exact .inr ⟨hlt, hr⟩

/-- A failed record stays failed. -/
theorem Step.failed_true (h : Step P e P') (ha : a < P.built) (hf : (P.life a).failed = true) :
    (P'.life a).failed = true := by
  rw [h.life_eq]
  cases h
  case published =>
    dsimp only [Event.life]
    rw [if_neg ha.ne, hf]
  all_goals
    dsimp only [Event.life]
    try split_ifs
    all_goals first | exact hf | rfl

/-- A record is not ready and failed. -/
theorem Sound.not_failed (hs : Sound P) (ha : a < P.built) (hr : (P.life a).ready = false) :
    (P.life a).failed = false := by
  rcases hs.staged a ha with hst | hst | hst
  · exact hst.2.2.2
  · exact hst.2.2.2
  · rw [hst.2.1] at hr
    cases hr

/-- A record whose event is set is ready, or has failed. -/
theorem Sound.ready_of_set (hs : Sound P) (ha : a < P.built) (hset : (P.life a).isSet = true)
    (hf : (P.life a).failed = false) : (P.life a).ready = false := by
  rcases hs.staged a ha with hst | hst | hst
  · rw [hst.2.2.1] at hset
    cases hset
  · exact hst.2.1
  · rw [hst.2.2.2] at hf
    cases hf

namespace Worked

variable (hW : Worked P) (hs : Sound P) (h : Step P e P')

include hW hs h

theorem step_activated (ha : a < P'.built) (hr : (P'.life a).ready = false) :
    ∃ g, .activated g a ∈ P'.trace := by
  rw [h.trace]
  rcases h.ready_of_false ha hr with ⟨g, rfl⟩ | ⟨hlt, hr⟩
  · exact ⟨g, List.mem_cons_self⟩
  · obtain ⟨g, hg⟩ := hW.activated a hlt hr
    exact ⟨g, List.mem_cons_of_mem _ hg⟩

theorem step_ready (ha : .hold a ∈ P'.pending ∨ .use a ∈ P'.pending) :
    (P'.life a).ready = false := by
  have old (hx : .hold a ∈ P.pending ∨ .use a ∈ P.pending) : (P'.life a).ready = false := by
    refine h.ready_false ?_ (hW.ready a hx)
    exact hx.elim (fun hx => hs.about_lt _ hx a rfl) fun hx => hs.about_lt _ hx a rfl
  rcases ha with ha | ha
  · rcases h.mem_pending ha with hx | hx
    · exact old (.inl hx)
    · -- what a caller is given it has found ready, or waited for, or built
      have hgain := h.life_eq a
      cases h
      case found he hr => cases hx; exact hr
      case woke hp hset hf =>
        cases hx
        exact hs.ready_of_set (hs.about_lt _ (hp ▸ Multiset.mem_cons_self _ _) a rfl) hset hf
      case activated =>
        cases hx
        rw [hgain]
        simp [Event.life]
      all_goals cases hx
  · rcases h.mem_pending ha with hx | hx
    · exact old (.inr hx)
    · cases h
      case entered hp => cases hx; exact old (.inl (hp ▸ Multiset.mem_cons_self _ _))
      all_goals cases hx

theorem step_failed {g : GrainId} {x : Exc} {old : Option ActId}
    (hmem : .failed g a x old ∈ P'.trace) : a < P'.built ∧ (P'.life a).failed = true := by
  rw [h.trace] at hmem
  rcases List.mem_cons.1 hmem with rfl | hmem
  · have hlt := hs.about_lt _ (h.takes_mem rfl) a rfl
    refine ⟨hlt.trans_le h.built_le, ?_⟩
    rw [h.life_eq]
    simp [Event.life]
  · obtain ⟨hlt, hf⟩ := hW.failed g a x old hmem
    exact ⟨hlt.trans_le h.built_le, h.failed_true hlt hf⟩

theorem step_started {c : CallId} (hmem : .started c a ∈ P'.trace) :
    a < P'.built ∧ (P'.life a).ready = false := by
  rw [h.trace] at hmem
  rcases List.mem_cons.1 hmem with rfl | hmem
  · have huse : .use a ∈ P.pending := by
      cases h
      assumption
    have hlt := hs.about_lt _ huse a rfl
    exact ⟨hlt.trans_le h.built_le, h.ready_false hlt (hW.ready a (.inr huse))⟩
  · obtain ⟨hlt, hr⟩ := hW.started c a hmem
    exact ⟨hlt.trans_le h.built_le, h.ready_false hlt hr⟩

theorem step_ticked (hticks : TicksReady P e) (hmem : .ticked a ∈ P'.trace) :
    a < P'.built ∧ (P'.life a).ready = false := by
  rw [h.trace] at hmem
  rcases List.mem_cons.1 hmem with rfl | hmem
  · have hlt : a < P.built := by
      cases h
      assumption
    exact ⟨hlt.trans_le h.built_le, h.ready_false hlt hticks⟩
  · obtain ⟨hlt, hr⟩ := hW.ticked a hmem
    exact ⟨hlt.trans_le h.built_le, h.ready_false hlt hr⟩

theorem step (hticks : TicksReady P e) : Worked P' where
  activated _ := hW.step_activated hs h
  ready _ := hW.step_ready hs h
  failed _ _ _ _ := hW.step_failed hs h
  started _ _ := hW.step_started hs h
  ticked _ := hW.step_ticked hs h hticks

end Worked

/-- What has failed has never worked. -/
theorem Worked.idle_of_failed (hW : Worked P) (hs : Sound P) {g : GrainId} {x : Exc}
    {old : Option ActId} (h : .failed g a x old ∈ P.trace) :
    (∀ c, .started c a ∉ P.trace) ∧ .ticked a ∉ P.trace := by
  obtain ⟨hlt, hf⟩ := hW.failed g a x old h
  have hnot : (P.life a).ready ≠ false := by
    intro hr
    rw [hs.not_failed hlt hr] at hf
    cases hf
  exact ⟨fun c hc => hnot (hW.started c a hc).2, fun ht => hnot (hW.ticked a ht).2⟩

end Protocol

/-! ## What ticks is ready -/

/-- An activation whose timers have been started is ready. -/
def TimersReady (s : State) : Prop :=
  ∀ u a pc, .tick a pc ∈ (s.tasks u).stack → (s.heap a).ready = false

section

variable {cfg : Config} {s s' : State} {t : TaskId} {n : Next Frame Outcome} {l : Label}

theorem timersReady_init (isMine : Option (GrainId → Bool)) : TimersReady (.init isMine) :=
  fun _ _ _ h => by cases h

/-- A record that is ready stays so. -/
theorem Reached.ready_step {a : ActId} (hI : Reached s) (h : Nigrains.step cfg s l = some s')
    (ha : a < s.built) (hr : (s.heap a).ready = false) : (s'.heap a).ready = false := by
  rcases hI.step_view h with hv | ⟨e, hv⟩
  · exact (congrArg Life.ready (congrFun (congrArg Protocol.life hv) a)).trans hr
  · exact hv.ready_false ha hr

/-- The coroutine that starts timers makes its activation ready. -/
theorem hook_ready {c : Choice} {g : GrainId} {a : ActId} {r : Resume Outcome}
    (h : exec cfg s t c (.activated g (.hook a)) r = some (s', n))
    (hlt : s.spawned < s'.spawned) : (s'.heap a).ready = false := by
  rcases r with _ | e | v
  · cases h
  · cases h
    exact absurd hlt (lt_irrefl _)
  · cases h
    simp [State.activate, State.emit, State.modify]

theorem TimersReady.step (hT : TimersReady s) (hI : Reached s)
    (h : Nigrains.step cfg s l = some s') : TimersReady s' := by
  have keep (u : TaskId) (a : ActId) (pc : TickAt) (hf : .tick a pc ∈ (s.tasks u).stack) :
      (s'.heap a).ready = false :=
    hI.ready_step h (hI.ticking u a pc hf) (hT u a pc hf)
  intro u a pc hf
  refine frames_step (Φ := fun u f => f ∈ (s.tasks u).stack)
    (Ψ := fun _ f => ∀ a pc, f = .tick a pc → (s'.heap a).ready = false) h
    (fun _ _ hf => hf) (fun u f hf a pc he => keep u a pc (he ▸ hf)) ?_ ?_ ?_ u _ hf a pc rfl
  · rintro t r f rest c s1 n hr hs he rfl
    refine ⟨fun f' hf' a pc htick => ?_, fun v f' hv hv' hstart a pc htick => ?_⟩
    · subst htick
      obtain ⟨pc', rfl⟩ := exec_ticks he hf'
      exact keep t a pc' (by rw [hs]; exact List.mem_cons_self)
    · subst htick
      cases pc with
      | start =>
        obtain ⟨g, rfl⟩ := (hstart.2 a).1 rfl
        have hready := hook_ready he (hv.trans_lt hv')
        exact hready
      | sleeping | working => exact hstart.1.elim
  · rintro v f hf a pc rfl
    exact hf.elim
  · rintro v call saved - - a pc he
    cases he

/-- A tick starts on an activation that is ready. -/
theorem TimersReady.ticksReady (hT : TimersReady s) (h : Nigrains.step cfg s l = some s')
    {e : Event} (he : s'.trace = e :: s.trace) : s.view.TicksReady e := by
  obtain ⟨t, r, f, rest, c, s1, n, -, hs, -, -, hlogs⟩ := step_logs h he
  cases e with
  | ticked a =>
    obtain ⟨pc, rfl⟩ : ∃ pc, f = .tick a pc := by
      cases hlogs
      exact ⟨_, rfl⟩
    exact hT t a pc (by rw [hs]; exact List.mem_cons_self)
  | _ => trivial

end

/-! ## The runtime, with the reads that have come back -/

/-- The activation whose state has come back to the coroutine that runs. -/
def State.reading (s : State) : Option ActId :=
  match s.running with
  | some (t, .got (.ok _)) =>
    match (s.tasks t).stack with
    | .activated _ (.reading a) :: _ => some a
    | _ => none
  | _ => none

/-- A runtime, and the activations whose state has been read. -/
structure Witnessed where
  state : State
  reads : List ActId

/-- A step of the runtime, with the read that has come back noted. -/
def readStep (cfg : Config) (w : Witnessed) (l : Label) : Option Witnessed :=
  (step cfg w.state l).map fun s' => ⟨s', w.state.reading.toList ++ w.reads⟩

/-- The state of the activation `a` has been read, if its grain is persistent and there is a
store. (`register` refuses a persistent kind where there is none.) -/
def Witnessed.Read (cfg : Config) (w : Witnessed) (a : ActId) : Prop :=
  (w.state.heap a).grain.persistent = true → cfg.state = true → a ∈ w.reads

/-- What works, or has come as far as its hook, has been read, and what has timers is ready. -/
structure Readied (cfg : Config) (w : Witnessed) : Prop where
  reached : Reached w.state
  worked : w.state.view.Worked
  ticks : TimersReady w.state
  hooks : ∀ u g a, .activated g (.hook a) ∈ (w.state.tasks u).stack → w.Read cfg a
  ready : ∀ a < w.state.built, (w.state.heap a).ready = false → w.Read cfg a

section

variable {cfg : Config} {w w' : Witnessed} {s s' : State} {t : TaskId}
  {n : Next Frame Outcome} {l : Label}

theorem readied_init (isMine : Option (GrainId → Bool)) : Readied cfg ⟨.init isMine, []⟩ where
  reached := reached_init isMine
  worked := by
    rw [view_init]
    exact Protocol.worked_init
  ticks := timersReady_init isMine
  hooks _ _ _ h := by cases h
  ready _ h := absurd h (Nat.not_lt_zero _)

theorem readStep_eq (h : readStep cfg w l = some w') :
    step cfg w.state l = some w'.state ∧ w'.reads = w.state.reading.toList ++ w.reads := by
  obtain ⟨s', hs', rfl⟩ := Option.map_eq_some_iff.1 h
  exact ⟨hs', rfl⟩

/-- A coroutine comes to the hook of an activation whose state it has read, or that it builds
without reading any. -/
theorem exec_hooks {c : Choice} {f : Frame} {g : GrainId} {a : ActId} {r : Resume Outcome}
    (h : exec cfg s t c f r = some (s', n)) (hf : .activated g (.hook a) ∈ n.frames) :
    f = .activated g (.reading a) ∧ (∃ v, r = .got (.ok v)) ∨
      ¬((s'.heap a).grain.persistent = true ∧ cfg.state = true) := by
  obtain ⟨pc, rfl⟩ : ∃ pc, f = .activated g pc := by
    rcases exec_left h hf with he | hc
    · cases f <;> simp [Frame.entry] at he
      exact ⟨_, by rw [he]⟩
    · simp [Frame.called, Frame.entry] at hc
  simp only [exec] at h
  unfold activated at h
  split at h
  case h_4 =>
    split at h
    · next grain hg =>
      split_ifs at h with hread <;> cases h
      · simp [Next.frames] at hf
      · obtain rfl : a = s.built := by simpa [Next.frames] using hf
        right
        simpa [State.publish, Activation.new] using hread
    · cases h
      simp [Next.frames] at hf
    · cases h
  case h_6 b v =>
    cases h
    obtain rfl : a = b := by simpa [Next.frames] using hf
    exact .inl ⟨rfl, v, rfl⟩
  all_goals
    repeat' split at h
    all_goals
      cases h
      try simp [Next.frames] at hf

namespace Readied

variable (hR : Readied cfg w) (h : readStep cfg w l = some w')

include hR h

/-- What has been read stays read, and a grain stays as persistent as it was. -/
theorem step_read {a : ActId} (ha : a < w.state.built) (hread : w.Read cfg a) : w'.Read cfg a := by
  obtain ⟨hstep, hreads⟩ := readStep_eq h
  intro hp hstore
  rw [step_grain hstep ha] at hp
  rw [hreads]
  exact List.mem_append_right _ (hread hp hstore)

theorem step_hooks (u : TaskId) (g : GrainId) (a : ActId)
    (hf : .activated g (.hook a) ∈ (w'.state.tasks u).stack) : w'.Read cfg a := by
  obtain ⟨hstep, hreads⟩ := readStep_eq h
  refine frames_step (Φ := fun u f => f ∈ (w.state.tasks u).stack)
    (Ψ := fun _ f => ∀ g a, f = .activated g (.hook a) → w'.Read cfg a) hstep
    (fun _ _ hf => hf) ?_ ?_ ?_ ?_ u _ hf g a rfl
  · rintro u f hf g a rfl
    exact hR.step_read h (hR.reached.about_lt hf _ (Multiset.mem_singleton_self _) a rfl)
      (hR.hooks u g a hf)
  · rintro t r f rest c s1 n hr hs he hs'
    refine ⟨fun f' hf' g a hhook => ?_, fun v f' hv hv' hstart g a hhook => ?_⟩
    · subst hhook
      rcases exec_hooks he hf' with ⟨rfl, v, rfl⟩ | hno
      · -- the read that has come back is the one noted
        have hreading : w.state.reading = some a := by
          unfold State.reading
          rw [hr]
          simp only [hs]
        intro _ _
        rw [hreads, hreading]
        exact List.mem_cons_self
      · intro hp hstore
        rw [hs'] at hp
        exact (hno ⟨hp, hstore⟩).elim
    · subst hhook
      exact hstart.1.elim
  · rintro v f hf g a rfl
    exact hf.elim
  · rintro v call saved - - g a he
    cases he

theorem step_ready {a : ActId} (ha : a < w'.state.built)
    (hr : (w'.state.heap a).ready = false) : w'.Read cfg a := by
  obtain ⟨hstep, -⟩ := readStep_eq h
  rcases hR.reached.step_view hstep with hv | ⟨e, hv⟩
  · have hlt : a < w.state.built := ha.trans_eq (congrArg Protocol.built hv)
    have hready := congrArg Life.ready (congrFun (congrArg Protocol.life hv) a)
    exact hR.step_read h hlt (hR.ready a hlt (hready.symm.trans hr))
  · rcases hv.ready_of_false ha hr with ⟨g, rfl⟩ | ⟨hlt, hr⟩
    · -- `activate` has returned to the coroutine that awaited it, which has read the state
      obtain ⟨t, r, f, rest, c, s1, n, -, hs, -, -, hlogs⟩ := step_logs hstep hv.trace
      have hhook : f = .activated g (.hook a) := by
        cases hlogs
        rfl
      have hmem : .activated g (.hook a) ∈ (w.state.tasks t).stack := by
        rw [hs, hhook]
        exact List.mem_cons_self
      exact hR.step_read h (hR.reached.about_lt hmem _ (Multiset.mem_singleton_self _) a rfl)
        (hR.hooks t g a hmem)
    · exact hR.step_read h hlt (hR.ready a hlt hr)

theorem step : Readied cfg w' where
  reached := hR.reached.step (readStep_eq h).1
  worked := by
    rcases hR.reached.step_view (readStep_eq h).1 with hv | ⟨e, hv⟩
    · rw [hv]
      exact hR.worked
    · exact hR.worked.step hR.reached.sound hv (hR.ticks.ticksReady (readStep_eq h).1 hv.trace)
  ticks := hR.ticks.step hR.reached (readStep_eq h).1
  hooks := hR.step_hooks h
  ready _ := hR.step_ready h

end Readied

/-- A method or a tick starts on the activation `a`. -/
def Event.works (a : ActId) : Event → Prop
  | .started _ a' => a' = a
  | .ticked a' => a' = a
  | _ => False

/-- A method or a tick starts only on an activation whose `activate` has returned, and whose
state has been read if it is persistent; on one whose state read or `activate` has raised or
been cancelled, none ever does. -/
theorem works_activated {isMine : Option (GrainId → Bool)}
    (h : Run (readStep cfg) (fun _ _ => True) ⟨.init isMine, []⟩ w)
    (hl : readStep cfg w l = some w') :
    (∀ e a, w'.state.trace = e :: w.state.trace → e.works a →
      (∃ g, .activated g a ∈ w.state.trace) ∧ w.Read cfg a) ∧
    ∀ g a x popped, .failed g a x popped ∈ w'.state.trace →
      ∀ e ∈ w'.state.trace, ¬e.works a := by
  have hR : Readied cfg w := h.invariant (readied_init isMine) fun _ _ _ hR hl _ => hR.step hl
  obtain ⟨hstep, -⟩ := readStep_eq hl
  have hR' := hR.step hl
  refine ⟨fun e a he hw => ?_, fun g a x popped hf e he hw => ?_⟩
  · rcases hR.reached.step_view hstep with hv | ⟨e', hv⟩
    · have htrace : w'.state.trace = w.state.trace := congrArg Protocol.trace hv
      rw [he] at htrace
      exact absurd htrace (List.cons_ne_self _ _)
    · obtain rfl : e = e' := (List.cons.inj (he.symm.trans hv.trace)).1
      have hlife : a < w'.state.built ∧ (w'.state.heap a).ready = false := by
        have hmem : e ∈ w'.state.trace := he ▸ List.mem_cons_self
        cases e with
        | started c b =>
          obtain rfl : b = a := hw
          exact hR'.worked.started c b hmem
        | ticked b =>
          obtain rfl : b = a := hw
          exact hR'.worked.ticked b hmem
        | _ => exact hw.elim
      rcases hv.ready_of_false hlife.1 hlife.2 with ⟨g, rfl⟩ | ⟨hlt, hr⟩
      · exact hw.elim
      · exact ⟨hR.worked.activated a hlt hr, hR.ready a hlt hr⟩
  · obtain ⟨hcalls, hticks⟩ := hR'.worked.idle_of_failed hR'.reached.sound hf
    cases e with
    | started c b =>
      obtain rfl : b = a := hw
      exact hcalls c he
    | ticked b =>
      obtain rfl : b = a := hw
      exact hticks he
    | _ => exact hw.elim

/-! ## Runs on fixed inputs -/

/-- A runtime alone with a state store, whose grains are persistent. -/
def Config.stored : Config :=
  { Config.small none with
    state := true
    factories := fun _ => some fun g => .ok ⟨g, false, true, ["get"]⟩ }

/-- A call of a cold identity, up to where its method starts. -/
def firstCall : List Label :=
  [.arrive, .resume 0] ++ Label.invoke ⟨"counter", "x"⟩ ++ Label.gos 2 ++
  [Label.returns] ++ Label.gos 1 ++ [Label.returns] ++ Label.gos 2

/-- The state is read and the grain is activated before the method starts. -/
theorem works_activated_stored : ∃ w w' : Witnessed,
    w'.state.trace = .started 0 0 :: w.state.trace ∧
    (∃ g, .activated g 0 ∈ w.state.trace) ∧ 0 ∈ w.reads := by
  obtain ⟨w, hrun, hp⟩ := exists_run_free (readStep .stored) ⟨.init none, []⟩ firstCall
    (fun w : Witnessed => decide ((w.state.heap 0).grain.persistent = true ∧
      (readStep .stored w (.run .go)).any (fun w' : Witnessed =>
        decide (w'.state.trace = .started 0 0 :: w.state.trace)) = true)) (by decide +kernel)
  obtain ⟨hpersistent, hany⟩ := of_decide_eq_true hp
  obtain ⟨w', hl, hp'⟩ := (Option.any_eq_true ..).1 hany
  have htrace := of_decide_eq_true hp'
  obtain ⟨hactivated, hread⟩ := (works_activated hrun hl).1 _ 0 htrace rfl
  exact ⟨w, w', htrace, hactivated, hread hpersistent rfl⟩

end

end Nigrains
