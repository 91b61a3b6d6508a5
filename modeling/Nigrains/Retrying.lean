import Nigrains.Isolation

/-!
# Going round after somebody else's cancellation

A caller of `_activated` waits, goes round and waits again, but it leaves the loop to build at
most once, and what it builds is the last thing it does there. So the attempts to activate an
identity and the callers still looking for it are never more than the callers there have been
(`step_attempts`), whatever the schedule. A failure is recorded once, and a caller that waited
reads what was raised (`Private.failed`). A `CancelledError` comes to a caller of `_activated`
from its own suspension, or from a hook it runs itself, so while a hook raises one only in a task
that has been cancelled, no other task is given one (`Private.given`).

Which tasks have been cancelled, and for which identities `_activated` has been called, are
history variables beside the state (`callStep`).
-/

namespace Nigrains

/-! ## The runtime, with its callers and cancelled tasks -/

/-- The identity for which `_activated` is about to be called. -/
def State.sought (s : State) : Option GrainId :=
  match s.running with
  | some (t, .send) =>
    match (s.tasks t).stack with
    | .dispatchHere call .start :: _ => some call.grain
    | _ => none
  | _ => none

/-- A runtime, the tasks that have been cancelled, and the identities `_activated` has been
called for. -/
structure Called where
  state : State
  cancelled : TaskId → Bool
  callers : List GrainId

/-- Nothing has been called or cancelled. -/
def Called.init (isMine : Option (GrainId → Bool)) : Called :=
  ⟨.init isMine, fun _ => false, []⟩

/-- The identity a step calls `_activated` for. -/
def Label.seeks (s : State) : Label → Option GrainId
  | .run _ => s.sought
  | _ => none

/-- A step of the runtime, with the caller it begins and the tasks it cancels noted. -/
def callStep (cfg : Config) (w : Called) (l : Label) : Option Called :=
  (step cfg w.state l).map fun s' =>
    ⟨s', fun u => w.cancelled u || (s'.tasks u).mustCancel,
      (l.seeks w.state).toList ++ w.callers⟩

/-- A hook : code that `_activated` or `_deactivate` runs for a grain. -/
def Role.isHook : Role → Bool
  | .read _ => true
  | .activate _ => true
  | .deactivate _ => true
  | _ => false

/-- A hook raises `CancelledError` only in a task that has been cancelled. -/
def HooksOwn (w w' : Called) : Prop :=
  ∀ t r role rest e, w.state.running = some (t, r) →
    (w.state.tasks t).stack = .user role :: rest → role.isHook = true →
    w'.state.running = some (t, .got (.error e)) → (w'.state.tasks t).stack = rest →
    e.isCancelled = true → w.cancelled t = true

/-- A factory, which awaits nothing, raises no `CancelledError`. -/
def Config.Uninterrupted (cfg : Config) : Prop :=
  ∀ g e, build cfg g = some (.error e) → e.isCancelled = false

/-- A caller of `_activated` that may still come to build. -/
def Frame.seeking (g : GrainId) : Frame → ℕ
  | .activated g' .lookup => if g' = g then 1 else 0
  | .activated g' (.waiting _) => if g' = g then 1 else 0
  | .activated g' .room => if g' = g then 1 else 0
  | _ => 0

/-- An attempt to activate an identity : an activation of it is built, or making room for it or
its factory has raised. -/
def Event.attempts (g : GrainId) : Event → Bool
  | .published g' _ _ => g' = g
  | .gaveUp g' => g' = g
  | _ => false

/-- The attempts to activate an identity so far. -/
def State.attempts (s : State) (g : GrainId) : ℕ :=
  s.trace.countP (Event.attempts g)

/-- Nobody is in `_activated` for an identity. -/
def State.Unsought (s : State) (g : GrainId) : Prop :=
  ∀ u pc, .activated g pc ∉ (s.tasks u).stack

section

variable {cfg : Config} {s s' : State} {t : TaskId} {n : Next Frame Outcome} {w w' : Called}
  {l : Label} {g : GrainId}

theorem callStep_eq (h : callStep cfg w l = some w') :
    step cfg w.state l = some w'.state ∧
      (∀ u, w'.cancelled u = (w.cancelled u || (w'.state.tasks u).mustCancel)) ∧
      w'.callers = (l.seeks w.state).toList ++ w.callers := by
  obtain ⟨s', hs', rfl⟩ := Option.map_eq_some_iff.1 h
  exact ⟨hs', fun _ => rfl, rfl⟩

/-! ## Attempts and callers -/

theorem seeking_callFrame (call : Call) (terminal : Terminal) :
    (callFrame cfg call terminal).seeking g = 0 := by
  unfold callFrame
  split_ifs
  · cases terminal <;> rfl
  · rfl

theorem seeking_terminalFrame (call : Call) (terminal : Terminal) :
    (terminal.frame call).seeking g = 0 := by
  cases terminal <;> rfl

/-- What a segment of a frame calls `_activated` for. -/
def Frame.seeks : Frame → Resume Outcome → Option GrainId
  | .dispatchHere call .start, .send => some call.grain
  | _, _ => none

/-- Only `_dispatch_here` calls `_activated`. -/
theorem passage_seeking {c : Choice} {f : Frame} {r : Resume Outcome}
    (h : Passage cfg s t c f r n) (hf : ∀ g' pc, f ≠ .activated g' pc)
    (hf' : ∀ call pc, f ≠ .dispatchHere call pc) : n.work (Frame.seeking g) = 0 := by
  cases h
  case calls | delivers | deliversWithin => exact seeking_callFrame _ _
  case reaches | reachesWithin => exact seeking_terminalFrame _ _
  case blocks seconds inside => cases inside <;> rfl
  all_goals
    first
      | rfl
      | exact (hf _ _ rfl).elim
      | exact (hf' _ _ rfl).elim

/-- A caller that builds, or gives up, does not go on looking. -/
theorem activated_attempts {pc : ActivatedAt} {r : Resume Outcome} {g' : GrainId}
    (h : activated cfg s t g' pc r = some (s', n)) :
    n.work (Frame.seeking g) + s'.attempts g ≤
      Frame.seeking g (.activated g' pc) + s.attempts g := by
  unfold State.attempts
  unfold activated at h
  repeat' split at h
  all_goals
    first
      | contradiction
      | (cases h
         simp only [Next.work, Frame.seeking, State.emit, State.publish, State.fail, State.modify,
           State.activate, trace_startTimers, Event.attempts, List.countP_cons, decide_eq_true_eq,
           Bool.false_eq_true, if_false]
         omega)

/-- A call begins to look for its activation. -/
theorem dispatchHere_attempts {call : Call} {pc : DispatchAt} {r : Resume Outcome}
    (h : dispatchHere cfg s call pc r = some (s', n)) :
    n.work (Frame.seeking g) + s'.attempts g ≤ s.attempts g +
      ((Frame.dispatchHere call pc).seeks r).toList.count g := by
  unfold State.attempts
  unfold dispatchHere interrupted at h
  repeat' split at h
  all_goals
    first
      | contradiction
      | (cases h
         simp only [Next.work, Frame.seeking, Frame.seeks, State.emit, State.enter, State.leave,
           State.setLock, State.modify, Event.attempts, List.countP_cons, Option.toList,
           List.count_cons, List.count_nil, beq_iff_eq, Bool.false_eq_true, if_false]
         omega)

/-- Attempts are logged by callers of `_activated`. -/
theorem exec_attempts_eq {c : Choice} {f : Frame} {r : Resume Outcome}
    (h : exec cfg s t c f r = some (s', n)) (hf : ∀ g' pc, f ≠ .activated g' pc) :
    s'.attempts g = s.attempts g := by
  unfold State.attempts
  rcases exec_log h with he | ⟨e, he, hlogs⟩
  · rw [he]
  · have hno : e.attempts g = false := by
      cases logged_of_logs hlogs <;> first | rfl | exact (hf _ _ rfl).elim
    rw [he, List.countP_cons, hno]
    simp

/-- Those who look and those who have tried are no more after a segment, but for the caller it
begins. -/
theorem exec_attempts {c : Choice} {f : Frame} {r : Resume Outcome}
    (h : exec cfg s t c f r = some (s', n)) :
    n.work (Frame.seeking g) + s'.attempts g ≤
      f.seeking g + s.attempts g + (f.seeks r).toList.count g := by
  cases f with
  | activated g' pc => exact (activated_attempts h).trans (Nat.le_add_right _ _)
  | dispatchHere call pc =>
    have hle := dispatchHere_attempts (g := g) h
    omega
  | _ =>
    rw [passage_seeking (exec_passage h) (fun _ _ => by simp) fun _ _ => by simp,
      exec_attempts_eq h fun _ _ => by simp]
    omega

theorem seeking_of_fresh {f : Frame} (h : f.fresh) : f.seeking g = 0 := by
  unfold Frame.fresh at h
  split at h <;> first | rfl | cases h

theorem seeking_of_hosted {f : Frame} (h : f.hosted) : f.seeking g = 0 := by
  unfold Frame.hosted at h
  split at h <;> first | rfl | cases h

/-- What a step calls `_activated` for, the segment it runs does. -/
theorem sought_eq {f : Frame} {r : Resume Outcome} {rest : List Frame}
    (hr : s.running = some (t, r)) (hs : (s.tasks t).stack = f :: rest) :
    s.sought = f.seeks r := by
  unfold State.sought Frame.seeks
  rw [hr]
  cases r with
  | got o =>
    cases f with
    | dispatchHere call pc => cases pc <;> rfl
    | _ => rfl
  | send =>
    simp only [hs]
    cases f with
    | dispatchHere call pc => cases pc <;> rfl
    | _ => rfl

/-- Those who look and those who have tried never outnumber those who have called. -/
theorem step_attempts (hn : Nested w.state) (h : callStep cfg w l = some w') :
    w'.state.toLoop.work (Frame.seeking g) + w'.state.attempts g + w.callers.count g ≤
      w.state.toLoop.work (Frame.seeking g) + w.state.attempts g + w'.callers.count g := by
  obtain ⟨hstep, -, hcallers⟩ := callStep_eq h
  rw [hcallers, List.count_append]
  by_cases hl : ∃ c, l = .run c
  · obtain ⟨c, rfl⟩ := hl
    obtain ⟨t, r, f, rest, s1, n, R, hr, hs, he, hs', hw, hw'⟩ := run_work hn hstep
      (w := Frame.seeking g) fun _ => seeking_of_fresh
    have hle := exec_attempts (g := g) he
    have hattempts : w'.state.attempts g = s1.attempts g := by
      rw [hs']
      rfl
    have hseeks : Label.seeks w.state (.run c) = f.seeks r := sought_eq hr hs
    rw [hw, hw', hattempts, hseeks]
    omega
  · have hl : ∀ c, l ≠ .run c := not_exists.1 hl
    obtain ⟨-, -, -, htrace⟩ := step_idle hl hstep
    rw [work_other (w := Frame.seeking g) hn hl hstep (fun _ => seeking_of_hosted) fun _ _ => rfl]
    unfold State.attempts
    rw [htrace]
    omega

/-! ## Whose cancellation a caller is given -/

/-- The coroutines on the way from a hook to a caller of `_activated`, and that caller. -/
def Frame.guarded : Frame → Prop
  | .activated .. => True
  | .makeRoom _ => True
  | .deactivate .. => True
  | .dispatchHere _ (.activating _) => True
  | _ => False

/-- Who is cancelled has been noted, a failure is on record, and a caller is given only its own
cancellation. -/
structure Private (w : Called) : Prop where
  reached : Reached w.state
  cancelled : ∀ u, (w.state.tasks u).mustCancel = true → w.cancelled u = true
  given : ∀ t e f rest, w.state.running = some (t, .got (.error e)) → e.isCancelled = true →
    (w.state.tasks t).stack = f :: rest → f.guarded → w.cancelled t = true
  failed : ∀ g a e popped, .failed g a e popped ∈ w.state.trace →
    a < w.state.built ∧ (w.state.heap a).failure = some e
  /-- A caller that waits is given nothing but an interruption. -/
  waits : ∀ t o g a rest, w.state.running = some (t, .got o) →
    (w.state.tasks t).stack = .activated g (.waiting a) :: rest → o = .error .cancelledError

theorem private_init (isMine : Option (GrainId → Bool)) : Private (.init isMine) where
  reached := reached_init isMine
  cancelled _ h := by cases h
  given _ _ _ _ h := by cases h
  failed _ _ _ _ h := by cases h
  waits _ _ _ _ _ h := by cases h

/-- A timer that has been cancelled raises nothing to who awaits it. -/
theorem not_cancelled_of_raises {o : Option Outcome} {e : Exc} (h : raises o = some e) :
    e.isCancelled = false := by
  unfold raises at h
  split at h
  · split_ifs at h with hc
    cases h
    exact Bool.eq_false_of_not_eq_true hc
  · cases h

/-- What a coroutine on that way raises, if it is a cancellation, it has been given. -/
theorem exec_cancelled {c : Choice} {f : Frame} {r : Resume Outcome} {e : Exc}
    (hcfg : cfg.Uninterrupted) (h : exec cfg s t c f r = some (s', .done (.error e)))
    (he : e.isCancelled = true)
    (hf : (∃ g pc, f = .activated g pc) ∨ (∃ pc, f = .makeRoom pc) ∨
      ∃ who g pc, f = .deactivate who g pc) : r = .got (.error e) := by
  rcases hf with ⟨g, pc, rfl⟩ | ⟨pc, rfl⟩ | ⟨who, g, pc, rfl⟩
  · simp only [exec] at h
    unfold activated at h
    repeat' split at h
    all_goals cases h
    all_goals
      first
        | rfl
        | contradiction
        | cases he
        | exact absurd he (by simp [hcfg g e ‹build cfg g = some (.error e)›])
  · simp only [exec] at h
    unfold makeRoom at h
    repeat' split at h
    all_goals
      cases h
      try rfl
  · simp only [exec] at h
    unfold deactivate at h
    repeat' split at h
    all_goals cases h
    all_goals
      first
        | rfl
        | exact absurd he (by simp [not_cancelled_of_raises ‹raises _ = some e›])

/-- What a guarded frame awaits is on that way too, or is a hook. -/
theorem guarded_below {p f : Frame} (hb : below (some p) f = true) (hp : p.guarded) :
    ((∃ g pc, f = .activated g pc) ∨ (∃ pc, f = .makeRoom pc) ∨
      ∃ who g pc, f = .deactivate who g pc) ∨ ∃ role, f = .user role ∧ role.isHook = true := by
  cases awaits_of_below hb
  case activating => exact .inl (.inl ⟨_, _, rfl⟩)
  case room => exact .inl (.inr (.inl ⟨_, rfl⟩))
  case evicting => exact .inl (.inr (.inr ⟨_, _, _, rfl⟩))
  case reading | activate | deactivate => exact .inr ⟨_, rfl, rfl⟩
  all_goals exact hp.elim

/-- A failure on record stays there : nobody is building what has failed. -/
theorem exec_failure_kept {c : Choice} {f : Frame} {r : Resume Outcome} {b : ActId} {e : Exc}
    (h : exec cfg s t c f r = some (s', n)) (hb : b < s.built)
    (hf : ∀ g, f ≠ .activated g (.reading b) ∧ f ≠ .activated g (.hook b))
    (he : (s.heap b).failure = some e) : (s'.heap b).failure = some e := by
  cases exec_effect h
  case publishes g grain o hbuild =>
    rwa [show (s.publish g grain).heap b = s.heap b from Function.update_of_ne hb.ne _ _]
  case failsReading g a x =>
    have hne : b ≠ a := by
      rintro rfl
      exact (hf g).1 rfl
    simpa [State.fail, heap_modify, hne] using he
  case fails g a x =>
    have hne : b ≠ a := by
      rintro rfl
      exact (hf g).2 rfl
    simpa [State.fail, heap_modify, hne] using he
  case activates g a o =>
    have hne : b ≠ a := by
      rintro rfl
      exact (hf g).2 rfl
    obtain ⟨timers, hheap⟩ := heap_startTimers (t := t) a b s
    simpa [State.activate, State.emit, heap_modify, hne, hheap] using he
  case takes who g a hentry => rwa [heap_cancel_all _ (s.take who g a)]
  case begins => rwa [heap_startBackground]
  all_goals
    first
      | exact he
      | (simp only [State.enter, State.leave, State.setLock, State.tick, State.tock, State.emit,
           heap_modify]
         split_ifs <;> simp_all)

/-- What is being built has not failed. -/
theorem Reached.not_building (hI : Reached s) {u : TaskId} {f : Frame} {a : ActId} {e : Exc}
    (hf : f ∈ (s.tasks u).stack) (he : (s.heap a).failure = some e) (g : GrainId) :
    f ≠ .activated g (.reading a) ∧ f ≠ .activated g (.hook a) := by
  have hno : .build g a ∉ s.pending := by
    intro hb
    have hlt := hI.sound.about_lt _ hb a rfl
    have hfailed : (s.view.life a).failed = true := by
      show (s.heap a).failure.isSome = true
      rw [he]
      rfl
    rcases hI.sound.staged a hlt with hst | hst | hst
    · rw [hst.2.2.2] at hfailed
      cases hfailed
    · exact hst.1 ⟨g, hb⟩
    · exact hst.1 ⟨g, hb⟩
  refine ⟨?_, ?_⟩
  · rintro rfl
    exact hno (hI.nested.mem_pending hf (Multiset.mem_singleton_self _))
  · rintro rfl
    exact hno (hI.nested.mem_pending hf (Multiset.mem_singleton_self _))

/-- An activation fails with what the coroutine that builds it is given. -/
theorem fails_of_logged {f : Frame} {r : Resume Outcome} {a : ActId} {e : Exc}
    {popped : Option ActId} (h : Logged f r (.failed g a e popped)) :
    (f = .activated g (.reading a) ∨ f = .activated g (.hook a)) ∧ r = .got (.error e) := by
  cases h with
  | failedReading => exact ⟨.inl rfl, rfl⟩
  | failed => exact ⟨.inr rfl, rfl⟩

namespace Private

variable (hP : Private w) (h : callStep cfg w l = some w')

include hP h

theorem step_failed {g : GrainId} {a : ActId} {e : Exc} {popped : Option ActId}
    (hmem : .failed g a e popped ∈ w'.state.trace) :
    a < w'.state.built ∧ (w'.state.heap a).failure = some e := by
  obtain ⟨hstep, -⟩ := callStep_eq h
  have hle := hP.reached.built_le hstep
  have hold (hmem : .failed g a e popped ∈ w.state.trace) :
      a < w'.state.built ∧ (w'.state.heap a).failure = some e := by
    obtain ⟨hlt, hfail⟩ := hP.failed g a e popped hmem
    refine ⟨hlt.trans_le hle, ?_⟩
    by_cases hl : ∃ c, l = .run c
    · obtain ⟨c, rfl⟩ := hl
      obtain ⟨t, r, f, rest, s1, n, hr, hs, he, hs'⟩ := run_cases hstep
      have hkept : (s1.heap a).failure = some e :=
        exec_failure_kept he hlt (hP.reached.not_building (hs ▸ List.mem_cons_self) hfail) hfail
      rwa [hs']
    · obtain ⟨-, hheap, -⟩ := step_idle (not_exists.1 hl) hstep
      rwa [hheap]
  rcases hP.reached.step_view hstep with hv | ⟨e', hv⟩
  · have htrace : w'.state.trace = w.state.trace := congrArg Protocol.trace hv
    rw [htrace] at hmem
    exact hold hmem
  · have htrace : w'.state.trace = e' :: w.state.trace := hv.trace
    rw [htrace] at hmem
    rcases List.mem_cons.1 hmem with rfl | hmem
    · -- the coroutine that builds `a` has written what it was given
      obtain ⟨t, r, f, rest, c, s1, n, hr, hs, he, hs', hlogs⟩ := step_logs hstep htrace
      have hmem : f ∈ (w.state.tasks t).stack := hs ▸ List.mem_cons_self
      have hfail : a < w.state.built ∧ s1 = w.state.fail g a e := by
        obtain ⟨rfl | rfl, rfl⟩ := fails_of_logged hlogs
        all_goals
          cases he
          exact ⟨hP.reached.about_lt hmem _ (Multiset.mem_singleton_self _) _ rfl, rfl⟩
      refine ⟨hfail.1.trans_le hle, ?_⟩
      rw [hs', hfail.2]
      simp [State.fail, heap_modify]
    · exact hold hmem

theorem step_given (hcfg : cfg.Uninterrupted) (hok : HooksOwn w w') {t : TaskId} {e : Exc}
    {f : Frame} {rest : List Frame} (hr' : w'.state.running = some (t, .got (.error e)))
    (he : e.isCancelled = true) (hs' : (w'.state.tasks t).stack = f :: rest) (hf : f.guarded) :
    w'.cancelled t = true := by
  obtain ⟨hstep, hcancelled, -⟩ := callStep_eq h
  have hkeep (hc : w.cancelled t = true) : w'.cancelled t = true := by
    rw [hcancelled, hc, Bool.true_or]
  rcases given_cases hP.reached.nested hstep hr' hs' with
    ⟨r, p, c, s1, hr, hs, hb, hx, -⟩ | ⟨hmust, -⟩ | ⟨hw, hlt, hr, hs⟩
  · rcases guarded_below hb hf with hway | ⟨role, rfl, hhook⟩
    · -- what the frame has raised it has been given
      have hgiven := exec_cancelled hcfg hx he hway
      subst hgiven
      refine hkeep (hP.given t e p _ hr he hs ?_)
      rcases hway with ⟨g, pc, rfl⟩ | ⟨pc, rfl⟩ | ⟨who, g, pc, rfl⟩ <;> trivial
    · exact hkeep (hok t r role _ e hr hs hhook hr' hs' he)
  · exact hkeep (hP.cancelled t hmust)
  · exact hkeep (hP.given t e f rest hr he hs hf)

theorem step_waits {t : TaskId} {o : Outcome} {g : GrainId} {a : ActId} {rest : List Frame}
    (hr' : w'.state.running = some (t, .got o))
    (hs' : (w'.state.tasks t).stack = .activated g (.waiting a) :: rest) :
    o = .error .cancelledError := by
  obtain ⟨hstep, -⟩ := callStep_eq h
  rcases given_cases hP.reached.nested hstep hr' hs' with
    ⟨r, p, c, s1, hr, hs, hb, hx, -⟩ | ⟨-, ho⟩ | ⟨hw, hlt, hr, hs⟩
  · -- nothing is awaited there that could return
    cases awaits_of_below hb
  · exact ho
  · exact hP.waits t o g a rest hr hs

theorem step (hcfg : cfg.Uninterrupted) (hok : HooksOwn w w') : Private w' where
  reached := hP.reached.step (callStep_eq h).1
  cancelled u hm := by
    rw [(callStep_eq h).2.1, hm, Bool.or_true]
  given _ _ _ _ hr he hs hf := hP.step_given h hcfg hok hr he hs hf
  failed _ _ _ _ hmem := hP.step_failed h hmem
  waits _ _ _ _ _ hr hs := hP.step_waits h hr hs

end Private

theorem Run.isPrivate (hcfg : cfg.Uninterrupted) {isMine : Option (GrainId → Bool)}
    (h : Run (callStep cfg) HooksOwn (.init isMine) w) : Private w :=
  h.invariant (private_init isMine) fun _ _ _ hP hl hok => hP.step hl hcfg hok

/-! ## The retry is bounded and private -/

/-- Between two states, the attempts to activate an identity are no more than its callers. -/
theorem attempts_le_callers {w₀ : Called} (hI : Reached w₀.state) (hg : w₀.state.Unsought g)
    {ok : Called → Called → Prop} (h : Run (callStep cfg) ok w₀ w) :
    w.state.attempts g + w₀.callers.count g ≤ w₀.state.attempts g + w.callers.count g := by
  have hzero : w₀.state.toLoop.work (Frame.seeking g) = 0 := by
    refine Finset.sum_eq_zero fun u _ => List.sum_eq_zero fun x hx => ?_
    obtain ⟨f, hf, rfl⟩ := List.mem_map.1 hx
    unfold Frame.seeking
    split
    all_goals
      first
        | rfl
        | (refine if_neg ?_
           rintro rfl
           exact hg u _ hf)
  have hend := h.invariant (I := fun w => Reached w.state ∧
      w.state.toLoop.work (Frame.seeking g) + w.state.attempts g + w₀.callers.count g ≤
        w₀.state.attempts g + w.callers.count g) ⟨hI, by omega⟩ fun w l w' hJ hl _ => by
    have hle := step_attempts (g := g) hJ.1.nested hl
    exact ⟨hJ.1.step (callStep_eq hl).1, by omega⟩
  omega

/-- Whoever waits for an activation that has failed is woken. -/
theorem Private.wakes (hP : Private w) {u : TaskId} {g g' : GrainId} {a : ActId}
    {rest : List Frame} {e : Exc} {popped : Option ActId}
    (hs : (w.state.tasks u).stack = .activated g (.waiting a) :: rest)
    (hmem : .failed g' a e popped ∈ w.state.trace) (hnone : w.state.running = none) :
    (Nigrains.step cfg w.state (.resume u)).isSome = true := by
  obtain ⟨hlt, hfail⟩ := hP.failed g' a e popped hmem
  have hset : (w.state.heap a).isSet = true := by
    have hfailed : (w.state.view.life a).failed = true := by
      show (w.state.heap a).failure.isSome = true
      rw [hfail]
      rfl
    rcases hP.reached.sound.staged a hlt with hst | hst | hst
    · rw [hst.2.2.2] at hfailed
      cases hfailed
    · exact hst.2.2.1
    · exact hst.2.2.1
  have hu := hP.reached.nested.lt_spawned hs
  simp only [Nigrains.step, resume, hnone, hu, and_self, if_true, hs, resumption, interrupts,
    Nigrains.wakes, hset]
  split_ifs <;> rfl

/-- When it goes on it raises what the activation has failed with, unless it is interrupted. -/
theorem Private.delivers (hP : Private w) {u : TaskId} {g g' : GrainId} {a : ActId}
    {rest : List Frame} {e : Exc} {popped : Option ActId} {r : Resume Outcome} {c : Choice}
    (hs : (w.state.tasks u).stack = .activated g (.waiting a) :: rest)
    (hmem : .failed g' a e popped ∈ w.state.trace) (he : e.isCancelled = false)
    (hr : w.state.running = some (u, r)) (h : Nigrains.step cfg w.state (.run c) = some s') :
    Delivered s' u rest (.error e) ∨
      Delivered s' u rest (.error .cancelledError) ∧ w.cancelled u = true := by
  obtain ⟨-, hfail⟩ := hP.failed g' a e popped hmem
  cases r with
  | send =>
    left
    simp only [Nigrains.step, run, hr, hs, exec, activated, hfail, he, Bool.false_eq_true,
      if_false] at h
    cases h
    exact delivered_land.2 rfl
  | got o =>
    right
    obtain rfl := hP.waits u o g a rest hr hs
    simp only [Nigrains.step, run, hr, hs, exec, activated] at h
    cases h
    exact ⟨delivered_land.2 rfl, hP.given u _ _ rest hr rfl hs trivial⟩

/-- Over any schedule of any callers, as long as a hook raises `CancelledError` only in a task
that has been cancelled : an identity nobody was in `_activated` for is activated no more often
than it is called; a caller that waits for an activation that has failed with an exception is
woken, and raises it unless it has itself been cancelled; and a caller that has not been
cancelled is never given a `CancelledError` by `_activated`. -/
theorem retry_bounded {isMine : Option (GrainId → Bool)} {w₀ : Called}
    (hcfg : cfg.Uninterrupted) (h₀ : Run (callStep cfg) HooksOwn (.init isMine) w₀)
    (h : Run (callStep cfg) HooksOwn w₀ w) :
    (∀ g, w₀.state.Unsought g →
      w.state.attempts g + w₀.callers.count g ≤ w₀.state.attempts g + w.callers.count g) ∧
    (∀ u g a rest g' e popped, (w.state.tasks u).stack = .activated g (.waiting a) :: rest →
      .failed g' a e popped ∈ w.state.trace → e.isCancelled = false →
      (w.state.running = none → (step cfg w.state (.resume u)).isSome = true) ∧
      ∀ r c s', w.state.running = some (u, r) → step cfg w.state (.run c) = some s' →
        Delivered s' u rest (.error e) ∨
          Delivered s' u rest (.error .cancelledError) ∧ w.cancelled u = true) ∧
    ∀ u call c rest e, w.state.running = some (u, .got (.error e)) →
      (w.state.tasks u).stack = .dispatchHere call (.activating c) :: rest →
      e.isCancelled = true → w.cancelled u = true := by
  have hP₀ := Run.isPrivate hcfg h₀
  have hP := Run.isPrivate hcfg (h₀.trans h)
  refine ⟨fun g hg => attempts_le_callers hP₀.reached hg h, ?_, ?_⟩
  · intro u g a rest g' e popped hs hmem he
    exact ⟨hP.wakes hs hmem, fun r c s' hr hl => hP.delivers hs hmem he hr hl⟩
  · intro u call c rest e hr hs he
    exact hP.given u e _ rest hr he hs trivial

/-! ## Two callers -/

/-- A caller is cancelled while it activates. Another, which waits, goes round and builds an
activation of its own. -/
def goesRound : List Label :=
  [.arrive, .resume 0] ++ Label.invoke ⟨"counter", "x"⟩ ++ Label.gos 2 ++
  [.run .suspend, .arrive, .resume 1] ++ Label.invoke ⟨"counter", "x"⟩ ++
  [.cancel 0, .resume 0, .run (.finish (.error .cancelledError))] ++ Label.gos 2 ++
  [.run .suspend, .resume 1] ++ Label.gos 4

/-- Whether a step keeps to what is asked of hooks. -/
def hooksOwnCheck (w w' : Called) : Bool :=
  match w.state.running, w'.state.running with
  | some (t, _), some (_, .got (.error e)) => !e.isCancelled || w.cancelled t
  | _, _ => true

theorem hooksOwn_of_check (w w' : Called) (h : hooksOwnCheck w w' = true) : HooksOwn w w' := by
  intro t r role rest e hr _ _ hr' _ he
  unfold hooksOwnCheck at h
  rw [hr, hr'] at h
  simpa [he] using h

theorem small_uninterrupted (m : Option ℤ) : (Config.small m).Uninterrupted := by
  rintro g e h
  cases h

/-- Both callers have tried, and the one that was not cancelled is not given the cancellation of
the other. -/
theorem retry_bounded_goesRound : ∃ w : Called,
    w.callers.count ⟨"counter", "x"⟩ = 2 ∧ w.state.attempts ⟨"counter", "x"⟩ = 2 ∧
    w.state.attempts ⟨"counter", "x"⟩ ≤ w.callers.count ⟨"counter", "x"⟩ ∧
    w.cancelled 1 = false ∧ ∀ call c rest e, w.state.running = some (1, .got (.error e)) →
      (w.state.tasks 1).stack = .dispatchHere call (.activating c) :: rest →
      e.isCancelled = false := by
  obtain ⟨w, hrun, hp⟩ := exists_run (callStep (.small none)) hooksOwnCheck hooksOwn_of_check
    (.init none) goesRound
    (fun w : Called => decide (w.callers.count ⟨"counter", "x"⟩ = 2 ∧
      w.state.attempts ⟨"counter", "x"⟩ = 2 ∧ w.cancelled 1 = false)) (by decide +kernel)
  rw [decide_eq_true_eq] at hp
  obtain ⟨hcallers, hattempts, hcancelled⟩ := hp
  obtain ⟨hle, -, hgiven⟩ := retry_bounded (small_uninterrupted none) .refl hrun
  have hbound := hle ⟨"counter", "x"⟩ fun u pc hf => by cases hf
  refine ⟨w, hcallers, hattempts, ?_, hcancelled, fun call c rest e hr hs => ?_⟩
  · simpa [Called.init, State.attempts, State.init] using hbound
  · by_contra he
    rw [hgiven 1 call c rest e hr hs (Bool.eq_true_of_not_eq_false he)] at hcancelled
    cases hcancelled

end

end Nigrains
