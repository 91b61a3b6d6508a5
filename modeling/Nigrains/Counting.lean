import Nigrains.Refinement

/-!
# How many are in flight

An activation counts the calls that have entered `_counted` on it and not left it, and the ticks
that run on it; the runtime counts those of all activations it has built. Both counts are changed
in the same segments, by the same events (`Event.load`), so the one is the sum of the others
whatever has become of the activations (`inFlight_exact`).
-/

open Finset

namespace Nigrains

/-- What an event adds to the calls and ticks in flight. -/
def Event.load : Event → ℤ
  | .entered .. => 1
  | .ticked _ => 1
  | .answered .. => -1
  | .tocked _ => -1
  | _ => 0

/-- A call that has entered `_counted` on `a` and not left it. -/
def Frame.counted (a : ActId) : Frame → ℕ
  | .dispatchHere _ (.entered _ b) => if b = a then 1 else 0
  | .dispatchHere _ (.queued _ b) => if b = a then 1 else 0
  | .dispatchHere _ (.running _ b _) => if b = a then 1 else 0
  | _ => 0

/-- A tick that runs on `a`. -/
def Frame.working (a : ActId) : Frame → ℕ
  | .tick b .working => if b = a then 1 else 0
  | _ => 0

/-- How many calls have entered `_counted` on `a` and not left it. -/
def State.counted (s : State) (a : ActId) : ℕ :=
  s.toLoop.work (Frame.counted a)

/-- How many ticks run on `a`. -/
def State.working (s : State) (a : ActId) : ℕ :=
  s.toLoop.work (Frame.working a)

/-- What all events of a trace have added. -/
def loadSum (trace : List Event) : ℤ :=
  (trace.map Event.load).sum

/-! ## The sum over the activations -/

namespace Protocol

variable {P P' : Protocol} {e : Event}

theorem sum_update {n : ℕ} {a : ActId} (ha : a < n) (life : ActId → Life) (x : Life) :
    ∑ b ∈ range n, (Function.update life a x b).inFlight =
      ∑ b ∈ range n, (life b).inFlight + (x.inFlight - (life a).inFlight) := by
  have hmem : a ∈ range n := mem_range.2 ha
  rw [← add_sum_erase _ _ hmem, ← add_sum_erase _ (fun b => (life b).inFlight) hmem,
    Function.update_self, sum_congr rfl fun b hb => by
      rw [Function.update_of_ne (ne_of_mem_erase hb)]]
  omega

/-- The counts of all activations that have been built. -/
def inFlightSum (P : Protocol) : ℤ :=
  ∑ b ∈ range P.built, (P.life b).inFlight

/-- An event adds to the counts of all activations what it adds to one of them. -/
theorem Step.inFlightSum_eq (hs : Sound P) (h : Step P e P') :
    P'.inFlightSum = P.inFlightSum + e.load := by
  have lt_built : ∀ x a, e.takes = some x → x.about = some a → a < P.built := fun x a hx ha =>
    hs.about_lt x (h.takes_mem hx) a ha
  unfold inFlightSum
  cases h
  case published g hp =>
    -- the new record counts nothing, and stands where no activation has been built
    show ∑ b ∈ range (P.built + 1), (Function.update P.life P.built .new b).inFlight = _
    rw [sum_range_succ, Function.update_self, sum_congr rfl fun b hb => by
      rw [Function.update_of_ne (mem_range.1 hb).ne]]
    rfl
  case activated hp | failed hp | entered hp | answered hp | tocked hp =>
    refine (sum_update (lt_built _ _ rfl rfl) P.life _).trans ?_
    dsimp only [Event.load, setEntry]
    omega
  case ticked a ha =>
    refine (sum_update ha P.life _).trans ?_
    dsimp only [Event.load]
    omega
  all_goals exact (add_zero _).symm

/-- How often `z` has begun. -/
def begun (P : Protocol) (z : Activity) : ℕ :=
  P.trace.countP fun e => e.gives = some z

/-- How often `z` has ended. -/
def ended (P : Protocol) (z : Activity) : ℕ :=
  P.trace.countP fun e => e.takes = some z

/-- What has begun has ended or is going on. -/
theorem Step.begun_eq (h : Step P e P') (z : Activity)
    (hz : P.begun z = P.ended z + P.pending.count z) :
    P'.begun z = P'.ended z + P'.pending.count z := by
  have hc := h.count_pending z
  unfold Event.counts at hc
  unfold begun ended at hz ⊢
  rw [h.trace, List.countP_cons, List.countP_cons]
  simp only [decide_eq_true_eq]
  omega

end Protocol

section

variable {cfg : Config} {s s' : State} {t : TaskId} {n : Next Frame Outcome}

/-! ## The runtime's own count -/

/-- A segment that changes the runtime's count logs what it adds. -/
theorem exec_load {c : Choice} {f : Frame} {r : Resume Outcome}
    (h : exec cfg s t c f r = some (s', n)) (hs : s.totalInFlight = loadSum s.trace) :
    s'.totalInFlight = loadSum s'.trace := by
  have hemit : ∀ (s : State) (e : Event), e.load = 0 → s.totalInFlight = loadSum s.trace →
      (s.emit e).totalInFlight = loadSum (s.emit e).trace := by
    intro s e he hs
    simpa [loadSum, State.emit, he] using hs
  cases exec_effect h
  case enters | ticks | tocks | forsakes | unlocks | leaves =>
    simp [State.enter, State.leave, State.setLock, State.tick, State.tock, State.modify, loadSum,
      Event.load, hs]
    try omega
  case publishes | failsReading | fails =>
    simp [State.publish, State.fail, State.modify, loadSum, Event.load, hs]
  case activates g a o =>
    refine hemit _ _ rfl ?_
    obtain ⟨L, timers, heq⟩ := startTimers_eq (t := t) a s
    rw [heq]
    exact hs
  case takes who g a hentry =>
    obtain ⟨L, heq⟩ := cancel_all_eq (s.heap a).timers (s.take who g a)
    rw [heq]
    exact hemit _ _ rfl hs
  case begins =>
    obtain ⟨L, sweeper, scanner, heq⟩ := startBackground_eq cfg s t
    rw [heq]
    exact hs
  all_goals
    first
      | exact hs
      | exact hemit _ _ rfl hs

theorem Run.load {ok : State → State → Prop} {isMine : Option (GrainId → Bool)}
    (h : Run (step cfg) ok (.init isMine) s) : s.totalInFlight = loadSum s.trace := by
  refine h.invariant (I := fun s => s.totalInFlight = loadSum s.trace) rfl
    fun s l s' hI hl _ => ?_
  by_cases hrun : ∃ c, l = .run c
  · obtain ⟨c, rfl⟩ := hrun
    obtain ⟨t, r, f, rest, s1, n, hr, -, he, rfl⟩ := run_cases hl
    show s1.totalInFlight = loadSum s1.trace
    exact exec_load he hI
  · obtain ⟨L, now, isMine, rfl⟩ := step_outside (not_exists.1 hrun) hl
    exact hI

/-! ## What is going on, in frames -/

/-- An activity that no outcome carries is counted over the frames. -/
theorem count_pending {z : Activity} (hz : ∀ a, z ≠ .hold a) :
    s.pending.count z = s.toLoop.work fun f => f.activity.count z := by
  have hheld :
      ((s.running.map fun x : TaskId × Resume Outcome => x.2.held).getD 0).count z = 0 := by
    refine Multiset.count_eq_zero.2 fun hm => ?_
    cases hr : s.running with
    | none => simp [hr] at hm
    | some x =>
      simp only [hr, Option.map_some, Option.getD_some] at hm
      unfold Resume.held held at hm
      split at hm
      · simp at hm
      · split at hm <;> simp [hz] at hm
  unfold State.pending Loop.work
  rw [Multiset.count_add, hheld, add_zero, Multiset.count_sum']
  refine sum_congr rfl fun u _ => ?_
  rw [← Multiset.coe_countAddMonoidHom, map_list_sum, List.map_map]
  rfl

theorem counted_eq (a : ActId) : s.counted a = s.pending.count (.use a) := by
  rw [count_pending fun b h => by cases h]
  refine congrArg s.toLoop.work (funext fun f => ?_)
  unfold Frame.activity
  split <;> simp [Frame.counted, Multiset.count_singleton, eq_comm]

theorem working_eq (a : ActId) : s.working a = s.pending.count (.tick a) := by
  rw [count_pending fun b h => by cases h]
  refine congrArg s.toLoop.work (funext fun f => ?_)
  unfold Frame.activity
  split <;> simp [Frame.working, Multiset.count_singleton, eq_comm]

/-! ## Every reachable state -/

theorem Run.inFlightSum {ok : State → State → Prop} {isMine : Option (GrainId → Bool)}
    (h : Run (step cfg) ok (.init isMine) s) : s.view.inFlightSum = loadSum s.trace := by
  have hI := h.invariant (I := fun s => Reached s ∧ s.view.inFlightSum = loadSum s.trace)
    ⟨reached_init _, by rw [view_init]; rfl⟩ fun s l s' hI hl _ => ⟨hI.1.step hl, ?_⟩
  · exact hI.2
  · rcases hI.1.step_view hl with hv | ⟨e, hv⟩
    · rw [hv, hI.2, show s'.trace = s.trace from congrArg Protocol.trace hv]
    · rw [hv.inFlightSum_eq hI.1.sound, hI.2, show s'.trace = e :: s.trace from hv.trace]
      exact add_comm _ _

theorem Run.begun {ok : State → State → Prop} {isMine : Option (GrainId → Bool)}
    (h : Run (step cfg) ok (.init isMine) s) (z : Activity) :
    s.view.begun z = s.view.ended z + s.pending.count z := by
  have hI := h.invariant
    (I := fun s => Reached s ∧ s.view.begun z = s.view.ended z + s.view.pending.count z)
    ⟨reached_init _, by rw [view_init]; rfl⟩ fun s l s' hI hl _ => ⟨hI.1.step hl, ?_⟩
  · exact hI.2
  · rcases hI.1.step_view hl with hv | ⟨e, hv⟩
    · rw [hv]
      exact hI.2
    · exact hv.begun_eq z hI.2

/-- In every reachable state : an activation's count is that of the calls that have entered
`_counted` on it and not left it and of the ticks that run on it, and the runtime's count is the
sum over every activation it has built. None is negative. -/
theorem inFlight_exact {isMine : Option (GrainId → Bool)}
    (h : Run (step cfg) (fun _ _ => True) (.init isMine) s) :
    (∀ a, (s.heap a).inFlight = s.counted a + s.working a ∧
      s.view.begun (.use a) = s.view.ended (.use a) + s.counted a ∧
      s.view.begun (.tick a) = s.view.ended (.tick a) + s.working a ∧
      0 ≤ (s.heap a).inFlight) ∧
    s.totalInFlight = ∑ a ∈ range s.built, (s.heap a).inFlight ∧ 0 ≤ s.totalInFlight := by
  have hcount : ∀ a, (s.heap a).inFlight = s.counted a + s.working a := fun a => by
    rw [counted_eq, working_eq]
    exact (Run.reached h).sound.inFlight a
  have htotal : s.totalInFlight = ∑ a ∈ range s.built, (s.heap a).inFlight :=
    (Run.load h).trans (Run.inFlightSum h).symm
  have hnonneg : ∀ a, 0 ≤ (s.heap a).inFlight := fun a => by
    rw [hcount]
    omega
  refine ⟨fun a => ⟨hcount a, ?_, ?_, hnonneg a⟩, htotal, ?_⟩
  · rw [counted_eq]
    exact Run.begun h _
  · rw [working_eq]
    exact Run.begun h _
  · rw [htotal]
    exact sum_nonneg fun a _ => hnonneg a

/-- A call queues behind another one of its grain. -/
def twoInside : List Label :=
  [.arrive, .resume 0] ++ Label.invoke ⟨"counter", "x"⟩ ++ Label.gos 2 ++ [Label.returns] ++
  Label.gos 3 ++ [.run .suspend, .arrive, .resume 1] ++ Label.invoke ⟨"counter", "x"⟩ ++ Label.gos 2

/-- Two calls are counted, one that runs and one that queues. -/
theorem inFlight_exact_two : ∃ s : State,
    s.counted 0 = 2 ∧ s.built = 1 ∧ (s.heap 0).inFlight = 2 ∧ s.totalInFlight = 2 := by
  obtain ⟨s, hrun, hp⟩ := exists_free_run (.small none) none twoInside
    (fun s => decide (s.built = 1 ∧ s.toLoop.work (Frame.counted 0) = 2 ∧
      s.toLoop.work (Frame.working 0) = 0)) (by decide +kernel)
  obtain ⟨hbuilt, hcounted, hworking⟩ := of_decide_eq_true hp
  obtain ⟨hcount, htotal, -⟩ := inFlight_exact hrun
  have h2 : (s.heap 0).inFlight = 2 := by
    rw [(hcount 0).1]
    unfold State.counted State.working
    rw [hcounted, hworking]
    rfl
  refine ⟨s, hcounted, hbuilt, h2, ?_⟩
  rw [htotal, hbuilt, sum_range_one, h2]

end

end Nigrains
