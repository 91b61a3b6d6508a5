import Nigrains.Exclusion

/-!
# One execution a call

An execution of `_dispatch_here` looks its activation up, enters `_counted`, runs the method and
leaves, or it ends before : no activation is found for it, the grain has no such method, or it is
interrupted while it queues. Where it stands is read off its frame (`Frame.callAt`), and what it
has logged so far is determined by that (`CallAt.past`). A call that stands nowhere has not begun,
or it is over, and then whatever it has entered it has left (`Over`). Calls of a runtime share
activations, locks and tasks, and any of them may be interrupted anywhere; that each has one frame
at most is part of the invariant (`Executed`).
-/

namespace Nigrains

/-- Where a call stands that has begun. -/
inductive CallAt
  /-- Its activation is looked up, or built. -/
  | looking
  /-- Counted by `a`, about to run its method or queueing. -/
  | inside (a : ActId)
  | running (a : ActId)
deriving DecidableEq

/-- What a call has logged when it stands there, the latest first. -/
def CallAt.past (c : CallId) : CallAt → List Event
  | .looking => []
  | .inside a => [.entered c a]
  | .running a => [.started c a, .entered c a]

/-- What a call has logged when it is over. -/
inductive Over (c : CallId) : List Event → Prop
  /-- There was no activation for it. -/
  | unserved : Over c []
  | refused (a : ActId) : Over c [.refused c a]
  /-- It was interrupted before its method began. -/
  | forsaken (a : ActId) (inside outcome : Outcome) :
    Over c [.answered c a inside outcome, .entered c a]
  | served (a : ActId) (inside outcome : Outcome) :
    Over c [.answered c a inside outcome, .started c a, .entered c a]

/-- The frames of a call, and what it has logged, when so many calls have begun. -/
inductive Executed (served : ℕ) (c : CallId) : Multiset CallAt → List Event → Prop
  | unborn (h : served ≤ c) : Executed served c 0 []
  | going (h : c < served) (x : CallAt) : Executed served c {x} (x.past c)
  | finished (h : c < served) {past : List Event} (hover : Over c past) : Executed served c 0 past

/-- Where a frame has call `c`. -/
def Frame.callAt (c : CallId) : Frame → Multiset CallAt
  | .dispatchHere _ (.activating c') => if c' = c then {.looking} else 0
  | .dispatchHere _ (.entered c' a) => if c' = c then {.inside a} else 0
  | .dispatchHere _ (.queued c' a) => if c' = c then {.inside a} else 0
  | .dispatchHere _ (.running c' a _) => if c' = c then {.running a} else 0
  | _ => 0

/-- The call an event is about. -/
def Event.callId : Event → Option CallId
  | .refused c _ => some c
  | .entered c _ => some c
  | .started c _ => some c
  | .answered c .. => some c
  | _ => none

/-- Where the frames of all tasks have call `c`. -/
def State.callAt (s : State) (c : CallId) : Multiset CallAt :=
  s.toLoop.work (Frame.callAt c)

/-- What call `c` has logged. -/
def State.pastOf (s : State) (c : CallId) : List Event :=
  s.trace.filter fun e => e.callId = some c

namespace Executed

variable {served : ℕ} {c : CallId} {x : CallAt} {R : Multiset CallAt} {past : List Event}

/-- A call that stands somewhere stands nowhere else. -/
theorem alone (h : Executed served c ({x} + R) past) : c < served ∧ R = 0 ∧ past = x.past c := by
  generalize hM : {x} + R = M at h
  cases h with
  | unborn hle => simp at hM
  | going hlt y =>
    rw [Multiset.singleton_add, eq_comm, Multiset.singleton_eq_cons_iff] at hM
    obtain ⟨rfl, rfl⟩ := hM
    exact ⟨hlt, rfl, rfl⟩
  | finished hlt hover => simp at hM

/-- A call that stands nowhere is over. -/
theorem settled (h : Executed served c 0 past) (hlt : c < served) : Over c past := by
  generalize hM : (0 : Multiset CallAt) = M at h
  cases h with
  | unborn hle => exact absurd hlt hle.not_gt
  | going hlt x => simp at hM
  | finished hlt hover => exact hover

/-- Call `i` goes on, and logs `events`. -/
theorem goes {i : CallId} (h : Executed served c ((if i = c then {x} else 0) + R) past)
    (y : CallAt) (events : List Event) (hy : y.past i = events ++ x.past i)
    (hevents : ∀ e ∈ events, e.callId = some i) :
    Executed served c ((if i = c then {y} else 0) + R)
      (events.filter (fun e => e.callId = some c) ++ past) := by
  by_cases hi : i = c
  · subst hi
    rw [if_pos rfl] at h ⊢
    obtain ⟨hlt, rfl, rfl⟩ := h.alone
    rw [List.filter_eq_self.2 fun e he => decide_eq_true (hevents e he), ← hy, add_zero]
    exact .going hlt y
  · rw [if_neg hi] at h ⊢
    rwa [List.filter_eq_nil_iff.2 fun e he => by simpa [hevents e he] using hi, List.nil_append]

/-- Call `i` ends, and logs `events`. -/
theorem ends {i : CallId} (h : Executed served c ((if i = c then {x} else 0) + R) past)
    (events : List Event) (hover : Over i (events ++ x.past i))
    (hevents : ∀ e ∈ events, e.callId = some i) :
    Executed served c (0 + R) (events.filter (fun e => e.callId = some c) ++ past) := by
  by_cases hi : i = c
  · subst hi
    rw [if_pos rfl] at h
    obtain ⟨hlt, rfl, rfl⟩ := h.alone
    rw [List.filter_eq_self.2 fun e he => decide_eq_true (hevents e he)]
    exact .finished hlt hover
  · rw [if_neg hi] at h
    rwa [List.filter_eq_nil_iff.2 fun e he => by simpa [hevents e he] using hi, List.nil_append]

/-- Another call begins. -/
theorem succ {M : Multiset CallAt} (h : Executed served c M past) (hc : served ≠ c) :
    Executed (served + 1) c M past := by
  cases h with
  | unborn hle => exact .unborn (lt_of_le_of_ne hle hc)
  | going hlt x => exact .going (Nat.lt_succ_of_lt hlt) x
  | finished hlt hover => exact .finished (Nat.lt_succ_of_lt hlt) hover

/-- The call itself begins. -/
theorem begin {M : Multiset CallAt} (h : Executed c c M past) :
    Executed (c + 1) c ({.looking} + M) past := by
  cases h with
  | unborn hle => exact .going (Nat.lt_succ_self c) .looking
  | going hlt x => exact absurd hlt (lt_irrefl c)
  | finished hlt hover => exact absurd hlt (lt_irrefl c)

end Executed

section

variable {cfg : Config} {s s' : State} {t : TaskId} {n : Next Frame Outcome}

theorem Frame.outside.callAt {f : Frame} (h : f.outside) (c : CallId) : f.callAt c = 0 := by
  cases f with
  | dispatchHere call pc =>
    obtain rfl := h call pc rfl
    rfl
  | _ => rfl

theorem State.pastOf_append {s : State} (c : CallId) (events : List Event)
    (h : s'.trace = events ++ s.trace) :
    s'.pastOf c = events.filter (fun e => e.callId = some c) ++ s.pastOf c := by
  unfold State.pastOf
  rw [h, List.filter_append]

/-- A segment of a call takes it on, or ends it. -/
theorem dispatchHere_executed {call : Call} {pc : DispatchAt} {r : Resume Outcome} {c : CallId}
    {R : Multiset CallAt}
    (hx : Executed s.served c (Frame.callAt c (.dispatchHere call pc) + R) (s.pastOf c))
    (h : dispatchHere cfg s call pc r = some (s', n)) :
    Executed s'.served c (n.work (Frame.callAt c) + R) (s'.pastOf c) := by
  unfold dispatchHere interrupted at h
  repeat' split at h
  all_goals first | contradiction | cases h
  case h_1 =>
    -- the number of the call is new
    have hx : Executed s.served c R (s.pastOf c) := by rwa [← zero_add R]
    show Executed (s.served + 1) c (0 + (if s.served = c then {.looking} else 0) + R) (s.pastOf c)
    rw [zero_add]
    by_cases hc : s.served = c
    · subst hc
      rw [if_pos rfl]
      exact hx.begin
    · rw [if_neg hc, zero_add]
      exact hx.succ hc
  case h_1.refl => exact hx
  case h_3.isTrue i a _ =>
    rw [State.pastOf_append c [.entered i a] rfl]
    exact hx.goes (.inside a) [.entered i a] rfl (by simp [Event.callId])
  case h_3.isFalse i a _ =>
    rw [State.pastOf_append c [.refused i a] rfl]
    exact hx.ends [.refused i a] (.refused a) (by simp [Event.callId])
  case h_4 i e => exact hx.ends [] .unserved (by simp)
  case h_5.isFalse.isFalse i a _ _ => exact hx
  case h_5.isTrue i a _ | h_5.isFalse.isTrue i a _ _ | h_6 i a =>
    rw [State.pastOf_append c [.started i a] rfl]
    show Executed _ c (0 + _ + R) _
    rw [zero_add]
    exact hx.goes (.running a) [.started i a] rfl (by simp [Event.callId])
  case h_7 i a e =>
    rw [State.pastOf_append c [.answered i a (.error e) _] rfl]
    exact hx.ends [.answered i a (.error e) _] (.forsaken a (.error e) _) (by simp [Event.callId])
  case h_8 i a o | h_9 i a o =>
    rw [State.pastOf_append c [.answered i a o _] rfl]
    exact hx.ends [.answered i a o _] (.served a o _) (by simp [Event.callId])

/-- Only a call is logged as one. -/
theorem exec_pastOf {ch : Choice} {f : Frame} {r : Resume Outcome} (c : CallId)
    (h : exec cfg s t ch f r = some (s', n)) (hf : ∀ call pc, f ≠ .dispatchHere call pc) :
    s'.pastOf c = s.pastOf c := by
  rcases exec_log h with he | ⟨e, he, hlogs⟩
  · exact State.pastOf_append c [] he
  · have hid : e.callId = none := by
      cases logged_of_logs hlogs <;> first | rfl | exact (hf _ _ rfl).elim
    rw [State.pastOf_append c [e] he]
    simp [hid]

theorem exec_executed {ch : Choice} {f : Frame} {r : Resume Outcome} {c : CallId}
    {R : Multiset CallAt} (hx : Executed s.served c (f.callAt c + R) (s.pastOf c))
    (h : exec cfg s t ch f r = some (s', n)) :
    Executed s'.served c (n.work (Frame.callAt c) + R) (s'.pastOf c) := by
  by_cases hf : ∃ call pc, f = .dispatchHere call pc
  · obtain ⟨call, pc, rfl⟩ := hf
    exact dispatchHere_executed hx h
  · have hf : ∀ call pc, f ≠ .dispatchHere call pc := fun call pc he => hf ⟨call, pc, he⟩
    have hout : f.outside := fun call pc he => (hf call pc he).elim
    rw [work_of_frames fun f' hf' => (exec_outside h hf hf').callAt c, exec_pastOf c h hf,
      exec_served h hf]
    rwa [hout.callAt c] at hx

theorem Reached.step_executed {l : Label} {c : CallId} (hI : Reached s)
    (hx : Executed s.served c (s.callAt c) (s.pastOf c))
    (h : Nigrains.step cfg s l = some s') :
    Executed s'.served c (s'.callAt c) (s'.pastOf c) := by
  by_cases hl : ∃ ch, l = .run ch
  · obtain ⟨ch, rfl⟩ := hl
    obtain ⟨t, r, f, rest, s1, n, R, hr, hs, he, rfl, hw, hw'⟩ := run_work hI.nested h
      (w := Frame.callAt c) fun f hf => (outside_of_fresh hf).callAt c
    unfold State.callAt at hx ⊢
    rw [hw] at hx
    rw [hw']
    show Executed s1.served c (n.work (Frame.callAt c) + R) (s1.pastOf c)
    exact exec_executed hx he
  · have hl : ∀ c, l ≠ .run c := not_exists.1 hl
    obtain ⟨-, -, -, htrace⟩ := step_idle hl h
    have hwork := work_other hI.nested hl h (w := Frame.callAt c)
      (fun f hf => (outside_of_hosted hf).callAt c) fun _ _ => rfl
    unfold State.callAt State.pastOf at hx ⊢
    rwa [hwork, htrace, step_served hl h]

/-- In every reachable state, whatever is interrupted and wherever : a call has one frame at most,
and what it has logged is what that frame says. So its method starts at most once, and only when it
has been counted. A call that stands nowhere is over : if it has been counted it has been answered,
once and by the activation that counted it, and after its method if that has started. -/
theorem executed_once {isMine : Option (GrainId → Bool)}
    (h : Run (step cfg) (fun _ _ => True) (.init isMine) s) (c : CallId) :
    Executed s.served c (s.callAt c) (s.pastOf c) := by
  have hI := h.invariant (I := fun s => Reached s ∧ Executed s.served c (s.callAt c) (s.pastOf c))
    ⟨reached_init _, .unborn (Nat.zero_le c)⟩
    fun s l s' hI hl _ => ⟨hI.1.step hl, hI.1.step_executed hI.2 hl⟩
  exact hI.2

/-- A call runs. Another has queued behind it, and has been interrupted. -/
theorem executed_once_queueing : ∃ s : State, s.callAt 0 = {.running 0} ∧ s.callAt 1 = 0 ∧
    s.pastOf 0 = [.started 0 0, .entered 0 0] ∧ Over 1 (s.pastOf 1) := by
  obtain ⟨s, hrun, hp⟩ := exists_free_run (.small none) none (queueing ++ [.resume 1, .run .go])
    (fun s => decide (s.toLoop.work (Frame.callAt 0) = {.running 0} ∧
      s.toLoop.work (Frame.callAt 1) = 0 ∧ s.served = 2)) (by decide +kernel)
  obtain ⟨h0, h1, hserved⟩ := of_decide_eq_true hp
  have hx0 := executed_once hrun 0
  have hx1 := executed_once hrun 1
  unfold State.callAt at hx0 hx1
  rw [h0] at hx0
  rw [h1, hserved] at hx1
  exact ⟨s, h0, h1, (hx0.alone (R := 0)).2.2, hx1.settled (by decide)⟩

end

end Nigrains
