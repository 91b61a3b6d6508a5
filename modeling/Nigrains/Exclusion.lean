import Nigrains.Outcome

/-!
# One call at a time

The lock of an activation is made by the first call that needs it, and no segment ever takes it
away again (`exec_made`), so all calls of an activation meet on one lock. It is locked exactly
while one call is inside (`Exclusive.held`), and a call is inside without it only if the grain is
reentrant. A call that is interrupted while it queues has had its one chance to start : the calls
on their way to their method and those that have started are counted together
(`Exclusive.once`), and no segment makes two of one.
-/

namespace Nigrains

/-- Calls inside a method of `a` that hold its lock. -/
def Frame.holding (a : ActId) : Frame → ℕ
  | .dispatchHere _ (.running _ b true) => if b = a then 1 else 0
  | _ => 0

/-- Executions of `_dispatch_here` that have not come to their method. -/
def Frame.coming (c : CallId) : Frame → ℕ
  | .dispatchHere _ (.activating c') => if c' = c then 1 else 0
  | .dispatchHere _ (.entered c' _) => if c' = c then 1 else 0
  | .dispatchHere _ (.queued c' _) => if c' = c then 1 else 0
  | _ => 0

/-- Whether an event is the start of a call's method. -/
def Event.starts (c : CallId) : Event → Bool
  | .started c' _ => c' = c
  | _ => false

/-- Calls are numbered as they begin. -/
def numbered (served c : ℕ) : ℕ :=
  if c < served then 1 else 0

/-- Queueing and holding are of a lock that has been made, and only a reentrant grain is entered
without one. -/
def Frame.Locked (s : State) : Frame → Prop
  | .dispatchHere _ (.queued _ a) => (s.heap a).lock.isSome = true
  | .dispatchHere _ (.running _ a true) => (s.heap a).lock.isSome = true
  | .dispatchHere _ (.running _ a false) => (s.heap a).grain.reentrant = true
  | _ => True

/-- The call at place `i` of the stack of task `u` is between the start and the end of a method
of `a`. -/
def State.inside (s : State) (a : ActId) (u : TaskId) (i : ℕ) : Prop :=
  ∃ call c locked, (s.tasks u).stack[i]? = some (.dispatchHere call (.running c a locked))

/-- How often call `c` has started, or may still. -/
def State.starts (s : State) (c : CallId) : ℕ :=
  s.toLoop.work (Frame.coming c) + s.trace.countP (Event.starts c)

theorem numbered_le (served c : ℕ) : numbered served c ≤ 1 := by
  unfold numbered
  split_ifs <;> simp

section

variable {cfg : Config} {s s' : State} {t : TaskId} {n : Next Frame Outcome}

/-! ## What a segment does with a lock -/

theorem lock_startTimers (a b : ActId) (s : State) :
    ((s.startTimers t a).heap b).lock = (s.heap b).lock := by
  obtain ⟨timers, h⟩ := heap_startTimers (t := t) a b s
  rw [h]

/-- A lock that has been made is there ever after. -/
theorem exec_made {c : Choice} {f : Frame} {r : Resume Outcome}
    (h : exec cfg s t c f r = some (s', n)) {b : ActId} (hb : b < s.built)
    (hl : (s.heap b).lock.isSome = true) : (s'.heap b).lock.isSome = true := by
  cases exec_effect h
  case publishes g grain o hbuild =>
    rwa [show (s.publish g grain).heap b = s.heap b from Function.update_of_ne hb.ne _ _]
  case takes who g a hentry => rwa [heap_cancel_all _ (s.take who g a)]
  case begins => rwa [heap_startBackground]
  all_goals
    first
      | exact hl
      | (simp only [State.enter, State.leave, State.setLock, State.fail, State.tick, State.tock,
           State.activate, State.emit, heap_modify]
         split_ifs <;> simp_all [lock_startTimers])

/-- Only serving a call touches a lock. -/
theorem exec_lock {c : Choice} {f : Frame} {r : Resume Outcome}
    (h : exec cfg s t c f r = some (s', n)) {b : ActId} (hb : b < s.built)
    (hf : ∀ call pc, f ≠ .dispatchHere call pc) : s'.lock b = s.lock b := by
  suffices (s'.heap b).lock = (s.heap b).lock by
    unfold State.lock
    rw [this]
  cases exec_effect h
  case publishes => exact congrArg Activation.lock (Function.update_of_ne hb.ne _ _)
  case takes who g a hentry =>
    exact congrArg (fun h => (h b).lock) (heap_cancel_all _ (s.take who g a))
  case begins => exact congrArg (fun h => (h b).lock) heap_startBackground
  all_goals
    first
      | rfl
      | exact (hf _ _ rfl).elim
      | (simp only [State.fail, State.tick, State.tock, State.activate, State.emit, heap_modify]
         split_ifs <;> simp_all [lock_startTimers])

theorem lock_modify (a b : ActId) (f : Activation → Activation) (hf : ∀ x, (f x).lock = x.lock) :
    (s.modify a f).lock b = s.lock b := by
  unfold State.lock
  rw [heap_modify]
  split_ifs with hb
  · rw [hb, hf]
  · rfl

@[simp] theorem lock_setLock (a b : ActId) (f : Lock → Lock) :
    (s.setLock a f).lock b = if b = a then f (s.lock a) else s.lock b := by
  unfold State.lock State.setLock
  rw [heap_modify]
  split_ifs with hb
  · rfl
  · rfl

@[simp] theorem lock_emit (e : Event) (b : ActId) : (s.emit e).lock b = s.lock b :=
  rfl

@[simp] theorem lock_enter (c : CallId) (a b : ActId) : (s.enter c a).lock b = s.lock b :=
  lock_modify (s := s) a b (fun x => { x with inFlight := x.inFlight + 1 }) fun _ => rfl

@[simp] theorem lock_leave (c : CallId) (a b : ActId) (o : Outcome) :
    (s.leave cfg c a o).lock b = s.lock b :=
  lock_modify (s := s) a b (fun x => { x with inFlight := x.inFlight - 1, lastUsed := s.now })
    fun _ => rfl

/-- A frame that serves no call, or has not begun to. -/
def Frame.outside (f : Frame) : Prop :=
  ∀ call pc, f = .dispatchHere call pc → pc = .start

theorem Frame.outside.holding {f : Frame} (h : f.outside) (a : ActId) : f.holding a = 0 := by
  cases f with
  | dispatchHere call pc =>
    obtain rfl := h call pc rfl
    rfl
  | _ => rfl

theorem Frame.outside.coming {f : Frame} (h : f.outside) (c : CallId) : f.coming c = 0 := by
  cases f with
  | dispatchHere call pc =>
    obtain rfl := h call pc rfl
    rfl
  | _ => rfl

/-- Any other coroutine leaves frames that serve no call yet. -/
theorem exec_outside {c : Choice} {f f' : Frame} {r : Resume Outcome}
    (h : exec cfg s t c f r = some (s', n)) (hf : ∀ call pc, f ≠ .dispatchHere call pc)
    (hf' : f' ∈ n.frames) : f'.outside := by
  rintro call pc rfl
  rcases exec_left h hf' with he | hc
  · cases f <;> cases he
    exact (hf _ _ rfl).elim
  · cases hc
    rfl

theorem work_of_frames {M : Type*} [AddCancelCommMonoid M] {w : Frame → M}
    {n : Next Frame Outcome} (h : ∀ f ∈ n.frames, w f = 0) : n.work w = 0 := by
  cases n with
  | await self callee =>
    show w callee + w self = 0
    rw [h callee (by simp [Next.frames]), h self (by simp [Next.frames]), add_zero]
  | goto frame => exact h frame (by simp [Next.frames])
  | park self => exact h self (by simp [Next.frames])
  | done o => rfl

theorem outside_of_fresh {f : Frame} (h : f.fresh) : f.outside := by
  rintro call pc rfl
  exact h.elim

theorem outside_of_hosted {f : Frame} (h : f.hosted) : f.outside := by
  rintro call pc rfl
  exact h.elim

/-- A segment of a call takes the lock as it enters, and gives it back as it leaves. -/
theorem dispatchHere_holding {call : Call} {pc : DispatchAt} {r : Resume Outcome}
    (hr : Ready s (.dispatchHere call pc) r) {b : ActId}
    (hheld : 0 < Frame.holding b (.dispatchHere call pc) → (s.lock b).locked = true)
    (h : dispatchHere cfg s call pc r = some (s', n)) :
    n.work (Frame.holding b) + (s.lock b).locked.toNat =
      Frame.holding b (.dispatchHere call pc) + (s'.lock b).locked.toNat := by
  unfold dispatchHere interrupted at h
  repeat' split at h
  case h_5.isFalse.isTrue c a _ hfree =>
    -- the lock is free, and is taken
    cases h
    simp only [Lock.free, Bool.and_eq_true, Bool.not_eq_true'] at hfree
    by_cases hb : b = a
    · simp [Next.work, Frame.holding, Lock.acquire, hb, hfree.1]
    · simp [Next.work, Frame.holding, hb, Ne.symm hb]
  case h_6 c a =>
    -- whoever is woken in the queue finds it free
    cases h
    have hfree : (s.lock a).locked = false := hr
    by_cases hb : b = a
    · simp [Next.work, Frame.holding, Lock.acquire, hb, hfree]
    · simp [Next.work, Frame.holding, hb, Ne.symm hb]
  case h_8 c a o =>
    cases h
    by_cases hb : b = a
    · subst hb
      simp [Next.work, Frame.holding, Lock.release, hheld (by simp [Frame.holding])]
    · simp [Next.work, Frame.holding, hb, Ne.symm hb]
  case h_5.isFalse.isFalse c a _ _ =>
    cases h
    by_cases hb : b = a <;> simp [Next.work, Frame.holding, Lock.queue, hb]
  case h_7 c a e =>
    cases h
    by_cases hb : b = a <;> simp [Next.work, Frame.holding, Lock.unqueue, hb]
  all_goals
    first
      | contradiction
      | (cases h
         first
          | rfl
          | simp [Next.work, Frame.holding])

/-- A call comes to its method once : what a segment adds to its chances, it has begun. -/
theorem dispatchHere_starts {call : Call} {pc : DispatchAt} {r : Resume Outcome} (c : CallId)
    (h : dispatchHere cfg s call pc r = some (s', n)) :
    n.work (Frame.coming c) + s'.trace.countP (Event.starts c) + numbered s.served c ≤
      Frame.coming c (.dispatchHere call pc) + s.trace.countP (Event.starts c) +
        numbered s'.served c := by
  unfold dispatchHere interrupted at h
  repeat' split at h
  case h_1 =>
    -- the number of the call is new
    cases h
    by_cases hc : s.served = c
    · simp [Next.work, Frame.coming, numbered, hc, add_comm]
    · have hlt : c < s.served + 1 ↔ c < s.served :=
        ⟨fun h => lt_of_le_of_ne (Nat.le_of_lt_succ h) (Ne.symm hc), Nat.lt_succ_of_lt⟩
      simp [Next.work, Frame.coming, numbered, hc, hlt]
  all_goals
    first
      | contradiction
      | (cases h
         simp only [Next.work, Frame.coming, State.emit, State.enter, State.leave, State.setLock,
           State.modify, Event.starts, List.countP_cons, decide_eq_true_eq, Bool.false_eq_true,
           if_false]
         omega)

/-- Only a call is served or starts. -/
theorem exec_served {c : Choice} {f : Frame} {r : Resume Outcome}
    (h : exec cfg s t c f r = some (s', n)) (hf : ∀ call pc, f ≠ .dispatchHere call pc) :
    s'.served = s.served := by
  cases exec_effect h
  case takes who g a hentry =>
    obtain ⟨L, hL⟩ := cancel_all_eq (s.heap a).timers (s.take who g a)
    rw [hL]
    rfl
  case begins =>
    obtain ⟨L, sweeper, scanner, hL⟩ := startBackground_eq cfg s t
    rw [hL]
  case activates g a o =>
    obtain ⟨L, timers, hL⟩ := startTimers_eq (t := t) a s
    unfold State.activate
    rw [hL]
    rfl
  all_goals
    first
      | rfl
      | exact (hf _ _ rfl).elim

theorem exec_served_le {c : Choice} {f : Frame} {r : Resume Outcome}
    (h : exec cfg s t c f r = some (s', n)) : s.served ≤ s'.served := by
  by_cases hf : ∃ call pc, f = .dispatchHere call pc
  · obtain ⟨call, pc, rfl⟩ := hf
    cases exec_effect h
    case serves => exact Nat.le_succ _
    all_goals exact le_rfl
  · exact (exec_served h fun call pc he => hf ⟨call, pc, he⟩).ge

/-- Only a call logs that it has started. -/
theorem exec_countP {c : Choice} {f : Frame} {r : Resume Outcome} (i : CallId)
    (h : exec cfg s t c f r = some (s', n)) (hf : ∀ call pc, f ≠ .dispatchHere call pc) :
    s'.trace.countP (Event.starts i) = s.trace.countP (Event.starts i) := by
  rcases exec_log h with he | ⟨e, he, hlogs⟩
  · rw [he]
  · have hstarts : e.starts i = false := by
      cases logged_of_logs hlogs <;> first | rfl | exact (hf _ _ rfl).elim
    rw [he, List.countP_cons, hstarts]
    simp

/-- The chances of a call after a segment, beside those of everything else. -/
theorem exec_starts_le {c : Choice} {f : Frame} {r : Resume Outcome} (i : CallId)
    (h : exec cfg s t c f r = some (s', n)) :
    n.work (Frame.coming i) + s'.trace.countP (Event.starts i) + numbered s.served i ≤
      f.coming i + s.trace.countP (Event.starts i) + numbered s'.served i := by
  by_cases hf : ∃ call pc, f = .dispatchHere call pc
  · obtain ⟨call, pc, rfl⟩ := hf
    exact dispatchHere_starts i h
  · have hf : ∀ call pc, f ≠ .dispatchHere call pc := fun call pc he => hf ⟨call, pc, he⟩
    rw [work_of_frames fun f' hf' => (exec_outside h hf hf').coming i, exec_countP i h hf,
      exec_served h hf]
    omega

theorem Frame.outside.locked {f : Frame} (h : f.outside) : f.Locked s := by
  cases f with
  | dispatchHere call pc =>
    obtain rfl := h call pc rfl
    trivial
  | _ => trivial

/-- A call queues for a lock that is there, and enters without one only a reentrant grain. -/
theorem exec_locked {c : Choice} {f f' : Frame} {r : Resume Outcome}
    (h : exec cfg s t c f r = some (s', n)) (hf' : f' ∈ n.frames) : f'.Locked s' := by
  by_cases hf : ∃ call pc, f = .dispatchHere call pc
  · obtain ⟨call, pc, rfl⟩ := hf
    simp only [exec] at h
    unfold dispatchHere interrupted at h
    repeat' split at h
    all_goals
      first
        | contradiction
        | (cases h
           simp only [Next.frames, List.mem_cons, List.not_mem_nil, or_false] at hf'
           try obtain rfl | rfl := hf'
           all_goals
             try subst hf'
             first
               | trivial
               | assumption
               | simp [Frame.Locked, State.setLock, State.emit, heap_modify])
  · have hf : ∀ call pc, f ≠ .dispatchHere call pc := fun call pc he => hf ⟨call, pc, he⟩
    exact (exec_outside h hf hf').locked

theorem Frame.Locked.mono {f : Frame} (h : f.Locked s)
    (hlt : ∀ x ∈ f.activity, ∀ a, x.about = some a → a < s.built)
    (hk : ∀ b < s.built, (s'.heap b).grain = (s.heap b).grain ∧
      ((s.heap b).lock.isSome = true → (s'.heap b).lock.isSome = true)) : f.Locked s' := by
  unfold Frame.Locked at h ⊢
  split at h
  · exact (hk _ (hlt _ (Multiset.mem_singleton_self _) _ rfl)).2 h
  · exact (hk _ (hlt _ (Multiset.mem_singleton_self _) _ rfl)).2 h
  · exact (congrArg Grain.reentrant (hk _ (hlt _ (Multiset.mem_singleton_self _) _ rfl)).1).trans h
  · trivial

/-- No step takes a lock away. -/
theorem step_made {l : Label} (h : step cfg s l = some s') {b : ActId} (hb : b < s.built)
    (hl : (s.heap b).lock.isSome = true) : (s'.heap b).lock.isSome = true := by
  by_cases hrun : ∃ c, l = .run c
  · obtain ⟨c, rfl⟩ := hrun
    obtain ⟨t, r, f, rest, s1, n, hr, hs, he, rfl⟩ := run_cases h
    exact exec_made he hb hl
  · obtain ⟨-, hheap, -⟩ := step_idle (not_exists.1 hrun) h
    rwa [hheap]

/-! ## Every reachable state -/

/-- An activation is at first without a lock. -/
theorem exec_unmade {c : Choice} {f : Frame} {r : Resume Outcome}
    (h : exec cfg s t c f r = some (s', n)) {b : ActId} (hb : s.built ≤ b) (hb' : b < s'.built) :
    (s'.lock b).locked = false ∧ ∀ call pc, f ≠ .dispatchHere call pc := by
  cases exec_effect h
  case publishes g grain o hbuild =>
    obtain rfl : b = s.built := Nat.le_antisymm (Nat.lt_succ_iff.1 hb') hb
    refine ⟨?_, fun _ _ => by simp⟩
    simp [State.lock, State.publish, Activation.new]
  case takes who g a hentry =>
    obtain ⟨L, hL⟩ := cancel_all_eq (s.heap a).timers (s.take who g a)
    rw [hL] at hb'
    exact absurd hb' hb.not_gt
  case begins =>
    obtain ⟨L, sweeper, scanner, hL⟩ := startBackground_eq cfg s t
    rw [hL] at hb'
    exact absurd hb' hb.not_gt
  case activates g a o =>
    obtain ⟨L, timers, hL⟩ := startTimers_eq (t := t) a s
    unfold State.activate at hb'
    rw [hL] at hb'
    exact absurd hb' hb.not_gt
  all_goals exact absurd hb' hb.not_gt

/-- A step gives no call another chance to start, but the first to one that begins. -/
theorem Reached.step_starts {l : Label} (hI : Reached s) (h : Nigrains.step cfg s l = some s')
    (c : CallId) : s'.starts c + numbered s.served c ≤
    s.starts c + numbered s'.served c := by
  by_cases hl : ∃ ch, l = .run ch
  · obtain ⟨ch, rfl⟩ := hl
    obtain ⟨t, r, f, rest, s1, n, R, hr, hs, he, rfl, hw, hw'⟩ := run_work hI.nested h
      (w := Frame.coming c) fun f hf => (outside_of_fresh hf).coming c
    have hle := exec_starts_le c he
    unfold State.starts
    rw [hw, hw']
    show n.work (Frame.coming c) + R + s1.trace.countP (Event.starts c) + _ ≤
      _ + numbered s1.served c
    omega
  · have hl : ∀ c, l ≠ .run c := not_exists.1 hl
    obtain ⟨-, -, -, htrace⟩ := step_idle hl h
    unfold State.starts
    rw [work_other hI.nested hl h (fun f hf => (outside_of_hosted hf).coming c) fun _ _ => rfl,
      htrace, step_served hl h]

/-- Locks are held by who is inside, and a call starts at most once. -/
structure Exclusive (s : State) : Prop where
  held : ∀ a < s.built, s.toLoop.work (Frame.holding a) = (s.lock a).locked.toNat
  locked : ∀ u f, f ∈ (s.tasks u).stack → f.Locked s
  once : ∀ c, s.starts c ≤ numbered s.served c

theorem exclusive_init (isMine : Option (GrainId → Bool)) : Exclusive (.init isMine) where
  held _ h := absurd h (Nat.not_lt_zero _)
  locked _ _ h := by cases h
  once _ := le_rfl

theorem holding_of_ge (hI : Reached s) {a : ActId} (ha : s.built ≤ a) :
    s.toLoop.work (Frame.holding a) = 0 := by
  have hzero : ∀ u f, f ∈ (s.tasks u).stack → f.holding a = 0 := by
    intro u f hf
    unfold Frame.holding
    split
    · next call c b =>
      have hb : b < s.built := hI.about_lt hf (.use b) (Multiset.mem_singleton_self _) b rfl
      exact if_neg (hb.trans_le ha).ne
    · rfl
  refine Finset.sum_eq_zero fun u _ => List.sum_eq_zero fun x hx => ?_
  obtain ⟨f, hf, rfl⟩ := List.mem_map.1 hx
  exact hzero u f hf

namespace Exclusive

variable {l : Label} (hI : Reached s) (hE : Exclusive s) (h : step cfg s l = some s')

include hI hE h

theorem step_held {a : ActId} (ha : a < s'.built) :
    s'.toLoop.work (Frame.holding a) = (s'.lock a).locked.toNat := by
  by_cases hl : ∃ c, l = .run c
  · obtain ⟨c, rfl⟩ := hl
    obtain ⟨t, r, f, rest, s1, n, R, hr, hs, he, rfl, hw, hw'⟩ := run_work hI.nested h
      (w := Frame.holding a) fun f hf => (outside_of_fresh hf).holding a
    rw [hw']
    show _ = (s1.lock a).locked.toNat
    rcases Nat.lt_or_ge a s.built with hlt | hge
    · have hheld := hE.held a hlt
      by_cases hf : ∃ call pc, f = .dispatchHere call pc
      · obtain ⟨call, pc, rfl⟩ := hf
        have hlocked : 0 < Frame.holding a (.dispatchHere call pc) → (s.lock a).locked = true := by
          intro hpos
          cases hlock : (s.lock a).locked with
          | false =>
            rw [hlock, Bool.toNat_false] at hheld
            omega
          | true => rfl
        have hsum := dispatchHere_holding (hI.asserted t r _ rest hr hs) hlocked he
        omega
      · have hf : ∀ call pc, f ≠ .dispatchHere call pc := fun call pc hf' => hf ⟨call, pc, hf'⟩
        have hself : f.holding a = 0 :=
          Frame.outside.holding (fun call pc hf' => (hf call pc hf').elim) a
        rw [work_of_frames fun f' hf' => (exec_outside he hf hf').holding a, exec_lock he hlt hf]
        omega
    · have hzero := holding_of_ge hI hge
      obtain ⟨hfree, hf⟩ := exec_unmade he hge ha
      rw [work_of_frames fun f' hf' => (exec_outside he hf hf').holding a, hfree, Bool.toNat_false]
      omega
  · have hl : ∀ c, l ≠ .run c := not_exists.1 hl
    obtain ⟨-, hheap, hbuilt, -⟩ := step_idle hl h
    rw [work_other hI.nested hl h (fun f hf => (outside_of_hosted hf).holding a) fun _ _ => rfl,
      hE.held a (hbuilt ▸ ha)]
    unfold State.lock
    rw [hheap]

theorem step_locked : ∀ u f, f ∈ (s'.tasks u).stack → f.Locked s' := by
  refine frames_step (Φ := fun _ f => f.Locked s ∧ ∀ x ∈ f.activity, ∀ a, x.about = some a →
    a < s.built) (Ψ := fun _ f => f.Locked s') h (fun u f hf => ⟨hE.locked u f hf, hI.about_lt hf⟩)
    ?_ ?_ ?_ ?_
  · exact fun _ f hf => hf.1.mono hf.2 fun b hb => ⟨step_grain h hb, step_made h hb⟩
  · rintro t r f rest c s1 n hr hs he rfl
    have hleft : ∀ f' ∈ n.frames, f'.Locked s1 := fun f' hf' => exec_locked he hf'
    exact ⟨hleft, fun _ f' _ _ hf' => (outside_of_fresh hf'.1).locked⟩
  · exact fun _ f hf => (outside_of_hosted hf).locked
  · exact fun _ _ _ _ _ => trivial

theorem step : Exclusive s' where
  held _ ha := hE.step_held hI h ha
  locked := hE.step_locked hI h
  once c := by
    have hle := hI.step_starts h c
    have honce := hE.once c
    omega

end Exclusive

theorem Run.exclusive {ok : State → State → Prop} {isMine : Option (GrainId → Bool)}
    (h : Run (step cfg) ok (.init isMine) s) : Exclusive s := by
  have hI := h.invariant (I := fun s => Reached s ∧ Exclusive s)
    ⟨reached_init _, exclusive_init _⟩
    fun s l s' hI hl _ => ⟨hI.1.step hl, hI.2.step hI.1 hl⟩
  exact hI.2

/-! ## A caller that is cancelled while it queues -/

/-- Call `c` stands at the head of task `u`, queueing. -/
def State.queues (s : State) (u : TaskId) (c : CallId) : Prop :=
  ∃ call a rest, (s.tasks u).stack = .dispatchHere call (.queued c a) :: rest

/-- Call `c` cannot start any more, or it queues and is to be interrupted, or is being. -/
def State.Forsaken (s : State) (c : CallId) : Prop :=
  c < s.served ∧ (s.starts c = 0 ∨ ∃ u, s.queues u c ∧
    (s.running = some (u, .got (.error .cancelledError)) ∨
      (s.tasks u).mustCancel = true ∧ ∀ r, s.running ≠ some (u, r)))

theorem step_served_le {l : Label} (h : step cfg s l = some s') : s.served ≤ s'.served := by
  by_cases hl : ∃ c, l = .run c
  · obtain ⟨c, rfl⟩ := hl
    obtain ⟨t, r, f, rest, s1, n, hr, hs, he, rfl⟩ := run_cases h
    have hle : s.served ≤ s1.served := exec_served_le he
    exact hle
  · exact (step_served (not_exists.1 hl) h).ge

/-- A task that is resumed is not to be interrupted any more. -/
theorem mustCancel_of_runs {l : Label} {u : TaskId} {r : Resume Outcome}
    (h : step cfg s l = some s') (hr : ∀ r, s.running ≠ some (u, r))
    (hr' : s'.running = some (u, r)) : (s'.tasks u).mustCancel = false := by
  rcases step_cases h with ⟨t, r', f, rest, ch, s1, n, hrt, hs, he, rfl⟩ |
    ⟨t, r', f, rest, hrt, ht, hs, hf, rfl⟩ | ⟨t, i, call, saved, hrt, hs, hdue, rfl⟩ | hw
  · obtain rfl := running_land hr'
    exact (hr _ hrt).elim
  · cases hr'
    simp [State.runTask, Loop.setTask]
  · simp [State.expireTask, Loop.setTask, hrt] at hr'
  · exact (hr _ (hw.keeps.running_eq.symm.trans hr')).elim

/-- A task that does not run stays where it queues. -/
theorem State.queues.step {l : Label} {u : TaskId} {c : CallId} (hq : s.queues u c)
    (hn : Nested s) (hr : ∀ r, s.running ≠ some (u, r)) (h : Nigrains.step cfg s l = some s') :
    s'.queues u c := by
  obtain ⟨call, a, rest, hs⟩ := hq
  have hu := hn.lt_spawned hs
  rcases step_cases h with ⟨t, r, f, rest', ch, s1, n, hr', hs', he, rfl⟩ |
    ⟨t, r, f, rest', hr', ht, hs', hf, rfl⟩ | ⟨t, i, call', saved, hr', hs', hdue, rfl⟩ | hw
  · have hne : u ≠ t := by
      rintro rfl
      exact hr r hr'
    exact ⟨call, a, rest, by rw [Loop.stack_land _ hne, (exec_keeps he).stack_eq u (.inl hu), hs]⟩
  · exact ⟨call, a, rest, by rw [stack_runTask, hs]⟩
  · by_cases hut : u = t
    · subst hut
      rw [hs] at hs'
      cases i with
      | zero => cases hs'
      | succ i =>
        refine ⟨call, a, rest.set i (.timeout call' saved true), ?_⟩
        rw [stack_expireTask, if_pos rfl, hs, List.set_cons_succ]
    · exact ⟨call, a, rest, by rw [stack_expireTask, if_neg hut, hs]⟩
  · exact ⟨call, a, rest, by rw [hw.keeps.stack_eq u (.inl hu), hs]⟩

/-- An interrupted call leaves the queue without having started. -/
theorem starts_of_interrupted {ch : Choice} {u : TaskId} {c : CallId} (hI : Reached s)
    (hE : Exclusive s) (hr : s.running = some (u, .got (.error .cancelledError)))
    (hq : s.queues u c) (h : step cfg s (.run ch) = some s') : s'.starts c = 0 := by
  obtain ⟨call, a, rest, hs⟩ := hq
  obtain ⟨t, r, f, rest', s1, n, R, hr', hs', he, rfl, hw, hw'⟩ := run_work hI.nested h
    (w := Frame.coming c) fun f hf => (outside_of_fresh hf).coming c
  cases hr.symm.trans hr'
  cases hs.symm.trans hs'
  cases he
  have honce := hE.once c
  unfold State.starts at honce ⊢
  rw [hw] at honce
  rw [hw']
  have hcoming : Frame.coming c (.dispatchHere call (.queued c a)) = 1 := if_pos rfl
  have hle := numbered_le s.served c
  show 0 + R + (_ :: s.trace).countP (Event.starts c) = 0
  rw [List.countP_cons]
  simp only [Event.starts, Bool.false_eq_true, if_false]
  omega

/-- Nothing that happens gives a forsaken call another chance. -/
theorem State.Forsaken.step {l : Label} {c : CallId} (hI : Reached s) (hE : Exclusive s)
    (hc : s.Forsaken c) (h : Nigrains.step cfg s l = some s') : s'.Forsaken c := by
  obtain ⟨hlt, hc⟩ := hc
  have hlt' := hlt.trans_le (step_served_le h)
  refine ⟨hlt', ?_⟩
  rcases hc with h0 | ⟨u, hq, hcancel⟩
  · left
    have hle := hI.step_starts h c
    unfold numbered at hle
    rw [if_pos hlt, if_pos hlt'] at hle
    omega
  · rcases hcancel with hr | ⟨hm, hr⟩
    · by_cases hl : ∃ ch, l = .run ch
      · obtain ⟨ch, rfl⟩ := hl
        exact .inl (starts_of_interrupted hI hE hr hq h)
      · refine .inr ⟨u, ?_⟩
        rcases step_other (not_exists.1 hl) h with ⟨t, r, f, rest, hr', -⟩ |
          ⟨t, i, call, saved, hr', -⟩ | hw
        · rw [hr] at hr'
          cases hr'
        · rw [hr] at hr'
          cases hr'
        · obtain ⟨call, a, rest, hs⟩ := hq
          have hu := (hI.nested.running u _ hr).1
          exact ⟨⟨call, a, rest, (hw.keeps.stack_eq u (.inl hu)).trans hs⟩,
            .inl (hw.keeps.running_eq.trans hr)⟩
    · have hq' := hq.step hI.nested hr h
      have hu : u < s.spawned := by
        obtain ⟨call, a, rest, hs⟩ := hq
        exact hI.nested.lt_spawned hs
      rcases step_mustCancel h hu hm with hm' | ⟨-, hr'⟩
      · refine .inr ⟨u, hq', .inr ⟨hm', fun r hr' => ?_⟩⟩
        exact absurd hm' (by simp [mustCancel_of_runs h hr hr'])
      · exact .inr ⟨u, hq', .inl hr'⟩

/-! ## One call at a time -/

/-- What the lock of activation `a` comes to in state `s`, and ever after. -/
structure OneAtATime (cfg : Config) (s : State) (a : ActId) : Prop where
  /-- No two calls are inside a method. -/
  alone : ∀ u i v j, s.inside a u i → s.inside a v j → u = v ∧ i = j
  /-- The lock is locked while one is. -/
  held : (∃ u i, s.inside a u i) ↔ (s.lock a).locked = true
  /-- A caller that is cancelled while it queues never starts. -/
  forsakes : ∀ u c, s.queues u c → (s.tasks u).mustCancel = true →
    (∀ r, s.running ≠ some (u, r)) → ∀ s', Run (step cfg) (fun _ _ => True) s s' →
    ∀ b, .started c b ∉ s'.trace
  /-- Who queues for the lock or is inside finds it made. -/
  made : ∀ u call c, .dispatchHere call (.queued c a) ∈ (s.tasks u).stack ∨
    (∃ locked, .dispatchHere call (.running c a locked) ∈ (s.tasks u).stack) →
    (s.heap a).lock.isSome = true
  /-- A lock that has been made is the one there is ever after. -/
  kept : (s.heap a).lock.isSome = true → ∀ s', Run (step cfg) (fun _ _ => True) s s' →
    (s'.heap a).lock.isSome = true

variable {a : ActId} {isMine : Option (GrainId → Bool)}

/-- Whoever is inside a method of a serialised grain holds its lock. -/
theorem Exclusive.holding (hE : Exclusive s) (hser : (s.heap a).grain.reentrant = false)
    {u : TaskId} {i : ℕ} (h : s.inside a u i) :
    ∃ f, (s.tasks u).stack[i]? = some f ∧ f.holding a = 1 := by
  obtain ⟨call, c, locked, hs⟩ := h
  refine ⟨_, hs, ?_⟩
  cases locked with
  | false =>
    have hre := hE.locked u _ (List.mem_of_getElem? hs)
    exact absurd hre (by simp [Frame.Locked, hser])
  | true => exact if_pos rfl

/-- No two calls are inside a method of a serialised grain. -/
theorem Exclusive.alone (hI : Reached s) (hE : Exclusive s) (ha : a < s.built)
    (hser : (s.heap a).grain.reentrant = false) {u v : TaskId} {i j : ℕ} (hi : s.inside a u i)
    (hj : s.inside a v j) : u = v ∧ i = j := by
  obtain ⟨f, hf, hwf⟩ := hE.holding hser hi
  obtain ⟨f', hf', hwf'⟩ := hE.holding hser hj
  have hle : s.toLoop.work (Frame.holding a) ≤ 1 := by
    rw [hE.held a ha]
    exact Bool.toNat_le _
  exact Loop.place_unique hle (hI.nested.lt_of_mem (List.mem_of_getElem? hf))
    (hI.nested.lt_of_mem (List.mem_of_getElem? hf')) hf hf' hwf hwf'

/-- The lock of a serialised grain is locked while a call is inside. -/
theorem Exclusive.locked_of_inside (hI : Reached s) (hE : Exclusive s) (ha : a < s.built)
    (hser : (s.heap a).grain.reentrant = false) {u : TaskId} {i : ℕ} (h : s.inside a u i) :
    (s.lock a).locked = true := by
  obtain ⟨f, hf, hwf⟩ := hE.holding hser h
  have hmem := List.mem_of_getElem? hf
  have hle : f.holding a ≤ s.toLoop.work (Frame.holding a) :=
    Loop.le_work (hI.nested.lt_of_mem hmem) hmem
  rw [hE.held a ha] at hle
  cases hlock : (s.lock a).locked with
  | false =>
    rw [hlock, Bool.toNat_false] at hle
    omega
  | true => rfl

/-- A lock that is locked, some call holds. -/
theorem Exclusive.inside_of_locked (hE : Exclusive s) (ha : a < s.built)
    (hl : (s.lock a).locked = true) : ∃ u i, s.inside a u i := by
  by_contra hnone
  have hzero : s.toLoop.work (Frame.holding a) = 0 := by
    refine Finset.sum_eq_zero fun u _ => List.sum_eq_zero fun x hx => ?_
    obtain ⟨f, hf, rfl⟩ := List.mem_map.1 hx
    unfold Frame.holding
    split
    · next call c b =>
      refine if_neg fun hb => hnone ?_
      obtain ⟨i, hi⟩ := List.getElem?_of_mem hf
      exact ⟨u, i, call, c, true, hb ▸ hi⟩
    · rfl
  rw [hE.held a ha, hl] at hzero
  cases hzero

/-- A call that queues may still start. -/
theorem State.queues.coming_pos (hn : Nested s) {u : TaskId} {c : CallId} (hq : s.queues u c) :
    0 < s.toLoop.work (Frame.coming c) := by
  obtain ⟨call, a, rest, hs⟩ := hq
  have hle : Frame.coming c (.dispatchHere call (.queued c a)) ≤
      s.toLoop.work (Frame.coming c) :=
    Loop.le_work (hn.lt_spawned hs) (hs ▸ List.mem_cons_self)
  rwa [show Frame.coming c (.dispatchHere call (.queued c a)) = 1 from if_pos rfl] at hle

theorem Exclusive.lt_served (hI : Reached s) (hE : Exclusive s) {u : TaskId} {c : CallId}
    (hq : s.queues u c) : c < s.served := by
  have honce := hE.once c
  have hcoming := hq.coming_pos hI.nested
  unfold State.starts numbered at honce
  split_ifs at honce with hlt
  · exact hlt
  · omega

/-- A forsaken call has not started, and never does. -/
theorem State.Forsaken.not_started {c : CallId} (hI : Reached s) (hE : Exclusive s)
    (hc : s.Forsaken c) {s' : State} (h : Run (Nigrains.step cfg) (fun _ _ => True) s s')
    (b : ActId) :
    .started c b ∉ s'.trace := by
  have hend := h.invariant (I := fun s => Reached s ∧ Exclusive s ∧ s.Forsaken c) ⟨hI, hE, hc⟩
    fun s l s' hJ hl _ => ⟨hJ.1.step hl, hJ.2.1.step hJ.1 hl, hJ.2.2.step hJ.1 hJ.2.1 hl⟩
  obtain ⟨hI', hE', -, hc'⟩ := hend
  intro hmem
  have hpos : 0 < s'.trace.countP (Event.starts c) :=
    List.countP_pos_iff.2 ⟨_, hmem, by simp [Event.starts]⟩
  rcases hc' with h0 | ⟨u, hq, -⟩
  · unfold State.starts at h0
    omega
  · have honce := hE'.once c
    have hle := numbered_le s'.served c
    have hcoming := hq.coming_pos hI'.nested
    unfold State.starts at honce
    omega

/-- In every reachable state, whatever the callers of an activation do and whenever they are
cancelled : no two of them are inside a method of a grain that is not reentrant. -/
theorem one_at_a_time (h : Run (step cfg) (fun _ _ => True) (.init isMine) s) (ha : a < s.built)
    (hser : (s.heap a).grain.reentrant = false) : OneAtATime cfg s a := by
  have hI := h.reached
  have hE := h.exclusive
  refine ⟨fun u i v j => hE.alone hI ha hser, ⟨?_, hE.inside_of_locked ha⟩, ?_, ?_, ?_⟩
  · rintro ⟨u, i, hi⟩
    exact hE.locked_of_inside hI ha hser hi
  · intro u c hq hm hr s' hrun b
    have hc : s.Forsaken c := ⟨hE.lt_served hI hq, .inr ⟨u, hq, .inr ⟨hm, hr⟩⟩⟩
    exact hc.not_started hI hE hrun b
  · rintro u call c (hmem | ⟨locked, hmem⟩)
    · exact hE.locked u _ hmem
    · obtain ⟨i, hi⟩ := List.getElem?_of_mem hmem
      cases locked with
      | false =>
        have hre : (s.heap a).grain.reentrant = true := hE.locked u _ hmem
        rw [hser] at hre
        cases hre
      | true => exact hE.locked u _ hmem
  · intro hmade s' hrun
    have hend := hrun.invariant (I := fun s => Reached s ∧ a < s.built ∧
        (s.heap a).lock.isSome = true) ⟨hI, ha, hmade⟩ fun s l s' hJ hl _ =>
      ⟨hJ.1.step hl, hJ.2.1.trans_le (hJ.1.built_le hl), step_made hl hJ.2.1 hJ.2.2⟩
    exact hend.2.2

/-- A caller is inside `get`. Another queues, and is cancelled. -/
def queueing : List Label :=
  [.arrive, .resume 0] ++ Label.invoke ⟨"counter", "x"⟩ ++ Label.gos 2 ++ [Label.returns] ++
  Label.gos 3 ++ [.run .suspend, .arrive, .resume 1] ++ Label.invoke ⟨"counter", "x"⟩ ++
  Label.gos 2 ++ [.cancel 1]

theorem one_at_a_time_queueing : ∃ s : State, s.inside 0 0 1 ∧ s.queues 1 1 ∧
    (s.tasks 1).mustCancel = true ∧ OneAtATime (.small none) s 0 := by
  obtain ⟨s, hrun, hp⟩ := exists_free_run (.small none) none queueing
    (fun s => decide ((s.tasks 0).stack[1]? = some (Frame.dispatchHere
        ⟨⟨"counter", "x"⟩, "get", 0, 0, none⟩ (.running 0 0 true)) ∧
      (s.tasks 1).stack = [.dispatchHere ⟨⟨"counter", "x"⟩, "get", 0, 0, none⟩ (.queued 1 0),
        .user .client] ∧ (s.tasks 1).mustCancel = true ∧ s.built = 1 ∧
      (s.heap 0).grain.reentrant = false)) (by decide +kernel)
  rw [decide_eq_true_eq] at hp
  obtain ⟨hinside, hqueue, hcancel, hbuilt, hser⟩ := hp
  exact ⟨s, ⟨_, _, _, hinside⟩, ⟨_, _, _, hqueue⟩, hcancel,
    one_at_a_time hrun (by rw [hbuilt]; decide) hser⟩

end

end Nigrains
