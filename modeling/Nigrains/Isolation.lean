import Nigrains.Tickers

/-!
# Whose deadline an error speaks of

An activation runs in the task, the context and the timeout of the caller that builds it,
and what it fails with is handed to every caller that waits for it. An expired deadline
shows up inside `activate` as a cancellation, which waiters do not take for their own, or
as the `DeadlineExceeded` of a nested call, which they do (`impatient`). As long as an
activation does not fail with a `TimeoutError` while a caller with time left waits for it,
and what the grains themselves raise speaks of their own deadline, a call ends with
`DeadlineExceeded` only when the deadline of its task has passed (`deadline_own`).
-/

namespace Nigrains

/-! ## What code outside the runtime must keep to -/

/-- Code whose outcome becomes that of a call. -/
def Role.serves : Role → Bool
  | .filter .. => true
  | .transport .. => true
  | .read _ => true
  | .activate _ => true
  | .body .. => true
  | _ => false

/-- An exception that speaks of no other deadline than that of the task : it is no
`TimeoutError`, or the deadline has passed, or there is none and it is no
`DeadlineExceeded`. -/
def State.timely (s : State) (t : TaskId) (e : Exc) : Bool :=
  !e.isTimeout || s.passed t || ((s.tasks t).context.isNone && !e.isDeadlineExceeded)

/-- What a task has ended its innermost frame with, which stood above `rest`. -/
def State.gave (s : State) (t : TaskId) (rest : List Frame) : Option Outcome :=
  if (s.tasks t).stack = rest then
    match rest, s.running with
    | [], _ => (s.tasks t).result
    | _ :: _, some (u, .got o) => if u = t then some o else none
    | _ :: _, _ => none
  else none

/-- Code outside the runtime raises only what is timely, and hands calls on with no earlier
deadline than its context has. -/
def punctual (s s' : State) : Bool :=
  match s.running with
  | none => true
  | some (t, _) =>
    match (s.tasks t).stack with
    | .user role :: rest =>
      (match s'.gave t rest with
        | some (.error e) => !role.serves || s.timely t e
        | _ => true) &&
      ((s'.tasks t).stack.head?.bind Frame.handed).all
        fun call => decide (NoLater (s.tasks t).context call.deadline)
    | _ => true

/-- The frame waits for the activation. -/
def Frame.waitsFor (a : ActId) : Frame → Bool
  | .activated _ (.waiting b) => b = a
  | _ => false

/-- What an activation fails with is timely for every caller that waits for it. -/
def SparesWaiters (s : State) : Event → Prop
  | .failed _ a e _ =>
    ∀ u < s.spawned, (s.tasks u).stack.head?.any (Frame.waitsFor a) = true → s.timely u e = true
  | _ => True

instance {s : State} {e : Event} : Decidable (SparesWaiters s e) :=
  decidableOr (match e with
    | .failed .. => some (inferInstanceAs (Decidable (∀ u < _, _)))
    | _ => none) (by cases e <;> simp [SparesWaiters])

/-- A step that keeps to both. -/
def Isolating (s s' : State) : Prop :=
  Logs State.trace SparesWaiters s s' ∧ punctual s s' = true

/-- No factory raises a `TimeoutError`. -/
def Config.Prompt (cfg : Config) : Prop :=
  ∀ type factory g e, cfg.factories type = some factory → factory g = .error e →
    e.isTimeout = false

section

variable {cfg : Config} {s s' : State} {t : TaskId} {n : Next Frame Outcome}

theorem timely_of_not_timeout {e : Exc} (h : e.isTimeout = false) : s.timely t e = true := by
  simp [State.timely, h]

theorem timely_of_passed {e : Exc} (h : s.passed t = true) : s.timely t e = true := by
  simp [State.timely, h]

theorem isTimeout_of_isDeadlineExceeded {e : Exc} (h : e.isDeadlineExceeded = true) :
    e.isTimeout = true := by
  cases e <;> first | rfl | cases h

/-- A timely `DeadlineExceeded` speaks of a deadline that has passed. -/
theorem passed_of_timely {e : Exc} (h : s.timely t e = true) (he : e.isDeadlineExceeded = true) :
    s.passed t = true := by
  simpa [State.timely, he, isTimeout_of_isDeadlineExceeded he] using h

/-- What is timely stays so while the task's context does not change. -/
theorem timely_mono {u : TaskId} {e : Exc} (hc : (s'.tasks u).context = (s.tasks u).context)
    (hnow : s.now ≤ s'.now) (h : s.timely u e = true) : s'.timely u e = true := by
  unfold State.timely State.passed at h ⊢
  rw [hc]
  simp only [Bool.or_eq_true] at h ⊢
  rcases h with (h | h) | h
  · exact .inl (.inl h)
  · exact .inl (.inr (overdue_mono hnow h))
  · exact .inr h

/-! ## What an activation fails with -/

/-- An activation's failure is what it has failed with. -/
theorem exec_failure {c : Choice} {f : Frame} {r : Resume Outcome}
    (h : exec cfg s t c f r = some (s', n)) {b : ActId} {e : Exc}
    (he : (s'.heap b).failure = some e) :
    (s.heap b).failure = some e ∨ ∃ g popped, s'.trace = .failed g b e popped :: s.trace := by
  cases exec_effect h
  case publishes g grain o hbuild =>
    left
    by_cases hb : b = s.built
    · simp [State.publish, hb, Activation.new] at he
    · simpa [State.publish, Function.update_of_ne hb] using he
  case failsReading g a x | fails g a x =>
    simp only [State.fail, heap_modify] at he
    split_ifs at he with hb
    · obtain rfl := Option.some.inj he
      exact .inr ⟨g, s.activations.get g, by rw [hb]; rfl⟩
    · exact .inl he
  case activates g a o =>
    left
    obtain ⟨timers, hheap⟩ := heap_startTimers (t := t) a b s
    simp only [State.activate, State.emit, heap_modify] at he
    split_ifs at he with hb
    · subst hb
      rwa [hheap] at he
    · rwa [hheap] at he
  case takes who g a hentry =>
    rw [heap_cancel_all] at he
    exact .inl he
  case begins =>
    rw [heap_startBackground] at he
    exact .inl he
  all_goals
    left
    first
      | exact he
      | (simp only [State.enter, State.leave, State.setLock, State.tick, State.tock, State.emit,
           heap_modify] at he
         split_ifs at he <;> simp_all)

/-! ## What is raised on the way is timely -/

/-- A frame that raises in its turn what it is given. -/
def Frame.minds : Frame → Prop
  | .timeout .. => True
  | .dispatchHere .. => True
  | .activated .. => True
  | .makeRoom _ => True
  | _ => False

/-- What runs is given only timely exceptions, and what an activation has failed with is
timely for every caller that waits for it. -/
structure OnTime (s : State) : Prop where
  clocked : Clocked s
  dated : AllDated s
  ticking : TimersTick s
  waiting : ∀ u g a rest e, (s.tasks u).stack = .activated g (.waiting a) :: rest →
    (s.heap a).failure = some e → s.timely u e = true
  given : ∀ t e f rest, s.running = some (t, .got (.error e)) → (s.tasks t).stack = f :: rest →
    f.minds → s.timely t e = true

/-- The bookkeeping at the end of a call raises no `TimeoutError` of its own. -/
theorem counted_timely {a : ActId} {o : Outcome} {e : Exc}
    (ho : ∀ x, o = .error x → s.timely t x = true)
    (h : countedOutcome cfg s a o = .error e) : s.timely t e = true := by
  unfold countedOutcome at h
  split_ifs at h
  · cases h
    exact timely_of_not_timeout rfl
  · exact ho e h

namespace OnTime

variable {e : Exc} {rest : List Frame} {r : Resume Outcome} (hO : OnTime s)
  (hr : s.running = some (t, r))

include hO hr

theorem interrupted_timely {f : Frame} (hs : (s.tasks t).stack = f :: rest)
    (hnone : ∀ f', below (some f) f' = false) (h : r = .got (.error e)) :
    s.timely t e = true := by
  subst h
  have he := hO.clocked.interrupted t _ f rest hr hs hnone
  obtain rfl : e = .cancelledError := by simpa using he
  exact timely_of_not_timeout rfl

theorem chain_timely {k : ℕ} {call : Call} {terminal : Terminal}
    (hs : (s.tasks t).stack = .chain k call terminal :: rest)
    (h : chain s t k call terminal r = some (s', .done (.error e))) : s.timely t e = true := by
  have hd := hO.dated t
  rw [hs] at hd
  unfold chain at h
  split at h
  · split at h
    · cases h
    · split at h
      · cases h
      · next d hdeadline =>
        split_ifs at h with hle
        · cases h
          have hdated : NoLater (s.tasks t).context call.deadline := hd.1
          refine timely_of_passed (hdated.overdue ?_)
          rw [hdeadline]
          exact decide_eq_true (sub_nonpos.1 hle)
        · cases h
  · unfold interrupted at h
    split at h
    · cases h
      exact interrupted_timely hO hr hs (fun _ => rfl) rfl
    · cases h

theorem timeout_timely {call : Call} {saved : ℕ} {expired : Bool}
    (hs : (s.tasks t).stack = .timeout call saved expired :: rest)
    (h : timeout s t call saved expired r = some (s', .done (.error e))) :
    s.timely t e = true := by
  have hd := hO.dated t
  rw [hs] at hd
  obtain ⟨⟨hcall, hsome⟩, -⟩ := hd
  unfold timeout at h
  split at h
  · next o =>
    split_ifs at h with hexp
    · exact timely_of_passed (hcall.overdue
        (hO.clocked.expired t call saved (by rw [hs, hexp]; exact List.mem_cons_self)))
    · simp only [Option.some.injEq, Prod.mk.injEq, Next.done.injEq, timeoutExit_false] at h
      obtain ⟨-, hout⟩ := h
      unfold toDeadlineExceeded at hout
      split at hout
      · next x =>
        have hx : s.timely t x = true := hO.given t x _ rest hr hs trivial
        split_ifs at hout with htime
        · -- its deadline has passed, for there is one
          obtain ⟨d', hd'⟩ := Option.isSome_iff_exists.1 hsome
          obtain ⟨d, hd, -⟩ := hcall d' hd'
          have hne : (s.tasks t).context.isNone = false := by simp [hd]
          refine timely_of_passed ?_
          simpa [State.timely, htime, hne] using hx
        · cases hout
          exact hx
      · cases hout
  · cases h

theorem dispatch_timely {call : Call} (hs : (s.tasks t).stack = .dispatch call :: rest)
    (h : dispatch cfg s t call r = some (s', .done (.error e))) : s.timely t e = true := by
  unfold dispatch at h
  split at h
  · split at h <;> cases h
  · unfold interrupted at h
    split at h
    · cases h
      exact interrupted_timely hO hr hs (fun _ => rfl) rfl
    · cases h

theorem dispatchHere_timely {call : Call} {pc : DispatchAt}
    (hs : (s.tasks t).stack = .dispatchHere call pc :: rest)
    (h : dispatchHere cfg s call pc r = some (s', .done (.error e))) : s.timely t e = true := by
  have hgiven : ∀ x, r = .got (.error x) → s.timely t x = true := by
    rintro x rfl
    exact hO.given t x _ rest hr hs trivial
  unfold dispatchHere interrupted at h
  split at h
  · cases h
  · split at h
    · cases h
      exact hgiven _ rfl
    · cases h
  · split_ifs at h <;> cases h
    exact timely_of_not_timeout rfl
  · cases h
    exact hgiven _ rfl
  · split_ifs at h <;> cases h
  · cases h
  · simp only [Option.some.injEq, Prod.mk.injEq, Next.done.injEq] at h
    exact counted_timely (by rintro x hx; cases hx; exact hgiven _ rfl) h.2
  · simp only [Option.some.injEq, Prod.mk.injEq, Next.done.injEq] at h
    exact counted_timely (by rintro x rfl; exact hgiven _ rfl) h.2
  · simp only [Option.some.injEq, Prod.mk.injEq, Next.done.injEq] at h
    exact counted_timely (by rintro x rfl; exact hgiven _ rfl) h.2
  · cases h

theorem activated_timely {g : GrainId} {pc : ActivatedAt} (hcfg : cfg.Prompt)
    (hs : (s.tasks t).stack = .activated g pc :: rest)
    (h : activated cfg s t g pc r = some (s', .done (.error e))) : s.timely t e = true := by
  have hgiven : ∀ x, r = .got (.error x) → s.timely t x = true := by
    rintro x rfl
    exact hO.given t x _ rest hr hs trivial
  unfold activated at h
  split at h
  · split at h
    · split_ifs at h <;> cases h
    · split at h <;> cases h
      exact timely_of_not_timeout rfl
  · next a =>
    split at h
    · cases h
    · next x hx =>
      split_ifs at h <;> cases h
      exact hO.waiting t g a rest _ hs hx
  · cases h
    exact hgiven _ rfl
  · split at h
    · split_ifs at h <;> cases h
    · next x hx =>
      cases h
      obtain ⟨factory, hfactory, hraise⟩ := Option.map_eq_some_iff.1 hx
      exact timely_of_not_timeout (hcfg _ _ _ _ hfactory hraise)
    · cases h
  · cases h
    exact hgiven _ rfl
  · cases h
  · cases h
    exact hgiven _ rfl
  · cases h
  · cases h
    exact hgiven _ rfl
  · cases h

theorem makeRoom_timely {pc : MakeRoomAt} (hs : (s.tasks t).stack = .makeRoom pc :: rest)
    (h : makeRoom cfg s pc r = some (s', .done (.error e))) : s.timely t e = true := by
  unfold makeRoom at h
  repeat' split at h
  all_goals
    first
      | contradiction
      | (cases h; done)
      | (cases h; exact hO.given t _ _ rest hr hs trivial)

theorem deactivate_timely {who : Remover} {g : GrainId} {pc : DeactivateAt}
    (hs : (s.tasks t).stack = .deactivate who g pc :: rest)
    (h : deactivate s who g pc r = some (s', .done (.error e))) : s.timely t e = true := by
  have htop : .deactivate who g pc ∈ (s.tasks t).stack := by
    rw [hs]
    exact List.mem_cons_self
  have hready := hO.clocked.reached.asserted t r _ rest hr hs
  unfold deactivate at h
  split at h
  · split at h <;> cases h
  · cases h
  · split_ifs at h <;> cases h
  · next a τ rest' =>
    split at h
    · cases h
    · next x hx =>
      cases h
      -- what has ended is a timer
      obtain ⟨-, ⟨b, pc, hlast⟩ | ⟨-, hresult⟩⟩ := hO.ticking.joined t _ htop τ List.mem_cons_self
      · rw [List.isEmpty_iff.1 (show s.ended τ = true from hready)] at hlast
        cases hlast
      · refine timely_of_not_timeout (hresult _ ?_)
        unfold raises at hx
        split at hx
        · next y hy =>
          split_ifs at hx
          rw [hy, Option.some.inj hx]
        · cases hx
  · cases h
  · cases h
  · split_ifs at h with hexc
    · cases h
    · cases h
      refine timely_of_not_timeout ?_
      by_contra htime
      exact hexc (Exc.isException_of_isTimeout (by simpa using htime))
  · cases h

end OnTime

/-- Coroutines of the runtime that a call goes through. -/
def Frame.relays : Frame → Prop
  | .chain .. => True
  | .timeout .. => True
  | .dispatch _ => True
  | .dispatchHere .. => True
  | .activated .. => True
  | .makeRoom _ => True
  | .deactivate .. => True
  | _ => False

/-- What a coroutine on the way raises is timely. -/
theorem OnTime.exec_timely {c : Choice} {f : Frame} {rest : List Frame} {r : Resume Outcome}
    {e : Exc} (hO : OnTime s) (hcfg : cfg.Prompt) (hr : s.running = some (t, r))
    (hs : (s.tasks t).stack = f :: rest) (hf : f.relays)
    (h : exec cfg s t c f r = some (s', .done (.error e))) : s.timely t e = true := by
  cases f <;> simp only [exec] at h
  case chain => exact hO.chain_timely hr hs h
  case timeout => exact hO.timeout_timely hr hs h
  case dispatch => exact hO.dispatch_timely hr hs h
  case dispatchHere => exact hO.dispatchHere_timely hr hs h
  case activated => exact hO.activated_timely hr hcfg hs h
  case makeRoom => exact hO.makeRoom_timely hr hs h
  case deactivate => exact hO.deactivate_timely hr hs h
  all_goals exact hf.elim

/-- What is awaited on the way is a coroutine on the way, or code whose outcome becomes the
call's. -/
theorem relays_of_below {p f : Frame} (hp : p.minds) (hb : below (some p) f = true) :
    f.relays ∨ ∃ role, f = .user role ∧ role.serves = true := by
  cases awaits_of_below hb
  case timeout hc =>
    unfold Frame.carries at hc
    split at hc
    case h_7 => cases hc
    case h_5 | h_6 => exact .inr ⟨_, rfl, rfl⟩
    all_goals exact .inl trivial
  case activating | room | evicting => exact .inl trivial
  case running | reading | activate => exact .inr ⟨_, rfl, rfl⟩
  all_goals exact hp.elim

theorem gave_land {rest : List Frame} {o : Outcome} :
    State.gave { s with toLoop := s.toLoop.land t rest (.done o) } t rest = some o := by
  refine (if_pos (Loop.stack_land_self s.toLoop t rest (.done o))).trans ?_
  cases rest with
  | nil => simp [Loop.land, Loop.setTask]
  | cons p rest => simp [Loop.land, Loop.setStack]

/-- What code whose outcome becomes a call's raises is timely. -/
theorem timely_of_punctual {role : Role} {rest : List Frame} {r : Resume Outcome} {e : Exc}
    (h : punctual s s' = true) (hr : s.running = some (t, r))
    (hs : (s.tasks t).stack = .user role :: rest) (hrole : role.serves = true)
    (hgave : s'.gave t rest = some (.error e)) : s.timely t e = true := by
  unfold punctual at h
  simp only [hr, hs, hgave, hrole, Bool.not_true, Bool.false_or, Bool.and_eq_true] at h
  exact h.1

/-- Calls are handed on with no earlier deadline than that of the context. -/
theorem handsOn_of_punctual {role : Role} {rest : List Frame} {r : Resume Outcome} {callee : Frame}
    {call : Call} (h : punctual s s' = true) (hr : s.running = some (t, r))
    (hs : (s.tasks t).stack = .user role :: rest)
    (hs' : (s'.tasks t).stack = callee :: .user role :: rest) (hcall : callee.handed = some call) :
    NoLater (s.tasks t).context call.deadline := by
  unfold punctual at h
  simp only [hr, hs, hs', Bool.and_eq_true, List.head?_cons, Option.bind_some, hcall,
    Option.all_some, decide_eq_true_eq] at h
  exact h.2

/-! ## Every reachable state -/

theorem onTime_init (isMine : Option (GrainId → Bool)) : OnTime (.init isMine) where
  clocked := clocked_init _
  dated _ := trivial
  ticking := ⟨fun _ _ h => (List.not_mem_nil h).elim, fun _ _ h => (List.not_mem_nil h).elim⟩
  waiting _ _ _ _ _ h := by cases h
  given _ _ _ _ h := by cases h

/-- A caller that starts to wait for an activation finds it has not failed. -/
theorem exec_waits {c : Choice} {f : Frame} {r : Resume Outcome} {g : GrainId} {a : ActId}
    {fs : List Frame} (h : exec cfg s t c f r = some (s', n))
    (hn : n.frames = .activated g (.waiting a) :: fs) :
    s.activations.get g = some a ∧ s'.heap = s.heap := by
  rcases exec_left h (by rw [hn]; exact List.mem_cons_self) with hentry | hcalled
  · cases f <;> simp [Frame.entry] at hentry
    subst hentry
    simp only [exec] at h
    unfold activated at h
    repeat' split at h
    all_goals
      first
        | contradiction
        | (cases h
           first
            | (cases hn; done)
            | (cases hn; exact ⟨by assumption, rfl⟩))
  · cases hcalled

namespace OnTime

variable {l : Label} (hO : OnTime s)

include hO

theorem step_waiting (h : Nigrains.step cfg s l = some s') (hok : Isolating s s') {u : TaskId}
    {g : GrainId} {a : ActId} {rest : List Frame} {e : Exc}
    (hs' : (s'.tasks u).stack = .activated g (.waiting a) :: rest)
    (he : (s'.heap a).failure = some e) : s'.timely u e = true := by
  have hn := hO.clocked.reached.nested
  -- a caller that was waiting is not the one that runs, or it has been interrupted
  have keep (hs : (s.tasks u).stack = .activated g (.waiting a) :: rest)
      (ht : s.timely u e = true) : s'.timely u e = true := by
    refine timely_mono (step_context h (hn.lt_spawned hs) ?_) (now_le_step h) ht
    rintro r f rest' - hf
    rw [hs] at hf
    cases hf
    rfl
  rcases step_cases h with ⟨t, r, f, rest0, c, s1, n, hr, hs, hx, rfl⟩ |
    ⟨t, r, f, rest0, hr, ht, hs, hf, rfl⟩ | ⟨t, i, call, saved, hr, hs, hdue, rfl⟩ | hw
  · by_cases hut : u = t
    · subst hut
      rw [Loop.stack_land_self] at hs'
      cases hframes : n.frames with
      | nil =>
        rw [hframes] at hs'
        have hb := hn.stacked u
        rw [hs, show rest0 = _ from hs'] at hb
        cases awaits_of_below hb.1
      | cons x fs =>
        rw [hframes] at hs'
        obtain ⟨rfl, -⟩ := List.cons.inj hs'
        obtain ⟨hentry, hheap⟩ := exec_waits hx hframes
        have hlive := hO.clocked.reached.sound.entry_live g a hentry
        have hfail : (s.heap a).failure.isSome = true := by
          rw [← hheap, show (s1.heap a).failure = some e from he]
          rfl
        exact absurd (hlive.symm.trans hfail) (by simp)
    · rw [Loop.stack_land _ hut] at hs'
      rcases (exec_keeps hx).stack_cases u with hold | ⟨f', hf', -, -, hnew⟩
      · rw [hold] at hs'
        rcases exec_failure hx he with hfailed | ⟨g', popped, htrace⟩
        · exact keep hs' (hO.waiting u g a rest e hs' hfailed)
        · refine keep hs' (hok.1 (.failed g' a e popped) htrace u (hn.lt_spawned hs') ?_)
          rw [hs']
          simp [Frame.waitsFor]
      · rw [hnew] at hs'
        cases hs'
        exact hf'.elim
  · rw [stack_runTask] at hs'
    exact keep hs' (hO.waiting u g a rest e hs' he)
  · rw [stack_expireTask] at hs'
    split_ifs at hs' with hut
    · subst hut
      cases i with
      | zero =>
        cases hstack : (s.tasks u).stack with
        | nil => simp [hstack] at hs
        | cons f fs => simp [hstack] at hs'
      | succ i =>
        cases hstack : (s.tasks u).stack with
        | nil => simp [hstack] at hs
        | cons f fs =>
          rw [hstack] at hs'
          obtain ⟨rfl, -⟩ := List.cons.inj hs'
          refine timely_mono (context_expireTask _ _ _ _) le_rfl ?_
          exact hO.waiting u g a fs e hstack he
    · exact keep hs' (hO.waiting u g a rest e hs' he)
  · rcases hw.keeps.stack_cases u with hold | ⟨f', hf', -, -, hnew⟩
    · rw [hold] at hs'
      rw [hw.heap] at he
      exact keep hs' (hO.waiting u g a rest e hs' he)
    · rw [hnew] at hs'
      cases hs'
      exact hf'.elim

theorem step_given (hcfg : cfg.Prompt) (h : Nigrains.step cfg s l = some s')
    (hok : Isolating s s') {t' : TaskId} {e : Exc} {f' : Frame} {rest' : List Frame}
    (hr' : s'.running = some (t', .got (.error e))) (hs' : (s'.tasks t').stack = f' :: rest')
    (hf' : f'.minds) : s'.timely t' e = true := by
  have hn := hO.clocked.reached.nested
  rcases given_cases hn h hr' hs' with ⟨r, f, c, s1, hr, hs, hb, hx, rfl⟩ | ⟨-, he⟩ |
    ⟨hw, hlt, hr, hs⟩
  · have htimely : s.timely t' e = true ∧ f.binds = false := by
      rcases relays_of_below hf' hb with hrelays | ⟨role, rfl, hrole⟩
      · refine ⟨hO.exec_timely hcfg hr hs hrelays hx, ?_⟩
        cases f <;> first | rfl | exact hrelays.elim
      · exact ⟨timely_of_punctual hok.2 hr hs hrole gave_land, rfl⟩
    refine timely_mono (step_context h (hn.running t' r hr).1 ?_) (now_le_step h) htimely.1
    rintro r2 f2 rest2 - hf2
    rw [hs] at hf2
    cases hf2
    exact htimely.2
  · cases he
    exact timely_of_not_timeout rfl
  · exact timely_mono (hw.context t' hlt) hw.now_le (hO.given t' e f' rest' hr hs hf')

theorem step (hcfg : cfg.Prompt) (h : Nigrains.step cfg s l = some s') (hok : Isolating s s') :
    OnTime s' where
  clocked := hO.clocked.step h
  dated := hO.dated.step hO.clocked.reached.nested h fun _ _ _ _ hr hs _ _ hs' hcall =>
    handsOn_of_punctual hok.2 hr hs hs' hcall
  ticking := hO.ticking.step hO.clocked h
  waiting _ _ _ _ _ hs' he := hO.step_waiting h hok hs' he
  given _ _ _ _ hr' hs' hf' := hO.step_given hcfg h hok hr' hs' hf'

end OnTime

theorem Run.onTime {isMine : Option (GrainId → Bool)} (hcfg : cfg.Prompt)
    (h : Run (step cfg) Isolating (.init isMine) s) : OnTime s :=
  h.invariant (I := OnTime) (onTime_init _) fun _ _ _ hI hl hok => hI.step hcfg hl hok

/-- What ends a frame is the segment of its task. -/
theorem done_of_gave {l : Label} {f : Frame} {rest : List Frame} {r : Resume Outcome} {o : Outcome}
    (hl : step cfg s l = some s') (hn : Nested s) (hr : s.running = some (t, r))
    (hs : (s.tasks t).stack = f :: rest) (hgave : s'.gave t rest = some o) :
    ∃ c s1, exec cfg s t c f r = some (s1, .done o) := by
  have hstack : (s'.tasks t).stack = rest := by
    unfold State.gave at hgave
    split_ifs at hgave with h
    exact h
  have hne : rest ≠ f :: rest := (List.cons_ne_self f rest).symm
  rcases step_cases hl with ⟨u, r', f', rest', c, s1, n, hr', hs', hx, rfl⟩ |
    ⟨u, r', f', rest', hr', ht, hs', hf', rfl⟩ | ⟨u, i, call, saved, hr', hs', hdue, rfl⟩ | hw
  · rw [hr] at hr'
    cases hr'
    rw [hs] at hs'
    cases hs'
    refine ⟨c, s1, ?_⟩
    have hland : n.frames ++ rest = rest :=
      (Loop.stack_land_self s1.toLoop t rest n).symm.trans hstack
    have hlen := congrArg List.length hland
    cases n with
    | done o' =>
      rw [gave_land] at hgave
      cases hgave
      exact hx
    | await self callee =>
      simp [Next.frames] at hlen
      omega
    | goto frame | park self => simp [Next.frames] at hlen
  · rw [hr] at hr'
    cases hr'
  · rw [hr] at hr'
    cases hr'
  · rw [hw.keeps.stack_eq t (.inl (hn.running t r hr).1), hs] at hstack
    exact (hne hstack.symm).elim

/-- What takes a call to its grain is a coroutine on the way, or code whose outcome becomes
the call's. -/
theorem relays_of_carries {f : Frame} (hf : f.carries = true) :
    f.relays ∨ ∃ role, f = .user role ∧ role.serves = true := by
  unfold Frame.carries at hf
  split at hf
  all_goals
    first
      | contradiction
      | exact .inl trivial
      | exact .inr ⟨_, rfl, rfl⟩

/-- While activations fail with nothing that is not timely for those that wait for them, and
grains and filters raise nothing that is not timely for themselves, a call ends with
`DeadlineExceeded` only when the deadline of its task has passed. -/
theorem deadline_own {isMine : Option (GrainId → Bool)} {l : Label} {f : Frame}
    {rest : List Frame} {r : Resume Outcome} {e : Exc} (hcfg : cfg.Prompt)
    (h : Run (step cfg) Isolating (.init isMine) s) (hl : step cfg s l = some s')
    (hok : Isolating s s') (hr : s.running = some (t, r)) (hs : (s.tasks t).stack = f :: rest)
    (hf : f.carries = true) (hgave : s'.gave t rest = some (.error e))
    (he : e.isDeadlineExceeded = true) : s'.passed t = true := by
  have hO := h.onTime hcfg
  have hn := hO.clocked.reached.nested
  obtain ⟨c, s1, hx⟩ := done_of_gave hl hn hr hs hgave
  have htimely : s.timely t e = true ∧ f.binds = false := by
    rcases relays_of_carries hf with hrelays | ⟨role, rfl, hrole⟩
    · exact ⟨hO.exec_timely hcfg hr hs hrelays hx, by cases f <;> first | rfl | exact hrelays.elim⟩
    · exact ⟨timely_of_punctual hok.2 hr hs hrole hgave, rfl⟩
  refine passed_of_timely (timely_mono (step_context hl (hn.running t r hr).1 ?_)
    (now_le_step hl) htimely.1) he
  rintro r2 f2 rest2 - hf2
  rw [hs] at hf2
  cases hf2
  exact htimely.2

/-- A caller with a second to spare is served by a method that takes longer. -/
def ranOut : List Label :=
  [.arrive, .resume 0, .run (.within 1), .run .go, .run (.call ⟨"counter", "x"⟩ "get" 0 0)] ++
  Label.gos 6 ++ [Label.returns] ++ Label.gos 3 ++
  [.run .suspend, .clock 1, .expire 0 2, .resume 0, .run (.finish (.error .cancelledError)),
    .run .go]

theorem small_prompt (m : Option ℤ) : (Config.small m).Prompt := by
  rintro type factory g e hf hg
  cases hf
  cases hg

/-- The check of a step. -/
def isolatingCheck (s s' : State) : Bool :=
  logsCheck State.trace SparesWaiters s s' && punctual s s'

theorem isolating_of_check (s s' : State) (h : isolatingCheck s s' = true) : Isolating s s' := by
  rw [isolatingCheck, Bool.and_eq_true] at h
  exact ⟨logs_of_check _ _ s s' h.1, h.2⟩

/-- The caller gets a `DeadlineExceeded`, of its own deadline. -/
theorem deadline_own_ranOut : ∃ s s' : State, ∃ rest e,
    step (.small none) s (.run .go) = some s' ∧ s'.gave 0 rest = some (.error e) ∧
    e.isDeadlineExceeded = true ∧ s'.passed 0 = true := by
  obtain ⟨s, hrun, hp⟩ := exists_run (step (.small none)) _ isolating_of_check (.init none) ranOut
    (fun s => decide (s.running = some (0, .got (.error .cancelledError)) ∧
      (s.tasks 0).stack = [.timeout ⟨⟨"counter", "x"⟩, "get", 0, 0, some 1⟩ 0 true,
        .user .block, .scope 1 none, .user .client]) &&
      (step (.small none) s (.run .go)).any fun s' : State => isolatingCheck s s' &&
        decide (s'.gave 0 [.user .block, .scope 1 none, .user .client] =
          some (.error (.deadlineExceededFrom "counter/x" "get" .timeoutError))))
    (by decide +kernel)
  simp only [Bool.and_eq_true, Option.any_eq_true, decide_eq_true_eq] at hp
  obtain ⟨⟨hr, hs⟩, s', hl, hok, hgave⟩ := hp
  exact ⟨s, s', _, _, hl, hgave, rfl, deadline_own (small_prompt _) hrun hl
    (isolating_of_check s s' hok) hr hs rfl hgave rfl⟩

/-- An impatient caller builds an activation, and another one, with all the time in the
world, waits for it. The first one's time runs out, and `activate` calls another grain. -/
def impatient : List Label :=
  [.arrive, .resume 0, .run (.within 1), .run .go, .run (.call ⟨"counter", "x"⟩ "get" 0 0)] ++
  Label.gos 6 ++ [.run .suspend, .arrive, .resume 1] ++ Label.invoke ⟨"counter", "x"⟩ ++
  [.clock 1, .resume 0, .run (.call ⟨"counter", "y"⟩ "get" 0 0), .run .go,
    .run (.finish (.error (.deadlineExceeded "counter/y" "get")))] ++ Label.gos 3 ++
  [.run .suspend, .resume 1, .run .go]

/-- A caller with no deadline gets the impatient caller's `DeadlineExceeded`. -/
theorem impatient_fails : ∃ s s' : State,
    Run (step (.small none)) (fun _ _ => True) (.init none) s ∧
    (s.tasks 1).stack = [.dispatchHere ⟨⟨"counter", "x"⟩, "get", 0, 0, none⟩ (.activating 1),
      .user .client] ∧
    step (.small none) s (.run .go) = some s' ∧
    s'.gave 1 [.user .client] = some (.error (.deadlineExceeded "counter/y" "get")) ∧
    (s'.tasks 1).context = none ∧ s'.passed 1 = false := by
  obtain ⟨s, hrun, hp⟩ := exists_free_run (.small none) none impatient
    (fun s => decide ((s.tasks 1).stack =
        [.dispatchHere ⟨⟨"counter", "x"⟩, "get", 0, 0, none⟩ (.activating 1), .user .client]) &&
      (step (.small none) s (.run .go)).any fun s' : State =>
      decide (s'.gave 1 [.user .client] = some (.error (.deadlineExceeded "counter/y" "get")) ∧
        (s'.tasks 1).context = none ∧ s'.passed 1 = false)) (by decide +kernel)
  simp only [Bool.and_eq_true, Option.any_eq_true, decide_eq_true_eq] at hp
  obtain ⟨hs, s', hl, hrest⟩ := hp
  exact ⟨s, s', hrun, hs, hl, hrest⟩

end

end Nigrains
