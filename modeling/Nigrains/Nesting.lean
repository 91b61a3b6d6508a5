import Nigrains.Effects

/-!
# Which coroutine awaits which

Some coroutines of the runtime are awaited in one place only : `_activated` by
`_dispatch_here`, `_make_room` by `_activated`, `_deactivate` by its three callers, a hook
by the coroutine that runs it. `below` says what may stand under what on a task's stack,
and no step breaks it (`nested_step`). So when one of these coroutines returns, the frame
that gets its outcome is known.
-/

namespace Nigrains

/-- Coroutines that are never called from outside the runtime. -/
def Frame.inner : Frame → Bool
  | .activated .. => true
  | .makeRoom _ => true
  | .deactivate .. => true
  | .drain _ => true
  | _ => false

/-- What takes a call from its caller to its grain. -/
def Frame.carries : Frame → Bool
  | .chain .. => true
  | .timeout .. => true
  | .dispatch _ => true
  | .dispatchHere .. => true
  | .user (.filter ..) => true
  | .user (.transport ..) => true
  | _ => false

/-- The frame as it was when it started. -/
def Frame.entry : Frame → Frame
  | .dispatchHere call _ => .dispatchHere call .start
  | .activated g _ => .activated g .lookup
  | .makeRoom _ => .makeRoom .start
  | .deactivate who g _ => .deactivate who g .start
  | .collect _ => .collect .start
  | .sweep _ => .sweep .start
  | .tick a _ => .tick a .start
  | .drain _ => .drain .start
  | .aenter _ => .aenter .start
  | .aexit _ => .aexit .start
  | f => f

/-- Whether a frame that is starting may stand on `p`, or at the bottom of a task. -/
def calls : Option Frame → Frame → Bool
  | some (.dispatchHere call (.activating _)), .activated g _ => g = call.grain
  | some (.dispatchHere _ (.running c a _)), .user (.body c' a') => c = c' ∧ a = a'
  | some (.activated _ .room), .makeRoom _ => true
  | some (.activated _ (.reading a)), .user (.read a') => a = a'
  | some (.activated _ (.hook a)), .user (.activate a') => a = a'
  | some (.makeRoom .evicting), .deactivate .makeRoom _ _ => true
  | some (.deactivate _ _ (.hook a)), .user (.deactivate a') => a = a'
  | some (.collect (.taking ..)), .deactivate .collect _ _ => true
  | some (.sweep .collecting), .collect _ => true
  | some (.tick a .working), .user (.work a') => a = a'
  | some (.aenter .starting), .user .membership => true
  | some (.aexit .draining), .drain _ => true
  | some (.aexit (.deactivating _)), .deactivate .aexit _ _ => true
  | some (.aexit .leaving), .user .membership => true
  | some (.user _), f => !f.inner
  | some (.scope ..), f => f.carries || f == .user .block
  | some (.timeout ..), f => f.carries
  | none, f => !f.inner
  | _, _ => false

/-- Whether a frame may stand on `p`, or at the bottom of a task. -/
def below (p : Option Frame) (f : Frame) : Bool :=
  calls p f.entry

/-- Which frame awaits which. -/
inductive Awaits : Frame → Frame → Prop
  | activating {call : Call} {c : CallId} {pc : ActivatedAt} :
    Awaits (.dispatchHere call (.activating c)) (.activated call.grain pc)
  | running {call : Call} {c : CallId} {a : ActId} {lock : Bool} :
    Awaits (.dispatchHere call (.running c a lock)) (.user (.body c a))
  | room {g : GrainId} {pc : MakeRoomAt} : Awaits (.activated g .room) (.makeRoom pc)
  | reading {g : GrainId} {a : ActId} : Awaits (.activated g (.reading a)) (.user (.read a))
  | activate {g : GrainId} {a : ActId} : Awaits (.activated g (.hook a)) (.user (.activate a))
  | evicting {g : GrainId} {pc : DeactivateAt} :
    Awaits (.makeRoom .evicting) (.deactivate .makeRoom g pc)
  | deactivate {who : Remover} {g : GrainId} {a : ActId} :
    Awaits (.deactivate who g (.hook a)) (.user (.deactivate a))
  | taking {cutoff : Time} {gs : List GrainId} {index collected : ℕ} {g : GrainId}
    {pc : DeactivateAt} :
    Awaits (.collect (.taking cutoff gs index collected)) (.deactivate .collect g pc)
  | collecting {pc : CollectAt} : Awaits (.sweep .collecting) (.collect pc)
  | working {a : ActId} : Awaits (.tick a .working) (.user (.work a))
  | starting : Awaits (.aenter .starting) (.user .membership)
  | draining {pc : DrainAt} : Awaits (.aexit .draining) (.drain pc)
  | deactivating {gs : List GrainId} {g : GrainId} {pc : DeactivateAt} :
    Awaits (.aexit (.deactivating gs)) (.deactivate .aexit g pc)
  | leaving : Awaits (.aexit .leaving) (.user .membership)
  | outside {role : Role} {f : Frame} (hf : f.inner = false) : Awaits (.user role) f
  | scope {asked : Time} {saved : Option Time} {f : Frame}
    (hf : f.carries = true ∨ f = .user .block) : Awaits (.scope asked saved) f
  | timeout {call : Call} {saved : ℕ} {expired : Bool} {f : Frame} (hf : f.carries = true) :
    Awaits (.timeout call saved expired) f

/-- Where the innermost frame of a suspended task may stand. -/
def Frame.parks : Frame → Bool
  | .user _ => true
  | .deliver .. => true
  | .dispatchHere _ (.queued ..) => true
  | .activated _ (.waiting _) => true
  | .deactivate _ _ (.joining ..) => true
  | .collect (.walking ..) => true
  | .sweep .start => true
  | .sweep .sleeping => true
  | .tick _ .start => true
  | .tick _ .sleeping => true
  | .drain (.sleeping _) => true
  | .aexit (.joining ..) => true
  | _ => false

/-- The frames of tasks that a segment may start. -/
def Frame.fresh : Frame → Prop
  | .user .client => True
  | .user .scanner => True
  | .sweep .start => True
  | .tick _ .start => True
  | _ => False

/-- The frames of tasks that a segment of `f` may start : the timers of an activation are
started by the coroutine that has activated it. -/
def Frame.starts (f f' : Frame) : Prop :=
  f'.fresh ∧ ∀ a, f' = .tick a .start ↔ ∃ g, f = .activated g (.hook a)

section

variable {cfg : Config} {s s' : State} {t : TaskId} {n : Next Frame Outcome} {M : Type*}

theorem callFrame_carries (call : Call) (terminal : Terminal) :
    (callFrame cfg call terminal).carries = true := by
  unfold callFrame
  split_ifs
  · cases terminal <;> rfl
  · rfl

theorem terminalFrame_carries (call : Call) (terminal : Terminal) :
    (terminal.frame call).carries = true := by
  cases terminal <;> rfl

theorem Frame.not_inner_of_carries {f : Frame} (h : f.carries = true) : f.inner = false := by
  unfold Frame.carries at h
  split at h <;> first | rfl | cases h

@[simp] theorem inner_entry (f : Frame) : f.entry.inner = f.inner := by
  cases f <;> rfl

@[simp] theorem carries_entry (f : Frame) : f.entry.carries = f.carries := by
  cases f <;> rfl

/-- A frame stands on the one that awaits it. -/
theorem awaits_of_below {p f : Frame} (hb : below (some p) f = true) : Awaits p f := by
  unfold below at hb
  generalize hf : f.entry = e at hb
  unfold calls at hb
  split at hb
  case h_19 => cases hb
  all_goals cases ‹some p = _›
  case h_15 =>
    subst hf
    exact .outside (by simpa using hb)
  case h_16 =>
    subst hf
    refine .scope ?_
    simp only [carries_entry, Bool.or_eq_true, beq_iff_eq] at hb
    refine hb.imp_right fun hblock => ?_
    cases f <;> cases hblock
    rfl
  case h_17 =>
    subst hf
    exact .timeout (by simpa using hb)
  all_goals
    cases f <;> cases hf
    first
      | constructor
      | (simp only [decide_eq_true_eq] at hb
         first
           | (subst hb
              constructor)
           | (obtain ⟨rfl, rfl⟩ := hb
              constructor))

/-- Code outside the runtime, and what wraps a call. -/
def Opens : Option Frame → Prop
  | some (.user _) => True
  | some (.scope ..) => True
  | some (.timeout ..) => True
  | none => True
  | _ => False

/-- Code outside the runtime, and what wraps a call, may await a call. -/
theorem below_of_carries {p : Option Frame} {f : Frame} (hp : Opens p) (hf : f.carries = true) :
    below p f = true := by
  have hi := Frame.not_inner_of_carries hf
  rw [← carries_entry] at hf
  rw [← inner_entry] at hi
  unfold below calls
  unfold Opens at hp
  split at hp <;> simp_all

/-- Code outside the runtime may await anything that may be called from outside. -/
theorem below_user {role : Role} {f : Frame} (hf : f.inner = false) :
    below (some (.user role)) f = true := by
  rw [← inner_entry] at hf
  unfold below calls
  simp [hf]

/-- A frame that hands its place on. -/
def Frame.yields : Frame → Prop
  | .within .. => True
  | .deliver .. => True
  | .chain .. => True
  | .dispatch _ => True
  | _ => False

theorem opens_of_below {p : Option Frame} {f : Frame} (h : below p f = true) (hf : f.yields) :
    Opens p := by
  unfold below calls at h
  unfold Opens
  cases f
  case within | deliver | chain | dispatch =>
    simp only [Frame.entry] at h
    split at h <;> trivial
  all_goals exact hf.elim

/-- Whatever awaits a call may await it further on its way. -/
theorem follows_of_carries {f f' : Frame} (hf : f.yields) (hf' : f'.carries = true) :
    Follows below f f' :=
  fun _ h => below_of_carries (opens_of_below h hf) hf'

/-- Whatever awaits a block with a deadline awaits its end. -/
theorem follows_scope {f : Frame} {asked : Time} {saved : Option Time} (hf : match f with
      | .within .. | .deliver .. => True | _ => False) : Follows below f (.scope asked saved) := by
  intro p h
  unfold below calls at h ⊢
  cases f
  case within | deliver =>
    simp only [Frame.entry] at h ⊢
    split at h <;> first | rfl | contradiction
  all_goals exact hf.elim

/-- A block may await what it is there for. -/
theorem below_inside (asked : Time) (saved : Option Time) (inside : Inside) :
    below (some (.scope asked saved)) inside.frame = true := by
  cases inside <;> rfl

/-- Every segment leaves frames that may stand where its own frame stood. -/
theorem exec_fits {c : Choice} {f : Frame} {r : Resume Outcome}
    (h : exec cfg s t c f r = some (s', n)) : n.Fits below f := by
  cases exec_passage h
  case ends => trivial
  case calls => exact ⟨fun _ h => h, below_of_carries trivial (callFrame_carries _ _)⟩
  case delivers => exact follows_of_carries trivial (callFrame_carries _ _)
  case deliversWithin =>
    exact ⟨follows_scope trivial, below_of_carries trivial (callFrame_carries _ _)⟩
  case blocks => exact ⟨follows_scope trivial, below_inside _ _ _⟩
  case reaches => exact follows_of_carries trivial (terminalFrame_carries _ _)
  case reachesWithin =>
    exact ⟨follows_of_carries trivial rfl, below_of_carries trivial (terminalFrame_carries _ _)⟩
  all_goals
    first
      | exact fun _ h => h
      | exact follows_of_carries trivial rfl
      | exact ⟨fun _ h => h, rfl⟩
      | exact ⟨fun _ h => h, below_user rfl⟩
      | exact ⟨fun _ h => h, by simp only [below, calls, Frame.entry, decide_true, and_self]⟩

/-- Where a segment may leave its task suspended. -/
theorem exec_parks {c : Choice} {f self : Frame} {r : Resume Outcome}
    (h : exec cfg s t c f r = some (s', .park self)) : self.parks = true := by
  cases exec_passage h <;> rfl

/-! ## What a segment does to the tasks -/

/-- Cancelling tasks changes the loop only. -/
theorem cancel_all_eq (τs : List TaskId) (s : State) :
    ∃ L, τs.foldl State.cancel s = { s with toLoop := L } := by
  induction τs generalizing s with
  | nil => exact ⟨s.toLoop, rfl⟩
  | cons τ τs ih => exact ih (s.cancel τ)

/-- Starting timers changes the loop, and the list of timers of their activation. -/
theorem startTimers_eq (a : ActId) (s : State) : ∃ L timers, s.startTimers t a =
    { s.modify a fun x => { x with timers := timers } with toLoop := L } := by
  unfold State.startTimers
  generalize (s.heap a).schedules = schedules
  induction schedules generalizing s with
  | nil => exact ⟨s.toLoop, (s.heap a).timers, by simp [State.modify]⟩
  | cons seconds schedules ih =>
    obtain ⟨L, timers, h⟩ := ih (s.startTimer t a)
    refine ⟨L, timers, h.trans ?_⟩
    simp [State.startTimer, State.modify, State.spawn]

variable (cfg s t) in
/-- Starting the background tasks changes the loop, and which they are. -/
theorem startBackground_eq : ∃ L sweeper scanner, s.startBackground cfg t =
    { s with toLoop := L, sweeper := sweeper, reminderScanner := scanner } := by
  unfold State.startBackground
  split_ifs
  · exact ⟨_, _, _, rfl⟩
  · exact ⟨_, _, s.reminderScanner, rfl⟩

theorem keeps_cancel_all {fresh : Frame → Prop} (τs : List TaskId) (s : State) :
    Loop.Keeps fresh s.toLoop (τs.foldl State.cancel s).toLoop := by
  induction τs generalizing s with
  | nil => exact .refl _
  | cons τ τs ih => exact (Loop.Keeps.cancel τ).trans (ih (s.cancel τ))

theorem keeps_startTimers {fresh : Frame → Prop} {a : ActId} (ha : fresh (.tick a .start))
    (s : State) : Loop.Keeps fresh s.toLoop (s.startTimers t a).toLoop := by
  unfold State.startTimers
  generalize (s.heap a).schedules = schedules
  induction schedules generalizing s with
  | nil => exact .refl _
  | cons seconds schedules ih =>
    exact Loop.Keeps.trans (.spawn ha _) (ih (s.startTimer t a))

theorem keeps_startBackground {pc : AenterAt} (s : State) :
    Loop.Keeps (Frame.aenter pc).starts s.toLoop (s.startBackground cfg t).toLoop := by
  have hs : Loop.Keeps (Frame.aenter pc).starts s.toLoop (s.startSweeper t).toLoop :=
    .spawn ⟨trivial, by simp⟩ _
  unfold State.startBackground
  split_ifs
  · exact hs.trans (.spawn ⟨trivial, by simp⟩ _)
  · exact hs

theorem mustCancel_cancel_all {u : TaskId} (s : State) (hm : (s.tasks u).mustCancel = true)
    (τs : List TaskId) : ((τs.foldl State.cancel s).tasks u).mustCancel = true := by
  induction τs generalizing s with
  | nil => exact hm
  | cons τ τs ih => exact ih (s.cancel τ) (Loop.mustCancel_cancel τ hm)

theorem mustCancel_startTimers {u : TaskId} {a : ActId} (hu : u < s.spawned)
    (hm : (s.tasks u).mustCancel = true) : ((s.startTimers t a).tasks u).mustCancel = true := by
  unfold State.startTimers
  generalize (s.heap a).schedules = schedules
  induction schedules generalizing s with
  | nil => exact hm
  | cons seconds schedules ih =>
    exact ih (s := s.startTimer t a) (Nat.lt_succ_of_lt hu)
      ((Loop.mustCancel_spawn s.toLoop _ _ hu).trans hm)

theorem mustCancel_startBackground {u : TaskId} (hu : u < s.spawned)
    (hm : (s.tasks u).mustCancel = true) :
    ((s.startBackground cfg t).tasks u).mustCancel = true := by
  have hs : ((s.startSweeper t).tasks u).mustCancel = true :=
    (Loop.mustCancel_spawn s.toLoop _ _ hu).trans hm
  unfold State.startBackground
  split_ifs
  · exact (Loop.mustCancel_spawn (s.startSweeper t).toLoop _ _ (Nat.lt_succ_of_lt hu)).trans hs
  · exact hs

/-- A segment touches no stack, and starts only tasks of the runtime's own and the
host's. -/
theorem exec_starts {c : Choice} {f : Frame} {r : Resume Outcome}
    (h : exec cfg s t c f r = some (s', n)) :
    Loop.Keeps f.starts s.toLoop s'.toLoop := by
  cases exec_effect h
  case creates => exact .spawn ⟨trivial, by simp⟩ _
  case within | delivers | restores | expires => exact .setTask rfl rfl
  case activates => exact keeps_startTimers ⟨trivial, by simp⟩ _
  case takes who g a hentry => exact keeps_cancel_all _ (s.take who g a)
  case begins => exact keeps_startBackground _
  case cancels τ rest => exact .cancel τ
  all_goals exact .refl _

theorem exec_keeps {c : Choice} {f : Frame} {r : Resume Outcome}
    (h : exec cfg s t c f r = some (s', n)) :
    Loop.Keeps Frame.fresh s.toLoop s'.toLoop :=
  (exec_starts h).mono fun _ hf => hf.1

/-- A segment withdraws no request to be interrupted. -/
theorem exec_mustCancel {c : Choice} {f : Frame} {r : Resume Outcome}
    (h : exec cfg s t c f r = some (s', n)) {u : TaskId} (hu : u < s.spawned)
    (hm : (s.tasks u).mustCancel = true) : (s'.tasks u).mustCancel = true := by
  cases exec_effect h
  case creates => exact (Loop.mustCancel_spawn s.toLoop _ _ hu).trans hm
  case within | delivers | restores | expires =>
    by_cases hut : u = t
    · subst hut
      simpa [State.setDeadline, State.uncancel, Loop.setTask] using hm
    · simpa [State.setDeadline, State.uncancel, Loop.setTask, Function.update_of_ne hut] using hm
  case activates => exact mustCancel_startTimers hu hm
  case takes who g a hentry => exact mustCancel_cancel_all (s.take who g a) hm _
  case begins => exact mustCancel_startBackground hu hm
  case cancels τ rest => exact Loop.mustCancel_cancel τ hm
  all_goals exact hm

/-- Whether a frame is one that a coroutine may await, as it was when it started. -/
def Frame.called : Frame → Prop
  | .sweep _ => False
  | .tick .. => False
  | .timeout _ _ true => False
  | f => f = f.entry

theorem called_callFrame (call : Call) (terminal : Terminal) :
    (callFrame cfg call terminal).called := by
  unfold callFrame
  split_ifs
  · cases terminal <;> exact rfl
  · exact rfl

theorem called_terminalFrame (call : Call) (terminal : Terminal) :
    (terminal.frame call).called := by
  cases terminal <;> exact rfl

theorem called_inside (inside : Inside) : inside.frame.called := by
  cases inside <;> exact rfl

/-- The frames a segment leaves are its own, further on, and those it has called. -/
theorem exec_left {c : Choice} {f : Frame} {r : Resume Outcome}
    (h : exec cfg s t c f r = some (s', n)) {f' : Frame} (hf : f' ∈ n.frames) :
    f'.entry = f.entry ∨ f'.called := by
  cases exec_passage h
  all_goals
    simp only [Next.frames, List.mem_cons, List.not_mem_nil, or_false] at hf
    try obtain rfl | rfl := hf
    all_goals
      try subst hf
      first
        | exact .inl rfl
        | exact .inr rfl
        | exact .inr (called_callFrame _ _)
        | exact .inr (called_terminalFrame _ _)
        | exact .inr (called_inside _)

/-- A tick goes on as a tick of the same activation, and no other coroutine ticks. -/
theorem exec_ticks {c : Choice} {f : Frame} {r : Resume Outcome}
    (h : exec cfg s t c f r = some (s', n)) {a : ActId} {pc : TickAt}
    (hf : .tick a pc ∈ n.frames) : ∃ pc', f = .tick a pc' := by
  rcases exec_left h hf with he | hc
  · cases f <;> simp [Frame.entry] at he
    exact ⟨_, by rw [he]⟩
  · cases hc

/-! ## The kinds of step -/

/-- The frames of tasks that the host starts. -/
def Frame.hosted : Frame → Prop
  | .user .client => True
  | .deliver .. => True
  | _ => False

/-- What the world does beside resuming tasks and letting timeouts expire : it changes
nothing of the runtime, and starts tasks only while none runs. -/
structure World (s s' : State) : Prop where
  activations : s'.activations = s.activations
  heap : s'.heap = s.heap
  built : s'.built = s.built
  trace : s'.trace = s.trace
  now_le : s.now ≤ s'.now
  context : ∀ u < s.spawned, (s'.tasks u).context = (s.tasks u).context
  keeps : Loop.Keeps Frame.hosted s.toLoop s'.toLoop
  spawned : s.running ≠ none → s'.spawned = s.spawned

/-- What runs is a segment of the innermost frame of the task that is running. -/
theorem run_cases {c : Choice} (h : step cfg s (.run c) = some s') :
    ∃ t r f rest s1 n, s.running = some (t, r) ∧ (s.tasks t).stack = f :: rest ∧
      exec cfg s t c f r = some (s1, n) ∧ s' = { s1 with toLoop := s1.toLoop.land t rest n } := by
  simp only [step, run] at h
  split at h
  · cases h
  · next t r hr =>
    split at h
    · cases h
    · next f rest hs =>
      split at h
      · cases h
      · next s1 n he => exact ⟨t, r, f, rest, s1, n, hr, hs, he, (Option.some.inj h).symm⟩

/-- A step that runs nothing resumes a task, expires a timeout, or is the world's. -/
theorem step_other {l : Label} (hl : ∀ c, l ≠ .run c) (h : step cfg s l = some s') :
    (∃ t r f rest, s.running = none ∧ t < s.spawned ∧ (s.tasks t).stack = f :: rest ∧
      resumption s t f = some r ∧ s' = s.runTask t r) ∨
    (∃ t i call saved, s.running = none ∧
      (s.tasks t).stack[i]? = some (.timeout call saved false) ∧
      (call.deadline.any fun deadline => decide (deadline ≤ s.now)) = true ∧
      s' = s.expireTask t i call saved) ∨
    World s s' := by
  cases l with
  | run c => exact (hl c rfl).elim
  | resume t =>
    simp only [step, resume] at h
    split_ifs at h with hr
    split at h
    · cases h
    · next f rest hs =>
      obtain ⟨r, he, rfl⟩ := Option.map_eq_some_iff.1 h
      exact .inl ⟨t, r, f, rest, hr.1, hr.2, hs, he, rfl⟩
  | expire t i =>
    simp only [step, expire] at h
    split at h
    · next call saved hr hs =>
      split_ifs at h with hdue
      exact .inr (.inl ⟨t, i, call, saved, hr, hs, hdue, (Option.some.inj h).symm⟩)
    · cases h
  | clock seconds =>
    simp only [step] at h
    split_ifs at h with h0
    cases h
    exact .inr (.inr ⟨rfl, rfl, rfl, rfl, by simpa using h0, fun _ _ => rfl, .refl _,
      fun _ => rfl⟩)
  | arrive =>
    simp only [step] at h
    split_ifs at h with hr
    cases h
    exact .inr (.inr ⟨rfl, rfl, rfl, rfl, le_rfl, fun _ => Loop.context_spawn s.toLoop _ _,
      .spawn trivial _, fun hn => (hn hr).elim⟩)
  | deliver g method args kwargs timeout =>
    simp only [step] at h
    split_ifs at h with hr
    cases h
    exact .inr (.inr ⟨rfl, rfl, rfl, rfl, le_rfl, fun _ => Loop.context_spawn s.toLoop _ _,
      .spawn trivial _, fun hn => (hn hr).elim⟩)
  | cancel t =>
    simp only [step] at h
    split_ifs at h
    cases h
    exact .inr (.inr ⟨rfl, rfl, rfl, rfl, le_rfl,
      fun u _ => Loop.context_cancel s.toLoop t u, .cancel t,
      fun _ => Loop.spawned_cancel s.toLoop t⟩)
  | membership isMine =>
    simp only [step] at h
    split_ifs at h
    cases h
    exact .inr (.inr ⟨rfl, rfl, rfl, rfl, le_rfl, fun _ _ => rfl, .refl _, fun _ => rfl⟩)

/-- A step runs a segment, resumes a task, expires a timeout, or is the world's. -/
theorem step_cases {l : Label} (h : step cfg s l = some s') :
    (∃ t r f rest c s1 n, s.running = some (t, r) ∧ (s.tasks t).stack = f :: rest ∧
      exec cfg s t c f r = some (s1, n) ∧ s' = { s1 with toLoop := s1.toLoop.land t rest n }) ∨
    (∃ t r f rest, s.running = none ∧ t < s.spawned ∧ (s.tasks t).stack = f :: rest ∧
      resumption s t f = some r ∧ s' = s.runTask t r) ∨
    (∃ t i call saved, s.running = none ∧
      (s.tasks t).stack[i]? = some (.timeout call saved false) ∧
      (call.deadline.any fun deadline => decide (deadline ≤ s.now)) = true ∧
      s' = s.expireTask t i call saved) ∨
    World s s' := by
  by_cases hl : ∃ c, l = .run c
  · obtain ⟨c, rfl⟩ := hl
    obtain ⟨t, r, f, rest, s1, n, hstep⟩ := run_cases h
    exact .inl ⟨t, r, f, rest, c, s1, n, hstep⟩
  · exact .inr (step_other (not_exists.1 hl) h)

/-! ## Every reachable stack is well nested -/

/-- The stacks are nested as the source nests its awaits, what runs is there, and what
does not run is suspended where the source suspends. -/
structure Nested (s : State) : Prop where
  stacked : ∀ u, Stacked below (s.tasks u).stack
  unspawned : ∀ u, s.spawned ≤ u → (s.tasks u).stack = []
  running : ∀ t r, s.running = some (t, r) → t < s.spawned ∧ (s.tasks t).stack ≠ []
  parked : ∀ u f rest, (∀ r, s.running ≠ some (u, r)) → (s.tasks u).stack = f :: rest →
    f.parks = true

theorem nested_init (isMine : Option (GrainId → Bool)) : Nested (.init isMine) where
  stacked _ := trivial
  unspawned _ _ := rfl
  running _ _ h := by cases h
  parked _ _ _ _ h := by cases h

/-- Only a task that has been started has frames. -/
theorem Nested.lt_of_mem (hn : Nested s) {u : TaskId} {f : Frame} (hf : f ∈ (s.tasks u).stack) :
    u < s.spawned := by
  by_contra hge
  rw [hn.unspawned u (not_lt.1 hge)] at hf
  cases hf

theorem Nested.lt_spawned (hn : Nested s) {u : TaskId} {f : Frame} {rest : List Frame}
    (hs : (s.tasks u).stack = f :: rest) : u < s.spawned :=
  hn.lt_of_mem (hs ▸ List.mem_cons_self)

theorem parks_of_new {f : Frame} (h : f.fresh ∨ f.hosted) : f.parks = true := by
  rcases h with h | h
  · unfold Frame.fresh at h
    split at h <;> first | rfl | cases h
  · unfold Frame.hosted at h
    split at h <;> first | rfl | cases h

/-- A frame of a new task may stand at the bottom. -/
theorem stacked_of_new {f : Frame} (h : f.fresh ∨ f.hosted) : Stacked below [f] := by
  refine ⟨?_, trivial⟩
  rcases h with h | h
  · unfold Frame.fresh at h
    split at h <;> first | rfl | cases h
  · unfold Frame.hosted at h
    split at h <;> first | rfl | cases h

theorem Nested.keeps {fresh : Frame → Prop} (h : Nested s)
    (hk : Loop.Keeps fresh s.toLoop s'.toLoop) (hf : ∀ f, fresh f → f.fresh ∨ f.hosted) :
    Nested s' where
  stacked u := by
    rcases hk.stack_cases u with hs | ⟨f, hff, -, -, hs⟩
    · rw [hs]
      exact h.stacked u
    · rw [hs]
      exact stacked_of_new (hf f hff)
  unspawned u hu := (hk.stack_eq u (.inr hu)).trans (h.unspawned u (hk.spawned_le.trans hu))
  running t r hr := by
    rw [hk.running_eq] at hr
    obtain ⟨ht, hs⟩ := h.running t r hr
    exact ⟨ht.trans_le hk.spawned_le, by rwa [hk.stack_eq t (.inl ht)]⟩
  parked u f rest hr hs := by
    rw [hk.running_eq] at hr
    rcases hk.stack_cases u with hs' | ⟨f', hff, -, -, hs'⟩
    · exact h.parked u f rest hr (hs'.symm.trans hs)
    · rw [hs'] at hs
      obtain ⟨rfl, -⟩ := List.cons.inj hs
      exact parks_of_new (hf f' hff)

theorem Nested.land {f : Frame} {rest : List Frame} {r : Resume Outcome} (h : Nested s)
    (hr : s.running = some (t, r)) (hs : (s.tasks t).stack = f :: rest)
    (hn : n.Fits below f) (hp : ∀ self, n = .park self → self.parks = true) :
    Nested { s with toLoop := s.toLoop.land t rest n } where
  stacked := Stacked.land hs h.stacked hn
  unspawned u hu := by
    rw [Loop.spawned_land] at hu
    have hne : u ≠ t := by
      rintro rfl
      exact absurd hu (h.running u r hr).1.not_ge
    rw [Loop.stack_land _ hne]
    exact h.unspawned u hu
  running t' r' hr' := by
    have ht := (h.running t r hr).1
    cases n with
    | park self => simp [Loop.land, Loop.setStack] at hr'
    | done o =>
      cases rest with
      | nil => simp [Loop.land] at hr'
      | cons f' rest =>
        simp only [Loop.land, Loop.setStack, Option.some.injEq, Prod.mk.injEq] at hr'
        obtain ⟨rfl, -⟩ := hr'
        exact ⟨ht, by simp [Loop.land, Loop.setStack, Loop.setTask]⟩
    | _ =>
      simp only [Loop.land, Loop.setStack, Option.some.injEq, Prod.mk.injEq] at hr'
      obtain ⟨rfl, -⟩ := hr'
      exact ⟨ht, by simp [Loop.land, Loop.setStack, Loop.setTask]⟩
  parked u f' rest' hr' hs' := by
    by_cases hu : u = t
    · subst hu
      cases n with
      | park self =>
        have : self = f' := by
          simpa [Loop.land, Loop.setStack, Loop.setTask] using congrArg List.head? hs'
        exact this ▸ hp self rfl
      | done o =>
        cases rest with
        | nil => simp [Loop.land, Loop.setTask] at hs'
        | cons f'' rest => exact (hr' _ rfl).elim
      | _ => exact (hr' _ rfl).elim
    · rw [Loop.stack_land _ hu] at hs'
      refine h.parked u f' rest' (fun r' hr'' => hu ?_) hs'
      rw [hr] at hr''
      exact (Prod.mk.inj (Option.some.inj hr'')).1.symm

@[simp] theorem stack_runTask (r : Resume Outcome) (u : TaskId) :
    ((s.runTask t r).tasks u).stack = (s.tasks u).stack := by
  by_cases h : u = t
  · subst h
    simp [State.runTask, Loop.setTask]
  · simp [State.runTask, Loop.setTask, Function.update_of_ne h]

theorem stack_expireTask (i : ℕ) (call : Call) (saved : ℕ) (u : TaskId) :
    ((s.expireTask t i call saved).tasks u).stack =
      if u = t then (s.tasks t).stack.set i (.timeout call saved true)
      else (s.tasks u).stack := by
  simp only [State.expireTask, Loop.stack_cancel]
  split_ifs with h
  · subst h
    simp [Loop.setTask]
  · simp [Loop.setTask, Function.update_of_ne h]

/-- What awaits a timeout does not ask whether it has expired. -/
theorem below_timeout (call : Call) (saved : ℕ) (p : Option Frame) :
    below p (.timeout call saved false) = below p (.timeout call saved true) := by
  unfold below calls
  rcases p with _ | p
  · rfl
  · cases p with
    | dispatchHere _ pc | activated _ pc | makeRoom pc | deactivate _ _ pc | collect pc | sweep pc
    | tick _ pc | drain pc | aenter pc | aexit pc => cases pc <;> rfl
    | _ => rfl

theorem nested_step {l : Label} (hn : Nested s) (h : step cfg s l = some s') : Nested s' := by
  rcases step_cases h with ⟨t, r, f, rest, c, s1, n, hr, hs, he, rfl⟩ |
    ⟨t, r, f, rest, hr, ht, hs, -, rfl⟩ | ⟨t, i, call, saved, hr, hs, hdue, rfl⟩ | hw
  · have hk := exec_keeps he
    refine (hn.keeps hk fun _ => .inl).land (hk.running_eq.trans hr) ?_ (exec_fits he)
      fun self hself => exec_parks (hself ▸ he)
    rw [hk.stack_eq t (.inl (hn.running t r hr).1), hs]
  · refine ⟨fun u => ?_, fun u hu => ?_, fun t' r' h' => ?_, fun u f' rest' hr' hs' => ?_⟩
    · rw [stack_runTask]
      exact hn.stacked u
    · rw [stack_runTask]
      exact hn.unspawned u hu
    · obtain ⟨rfl, -⟩ := Prod.mk.inj (Option.some.inj h')
      rw [stack_runTask, hs]
      exact ⟨ht, List.cons_ne_nil _ _⟩
    · rw [stack_runTask] at hs'
      exact hn.parked u f' rest' (fun r' h' => by rw [hr] at h'; cases h') hs'
  · refine ⟨fun u => ?_, fun u hu => ?_, fun t' r' h' => ?_, fun u f' rest' hr' hs' => ?_⟩
    · rw [stack_expireTask]
      split_ifs
      · exact Stacked.set (below_timeout call saved) (fun _ => rfl) hs (hn.stacked t)
      · exact hn.stacked u
    · have hu' : s.spawned ≤ u := by simpa [State.expireTask, Loop.setTask] using hu
      rw [stack_expireTask]
      split_ifs with hut
      · subst hut
        simp [hn.unspawned u hu'] at hs
      · exact hn.unspawned u hu'
    · have h'' : s.running = some (t', r') := by
        simpa [State.expireTask, Loop.setTask] using h'
      simp [hr] at h''
    · rw [stack_expireTask] at hs'
      have hnone : ∀ u r', s.running ≠ some (u, r') := fun u r' h' => by rw [hr] at h'; cases h'
      split_ifs at hs' with hut
      · cases hs0 : (s.tasks t).stack with
        | nil => simp [hs0] at hs
        | cons f0 rest0 =>
          have hp := hn.parked t f0 rest0 (hnone t) hs0
          cases i with
          | zero =>
            obtain rfl : f0 = .timeout call saved false := by simpa [hs0] using hs
            cases hp
          | succ i =>
            rw [hs0] at hs'
            exact (List.cons.inj hs').1 ▸ hp
      · exact hn.parked u f' rest' (hnone u) hs'
  · exact hn.keeps hw.keeps fun _ => .inr

/-- What a frame is given after a step : what the frame above it has ended with, a cancellation
that the loop delivers, or what it was given before. -/
theorem given_cases {l : Label} (hn : Nested s) (h : step cfg s l = some s') {t : TaskId}
    {o : Outcome} {p : Frame} {rest : List Frame} (hr' : s'.running = some (t, .got o))
    (hs' : (s'.tasks t).stack = p :: rest) :
    (∃ r f c s1, s.running = some (t, r) ∧ (s.tasks t).stack = f :: p :: rest ∧
      below (some p) f = true ∧ exec cfg s t c f r = some (s1, .done o) ∧
      s' = { s1 with toLoop := s1.toLoop.land t (p :: rest) (.done o) }) ∨
    ((s.tasks t).mustCancel = true ∧ o = .error .cancelledError) ∨
    (World s s' ∧ t < s.spawned ∧ s.running = some (t, .got o) ∧
      (s.tasks t).stack = p :: rest) := by
  rcases step_cases h with ⟨t', r, f, rest', c, s1, n, hr, hs, he, rfl⟩ |
    ⟨t', r, f, rest', hr, ht, hs, hf, rfl⟩ | ⟨t', i, call, saved, hr, hs, hdue, rfl⟩ | hw
  · cases n with
    | done o' =>
      cases rest' with
      | nil => cases hr'
      | cons q rest' =>
        cases hr'
        rw [Loop.stack_land_self] at hs'
        obtain ⟨rfl, rfl⟩ := List.cons.inj hs'
        have hb := hn.stacked t
        rw [hs] at hb
        exact .inl ⟨r, f, c, s1, hr, hs, hb.1, he, rfl⟩
    | await self callee | goto frame | park self => cases hr'
  · cases hr'
    unfold resumption at hf
    split_ifs at hf with hm
    · cases hf
      exact .inr (.inl ⟨hm, rfl⟩)
    · cases hf
  · simp [State.expireTask, Loop.setTask, hr] at hr'
  · rw [hw.keeps.running_eq] at hr'
    have hlt := (hn.running t _ hr').1
    rw [hw.keeps.stack_eq t (.inl hlt)] at hs'
    exact .inr (.inr ⟨hw, hlt, hr', hs'⟩)

/-- A property of the frames of each task. A step leaves a frame as it is, changes it into
those a segment leaves, or starts it : `Φ` holds before the step and `Ψ` after it. -/
theorem frames_step {l : Label} {Φ Ψ : TaskId → Frame → Prop} (h : step cfg s l = some s')
    (hold : ∀ u f, f ∈ (s.tasks u).stack → Φ u f) (hkeep : ∀ u f, Φ u f → Ψ u f)
    (hrun : ∀ t r f rest c s1 n, s.running = some (t, r) → (s.tasks t).stack = f :: rest →
      exec cfg s t c f r = some (s1, n) → s' = { s1 with toLoop := s1.toLoop.land t rest n } →
      (∀ f' ∈ n.frames, Ψ t f') ∧
      ∀ u f', s.spawned ≤ u → u < s1.spawned → f.starts f' → Ψ u f')
    (hhost : ∀ u f, f.hosted → Ψ u f)
    (hexpire : ∀ u call saved,
      (call.deadline.any fun deadline => decide (deadline ≤ s.now)) = true →
      Φ u (.timeout call saved false) → Ψ u (.timeout call saved true)) :
    ∀ u f, f ∈ (s'.tasks u).stack → Ψ u f := by
  intro u f0 hmem
  rcases step_cases h with ⟨t, r, f, rest, c, s1, n, hr, hs, he, rfl⟩ |
    ⟨t, r, f, rest, hr, ht, hs, hf, rfl⟩ | ⟨t, i, call, saved, hr, hs, hdue, rfl⟩ | hw
  · have hk := exec_starts he
    obtain ⟨hframes, hstarts⟩ := hrun t r f rest c s1 n hr hs he rfl
    by_cases hu : u = t
    · subst hu
      rw [Loop.stack_land_self, List.mem_append] at hmem
      rcases hmem with hn | hrest
      · exact hframes f0 hn
      · exact hkeep u _ (hold u f0 (by rw [hs]; exact List.mem_cons_of_mem _ hrest))
    · rw [Loop.stack_land _ hu] at hmem
      rcases hk.stack_cases u with hs' | ⟨f', hf', hle, hlt, hs'⟩
      · rw [hs'] at hmem
        exact hkeep u _ (hold u f0 hmem)
      · rw [hs', List.mem_singleton] at hmem
        exact hmem ▸ hstarts u f' hle hlt hf'
  · rw [stack_runTask] at hmem
    exact hkeep u _ (hold u f0 hmem)
  · rw [stack_expireTask] at hmem
    split_ifs at hmem with hu
    · subst hu
      rcases List.mem_or_eq_of_mem_set hmem with hm | rfl
      · exact hkeep u _ (hold u f0 hm)
      · exact hexpire u _ _ hdue (hold u _ (List.mem_of_getElem? hs))
    · exact hkeep u _ (hold u f0 hmem)
  · rcases hw.keeps.stack_cases u with hs' | ⟨f', hf', -, -, hs'⟩
    · rw [hs'] at hmem
      exact hkeep u _ (hold u f0 hmem)
    · rw [hs', List.mem_singleton] at hmem
      exact hmem ▸ hhost u f' hf'

/-- What the host and the loop do writes to the loop, the clock and the membership only. -/
theorem step_outside {l : Label} (hl : ∀ c, l ≠ .run c) (h : step cfg s l = some s') :
    ∃ L now isMine, s' = { s with toLoop := L, now := now, isMine := isMine } := by
  cases l with
  | run c => exact (hl c rfl).elim
  | resume t =>
    simp only [step, resume] at h
    split_ifs at h
    split at h
    · cases h
    · obtain ⟨r, -, rfl⟩ := Option.map_eq_some_iff.1 h
      exact ⟨_, _, _, rfl⟩
  | expire t i =>
    simp only [step, expire] at h
    split at h
    · split_ifs at h
      cases h
      exact ⟨_, _, _, rfl⟩
    · cases h
  | clock | arrive | deliver | cancel | membership =>
    simp only [step] at h
    split_ifs at h
    cases h
    exact ⟨_, _, _, rfl⟩

/-- What the host and the loop do serves no call. -/
theorem step_served {l : Label} (hl : ∀ c, l ≠ .run c) (h : step cfg s l = some s') :
    s'.served = s.served := by
  obtain ⟨L, now, isMine, rfl⟩ := step_outside hl h
  rfl

/-- What runs nothing changes nothing of the runtime. -/
theorem step_idle {l : Label} (hl : ∀ c, l ≠ .run c) (h : step cfg s l = some s') :
    s'.activations = s.activations ∧ s'.heap = s.heap ∧ s'.built = s.built ∧
      s'.trace = s.trace := by
  rcases step_other hl h with ⟨t, r, f, rest, hr, ht, hs, hf, rfl⟩ |
    ⟨t, i, call, saved, hr, hs, hdue, rfl⟩ | hw
  · exact ⟨rfl, rfl, rfl, rfl⟩
  · exact ⟨rfl, rfl, rfl, rfl⟩
  · exact ⟨hw.activations, hw.heap, hw.built, hw.trace⟩

/-- A request to be interrupted is kept until the task is resumed with it. -/
theorem step_mustCancel {l : Label} (h : step cfg s l = some s') {u : TaskId}
    (hu : u < s.spawned) (hm : (s.tasks u).mustCancel = true) :
    (s'.tasks u).mustCancel = true ∨
      s.running = none ∧ s'.running = some (u, .got (.error .cancelledError)) := by
  cases l with
  | run c =>
    obtain ⟨t, r, f, rest, s1, n, hr, hs, he, rfl⟩ := run_cases h
    exact .inl ((Loop.mustCancel_land s1.toLoop t u rest n).trans (exec_mustCancel he hu hm))
  | resume t =>
    simp only [step, resume] at h
    split_ifs at h with hr
    split at h
    · cases h
    · next f rest hs =>
      obtain ⟨r, he, rfl⟩ := Option.map_eq_some_iff.1 h
      by_cases hut : u = t
      · subst hut
        unfold resumption at he
        rw [if_pos hm] at he
        split_ifs at he
        cases he
        exact .inr ⟨hr.1, rfl⟩
      · left
        simpa [State.runTask, Loop.setTask, Function.update_of_ne hut] using hm
  | expire t i =>
    simp only [step, expire] at h
    split at h
    · split_ifs at h
      cases h
      refine .inl (Loop.mustCancel_cancel _ ?_)
      by_cases hut : u = t
      · subst hut
        simpa [Loop.setTask] using hm
      · simpa [Loop.setTask, Function.update_of_ne hut] using hm
    · cases h
  | cancel t =>
    simp only [step] at h
    split_ifs at h
    cases h
    exact .inl (Loop.mustCancel_cancel t hm)
  | arrive | deliver =>
    simp only [step] at h
    split_ifs at h
    cases h
    exact .inl ((Loop.mustCancel_spawn s.toLoop _ _ hu).trans hm)
  | clock | membership =>
    simp only [step] at h
    split_ifs at h
    cases h
    exact .inl hm

/-- A segment trades the weight of its frame for that of the frames it leaves, beside the weight
`R` of everything else. -/
theorem exec_work [AddCancelCommMonoid M] {w : Frame → M} {c : Choice} {f : Frame}
    {r : Resume Outcome} {rest : List Frame} {s1 : State} (hn : Nested s)
    (hr : s.running = some (t, r)) (hs : (s.tasks t).stack = f :: rest)
    (he : exec cfg s t c f r = some (s1, n)) (hfresh : ∀ f, f.fresh → w f = 0) :
    ∃ R, s.toLoop.work w = w f + R ∧ (s1.toLoop.land t rest n).work w = n.work w + R := by
  have hk := exec_keeps he
  have ht := (hn.running t r hr).1
  have hs1 : (s1.tasks t).stack = f :: rest := by
    rw [hk.stack_eq t (.inl ht), hs]
  obtain ⟨R, hR, hland⟩ := Loop.exists_work (w := w) (ht.trans_le hk.spawned_le) hs1
  exact ⟨R, (hk.work_eq hfresh).symm.trans hR, hland n⟩

/-- The same, for a step. -/
theorem run_work [AddCancelCommMonoid M] {w : Frame → M} {c : Choice} (hn : Nested s)
    (h : step cfg s (.run c) = some s') (hfresh : ∀ f, f.fresh → w f = 0) :
    ∃ t r f rest s1 n R, s.running = some (t, r) ∧ (s.tasks t).stack = f :: rest ∧
      exec cfg s t c f r = some (s1, n) ∧ s' = { s1 with toLoop := s1.toLoop.land t rest n } ∧
      s.toLoop.work w = w f + R ∧ s'.toLoop.work w = n.work w + R := by
  obtain ⟨t, r, f, rest, s1, n, hr, hs, he, rfl⟩ := run_cases h
  obtain ⟨R, hR, hland⟩ := exec_work hn hr hs he hfresh
  exact ⟨t, r, f, rest, s1, n, R, hr, hs, he, rfl, hR, hland⟩

/-- What runs nothing changes no weight, as long as new tasks weigh nothing and a timeout weighs
the same when it has expired. -/
theorem work_other [AddCancelCommMonoid M] {w : Frame → M} {l : Label} (hn : Nested s)
    (hl : ∀ c, l ≠ .run c) (h : step cfg s l = some s') (hhosted : ∀ f, f.hosted → w f = 0)
    (hexpire : ∀ call saved, w (.timeout call saved false) = w (.timeout call saved true)) :
    s'.toLoop.work w = s.toLoop.work w := by
  rcases step_other hl h with ⟨t, r, f, rest, hr, ht, hs, hf, rfl⟩ |
    ⟨t, i, call, saved, hr, hs, hdue, rfl⟩ | hw
  · exact Finset.sum_congr rfl fun u _ => by rw [stack_runTask]
  · have ht := hn.lt_of_mem (List.mem_of_getElem? hs)
    refine .trans ?_ (Loop.work_set (w := w) (.timeout call saved true) ht hs (hexpire call saved)
      { s.tasks t with stack := (s.tasks t).stack.set i (.timeout call saved true) } rfl)
    refine Finset.sum_congr (by simp [State.expireTask]) fun u _ => ?_
    simp only [State.expireTask, Loop.stack_cancel]
  · exact hw.keeps.work_eq hhosted

/-- What runs after a segment is the task that ran it. -/
theorem running_land {L : Loop Frame Outcome (Option Time)} {rest : List Frame} {u : TaskId}
    {r : Resume Outcome} (h : (L.land t rest n).running = some (u, r)) : u = t := by
  cases n with
  | park self => cases h
  | done o =>
    cases rest with
    | nil => cases h
    | cons p rest =>
      cases h
      rfl
  | await self callee | goto frame =>
    cases h
    rfl

/-- A task that has ended stays so. -/
theorem ended_step {l : Label} (h : step cfg s l = some s') {u : TaskId}
    (hu : u < s.spawned) (he : s.ended u = true) : s'.ended u = true := by
  have hnil : (s.tasks u).stack = [] := List.isEmpty_iff.1 he
  refine List.isEmpty_iff.2 ?_
  rcases step_cases h with ⟨t, r, f, rest, c, s1, n, hr, hs, hx, rfl⟩ |
    ⟨t, r, f, rest, hr, ht, hs, hf, rfl⟩ | ⟨t, i, call, saved, hr, hs, hdue, rfl⟩ | hw
  · have hne : u ≠ t := by
      rintro rfl
      rw [hs] at hnil
      cases hnil
    rw [Loop.stack_land _ hne, (exec_starts hx).stack_eq u (.inl hu), hnil]
  · rw [stack_runTask, hnil]
  · rw [stack_expireTask]
    split_ifs with hut
    · subst hut
      rw [hnil] at hs
      cases hs
    · exact hnil
  · rw [hw.keeps.stack_eq u (.inl hu), hnil]

end

end Nigrains
