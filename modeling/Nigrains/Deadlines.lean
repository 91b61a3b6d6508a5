import Nigrains.Outcome

/-!
# The deadline of a task

A deadline is a context variable of a task. `with deadline` and `deliver` narrow it and put
it back; everything else on the stack works under the deadline that was set when it was
called, and a call carries no earlier one (`Dated`). A timeout that has expired has done so
because the deadline of its call had passed (`Expired`), and clocks do not run back. A frame
that nothing returns to is only ever interrupted (`Interrupted`).
-/

namespace Nigrains

/-- A deadline has passed. -/
def overdue (deadline : Option Time) (now : Time) : Bool :=
  deadline.any fun deadline => decide (deadline ≤ now)

theorem overdue_mono {deadline : Option Time} {now now' : Time} (h : now ≤ now')
    (hd : overdue deadline now = true) : overdue deadline now' = true := by
  cases deadline with
  | none => cases hd
  | some d => exact decide_eq_true ((of_decide_eq_true hd).trans h)

/-- The deadline of a task has passed. -/
def State.passed (s : State) (t : TaskId) : Bool :=
  overdue (s.tasks t).context s.now

/-- `c` comes no later than `c'` : no deadline is later than any. -/
def NoLater (c c' : Option Time) : Prop :=
  ∀ d', c' = some d' → ∃ d, c = some d ∧ d ≤ d'

instance {c c' : Option Time} : Decidable (NoLater c c') :=
  match c, c' with
  | _, none => isTrue (by simp [NoLater])
  | none, some _ => isFalse fun h => by simpa using h _ rfl
  | some d, some d' => decidable_of_iff (d ≤ d') (by simp [NoLater])

theorem NoLater.refl (c : Option Time) : NoLater c c :=
  fun d hd => ⟨d, hd, le_rfl⟩

theorem NoLater.trans {c c' c'' : Option Time} (h : NoLater c c') (h' : NoLater c' c'') :
    NoLater c c'' := by
  intro d'' hd''
  obtain ⟨d', hd', hle'⟩ := h' d'' hd''
  obtain ⟨d, hd, hle⟩ := h d' hd'
  exact ⟨d, hd, hle.trans hle'⟩

theorem noLater_narrowed (c : Option Time) (asked : Time) : NoLater (narrowed c asked) c := by
  rintro d rfl
  exact ⟨min asked d, rfl, min_le_right _ _⟩

/-- What comes no later has passed if the other one has. -/
theorem NoLater.overdue {c c' : Option Time} {now : Time} (h : NoLater c c')
    (hc : overdue c' now = true) : overdue c now = true := by
  cases hc' : c' with
  | none =>
    rw [hc'] at hc
    cases hc
  | some d' =>
    obtain ⟨d, rfl, hle⟩ := h d' hc'
    rw [hc'] at hc
    exact decide_eq_true (hle.trans (of_decide_eq_true hc))

/-- The context of a frame has a deadline no later than the one that the frame carries. -/
def Frame.dated (c : Option Time) : Frame → Prop
  | .chain _ call _ => NoLater c call.deadline
  | .timeout call _ _ => NoLater c call.deadline ∧ call.deadline.isSome = true
  | .user (.filter _ call _) => NoLater c call.deadline
  | .within _ (.next _ call _) => NoLater c call.deadline
  | _ => True

/-- The deadline of the frames below a frame. -/
def Frame.outer (c : Option Time) : Frame → Option Time
  | .scope _ saved => saved
  | _ => c

/-- No frame carries an earlier deadline than its context has, `c` being that of the innermost. -/
def Dated : Option Time → List Frame → Prop
  | _, [] => True
  | c, f :: rest => f.dated c ∧ Dated (f.outer c) rest

section

variable {cfg : Config} {s s' : State} {t : TaskId} {n : Next Frame Outcome}

/-! ## What a segment does to clock and contexts -/

/-- Frames that set the deadline, or put it back. -/
def Frame.binds : Frame → Bool
  | .within .. => true
  | .deliver .. => true
  | .scope .. => true
  | _ => false

theorem context_cancel_all (τs : List TaskId) (s : State) (u : TaskId) :
    ((τs.foldl State.cancel s).tasks u).context = (s.tasks u).context := by
  induction τs generalizing s with
  | nil => rfl
  | cons τ τs ih => exact (ih (s.cancel τ)).trans (Loop.context_cancel s.toLoop τ u)

theorem context_startTimers (a : ActId) (s : State) {u : TaskId} (hu : u < s.spawned) :
    ((s.startTimers t a).tasks u).context = (s.tasks u).context := by
  unfold State.startTimers
  generalize (s.heap a).schedules = schedules
  induction schedules generalizing s with
  | nil => rfl
  | cons seconds schedules ih =>
    exact (ih (s.startTimer t a) (Nat.lt_succ_of_lt hu)).trans
      (Loop.context_spawn s.toLoop _ _ hu)

theorem context_startBackground {u : TaskId} (hu : u < s.spawned) :
    ((s.startBackground cfg t).tasks u).context = (s.tasks u).context := by
  have hs : ((s.startSweeper t).tasks u).context = (s.tasks u).context :=
    Loop.context_spawn s.toLoop _ _ hu
  unfold State.startBackground
  split_ifs
  · exact (Loop.context_spawn (s.startSweeper t).toLoop _ _ (Nat.lt_succ_of_lt hu)).trans hs
  · exact hs

theorem context_uncancel (u : TaskId) :
    ((s.uncancel t).tasks u).context = (s.tasks u).context := by
  by_cases h : u = t
  · subst h
    simp [State.uncancel, Loop.setTask]
  · simp [State.uncancel, Loop.setTask, Function.update_of_ne h]

theorem context_runTask (r : Resume Outcome) (u : TaskId) :
    ((s.runTask t r).tasks u).context = (s.tasks u).context := by
  by_cases hu : u = t
  · subst hu
    simp [State.runTask, Loop.setTask]
  · simp [State.runTask, Loop.setTask, Function.update_of_ne hu]

theorem context_expireTask (i : ℕ) (call : Call) (saved : ℕ) (u : TaskId) :
    ((s.expireTask t i call saved).tasks u).context = (s.tasks u).context := by
  refine (Loop.context_cancel _ t u).trans ?_
  by_cases hu : u = t
  · subst hu
    simp [Loop.setTask]
  · simp [Loop.setTask, Function.update_of_ne hu]

/-- A segment of a frame that sets the deadline, or puts it back. -/
inductive Binding (cfg : Config) (s : State) (t : TaskId) :
    Frame → State → Next Frame Outcome → Prop
  /-- It is interrupted before it starts. -/
  | refused (f : Frame) (o : Outcome) (houter : ∀ c, f.outer c = c) :
      Binding cfg s t f s (.done o)
  | blocks (seconds : Time) (inside : Inside) :
      Binding cfg s t (.within seconds inside)
        (s.setDeadline t (narrowed (s.tasks t).context (s.now + seconds)))
        (.await (.scope (s.now + seconds) (s.tasks t).context) inside.frame)
  | restores (asked : Time) (saved : Option Time) (o : Outcome) :
      Binding cfg s t (.scope asked saved) (s.setDeadline t saved) (.done o)
  | delivers (call : Call) :
      Binding cfg s t (.deliver call none) s
        (.goto (callFrame cfg { call with deadline := (s.tasks t).context } .dispatchHere))
  | deliversWithin (call : Call) (seconds : Time) :
      Binding cfg s t (.deliver call (some seconds))
        (s.setDeadline t (narrowed (s.tasks t).context (s.now + seconds)))
        (.await (.scope (s.now + seconds) (s.tasks t).context) (callFrame cfg
          { call with deadline := narrowed (s.tasks t).context (s.now + seconds) } .dispatchHere))

theorem exec_binding {c : Choice} {f : Frame} {r : Resume Outcome} (hf : f.binds = true)
    (h : exec cfg s t c f r = some (s', n)) : Binding cfg s t f s' n := by
  cases f <;> simp [Frame.binds] at hf
  case within seconds inside =>
    simp only [exec] at h
    unfold within interrupted at h
    repeat' split at h
    · cases h
      exact .blocks seconds inside
    · cases h
      exact .refused _ _ fun _ => rfl
    · cases h
  case scope asked saved =>
    simp only [exec] at h
    unfold scope at h
    split at h <;> cases h
    exact .restores asked saved _
  case deliver call left =>
    simp only [exec] at h
    unfold deliver interrupted at h
    repeat' split at h
    · cases h
      exact .delivers call
    · cases h
      exact .deliversWithin call _
    · cases h
      exact .refused _ _ fun _ => rfl
    · cases h

/-- A segment leaves the contexts of the other tasks alone, and mostly its own. -/
theorem exec_context {c : Choice} {f : Frame} {r : Resume Outcome}
    (h : exec cfg s t c f r = some (s', n)) {u : TaskId} (hu : u < s.spawned)
    (hf : u ≠ t ∨ f.binds = false) : (s'.tasks u).context = (s.tasks u).context := by
  cases exec_effect h
  case within | delivers | restores =>
    have hne : u ≠ t := hf.resolve_right (by simp [Frame.binds])
    exact congrArg Task.context (Function.update_of_ne hne _ _)
  case creates => exact Loop.context_spawn s.toLoop _ _ hu
  case expires => exact context_uncancel u
  case activates g a o => exact context_startTimers a s hu
  case takes who g a hentry => exact context_cancel_all _ (s.take who g a) u
  case begins => exact context_startBackground hu
  case cancels τ rest => exact Loop.context_cancel s.toLoop τ u
  all_goals rfl

theorem now_cancel_all (τs : List TaskId) (s : State) :
    (τs.foldl State.cancel s).now = s.now := by
  obtain ⟨L, h⟩ := cancel_all_eq τs s
  rw [h]

theorem now_startTimers (a : ActId) (s : State) : (s.startTimers t a).now = s.now := by
  obtain ⟨L, timers, h⟩ := startTimers_eq (t := t) a s
  rw [h]
  rfl

theorem now_startBackground : (s.startBackground cfg t).now = s.now := by
  obtain ⟨L, sweeper, scanner, h⟩ := startBackground_eq cfg s t
  rw [h]

/-- No time passes in a segment. -/
theorem exec_now {c : Choice} {f : Frame} {r : Resume Outcome}
    (h : exec cfg s t c f r = some (s', n)) : s'.now = s.now := by
  cases exec_effect h
  case activates g a o => exact now_startTimers a s
  case takes who g a hentry => exact now_cancel_all _ (s.take who g a)
  case begins => exact now_startBackground
  all_goals rfl

/-- Clocks do not run back. -/
theorem now_le_step {l : Label} (h : step cfg s l = some s') : s.now ≤ s'.now := by
  rcases step_cases h with ⟨t, r, f, rest, c, s1, n, hr, hs, he, rfl⟩ |
    ⟨t, r, f, rest, hr, ht, hs, hf, rfl⟩ | ⟨t, i, call, saved, hr, hs, hdue, rfl⟩ | hw
  · exact (exec_now he).ge
  · exact le_rfl
  · exact le_rfl
  · exact hw.now_le

/-- A step leaves the context of a task that does not set its deadline or put it back. -/
theorem step_context {l : Label} (h : step cfg s l = some s') {u : TaskId} (hu : u < s.spawned)
    (hrun : ∀ r f rest, s.running = some (u, r) → (s.tasks u).stack = f :: rest →
      f.binds = false) : (s'.tasks u).context = (s.tasks u).context := by
  rcases step_cases h with ⟨t, r, f, rest, c, s1, n, hr, hs, he, rfl⟩ |
    ⟨t, r, f, rest, hr, ht, hs, hf, rfl⟩ | ⟨t, i, call, saved, hr, hs, hdue, rfl⟩ | hw
  · rw [Loop.context_land]
    refine exec_context he hu ?_
    by_cases hut : u = t
    · subst hut
      exact .inr (hrun r f rest hr hs)
    · exact .inl hut
  · exact context_runTask r u
  · exact context_expireTask i call saved u
  · exact hw.context u hu

/-! ## No frame carries an earlier deadline than its context -/

variable (cfg) in
theorem dated_callFrame (call : Call) (terminal : Terminal) {c : Option Time}
    (hc : call.deadline = c) :
    (callFrame cfg call terminal).dated c ∧ (callFrame cfg call terminal).outer c = c := by
  unfold callFrame
  split_ifs
  · cases terminal <;> exact ⟨trivial, rfl⟩
  · exact ⟨hc ▸ .refl _, rfl⟩

/-- The call that a filter hands on, in a block or not. -/
def Frame.handed : Frame → Option Call
  | .chain _ call _ => some call
  | .within _ (.next _ call _) => some call
  | _ => none

/-- The calls that code outside the runtime hands on carry no earlier deadline than its context. -/
def Next.HandsOn (c : Option Time) (f : Frame) (n : Next Frame Outcome) : Prop :=
  ∀ role callee call, f = .user role → n = .await f callee → callee.handed = some call →
    NoLater c call.deadline

theorem setDeadline_context (s : State) (t : TaskId) (deadline : Option Time) :
    ((s.setDeadline t deadline).tasks t).context = deadline := by
  simp [State.setDeadline, Loop.setTask]

/-- The frames a segment leaves carry the deadline of their context. -/
theorem exec_dated {c : Choice} {f : Frame} {r : Resume Outcome} {rest : List Frame}
    (ht : t < s.spawned) (hd : Dated (s.tasks t).context (f :: rest))
    (hn : n.HandsOn (s.tasks t).context f) (h : exec cfg s t c f r = some (s', n)) :
    Dated (s'.tasks t).context (n.frames ++ rest) := by
  by_cases hf : f.binds = false
  · rw [exec_context h ht (.inr hf)]
    obtain ⟨hf', hrest⟩ := hd
    cases exec_passage h
    case ends => cases f <;> first | exact hrest | cases hf
    case calls g method args kwargs role =>
      obtain ⟨hcall, hout⟩ := dated_callFrame cfg
        ⟨g, method, args, kwargs, (s.tasks t).context⟩ .dispatch rfl
      exact ⟨hcall, hout ▸ ⟨hf', hrest⟩⟩
    case handsOn | handsOnWithin => exact ⟨hn _ _ _ rfl rfl rfl, hf', hrest⟩
    case reaches call terminal hnone => cases terminal <;> exact ⟨trivial, hrest⟩
    case reachesWithin call terminal deadline hsome =>
      have hlimited : call.deadline.isSome = true := by rw [hsome]; rfl
      cases terminal <;> exact ⟨trivial, ⟨hf', hlimited⟩, hrest⟩
    case blocks | delivers | deliversWithin => cases hf
    all_goals
      first
        | exact ⟨trivial, hrest⟩
        | exact ⟨hf', hrest⟩
        | exact ⟨trivial, trivial, hrest⟩
        | exact ⟨trivial, hf', hrest⟩
  · cases exec_binding (Bool.not_eq_false _ ▸ hf) h with
    | refused _ o houter =>
      have hrest := hd.2
      rwa [houter] at hrest
    | blocks seconds inside =>
      rw [setDeadline_context]
      cases inside with
      | block => exact ⟨trivial, trivial, hd.2⟩
      | next rest call terminal => exact ⟨(noLater_narrowed _ _).trans hd.1, trivial, hd.2⟩
    | restores asked saved o =>
      rw [setDeadline_context]
      exact hd.2
    | delivers call =>
      obtain ⟨hcall, hout⟩ := dated_callFrame cfg
        { call with deadline := (s.tasks t).context } .dispatchHere rfl
      exact ⟨hcall, hout ▸ hd.2⟩
    | deliversWithin call seconds =>
      obtain ⟨hcall, hout⟩ := dated_callFrame cfg { call with
        deadline := narrowed (s.tasks t).context (s.now + seconds) } .dispatchHere rfl
      rw [setDeadline_context]
      refine ⟨hcall, ?_⟩
      rw [hout]
      exact ⟨trivial, hd.2⟩

theorem dated_of_new {f : Frame} (h : f.fresh ∨ f.hosted) (c : Option Time) : Dated c [f] := by
  refine ⟨?_, trivial⟩
  unfold Frame.fresh Frame.hosted at h
  unfold Frame.dated
  split <;> simp_all

/-- A timeout that expires carries the deadline it did. -/
theorem Dated.set {call : Call} {saved : ℕ} : ∀ {c : Option Time} {l : List Frame} {i : ℕ},
    l[i]? = some (.timeout call saved false) → Dated c l →
      Dated c (l.set i (.timeout call saved true))
  | _, [], _, h, _ => by simp at h
  | c, f :: rest, 0, h, hd => by
    obtain rfl : f = .timeout call saved false := by simpa using h
    exact hd
  | c, f :: rest, i + 1, h, hd => ⟨hd.1, set (by simpa using h) hd.2⟩

/-- In every task, no frame carries an earlier deadline than its context has. -/
def AllDated (s : State) : Prop :=
  ∀ u, Dated (s.tasks u).context (s.tasks u).stack

theorem AllDated.keeps {fresh : Frame → Prop} (hn : Nested s) (hd : AllDated s)
    (hk : Loop.Keeps fresh s.toLoop s'.toLoop) (hf : ∀ f, fresh f → f.fresh ∨ f.hosted)
    {u : TaskId} (hc : u < s.spawned → (s'.tasks u).context = (s.tasks u).context) :
    Dated (s'.tasks u).context (s'.tasks u).stack := by
  by_cases hu : u < s.spawned
  · rw [hc hu, hk.stack_eq u (.inl hu)]
    exact hd u
  · by_cases hu' : s'.spawned ≤ u
    · rw [hk.stack_eq u (.inr hu'), hn.unspawned u (not_lt.1 hu)]
      trivial
    · obtain ⟨f, hff, hs⟩ := hk.stack_new u (not_lt.1 hu) (not_le.1 hu')
      rw [hs]
      exact dated_of_new (hf f hff) _

theorem AllDated.step {l : Label} (hn : Nested s) (hd : AllDated s) (h : step cfg s l = some s')
    (hhands : ∀ t r role rest, s.running = some (t, r) → (s.tasks t).stack = .user role :: rest →
      ∀ callee call, (s'.tasks t).stack = callee :: .user role :: rest →
        callee.handed = some call → NoLater (s.tasks t).context call.deadline) : AllDated s' := by
  rcases step_cases h with ⟨t, r, f, rest, c, s1, n, hr, hs, he, rfl⟩ |
    ⟨t, r, f, rest, hr, ht, hs, hf, rfl⟩ | ⟨t, i, call, saved, hr, hs, hdue, rfl⟩ | hw
  · intro u
    rw [Loop.context_land]
    by_cases hu : u = t
    · subst hu
      rw [Loop.stack_land_self]
      have hdt := hd u
      rw [hs] at hdt
      refine exec_dated (hn.running u r hr).1 hdt ?_ he
      rintro role callee call rfl rfl hcall
      exact hhands u r role rest hr hs callee call (Loop.stack_land_self s1.toLoop u rest
        (.await (.user role) callee)) hcall
    · rw [Loop.stack_land _ hu]
      exact hd.keeps hn (exec_keeps he) (fun _ => .inl) fun hlt => exec_context he hlt (.inl hu)
  · intro u
    rw [stack_runTask, context_runTask]
    exact hd u
  · intro u
    rw [context_expireTask, stack_expireTask]
    split_ifs with hu
    · subst hu
      exact (hd u).set hs
    · exact hd u
  · exact fun u => hd.keeps hn hw.keeps (fun _ => .inr) (hw.context u)

/-! ## What has expired -/

/-- A timeout that has not expired lets everything through. -/
theorem timeoutExit_false (cancelling saved : ℕ) (o : Outcome) :
    timeoutExit cancelling saved false o = o := by
  unfold timeoutExit
  split <;> simp

/-- A timeout has expired because its deadline had passed. -/
def Expired (s : State) : Prop :=
  ∀ u call saved, .timeout call saved true ∈ (s.tasks u).stack → overdue call.deadline s.now = true

theorem Expired.step {l : Label} (hE : Expired s) (h : step cfg s l = some s') : Expired s' := by
  intro u call saved hmem
  have hle := now_le_step h
  refine frames_step (Φ := fun _ f => ∀ call saved, f = .timeout call saved true →
      overdue call.deadline s.now = true)
    (Ψ := fun _ f => ∀ call saved, f = .timeout call saved true →
      overdue call.deadline s'.now = true) h ?_ ?_ ?_ ?_ ?_ u _ hmem call saved rfl
  · rintro u f hf call saved rfl
    exact hE u call saved hf
  · exact fun _ f hf call saved he => overdue_mono hle (hf call saved he)
  · rintro t r f rest c s1 n hr hs he -
    refine ⟨fun f' hf' call saved htimeout => ?_, fun _ f' _ _ hf' call saved htimeout => ?_⟩
    · subst htimeout
      rcases exec_left he hf' with hentry | hcalled
      · cases f <;> simp [Frame.entry] at hentry
        -- a timeout runs one segment only
        simp only [exec] at he
        unfold timeout at he
        repeat' split at he
        all_goals
          cases he
          try cases hf'
      · exact hcalled.elim
    · subst htimeout
      exact hf'.1.elim
  · rintro _ f hf call saved rfl
    exact hf.elim
  · rintro _ call' saved' hdue - call saved he
    cases he
    exact overdue_mono hle hdue

/-! ## What is only ever interrupted -/

/-- A frame that nothing returns to is given an outcome only when its task is cancelled. -/
def Interrupted (s : State) : Prop :=
  ∀ t o f rest, s.running = some (t, .got o) → (s.tasks t).stack = f :: rest →
    (∀ f', below (some f) f' = false) → o = .error .cancelledError

theorem Interrupted.step {l : Label} (hn : Nested s) (hi : Interrupted s)
    (h : step cfg s l = some s') : Interrupted s' := by
  intro t' o f' rest' hr' hs' hnone
  rcases given_cases hn h hr' hs' with ⟨r, f, c, s1, hr, hs, hb, he, rfl⟩ | ⟨-, ho⟩ |
    ⟨hw, hlt, hr, hs⟩
  · exact absurd hb (by simp [hnone])
  · exact ho
  · exact hi t' o f' rest' hr hs hnone

/-- What holds of clocks and interruptions in every reachable state. -/
structure Clocked (s : State) : Prop where
  reached : Reached s
  expired : Expired s
  interrupted : Interrupted s

theorem Clocked.step {l : Label} (hC : Clocked s) (h : Nigrains.step cfg s l = some s') :
    Clocked s' :=
  ⟨hC.reached.step h, hC.expired.step h, hC.interrupted.step hC.reached.nested h⟩

theorem clocked_init (isMine : Option (GrainId → Bool)) : Clocked (.init isMine) where
  reached := reached_init _
  expired _ _ _ h := by cases h
  interrupted _ _ _ _ h := by cases h

theorem Run.clocked {ok : State → State → Prop} {isMine : Option (GrainId → Bool)}
    (h : Run (Nigrains.step cfg) ok (.init isMine) s) : Clocked s :=
  h.invariant (I := Clocked) (clocked_init _) fun _ _ _ hI hl _ => hI.step hl

end

end Nigrains
