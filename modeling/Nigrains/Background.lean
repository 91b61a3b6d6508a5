import Nigrains.Bursts
import Nigrains.Tickers

/-!
# The tasks a runtime starts by itself

`__aenter__` starts the sweeper and the scanner, and `_activated` a task for each timer. The loops
of `_tick` and `_sweep` outlive every `Exception` of what they run (`schedules_survive`) : a task
that loops goes on looping, or has ended with something that is not an `Exception`.

`__aexit__` cancels the sweeper and the scanner and awaits them. If nothing starts them but an
`__aenter__` that finds none of them there and nobody leaving, none of them is there any more when
`__aexit__` comes to the calls in flight, and none comes back (`departs_alone`).
-/

namespace Nigrains

section

variable {cfg : Config} {s s' : State} {t u : TaskId} {n : Next Frame Outcome}

/-! ## Loops -/

/-- A task at whose bottom a frame with `P` stands, or that has ended with an outcome with `Q`. -/
def Lasts (P : Frame → Prop) (Q : Outcome → Prop) (s : State) (u : TaskId) : Prop :=
  (∃ f, (s.tasks u).stack.getLast? = some f ∧ P f) ∨
    (s.tasks u).stack = [] ∧ ∃ o, (s.tasks u).result = some o ∧ Q o

section Lasts

variable {P : Frame → Prop} {Q : Outcome → Prop}

theorem Lasts.of_eq {s₁ s₂ : State} (h : Lasts P Q s₁ u)
    (hstack : (s₂.tasks u).stack = (s₁.tasks u).stack)
    (hresult : (s₂.tasks u).result = (s₁.tasks u).result) : Lasts P Q s₂ u := by
  unfold Lasts
  rw [hstack, hresult]
  exact h

/-- A task lasts if the segments of the frame at its bottom see to it. -/
theorem Lasts.step {l : Label} (hu : u < s.spawned) (hL : Lasts P Q s u)
    (hend : ∀ f r c s1 n, P f → s.running = some (u, r) → (s.tasks u).stack = [f] →
      exec cfg s u c f r = some (s1, n) →
      (∃ f', n.frames.getLast? = some f' ∧ P f') ∨ ∃ o, n = .done o ∧ Q o)
    (hexpire : ∀ call saved, P (.timeout call saved false) → P (.timeout call saved true))
    (h : step cfg s l = some s') : Lasts P Q s' u := by
  rcases step_cases h with ⟨t, r, f, rest, c, s1, n, hr, hs, he, rfl⟩ |
    ⟨t, r, f, rest, hr, ht, hs, hf, rfl⟩ | ⟨t, i, call, saved, hr, hs, hdue, rfl⟩ | hw
  · by_cases hut : u = t
    · subst hut
      rcases hL with ⟨p, hlast, hp⟩ | ⟨hnil, -⟩
      · cases rest with
        | cons q rest =>
          -- what runs stands on the frame at the bottom
          refine .inl ⟨p, ?_, hp⟩
          rw [Loop.stack_land_self, getLast?_append_cons]
          rw [hs] at hlast
          simpa [List.getLast?_cons_cons] using hlast
        | nil =>
          obtain rfl : f = p := by simpa [hs] using hlast
          rcases hend f r c s1 n hp hr hs he with ⟨f', hf', hp'⟩ | ⟨o, rfl, ho⟩
          · refine .inl ⟨f', ?_, hp'⟩
            rw [Loop.stack_land_self, List.append_nil]
            exact hf'
          · refine .inr ⟨Loop.stack_land_self s1.toLoop u [] (.done o), o, ?_, ho⟩
            simp [Loop.land, Loop.setTask]
      · rw [hs] at hnil
        cases hnil
    · have hk := exec_keeps he
      refine hL.of_eq ?_ ?_
      · exact (Loop.stack_land s1.toLoop hut rest n).trans (hk.stack_eq u (.inl hu))
      · exact (Loop.result_land s1.toLoop hut rest n).trans (hk.result_eq u hu)
  · exact hL.of_eq (stack_runTask r u) (result_runTask r u)
  · by_cases hut : u = t
    · subst hut
      rcases hL with ⟨p, hlast, hp⟩ | ⟨hnil, -⟩
      · refine .inl ?_
        rw [stack_expireTask, if_pos rfl, List.getLast?_eq_getElem?, List.length_set,
          List.getElem?_set]
        rw [List.getLast?_eq_getElem?] at hlast
        split_ifs with hi hlt
        · rw [← hi, hs] at hlast
          cases hlast
          exact ⟨_, rfl, hexpire call saved hp⟩
        · rw [← hi, hs] at hlast
          exact absurd (List.getElem?_eq_some_iff.1 hs).1 hlt
        · exact ⟨p, hlast, hp⟩
      · rw [hnil] at hs
        simp at hs
    · refine hL.of_eq ?_ (result_expireTask i call saved u)
      rw [stack_expireTask, if_neg hut]
  · exact hL.of_eq (hw.keeps.stack_eq u (.inl hu)) (hw.keeps.result_eq u hu)

end Lasts

/-- The frame of a timer, or of the sweeper. -/
def Frame.loops : Frame → Bool
  | .tick .. => true
  | .sweep _ => true
  | _ => false

/-- Not an `Exception`. -/
def Outcome.Final (o : Outcome) : Prop :=
  ∃ e, o = .error e ∧ e.isException = false

theorem interrupted_final {r : Resume Outcome} (hr : ∀ e, r = .got (.error e) → e = .cancelledError)
    (h : interrupted s r = some (s', n)) : ∃ o, n = .done o ∧ Outcome.Final o := by
  unfold interrupted at h
  split at h
  · next e =>
    cases h
    exact ⟨_, rfl, e, rfl, by rw [hr e rfl]; rfl⟩
  · cases h

/-- A segment of a loop goes on with it, or ends it with what is not an `Exception`. -/
theorem loops_on {c : Choice} {f : Frame} {r : Resume Outcome} (hf : f.loops = true)
    (hr : f.Takes r) (h : exec cfg s t c f r = some (s', n)) :
    (∃ f', n.frames.getLast? = some f' ∧ f'.entry = f.entry) ∨
      ∃ o, n = .done o ∧ Outcome.Final o := by
  cases f <;> cases hf <;> simp only [exec] at h <;> first | unfold tick at h | unfold sweep at h
  case tick a pc | sweep pc =>
    split at h
    · cases h
      exact .inl ⟨_, rfl, rfl⟩
    · cases h
      exact .inl ⟨_, rfl, rfl⟩
    · next e =>
      split_ifs at h with hexc <;> cases h
      · exact .inl ⟨_, rfl, rfl⟩
      · exact .inr ⟨_, rfl, e, rfl, by simpa using hexc⟩
    · cases h
      exact .inl ⟨_, rfl, rfl⟩
    · cases h
    · refine .inr (interrupted_final (fun e he => ?_) h)
      subst he
      rcases hr with hexpects | ⟨-, rfl⟩
      · cases pc <;> cases hexpects
        simp_all
      · rfl

/-- From any reachable state on, whatever its work raises and whatever a collection raises : a
timer of an activation goes on being one and the sweeper goes on being it, unless it has ended with
an interruption or with another exception that is not an `Exception`. -/
theorem schedules_survive {ok ok' : State → State → Prop} {isMine : Option (GrainId → Bool)}
    {f : Frame} (h : Run (step cfg) ok (.init isMine) s)
    (hu : (s.tasks u).stack.getLast? = some f) (hf : f.loops = true)
    (h' : Run (step cfg) ok' s s') :
    (∃ f', (s'.tasks u).stack.getLast? = some f' ∧ f'.entry = f.entry) ∨
      (s'.tasks u).stack = [] ∧ ∃ e, (s'.tasks u).result = some (.error e) ∧
        e.isException = false := by
  have hF : Fed cfg s :=
    h.invariant (I := Fed cfg) (fed_init cfg isMine) fun _ _ _ hF hl _ => hF.step hl
  have hlt : u < s.spawned := by
    by_contra hge
    rw [hF.nested.unspawned u (not_lt.1 hge)] at hu
    cases hu
  have hend := h'.invariant
    (I := fun s' => Fed cfg s' ∧ u < s'.spawned ∧
      Lasts (fun f' => f'.entry = f.entry) Outcome.Final s' u)
    ⟨hF, hlt, .inl ⟨f, hu, rfl⟩⟩ fun s₁ l s₂ ⟨hF₁, hlt₁, hL⟩ hl _ =>
      ⟨hF₁.step hl, hlt₁.trans_le (spawned_le_step hl), hL.step hlt₁ ?_ ?_ hl⟩
  · rcases hend.2.2 with hloops | ⟨hnil, o, ho, e, rfl, he⟩
    · exact .inl hloops
    · exact .inr ⟨hnil, e, ho, he⟩
  · intro f' r c s₃ n hentry hr hs he
    have hf' : f'.loops = true := by
      cases f <;> cases hf <;> cases f' <;> first | rfl | cases hentry
    rcases loops_on hf' (hF₁.takes u r f' [] hr hs) he with ⟨f'', hlast, hsame⟩ | hdone
    · exact .inl ⟨f'', hlast, hsame.trans hentry⟩
    · exact .inr hdone
  · intro call saved hentry
    cases f <;> cases hf <;> cases hentry

/-- A grain asks for a timer, which begins to wait. -/
def asksTimer : List Label :=
  [.arrive, .resume 0] ++ Label.invoke ⟨"counter", "x"⟩ ++ Label.gos 2 ++
  [.run (.every 10), Label.returns] ++ Label.gos 3 ++ [Label.returns, .run .go, .run .suspend] ++
  [.resume 1, .run .go]

/-- The work of the timer raises. -/
def workRaises : List Label :=
  [.resume 1, .run .go, .run (.finish (.error (.grainNotRegistered "clock"))), .run .go]

/-- The timer waits again. -/
theorem schedules_survive_workRaises : ∃ s s' : State,
    Run (step (.small none)) (fun _ _ => True) s s' ∧
    s'.trace = .tocked 0 :: .ticked 0 :: s.trace ∧
    ((∃ f', (s'.tasks 1).stack.getLast? = some f' ∧
        f'.entry = (Frame.tick 0 .sleeping).entry) ∨
      (s'.tasks 1).stack = [] ∧ ∃ e, (s'.tasks 1).result = some (.error e) ∧
        e.isException = false) := by
  obtain ⟨s, hrun, hp⟩ := exists_free_run (.small none) none asksTimer
    (fun s => decide ((s.tasks 1).stack = [.tick 0 .sleeping] ∧
      ((execute (step (.small none)) (fun _ _ => true) s workRaises).any fun s' : State =>
        decide (s'.trace = .tocked 0 :: .ticked 0 :: s.trace)) = true)) (by decide +kernel)
  obtain ⟨hs, hraises⟩ := of_decide_eq_true hp
  obtain ⟨s', hrun', hp'⟩ := exists_run_free (step (.small none)) s workRaises _ hraises
  exact ⟨s, s', hrun', of_decide_eq_true hp',
    schedules_survive hrun (by rw [hs]; rfl) rfl hrun'⟩

/-! ## Leaving -/

/-- The frame of the sweeper, or of the scanner. -/
def Frame.background : Frame → Bool
  | .sweep _ => true
  | .user .scanner => true
  | _ => false

def Frame.Foreground (f : Frame) : Prop :=
  f.background = false

/-- Whether a task is the sweeper or the scanner, and has not ended. -/
def State.lurks (s : State) (u : TaskId) : Bool :=
  (s.tasks u).stack.getLast?.any Frame.background

def Frame.isAexit : Frame → Bool
  | .aexit _ => true
  | _ => false

/-- The sweeper is started only where neither it nor the scanner is there and nobody leaves. -/
def StartsAlone (s s' : State) : Prop :=
  s'.sweeper = some s.spawned →
    ∀ u < s.spawned, s.lurks u = false ∧ ∀ f ∈ (s.tasks u).stack, f.isAexit = false

instance (s s' : State) : Decidable (StartsAlone s s') :=
  inferInstanceAs (Decidable (_ → _))

/-- An `__aexit__` has still to await the task, if it is to await any. -/
def Frame.Heeds (u : TaskId) : Frame → Prop
  | .aexit .start => True
  | .aexit (.stopping rest) => u ∈ rest
  | .aexit (.joining τ rest) => u = τ ∨ u ∈ rest
  | .aexit _ => False
  | _ => True

/-- Whoever lurks is known, and whoever leaves will await it. -/
structure Attended (s : State) : Prop where
  known : ∀ u, s.lurks u = true → s.sweeper = some u ∨ s.reminderScanner = some u
  awaited : ∀ v, ∀ f ∈ (s.tasks v).stack, ∀ u, s.lurks u = true → f.Heeds u

theorem background_callFrame (call : Call) (terminal : Terminal) :
    (callFrame cfg call terminal).background = false := by
  unfold callFrame
  split_ifs
  · cases terminal <;> rfl
  · rfl

theorem background_terminalFrame (call : Call) (terminal : Terminal) :
    (terminal.frame call).background = false := by
  cases terminal <;> rfl

theorem background_inside (inside : Inside) : inside.frame.background = false := by
  cases inside <;> rfl

/-- No coroutine calls the sweeper or the scanner. -/
theorem exec_background {c : Choice} {f f' : Frame} {r : Resume Outcome}
    (h : exec cfg s t c f r = some (s', n)) (hf : f' ∈ n.frames) (hb : f'.background = true) :
    f.background = true := by
  cases exec_passage h
  all_goals
    simp only [Next.frames, List.mem_cons, List.not_mem_nil, or_false] at hf
    try obtain rfl | rfl := hf
    all_goals
      try subst hf
      first
        | exact hb
        | cases hb
        | (rw [background_callFrame] at hb
           cases hb)
        | (rw [background_terminalFrame] at hb
           cases hb)
        | (rw [background_inside] at hb
           cases hb)

/-- A segment starts the sweeper and the scanner, or forgets them, or does neither. -/
theorem exec_known {c : Choice} {f : Frame} {r : Resume Outcome}
    (h : exec cfg s t c f r = some (s', n)) :
    (s'.sweeper = s.sweeper ∧ s'.reminderScanner = s.reminderScanner ∧
      Loop.Keeps Frame.Foreground s.toLoop s'.toLoop) ∨
    (f = .aexit (.stopping []) ∧ s' = { s with sweeper := none, reminderScanner := none }) ∨
    ((∃ pc, f = .aenter pc) ∧ s' = s.startBackground cfg t) := by
  cases exec_effect h
  case begins pc => exact .inr (.inr ⟨⟨pc, rfl⟩, rfl⟩)
  case stops => exact .inr (.inl ⟨rfl, rfl⟩)
  case creates => exact .inl ⟨rfl, rfl, .spawn (show Frame.Foreground (.user .client) from rfl) _⟩
  case within | delivers | restores | expires => exact .inl ⟨rfl, rfl, .setTask rfl rfl⟩
  case activates g a o =>
    have hk : Loop.Keeps Frame.Foreground s.toLoop (s.activate t g a).toLoop :=
      keeps_startTimers (show Frame.Foreground (.tick a .start) from rfl) s
    obtain ⟨L, timers, hstart⟩ := startTimers_eq (t := t) a s
    refine .inl ⟨?_, ?_, hk⟩ <;> simp [State.activate, hstart, State.modify, State.emit]
  case takes who g a hentry =>
    have hk : Loop.Keeps Frame.Foreground s.toLoop
        ((s.heap a).timers.foldl State.cancel (s.take who g a)).toLoop :=
      keeps_cancel_all _ (s.take who g a)
    obtain ⟨L, hcancel⟩ := cancel_all_eq (s.heap a).timers (s.take who g a)
    rw [hcancel] at hk ⊢
    exact .inl ⟨rfl, rfl, hk⟩
  case cancels τ rest => exact .inl ⟨rfl, rfl, .cancel τ⟩
  all_goals exact .inl ⟨rfl, rfl, .refl _⟩

theorem startBackground_known (hu : s.spawned ≤ u)
    (hu' : u < (s.startBackground cfg t).spawned) :
    (s.startBackground cfg t).sweeper = some u ∨
      (s.startBackground cfg t).reminderScanner = some u := by
  unfold State.startBackground at hu' ⊢
  by_cases hreminders : cfg.reminders = true
  · rw [if_pos hreminders] at hu' ⊢
    rcases Nat.lt_or_ge s.spawned u with hlt | hge
    · obtain rfl : u = s.spawned + 1 := Nat.le_antisymm (Nat.lt_succ_iff.1 hu') hlt
      exact .inr rfl
    · obtain rfl : u = s.spawned := Nat.le_antisymm hge hu
      exact .inl rfl
  · rw [if_neg hreminders] at hu' ⊢
    obtain rfl : u = s.spawned := Nat.le_antisymm (Nat.lt_succ_iff.1 hu') hu
    exact .inl rfl

theorem startBackground_sweeper : (s.startBackground cfg t).sweeper = some s.spawned := by
  unfold State.startBackground
  split_ifs <;> rfl

theorem lurks_of_eq {s₁ s₂ : State} (h : (s₂.tasks u).stack = (s₁.tasks u).stack) :
    s₂.lurks u = s₁.lurks u := by
  unfold State.lurks
  rw [h]

/-- Who lurks after a segment has lurked before, or has been started by it. -/
theorem lurks_land {fresh : Frame → Prop} {c : Choice} {f : Frame} {rest : List Frame}
    {r : Resume Outcome} {s₁ : State} (hs : (s.tasks t).stack = f :: rest)
    (he : exec cfg s t c f r = some (s₁, n)) (hk : Loop.Keeps fresh s.toLoop s₁.toLoop)
    (hu : State.lurks { s₁ with toLoop := s₁.toLoop.land t rest n } u = true) :
    s.lurks u = true ∨
      ∃ f', fresh f' ∧ f'.background = true ∧ s.spawned ≤ u ∧ u < s₁.spawned := by
  by_cases hut : u = t
  · subst hut
    unfold State.lurks at hu ⊢
    rw [Loop.stack_land_self] at hu
    rw [hs]
    cases rest with
    | cons q rest =>
      rw [getLast?_append_cons] at hu
      rw [List.getLast?_cons_cons]
      exact .inl hu
    | nil =>
      rw [List.append_nil] at hu
      obtain ⟨f', hf', hb⟩ := (Option.any_eq_true ..).1 hu
      exact .inl (exec_background he (List.mem_of_getLast? hf') hb)
  · have hland := Loop.stack_land s₁.toLoop hut rest n
    rcases hk.stack_cases u with hsame | ⟨f', hf', hle, hlt, hnew⟩
    · have hstack : (({ s₁ with toLoop := s₁.toLoop.land t rest n } : State).tasks u).stack =
          (s.tasks u).stack := hland.trans hsame
      exact .inl (lurks_of_eq hstack ▸ hu)
    · refine .inr ⟨f', hf', ?_, hle, hlt⟩
      unfold State.lurks at hu
      rw [show (_ : List Frame) = [f'] from hland.trans hnew] at hu
      simpa using hu

/-- A step leaves the sweeper and the scanner known, or is of an `__aexit__` that has awaited them
all, or of an `__aenter__` that starts them. -/
theorem lurks_step {l : Label} (h : step cfg s l = some s') :
    (s'.sweeper = s.sweeper ∧ s'.reminderScanner = s.reminderScanner ∧
      ∀ u, s'.lurks u = true → s.lurks u = true) ∨
    (∃ t rest, (s.tasks t).stack = .aexit (.stopping []) :: rest ∧
      ∀ u, s'.lurks u = true → s.lurks u = true) ∨
    (s'.sweeper = some s.spawned ∧ ∀ u, s'.lurks u = true →
      s.lurks u = true ∨ s'.sweeper = some u ∨ s'.reminderScanner = some u) := by
  by_cases hrun : ∃ c, l = .run c
  · obtain ⟨c, rfl⟩ := hrun
    obtain ⟨t, r, f, rest, s1, n, -, hs, he, rfl⟩ := run_cases h
    rcases exec_known he with ⟨hsweeper, hscanner, hk⟩ | ⟨rfl, rfl⟩ | ⟨⟨pc, rfl⟩, rfl⟩
    · refine .inl ⟨hsweeper, hscanner, fun u hu => ?_⟩
      rcases lurks_land hs he hk hu with hold | ⟨f', hf', hb, -⟩
      · exact hold
      · rw [hf'] at hb
        cases hb
    · refine .inr (.inl ⟨t, rest, hs, fun u hu => ?_⟩)
      have hk : Loop.Keeps (fun _ => False) s.toLoop s.toLoop := .refl _
      rcases lurks_land hs he hk hu with hold | ⟨f', hf', -⟩
      · exact hold
      · exact hf'.elim
    · refine .inr (.inr ⟨startBackground_sweeper, fun u hu => ?_⟩)
      rcases lurks_land hs he (exec_keeps he) hu with hold | ⟨f', -, -, hle, hlt⟩
      · exact .inl hold
      · exact .inr (startBackground_known hle hlt)
  · have hl : ∀ c, l ≠ .run c := not_exists.1 hrun
    obtain ⟨L, now, isMine, hs'⟩ := step_outside hl h
    refine .inl ⟨by rw [hs'], by rw [hs'], fun u hu => ?_⟩
    rcases step_other hl h with ⟨t, r, f, rest, hr, ht, hs, hf, rfl⟩ |
      ⟨t, i, call, saved, hr, hs, hdue, rfl⟩ | hw
    · exact lurks_of_eq (stack_runTask r u) ▸ hu
    · unfold State.lurks at hu ⊢
      rw [stack_expireTask] at hu
      split_ifs at hu with hut
      · subst hut
        obtain ⟨f, hlast, hb⟩ := (Option.any_eq_true ..).1 hu
        rw [List.getLast?_eq_getElem?, List.length_set, List.getElem?_set] at hlast
        -- the timeout that has expired is at the bottom, or is not
        split_ifs at hlast with hi
        · cases hlast
          cases hb
        · rw [List.getLast?_eq_getElem?, hlast]
          exact hb
      · exact hu
    · rcases hw.keeps.stack_cases u with hsame | ⟨f, hf, -, -, hnew⟩
      · exact lurks_of_eq hsame ▸ hu
      · unfold State.lurks at hu
        rw [hnew] at hu
        have hb : f.background = true := by simpa using hu
        unfold Frame.hosted at hf
        unfold Frame.background at hb
        split at hf <;> simp_all

theorem heeds_of_not_aexit {f : Frame} (h : f.isAexit = false) : f.Heeds u := by
  cases f <;> first | exact trivial | cases h

/-- `__aexit__` awaits whoever lurks before it comes to the calls in flight. -/
theorem aexit_heeds {pc pc' : AexitAt} {r : Resume Outcome}
    (hknown : s.sweeper = some u ∨ s.reminderScanner = some u) (hu : s.ended u = false)
    (hready : Ready s (.aexit pc) r) (h : aexit s pc r = some (s', n))
    (hpc : (Frame.aexit pc).Heeds u) (hmem : .aexit pc' ∈ n.frames) :
    (Frame.aexit pc').Heeds u := by
  cases pc with
  | start =>
    rcases r with - | (e | v)
    · cases h
      obtain rfl : pc' = .stopping ([s.sweeper, s.reminderScanner].filterMap id) := by
        simpa [Next.frames] using hmem
      rcases hknown with hknown | hknown <;> simp [Frame.Heeds, hknown]
    · cases h
    · cases h
  | stopping rest =>
    cases rest with
    | nil => cases hpc
    | cons τ rest =>
      have hin : u = τ ∨ u ∈ rest := List.mem_cons.1 hpc
      rcases r with - | (e | v)
      · simp only [aexit] at h
        split_ifs at h <;> cases h
        all_goals
          obtain rfl : pc' = .joining τ rest := by simpa [Next.frames] using hmem
          exact hin
      · cases h
      · cases h
  | joining τ rest =>
    -- the task that has been awaited has ended
    have hne : u ≠ τ := by
      rintro rfl
      rw [show s.ended u = true from hready] at hu
      cases hu
    have hin : u ∈ rest := hpc.resolve_left hne
    rcases r with - | (e | v)
    · simp only [aexit] at h
      split at h <;> cases h
      · obtain rfl : pc' = .stopping rest := by simpa [Next.frames] using hmem
        exact hin
      · cases hmem
    · cases h
      obtain rfl : pc' = .stopping rest := by simpa [Next.frames] using hmem
      exact hin
    · cases h
  | draining | deactivating | leaving => cases hpc

theorem not_ended_of_lurks (h : s.lurks u = true) : s.ended u = false := by
  unfold State.lurks at h
  unfold State.ended
  cases hs : (s.tasks u).stack with
  | nil =>
    rw [hs] at h
    cases h
  | cons f rest => rfl

theorem lt_of_lurks (hn : Nested s) (h : s.lurks u = true) : u < s.spawned := by
  by_contra hge
  unfold State.lurks at h
  rw [hn.unspawned u (not_lt.1 hge)] at h
  cases h

theorem attended_init (isMine : Option (GrainId → Bool)) : Attended (.init isMine) where
  known _ h := by cases h
  awaited _ _ hf := by cases hf

theorem Attended.step {l : Label} (hI : Reached s) (hA : Attended s)
    (h : step cfg s l = some s') (hok : StartsAlone s s') : Attended s' := by
  -- who lurks has lurked before, unless nobody leaves
  have hold : ∀ u, s'.lurks u = true → s.lurks u = true ∨
      ∀ v, ∀ f ∈ (s.tasks v).stack, f.isAexit = false := by
    intro u hu
    rcases lurks_step h with ⟨-, -, hlurks⟩ | ⟨t, rest, -, hlurks⟩ | ⟨hstarts, -⟩
    · exact .inl (hlurks u hu)
    · exact .inl (hlurks u hu)
    · refine .inr fun v f hf => ?_
      by_cases hv : v < s.spawned
      · exact (hok hstarts v hv).2 f hf
      · rw [hI.nested.unspawned v (not_lt.1 hv)] at hf
        cases hf
  have hkeep : ∀ v, ∀ f ∈ (s.tasks v).stack, ∀ u, s'.lurks u = true → f.Heeds u := by
    intro v f hf u hu
    rcases hold u hu with hlurks | hnobody
    · exact hA.awaited v f hf u hlurks
    · exact heeds_of_not_aexit (hnobody v f hf)
  refine ⟨fun u hu => ?_, ?_⟩
  · rcases lurks_step h with ⟨hsweeper, hscanner, hlurks⟩ | ⟨t, rest, hs, hlurks⟩ |
      ⟨hstarts, hlurks⟩
    · rw [hsweeper, hscanner]
      exact hA.known u (hlurks u hu)
    · have hheeds := hA.awaited t _ (hs ▸ List.mem_cons_self) u (hlurks u hu)
      cases hheeds
    · rcases hlurks u hu with hlurks | hnew
      · have hnot := (hok hstarts u (lt_of_lurks hI.nested hlurks)).1
        rw [hlurks] at hnot
        cases hnot
      · exact hnew
  · refine frames_step (Φ := fun v f => f ∈ (s.tasks v).stack)
      (Ψ := fun _ f => ∀ u, s'.lurks u = true → f.Heeds u) h (fun _ _ hf => hf)
      hkeep ?_ ?_ fun _ _ _ _ _ _ _ => trivial
    · rintro t r f rest c s1 n hr hs he -
      refine ⟨fun f' hf' u hu => ?_, fun v f' _ _ hf' u _ => ?_⟩
      · have htop : f ∈ (s.tasks t).stack := hs ▸ List.mem_cons_self
        cases f' with
        | aexit pc' =>
          rcases exec_left he hf' with hentry | hcalled
          · obtain ⟨pc, rfl⟩ : ∃ pc, f = .aexit pc := by
              cases f <;> simp [Frame.entry] at hentry
              exact ⟨_, rfl⟩
            rcases hold u hu with hlurks | hnobody
            · exact aexit_heeds (hA.known u hlurks) (not_ended_of_lurks hlurks)
                (hI.asserted t r _ rest hr hs) he (hkeep t _ htop u hu) hf'
            · have hnot := hnobody t _ htop
              cases hnot
          · obtain rfl : pc' = .start := by
              simpa [Frame.called, Frame.entry] using hcalled
            exact trivial
        | _ => exact trivial
      · have hfresh := hf'.1
        cases f' <;> first | exact trivial | cases hfresh
    · intro _ f hf u _
      cases f <;> first | exact trivial | cases hf

/-- Where the sweeper and the scanner are started only when neither of them is there and nobody
leaves, none of them is there from when an `__aexit__` comes to the calls in flight until it has
ended. -/
theorem departs_alone {isMine : Option (GrainId → Bool)} {pc : AexitAt}
    (h : Run (step cfg) StartsAlone (.init isMine) s) (hmem : .aexit pc ∈ (s.tasks t).stack)
    (hpc : pc = .draining ∨ (∃ gs, pc = .deactivating gs) ∨ pc = .leaving) (u : TaskId) :
    s.lurks u = false := by
  have hA := h.invariant (I := fun s => Reached s ∧ Attended s)
    ⟨reached_init _, attended_init _⟩ fun s l s' ⟨hI, hA⟩ hl hok =>
      ⟨hI.step hl, hA.step hI hl hok⟩
  rw [← Bool.not_eq_true]
  intro hu
  have hheeds := hA.2.awaited t _ hmem u hu
  rcases hpc with rfl | ⟨gs, rfl⟩ | rfl <;> cases hheeds

/-- A host enters and leaves. The sweeper is cancelled before it has begun. -/
def entersAndLeaves : List Label :=
  [.arrive, .resume 0, .run .enter, .run .go, .run .leave, .run .go, .run .go, .resume 1, .run .go,
    .resume 0, .run .go, .run .go]

theorem departs_alone_entersAndLeaves : ∃ s : State, s.sweeper = none ∧ s.spawned = 2 ∧
    s.lurks 1 = false := by
  obtain ⟨s, hrun, hp⟩ := exists_run (step (.small none)) (fun s s' => decide (StartsAlone s s'))
    (fun _ _ h => of_decide_eq_true h) (.init none) entersAndLeaves
    (fun s => decide (s.sweeper = none ∧ s.spawned = 2 ∧
      .aexit .draining ∈ (s.tasks 0).stack)) (by decide +kernel)
  obtain ⟨hsweeper, hspawned, hmem⟩ := of_decide_eq_true hp
  exact ⟨s, hsweeper, hspawned, departs_alone hrun hmem (.inl rfl) 1⟩

end

end Nigrains
