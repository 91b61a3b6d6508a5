import Nigrains.Transparency

/-!
# A cancellation that arrives in a deactivation

`collect`, `_make_room` and `_deactivate` may be suspended while a timer's task ends, inside a
grain's `deactivate`, and at the yield between chunks. What awaits them, up to `_sweep`,
`__aexit__` and the caller of a grain, lets a `CancelledError` through, and so do they
(`exec_unwind`), but for one place : `await timer` stands inside `suppress(CancelledError)`, for
the sake of the timer's own cancellation, and so takes the cancellation of its own task for the
timer's and goes on (`exec_absorb`). A cancellation gets out exactly when the frame it arrives at
does not wait for a timer (`propagates_iff`).
-/

namespace Nigrains

/-- Where `collect`, `_make_room` and `_deactivate` may be interrupted, and what awaits them. -/
def Frame.unwinds : Frame → Bool
  | .deactivate _ _ (.joining ..) => true
  | .deactivate _ _ (.hook _) => true
  | .makeRoom .evicting => true
  | .collect (.walking ..) => true
  | .collect (.taking ..) => true
  | .sweep _ => true
  | .aexit (.deactivating _) => true
  | .activated _ .room => true
  | .dispatchHere _ (.activating _) => true
  | _ => false

/-- Waiting for the task of a timer to end. -/
def Frame.absorbs : Frame → Bool
  | .deactivate _ _ (.joining ..) => true
  | _ => false

/-- A step from a state where more than `n` frames of the task are left. -/
def Above (t : TaskId) (n : ℕ) (s _s' : State) : Prop :=
  n < (s.tasks t).stack.length

instance {t : TaskId} {n : ℕ} {s s' : State} : Decidable (Above t n s s') :=
  inferInstanceAs (Decidable (n < (s.tasks t).stack.length))

/-- The cancellation is on its way through the frames `l`, or has come out of them. -/
def Passing (t : TaskId) (l base : List Frame) (s : State) : Prop :=
  (∃ l', l' ≠ [] ∧ l' <:+ l ∧ s.running = some (t, .got (.error .cancelledError)) ∧
    (s.tasks t).stack = l' ++ base) ∨
  ((s.tasks t).stack = base ∧ s.told t = some (.error .cancelledError))

/-- From here on the task does nothing but let the cancellation out of the frames `l`, and it
may do so. -/
def Propagates (cfg : Config) (t : TaskId) (l base : List Frame) (s : State) : Prop :=
  (∀ s' : State, Run (step cfg) (Above t base.length) s s' → Passing t l base s') ∧
  ∃ s' : State, Run (step cfg) (Above t base.length) s s' ∧
    (s'.tasks t).stack = base ∧ s'.told t = some (.error .cancelledError)

section

variable {cfg : Config} {s s' : State} {t : TaskId} {c : Choice} {f : Frame}
  {l base : List Frame}

/-- What lets a cancellation through ends with it. -/
theorem exec_unwind (hf : f.unwinds = true) (hj : f.absorbs = false) :
    ∃ s1, ∀ c, exec cfg s t c f (.got (.error .cancelledError)) =
      some (s1, .done (.error .cancelledError)) := by
  unfold Frame.unwinds at hf
  unfold Frame.absorbs at hj
  split at hf
  case h_1 => cases hj
  case h_4 cutoff rest index collected => cases rest <;> exact ⟨_, fun _ => rfl⟩
  case h_6 pc => cases pc <;> exact ⟨_, fun _ => rfl⟩
  case h_7 rest => cases rest <;> exact ⟨_, fun _ => rfl⟩
  case h_10 => cases hf
  all_goals exact ⟨_, fun _ => rfl⟩

/-- Waiting for a timer goes on with the next one. -/
theorem exec_absorb (hf : f.absorbs = true) (e : Exc) :
    ∃ who g a rest, ∀ c, exec cfg s t c f (.got (.error e)) =
      some (s, .goto (.deactivate who g (.timers a rest))) := by
  unfold Frame.absorbs at hf
  split at hf
  · exact ⟨_, _, _, _, fun _ => rfl⟩
  · cases hf

/-- Nothing stands on a frame that waits for a timer. -/
theorem absorbs_of_below {f' : Frame} (h : below (some f) f' = true) : f.absorbs = false := by
  cases awaits_of_below h <;> rfl

/-- Of the frames of a stack only the innermost may wait for a timer. -/
theorem absorbs_of_stacked (hs : Stacked below (f :: l)) (hf : f.absorbs = false) :
    ∀ f' ∈ f :: l, f'.absorbs = false := by
  induction l generalizing f with
  | nil => simpa using hf
  | cons p l ih => exact List.forall_mem_cons.2 ⟨hf, ih hs.2 (absorbs_of_below hs.1)⟩

/-- A step of the runtime lets the cancellation out of one more frame, or leaves the task. -/
theorem passing_step {lbl : Label} (ht : t < s.spawned)
    (hl : ∀ f ∈ l, f.unwinds = true ∧ f.absorbs = false) (hP : Passing t l base s)
    (hopen : base.length < (s.tasks t).stack.length) (h : step cfg s lbl = some s') :
    Passing t l base s' := by
  rcases hP with ⟨l', hne, hsuffix, hr, hs⟩ | ⟨hs, -⟩
  · by_cases hlbl : ∃ c, lbl = .run c
    · obtain ⟨c, rfl⟩ := hlbl
      obtain ⟨f, l', rfl⟩ := List.exists_cons_of_ne_nil hne
      obtain ⟨hf, hj⟩ := hl f (hsuffix.subset List.mem_cons_self)
      obtain ⟨s1, hx⟩ : ∃ s1, ∀ c, exec cfg s t c f (.got (.error .cancelledError)) =
          some (s1, .done (.error .cancelledError)) := exec_unwind hf hj
      have hs' := run_of_exec hr hs (hx c) h
      have hstack : (s'.tasks t).stack = l' ++ base := stack_landed hs'
      have htold : s'.told t = some (.error .cancelledError) := told_landed hs' rfl
      cases l' with
      | nil => exact .inr ⟨hstack, htold⟩
      | cons f' l' =>
        exact .inl ⟨f' :: l', List.cons_ne_nil _ _, (List.suffix_cons _ _).trans hsuffix,
          running_of_told hstack htold, hstack⟩
    · obtain ⟨hs', hr'⟩ := step_still hr ht (not_exists.1 hlbl) h
      exact .inl ⟨l', hne, hsuffix, hr', hs'.trans hs⟩
  · rw [hs] at hopen
    exact (lt_irrefl _ hopen).elim

/-- The runtime's own segments let the cancellation out. -/
theorem passing_ends (hl : ∀ f ∈ l, f.unwinds = true ∧ f.absorbs = false)
    (htold : s.told t = some (.error .cancelledError)) (hs : (s.tasks t).stack = l ++ base) :
    ∃ s' : State, Run (step cfg) (Above t base.length) s s' ∧
      (s'.tasks t).stack = base ∧ s'.told t = some (.error .cancelledError) := by
  induction l generalizing s with
  | nil => exact ⟨s, .refl, hs, htold⟩
  | cons f l ih =>
    obtain ⟨hf, hj⟩ := hl f List.mem_cons_self
    obtain ⟨s1, hx⟩ : ∃ s1, ∀ c, exec cfg s t c f (.got (.error .cancelledError)) =
        some (s1, .done (.error .cancelledError)) := exec_unwind hf hj
    obtain ⟨s2, hs2⟩ : ∃ s2 : State, s2 = { s1 with
      toLoop := s1.toLoop.land t (l ++ base) (.done (.error .cancelledError)) } := ⟨_, rfl⟩
    have hstep : step cfg s (.run .go) = some s2 := by
      simp only [step, run, running_of_told hs htold, hs, List.cons_append, hx, hs2]
    obtain ⟨s', hrun, hend⟩ := ih (fun f hf => hl f (List.mem_cons_of_mem _ hf))
      (told_landed hs2 rfl) (stack_landed hs2)
    have hopen : Above t base.length s s2 := by simp [Above, hs]
    exact ⟨s', .head ⟨⟨_, hstep⟩, hopen⟩ hrun, hend⟩

/-- In every reachable state, a cancellation that arrives in a deactivation propagates out of it
and of what awaits it exactly if it does not arrive where a timer is waited for. -/
theorem propagates_iff {isMine : Option (GrainId → Bool)}
    (h : Run (step cfg) (fun _ _ => True) (.init isMine) s)
    (hr : s.running = some (t, .got (.error .cancelledError)))
    (hs : (s.tasks t).stack = f :: l ++ base) (hunwinds : ∀ f' ∈ f :: l, f'.unwinds = true) :
    Propagates cfg t (f :: l) base s ↔ f.absorbs = false := by
  have hn := h.reached.nested
  have hstack : (s.tasks t).stack = f :: (l ++ base) := hs
  constructor
  · intro hP
    by_contra hj
    obtain ⟨who, g, a, rest, hx⟩ : ∃ who g a rest, ∀ c,
        exec cfg s t c f (.got (.error .cancelledError)) =
          some (s, .goto (.deactivate who g (.timers a rest))) :=
      exec_absorb (Bool.eq_true_of_not_eq_false hj) _
    obtain ⟨s', hs'⟩ : ∃ s' : State, s' = { s with
      toLoop := s.toLoop.land t (l ++ base) (.goto (.deactivate who g (.timers a rest))) } :=
      ⟨_, rfl⟩
    have hstep : step cfg s (.run .go) = some s' := by
      simp only [step, run, hr, hstack, hx, hs']
    have hrun : s'.running = some (t, .send) := by rw [hs']; rfl
    have hland := stack_landed hs'
    have hopen : Above t base.length s s' := by simp [Above, hs]
    rcases hP.1 s' (.single ⟨⟨_, hstep⟩, hopen⟩) with ⟨_, -, -, hr', -⟩ | ⟨hb, -⟩
    · rw [hrun] at hr'
      cases hr'
    · rw [hland] at hb
      have hlen := congrArg List.length hb
      simp [Next.frames] at hlen
      omega
  · intro hj
    have hst := hn.stacked t
    rw [hstack] at hst
    have habsorbs := absorbs_of_stacked hst hj
    have hl : ∀ f' ∈ f :: l, f'.unwinds = true ∧ f'.absorbs = false := fun f' hf' =>
      ⟨hunwinds f' hf', habsorbs f' (List.mem_append_left base hf')⟩
    have htold : s.told t = some (.error .cancelledError) := by
      unfold State.told State.gave
      rw [if_pos rfl, hstack, hr]
      exact if_pos rfl
    refine ⟨fun s' hrun => ?_, passing_ends hl htold hs⟩
    have hI := hrun.invariant (I := fun s => t < s.spawned ∧ Passing t (f :: l) base s)
      ⟨(hn.running t _ hr).1, .inl ⟨_, List.cons_ne_nil _ _, List.suffix_rfl, hr, hs⟩⟩ ?_
    · exact hI.2
    · rintro s lbl s' ⟨ht, hP⟩ hstep hopen
      exact ⟨ht.trans_le (spawned_le_step hstep), passing_step ht hl hP hopen hstep⟩

end

/-! ## Runs on fixed inputs -/

/-- `counter/x` is activated, with a timer, and has served a call. -/
def timerServed : List Label :=
  Label.invoke ⟨"counter", "x"⟩ ++ Label.gos 2 ++ [.run (.every 5), Label.returns] ++
  Label.gos 3 ++ [Label.returns] ++ Label.gos 1 ++ [.run .suspend]

/-- The sweep waits for the timer of `counter/x` to end when `__aexit__` cancels it. -/
def sweepCancelled : List Label :=
  [.arrive, .resume 0, .run .enter] ++ Label.gos 1 ++ timerServed ++
  [.resume 1, .run .go, .resume 2, .run .go, .clock 400, .resume 1] ++ Label.gos 5 ++
  [.resume 0, .run .leave] ++ Label.gos 2 ++ [.resume 2, .run .go, .resume 1]

/-- A caller of `counter/y` evicts `counter/x`, and waits for its timer when its time is up. -/
def evictionCancelled : List Label :=
  [.arrive, .resume 0] ++ timerServed ++
  [.resume 1, .run .go, .resume 0, .run (.within 10), .run .go,
    .run (.call ⟨"counter", "y"⟩ "get" 0 0)] ++ Label.gos 7 ++
  [.clock 10, .expire 0 4, .resume 1, .run .go, .resume 0]

/-- The sweep waits for the `deactivate` of `counter/x`, which lets the cancellation of
`__aexit__` through. -/
def hookCancelled : List Label :=
  [.arrive, .resume 0, .run .enter] ++ Label.gos 1 ++ Label.invoke ⟨"counter", "x"⟩ ++
  Label.serve ++ [.run .suspend, .resume 1, .run .go, .clock 400, .resume 1] ++ Label.gos 5 ++
  [.run .suspend, .resume 0, .run .leave] ++ Label.gos 2 ++
  [.resume 1, .run (.finish (.error .cancelledError))]

/-- That cancellation ends the sweep. -/
theorem propagates_hook : ∃ s : State, Run (step (.small none)) (fun _ _ => True) (.init none) s ∧
    Propagates (.small none) 1 [.deactivate .collect ⟨"counter", "x"⟩ (.hook 0),
      .collect (.taking 100 [] 0 0), .sweep .collecting] [] s := by
  obtain ⟨s, hrun, hp⟩ := exists_free_run (.small none) none hookCancelled
    (fun s => decide (s.running = some (1, .got (.error .cancelledError)) ∧
      (s.tasks 1).stack = [.deactivate .collect ⟨"counter", "x"⟩ (.hook 0),
        .collect (.taking 100 [] 0 0), .sweep .collecting])) (by decide +kernel)
  obtain ⟨hr, hs⟩ := of_decide_eq_true hp
  exact ⟨s, hrun, (propagates_iff hrun hr hs (by decide)).2 rfl⟩

/-- The sweep takes the cancellation for the timer's and goes round its loop again, while
`__aexit__` waits for it to end. A caller does, and goes on to activate and serve. -/
theorem not_propagates_joining :
    (∃ s s' : State, Run (step (.small none)) (fun _ _ => True) (.init none) s ∧
      s.running = some (1, .got (.error .cancelledError)) ∧
      (s.tasks 1).stack = [.deactivate .collect ⟨"counter", "x"⟩ (.joining 0 2 []),
        .collect (.taking 100 [] 0 0), .sweep .collecting] ∧
      ¬Propagates (.small none) 1 (s.tasks 1).stack [] s ∧
      Run (step (.small none)) (Above 1 0) s s' ∧
      (s'.tasks 1).stack = [.sweep .sleeping] ∧ (s'.tasks 1).mustCancel = false ∧
      (s'.tasks 0).stack = [.aexit (.joining 1 []), .user .client]) ∧
    ∃ s s' : State, Run (step (.small (some 1))) (fun _ _ => True) (.init none) s ∧
      s.running = some (0, .got (.error .cancelledError)) ∧
      (s.tasks 0).stack.take 4 = [.deactivate .makeRoom ⟨"counter", "x"⟩ (.joining 0 1 []),
        .makeRoom .evicting, .activated ⟨"counter", "y"⟩ .room,
        .dispatchHere ⟨⟨"counter", "y"⟩, "get", 0, 0, some 10⟩ (.activating 1)] ∧
      Run (step (.small (some 1))) (Above 0 4) s s' ∧
      .activated ⟨"counter", "y"⟩ 1 ∈ s'.trace ∧ .started 1 1 ∈ s'.trace := by
  constructor
  · obtain ⟨s, hrun, hp⟩ := exists_free_run (.small none) none sweepCancelled
      (fun s => decide (s.running = some (1, .got (.error .cancelledError)) ∧
        (s.tasks 1).stack = [.deactivate .collect ⟨"counter", "x"⟩ (.joining 0 2 []),
          .collect (.taking 100 [] 0 0), .sweep .collecting]) &&
        (execute (step (.small none)) (fun s s' => decide (Above 1 0 s s')) s
          (Label.gos 2 ++ [Label.returns] ++ Label.gos 4)).any fun s' : State =>
          decide ((s'.tasks 1).stack = [.sweep .sleeping] ∧ (s'.tasks 1).mustCancel = false ∧
            (s'.tasks 0).stack = [.aexit (.joining 1 []), .user .client]) && s'.running.isNone)
      (by decide +kernel)
    simp only [Bool.and_eq_true, decide_eq_true_eq] at hp
    obtain ⟨⟨hr, hs⟩, hrest⟩ := hp
    obtain ⟨s', hloop, hx⟩ := exists_run _ _
      (fun _ _ => of_decide_eq_true) _ _ _ hrest
    simp only [Bool.and_eq_true, decide_eq_true_eq, Option.isNone_iff_eq_none] at hx
    obtain ⟨⟨hs', hm, haexit⟩, hidle⟩ := hx
    refine ⟨s, s', hrun, hr, hs, fun hP => ?_, hloop, hs', hm, haexit⟩
    rcases hP.1 s' hloop with ⟨-, -, -, hr', -⟩ | ⟨hempty, -⟩
    · rw [hidle] at hr'
      cases hr'
    · rw [hs'] at hempty
      cases hempty
  · obtain ⟨s, hrun, hp⟩ := exists_free_run (.small (some 1)) none evictionCancelled
      (fun s => decide (s.running = some (0, .got (.error .cancelledError)) ∧
        (s.tasks 0).stack.take 4 = [.deactivate .makeRoom ⟨"counter", "x"⟩ (.joining 0 1 []),
          .makeRoom .evicting, .activated ⟨"counter", "y"⟩ .room,
          .dispatchHere ⟨⟨"counter", "y"⟩, "get", 0, 0, some 10⟩ (.activating 1)]) &&
        (execute (step (.small (some 1))) (fun s s' => decide (Above 0 4 s s')) s
          (Label.gos 2 ++ [Label.returns] ++ Label.gos 3 ++ [Label.returns] ++
            Label.gos 3)).any fun s' : State =>
          decide (.activated ⟨"counter", "y"⟩ 1 ∈ s'.trace ∧ .started 1 1 ∈ s'.trace))
      (by decide +kernel)
    simp only [Bool.and_eq_true, decide_eq_true_eq] at hp
    obtain ⟨⟨hr, hs⟩, hrest⟩ := hp
    obtain ⟨s', hserve, hx⟩ := exists_run _ _
      (fun _ _ => of_decide_eq_true) _ _ _ hrest
    exact ⟨s, s', hrun, hr, hs, hserve, of_decide_eq_true hx⟩

end Nigrains
