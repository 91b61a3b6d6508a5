import Nigrains.Outcome

/-!
# The timers of an activation

The coroutine that activates a grain starts its timers and notes them in the activation's
record; `_deactivate` cancels what the record lists, waits for each to end, and clears the
list. So whatever ticks is listed (`Timed.listed`), and a `_deactivate` that has come to the
end of its list has outlived every timer of its activation (`Timed.joined`) : nothing ticks
when `deactivate` starts. This rests on one thing that the coroutines do not see to : that
the activation is not still being built, or timers may be added behind the walk.
-/

namespace Nigrains

section

variable {cfg : Config} {s s' : State} {t : TaskId} {n : Next Frame Outcome}

/-! ## What a segment does to the timers -/

theorem timers_cancel_all (τs : List TaskId) (s : State) (b : ActId) :
    ((τs.foldl State.cancel s).heap b).timers = (s.heap b).timers := by
  rw [heap_cancel_all]

/-- The timers started are the tasks started, and are listed after those there were. -/
theorem timers_startTimers (a : ActId) (s : State) :
    ((s.startTimers t a).heap a).timers = (s.heap a).timers ++
        List.range' s.spawned ((s.startTimers t a).spawned - s.spawned) ∧
      s.spawned ≤ (s.startTimers t a).spawned ∧
      ∀ b ≠ a, (s.startTimers t a).heap b = s.heap b := by
  unfold State.startTimers
  generalize (s.heap a).schedules = schedules
  induction schedules generalizing s with
  | nil => simp
  | cons seconds schedules ih =>
    obtain ⟨hlist, hle, hother⟩ := ih (s.startTimer t a)
    have hspawned : (s.startTimer t a).spawned = s.spawned + 1 := rfl
    have htimers : ((s.startTimer t a).heap a).timers = (s.heap a).timers ++ [s.spawned] := by
      unfold State.startTimer
      rw [heap_modify, if_pos rfl]
      rfl
    rw [htimers, hspawned] at hlist
    rw [hspawned] at hle
    refine ⟨?_, by simp only [List.foldl_cons]; omega, fun b hb => (hother b hb).trans ?_⟩
    · have hrange : ∀ k, s.spawned + 1 ≤ k → [s.spawned] ++ List.range' (s.spawned + 1)
          (k - (s.spawned + 1)) = List.range' s.spawned (k - s.spawned) := by
        intro k hk
        obtain ⟨d, rfl⟩ := Nat.exists_eq_add_of_le hk
        rw [Nat.add_sub_cancel_left, show s.spawned + 1 + d - s.spawned = d + 1 by omega,
          List.range'_succ]
        rfl
      rw [List.foldl_cons, hlist, List.append_assoc, hrange _ hle]
    · unfold State.startTimer
      rw [heap_modify, if_neg hb]
      rfl

/-- The end of `_activated` lists the tasks it has started. -/
theorem hook_timers {c : Choice} {g : GrainId} {a : ActId} {r : Resume Outcome}
    (h : exec cfg s t c (.activated g (.hook a)) r = some (s', n)) :
    (s'.heap a).timers =
      (s.heap a).timers ++ List.range' s.spawned (s'.spawned - s.spawned) := by
  cases r with
  | send => cases h
  | got o =>
    cases o with
    | ok v =>
      cases h
      simp only [State.activate, State.emit, heap_modify, if_true]
      exact (timers_startTimers a s).1
    | error e =>
      cases h
      simp [State.fail, State.modify]

/-- A segment leaves the timers of an activation as they are, unless it activates the
activation, or has come to the end of its list, or builds it. -/
theorem exec_timers {c : Choice} {f : Frame} {r : Resume Outcome}
    (h : exec cfg s t c f r = some (s', n)) (b : ActId) :
    (s'.heap b).timers = (s.heap b).timers ∨ (∃ g, f = .activated g (.hook b)) ∨
    (s'.heap b).timers = [] ∧ ((∃ who g, f = .deactivate who g (.timers b [])) ∨ b = s.built) := by
  cases exec_effect h
  case publishes g grain o hbuild =>
    by_cases hb : b = s.built
    · exact .inr (.inr ⟨by simp [State.publish, hb, Activation.new], .inr hb⟩)
    · exact .inl (congrArg _ (Function.update_of_ne hb _ _))
  case activates g a o =>
    by_cases hb : b = a
    · exact .inr (.inl ⟨g, by rw [hb]⟩)
    · left
      simp only [State.activate, State.emit, heap_modify, if_neg hb]
      exact congrArg _ ((timers_startTimers a s).2.2 b hb)
  case deactivates who g a =>
    simp only [State.emit, heap_modify]
    split_ifs with hb
    · exact .inr (.inr ⟨rfl, .inl ⟨who, g, by rw [hb]⟩⟩)
    · exact .inl rfl
  case takes who g a hentry => exact .inl (timers_cancel_all _ (s.take who g a) b)
  case begins => exact .inl (congrArg (fun h => (h b).timers) heap_startBackground)
  all_goals
    left
    first
      | rfl
      | (simp only [State.enter, State.leave, State.setLock, State.fail, State.tick, State.tock,
           State.emit, heap_modify]
         split_ifs <;> simp_all)

/-! ## What ticks is listed -/

/-- Nothing that has been taken out is still being built. -/
def Settled (s : State) : Prop :=
  ∀ who a, .down who a ∈ s.view.pending → ¬ s.view.building a

/-- The timers a `_deactivate` has walked past have ended. -/
def Frame.Joins (s : State) : Frame → Prop
  | .deactivate _ _ (.timers a rest) => ∀ u ∈ (s.heap a).timers, u ∈ rest ∨ s.ended u = true
  | .deactivate _ _ (.joining a τ rest) =>
    ∀ u ∈ (s.heap a).timers, u ∈ τ :: rest ∨ s.ended u = true
  | _ => True

/-- The timers of an activation are tasks, and whatever ticks is one of them; a
`_deactivate` has outlived those it has walked past. -/
structure Timed (s : State) : Prop where
  spawned : ∀ a, ∀ u ∈ (s.heap a).timers, u < s.spawned
  listed : ∀ u a pc, .tick a pc ∈ (s.tasks u).stack → u ∈ (s.heap a).timers
  joined : ∀ v f, f ∈ (s.tasks v).stack → f.Joins s

theorem timed_init (isMine : Option (GrainId → Bool)) : Timed (.init isMine) where
  spawned _ _ h := by cases h
  listed _ _ _ h := by cases h
  joined _ _ h := by cases h

/-- A step ends no task's number. -/
theorem spawned_le_step {l : Label} (h : step cfg s l = some s') : s.spawned ≤ s'.spawned := by
  rcases step_cases h with ⟨t, r, f, rest, c, s1, n, hr, hs, he, rfl⟩ |
    ⟨t, r, f, rest, hr, ht, hs, hf, rfl⟩ | ⟨t, i, call, saved, hr, hs, hdue, rfl⟩ | hw
  · rw [Loop.spawned_land]
    exact (exec_starts he).spawned_le
  · exact le_rfl
  · exact (Loop.spawned_cancel (s.toLoop.setTask t _) t).ge
  · exact hw.keeps.spawned_le

/-- `_deactivate` walks past a timer only when it has ended. -/
theorem deactivate_joins {s2 : State} {who : Remover} {g : GrainId} {pc : DeactivateAt}
    {r : Resume Outcome} {f' : Frame} (h : deactivate s who g pc r = some (s', n))
    (hf' : f' ∈ n.frames) (hr : Ready s (.deactivate who g pc) r)
    (hj : Frame.Joins s (.deactivate who g pc)) (hheap : s2.heap = s'.heap)
    (hend : ∀ a, ∀ u ∈ (s.heap a).timers, s.ended u = true → s2.ended u = true) :
    f'.Joins s2 := by
  have walked (a : ActId) (τ : TaskId) (rest : List TaskId) (hτ : s.ended τ = true)
      (hj : ∀ u ∈ (s.heap a).timers, u ∈ τ :: rest ∨ s.ended u = true) (u : TaskId)
      (hu : u ∈ (s.heap a).timers) : u ∈ rest ∨ s2.ended u = true := by
    rcases hj u hu with hm | he
    · rcases List.mem_cons.1 hm with rfl | hm
      · exact .inr (hend a u hu hτ)
      · exact .inl hm
    · exact .inr (hend a u hu he)
  unfold deactivate at h
  split at h
  · split at h
    · cases h
      cases hf'
    · next a _ =>
      cases h
      obtain rfl : f' = .deactivate who g (.timers a (s.heap a).timers) := by
        simpa [Next.frames] using hf'
      intro u hu
      rw [hheap, heap_cancel_all] at hu
      exact .inl hu
  · next a =>
    cases h
    have hf' : f' = .user (.deactivate a) ∨ f' = .deactivate who g (.hook a) := by
      simpa [Next.frames] using hf'
    rcases hf' with rfl | rfl <;> trivial
  · next a τ rest =>
    have hj' : ∀ u ∈ (s2.heap a).timers, s' = s → u ∈ τ :: rest ∨ s2.ended u = true := by
      rintro u hu rfl
      rw [hheap] at hu
      exact (hj u hu).imp_right (hend a u hu)
    split_ifs at h <;> cases h
    · obtain rfl : f' = .deactivate who g (.joining a τ rest) := by simpa [Next.frames] using hf'
      exact fun u hu => hj' u hu rfl
    · obtain rfl : f' = .deactivate who g (.joining a τ rest) := by simpa [Next.frames] using hf'
      exact fun u hu => hj' u hu rfl
  · next a τ rest =>
    split at h <;> cases h
    · obtain rfl : f' = .deactivate who g (.timers a rest) := by simpa [Next.frames] using hf'
      intro u hu
      rw [hheap] at hu
      exact walked a τ rest hr hj u hu
    · cases hf'
  · next a τ rest e =>
    cases h
    obtain rfl : f' = .deactivate who g (.timers a rest) := by simpa [Next.frames] using hf'
    intro u hu
    rw [hheap] at hu
    exact walked a τ rest hr hj u hu
  all_goals
    try split_ifs at h
    all_goals
      cases h
      try cases hf'

/-- A step leaves the timers of an activation, adds those it has started, or drops them :
all have ended then, or there were none. -/
theorem Timed.step_timers {l : Label} (hI : Reached s) (hT : Timed s)
    (h : step cfg s l = some s') (b : ActId) :
    (s'.heap b).timers = (s.heap b).timers ∨
    (∃ g, .build g b ∈ s.view.pending) ∧ (s'.heap b).timers =
      (s.heap b).timers ++ List.range' s.spawned (s'.spawned - s.spawned) ∨
    (s'.heap b).timers = [] ∧ (b < s.built → ∀ u ∈ (s.heap b).timers, s.ended u = true) := by
  rcases step_cases h with ⟨t, r, f, rest, c, s1, n, hr, hs, he, rfl⟩ |
    ⟨t, r, f, rest, hr, ht, hs, hf, rfl⟩ | ⟨t, i, call, saved, hr, hs, hdue, rfl⟩ | hw
  · have htop : f ∈ (s.tasks t).stack := by
      rw [hs]
      exact List.mem_cons_self
    rcases exec_timers he b with hsame | ⟨g, rfl⟩ | ⟨hnil, ⟨who, g, rfl⟩ | hb⟩
    · exact .inl hsame
    · refine .inr (.inl ⟨⟨g, hI.nested.mem_pending htop (Multiset.mem_singleton_self _)⟩, ?_⟩)
      rw [Loop.spawned_land]
      exact hook_timers he
    · refine .inr (.inr ⟨hnil, fun _ u hu => ?_⟩)
      exact (hT.joined t _ htop u hu).resolve_left List.not_mem_nil
    · exact .inr (.inr ⟨hnil, fun hlt => absurd hb hlt.ne⟩)
  · exact .inl rfl
  · exact .inl rfl
  · exact .inl (by rw [hw.heap])

namespace Timed

variable {l : Label} (hI : Reached s) (hset : Settled s) (hT : Timed s)
  (h : Nigrains.step cfg s l = some s')

include hI hT h

theorem step_spawned {a : ActId} {u : TaskId} (hu : u ∈ (s'.heap a).timers) : u < s'.spawned := by
  have hle := spawned_le_step h
  rcases hT.step_timers hI h a with hsame | ⟨-, hadd⟩ | ⟨hnil, -⟩
  · rw [hsame] at hu
    exact (hT.spawned a u hu).trans_le hle
  · rw [hadd, List.mem_append, List.mem_range'_1] at hu
    rcases hu with hu | hu
    · exact (hT.spawned a u hu).trans_le hle
    · exact hu.2.trans_eq (Nat.add_sub_of_le hle)
  · rw [hnil] at hu
    cases hu

theorem step_listed {u : TaskId} {a : ActId} {pc : TickAt}
    (hu : .tick a pc ∈ (s'.tasks u).stack) : u ∈ (s'.heap a).timers := by
  -- a task that ticks has not ended, so its timer is not dropped
  have keep (v : TaskId) (f : Frame) (hf : f ∈ (s.tasks v).stack) (a : ActId) (pc : TickAt)
      (he : f = .tick a pc) : v ∈ (s'.heap a).timers := by
    subst he
    have hv := hT.listed v a pc hf
    rcases hT.step_timers hI h a with hsame | ⟨-, hadd⟩ | ⟨-, hend⟩
    · rwa [hsame]
    · rw [hadd]
      exact List.mem_append_left _ hv
    · have hnil := List.isEmpty_iff.1 (hend (hI.ticking v a pc hf) v hv)
      rw [hnil] at hf
      cases hf
  refine frames_step (Φ := fun v f => f ∈ (s.tasks v).stack)
    (Ψ := fun v f => ∀ a pc, f = .tick a pc → v ∈ (s'.heap a).timers) h (fun _ _ hf => hf) keep
    ?_ ?_ ?_ u _ hu a pc rfl
  · rintro t r f rest c s1 n hr hs he rfl
    refine ⟨fun f' hf' a pc htick => ?_, fun v f' hv hv' hstart a pc htick => ?_⟩
    · subst htick
      obtain ⟨pc', rfl⟩ := exec_ticks he hf'
      exact keep t _ (by rw [hs]; exact List.mem_cons_self) a pc' rfl
    · subst htick
      cases pc with
      | start =>
        obtain ⟨g, rfl⟩ := (hstart.2 a).1 rfl
        have hlist := hook_timers he
        rw [hlist, List.mem_append, List.mem_range'_1]
        omega
      | sleeping | working => exact hstart.1.elim
  · rintro v f hf a pc rfl
    exact hf.elim
  · rintro v call saved - - a pc he
    cases he

include hset in
theorem step_joined (v : TaskId) (f : Frame) (hf : f ∈ (s'.tasks v).stack) : f.Joins s' := by
  have ended (a : ActId) (u : TaskId) (hu : u ∈ (s.heap a).timers) (he : s.ended u = true) :
      s'.ended u = true :=
    ended_step h (hT.spawned a u hu) he
  -- what is being taken out is not being built, so no timer is added behind the walk
  have shrinks (a : ActId) (who : Remover) (hdown : .down who a ∈ s.pending) (u : TaskId)
      (hu : u ∈ (s'.heap a).timers) : u ∈ (s.heap a).timers := by
    rcases hT.step_timers hI h a with hsame | ⟨hb, -⟩ | ⟨hnil, -⟩
    · rwa [hsame] at hu
    · exact (hset who a hdown hb).elim
    · rw [hnil] at hu
      cases hu
  have keep (f : Frame) (v : TaskId) (hf : f ∈ (s.tasks v).stack) (hj : f.Joins s) :
      f.Joins s' := by
    unfold Frame.Joins at hj ⊢
    split <;> try trivial
    · next who g a rest =>
      intro u hu
      have hu := shrinks a who
        (hI.nested.mem_pending hf (Multiset.mem_singleton_self _)) u hu
      exact (hj u hu).imp_right (ended a u hu)
    · next who g a τ rest =>
      intro u hu
      have hu := shrinks a who
        (hI.nested.mem_pending hf (Multiset.mem_singleton_self _)) u hu
      exact (hj u hu).imp_right (ended a u hu)
  refine frames_step (Φ := fun v f => f ∈ (s.tasks v).stack ∧ f.Joins s)
    (Ψ := fun _ f => f.Joins s') h (fun v f hf => ⟨hf, hT.joined v f hf⟩)
    (fun v f hf => keep f v hf.1 hf.2) ?_ ?_ ?_ v f hf
  · rintro t r f rest c s1 n hr hs he rfl
    have htop : f ∈ (s.tasks t).stack := by
      rw [hs]
      exact List.mem_cons_self
    refine ⟨fun f' hf' => ?_, fun _ f' _ _ hf' => ?_⟩
    · rcases exec_left he hf' with hentry | hcalled
      · cases f
        case deactivate who g pc =>
          exact deactivate_joins he hf' (hI.asserted t r _ rest hr hs) (hT.joined t _ htop) rfl
            ended
        all_goals
          cases f' <;> simp [Frame.entry] at hentry
          all_goals trivial
      · unfold Frame.called Frame.entry at hcalled
        unfold Frame.Joins
        split <;> simp_all
    · have hfresh := hf'.1
      unfold Frame.fresh at hfresh
      unfold Frame.Joins
      split <;> simp_all
  · rintro v f hf
    unfold Frame.hosted at hf
    unfold Frame.Joins
    split <;> simp_all
  · exact fun _ _ _ _ _ => trivial

include hset in
theorem step : Timed s' :=
  ⟨fun _ _ => hT.step_spawned hI h, fun _ _ _ => hT.step_listed hI h, hT.step_joined hI hset h⟩

end Timed

end

end Nigrains
