import Nigrains.Deadlines
import Nigrains.Timers

/-!
# How timers end

What `_deactivate` waits for are timers (`TimersTick.joined`), and a timer that has ended has
been cancelled or has raised what `except Exception` does not catch (`Ticker`). So what
`_deactivate` passes on from a timer is never a `TimeoutError`.
-/

namespace Nigrains

section

variable {cfg : Config} {s s' : State} {t : TaskId} {n : Next Frame Outcome}

/-- The timers a `_deactivate` has still to outlive. -/
def Frame.joins : Frame → List TaskId
  | .deactivate _ _ (.timers _ rest) => rest
  | .deactivate _ _ (.joining _ τ rest) => τ :: rest
  | _ => []

/-- A task that ticks, or that has ended otherwise than with a `TimeoutError`. -/
def Ticker (s : State) (u : TaskId) : Prop :=
  (∃ a pc, (s.tasks u).stack.getLast? = some (.tick a pc)) ∨
  (s.tasks u).stack = [] ∧ ∀ e, (s.tasks u).result = some (.error e) → e.isTimeout = false

/-- A tick goes on ticking, or ends with what no `except Exception` catches. -/
theorem tick_ticks {a : ActId} {pc : TickAt} {r : Resume Outcome}
    (hr : ∀ e, r = .got (.error e) → pc ≠ .working → e = .cancelledError)
    (h : tick s a pc r = some (s', n)) :
    (∃ pc', n.frames.getLast? = some (.tick a pc')) ∨
      ∃ o, n = .done o ∧ ∀ e, o = .error e → e.isTimeout = false := by
  have interrupt (hpc : pc ≠ .working) (h : interrupted s r = some (s', n)) :
      ∃ o, n = .done o ∧ ∀ e, o = .error e → e.isTimeout = false := by
    cases r with
    | send => cases h
    | got o =>
      cases o with
      | ok v => cases h
      | error e =>
        cases h
        refine ⟨_, rfl, fun e' he => ?_⟩
        cases he
        rw [hr e rfl hpc]
        rfl
  unfold tick at h
  split at h
  · cases h
    exact .inl ⟨_, rfl⟩
  · cases h
    exact .inl ⟨_, rfl⟩
  · next e =>
    split_ifs at h with hexc <;> cases h
    · exact .inl ⟨_, rfl⟩
    · refine .inr ⟨_, rfl, fun e' he => ?_⟩
      cases he
      by_contra htime
      exact hexc (Exc.isException_of_isTimeout (by simpa using htime))
  · cases h
    exact .inl ⟨_, rfl⟩
  · cases h
  · next hsend hsleep _ _ _ =>
    refine .inr (interrupt ?_ h)
    rintro rfl
    cases r with
    | send => simp_all
    | got o => cases o <;> simp_all

theorem Ticker.keeps {fresh : Frame → Prop} (hk : Loop.Keeps fresh s.toLoop s'.toLoop)
    {u : TaskId} (hu : u < s.spawned) (ht : Ticker s u) : Ticker s' u := by
  unfold Ticker
  rw [hk.stack_eq u (.inl hu), hk.result_eq u hu]
  exact ht

theorem Ticker.land {u : TaskId} {rest : List Frame} (ht : Ticker s u) (hu : u ≠ t) :
    Ticker { s with toLoop := s.toLoop.land t rest n } u := by
  unfold Ticker
  rw [Loop.stack_land _ hu, Loop.result_land _ hu]
  exact ht

theorem getLast?_append_cons (fs : List Frame) (p : Frame) (rest : List Frame) :
    (fs ++ p :: rest).getLast? = (p :: rest).getLast? := by
  rw [List.getLast?_append]
  simp [List.getLast?_cons]

theorem result_runTask (r : Resume Outcome) (u : TaskId) :
    ((s.runTask t r).tasks u).result = (s.tasks u).result := by
  by_cases hu : u = t
  · subst hu
    simp [State.runTask, Loop.setTask]
  · simp [State.runTask, Loop.setTask, Function.update_of_ne hu]

theorem result_expireTask (i : ℕ) (call : Call) (saved : ℕ) (u : TaskId) :
    ((s.expireTask t i call saved).tasks u).result = (s.tasks u).result := by
  refine (Loop.result_cancel _ t u).trans ?_
  by_cases hu : u = t
  · subst hu
    simp [Loop.setTask]
  · simp [Loop.setTask, Function.update_of_ne hu]

/-- A timer goes on being one, or has ended. -/
theorem Ticker.step {l : Label} (hC : Clocked s) {u : TaskId} (hu : u < s.spawned)
    (ht : Ticker s u) (h : step cfg s l = some s') : Ticker s' u := by
  rcases step_cases h with ⟨t, r, f, rest, c, s1, n, hr, hs, he, rfl⟩ |
    ⟨t, r, f, rest, hr, ht', hs, hf, rfl⟩ | ⟨t, i, call, saved, hr, hs, hdue, rfl⟩ | hw
  · by_cases hut : u = t
    · subst hut
      rcases ht with ⟨a, pc, hlast⟩ | ⟨hnil, -⟩
      · cases rest with
        | cons p rest =>
          refine .inl ⟨a, pc, ?_⟩
          rw [Loop.stack_land_self, getLast?_append_cons]
          rw [hs] at hlast
          simpa [List.getLast?_cons_cons] using hlast
        | nil =>
          obtain rfl : f = .tick a pc := by simpa [hs] using hlast
          have hinterrupt : ∀ e, r = .got (.error e) → pc ≠ .working → e = .cancelledError := by
            rintro e rfl hpc
            have hnone : ∀ f', below (some (.tick a pc)) f' = false := by
              intro f'
              unfold below calls
              cases pc <;> simp_all
            have := hC.interrupted u _ _ _ hr hs hnone
            simpa using this
          rcases tick_ticks hinterrupt he with ⟨pc', hlast'⟩ | ⟨o, rfl, ho⟩
          · refine .inl ⟨a, pc', ?_⟩
            rw [Loop.stack_land_self, List.append_nil]
            exact hlast'
          · refine .inr ⟨Loop.stack_land_self s1.toLoop u [] (.done o), fun e hres => ho e ?_⟩
            simpa [Loop.land, Loop.setTask] using hres
      · rw [hs] at hnil
        cases hnil
    · exact (ht.keeps (exec_keeps he) hu).land hut
  · unfold Ticker
    rw [stack_runTask, result_runTask]
    exact ht
  · unfold Ticker
    rw [stack_expireTask, result_expireTask]
    split_ifs with hut
    · subst hut
      rcases ht with ⟨a, pc, hlast⟩ | ⟨hnil, -⟩
      · refine .inl ⟨a, pc, ?_⟩
        rw [List.getLast?_eq_getElem?] at hlast ⊢
        rw [List.length_set, List.getElem?_set]
        split_ifs with hi hlt
        · rw [← hi, hs] at hlast
          cases hlast
        · rw [← hi, hs] at hlast
          cases hlast
        · exact hlast
      · rw [hnil] at hs
        simp at hs
    · exact ht
  · exact ht.keeps hw.keeps hu

/-- What `_deactivate` waits for, and will wait for, are timers. -/
structure TimersTick (s : State) : Prop where
  listed : ∀ a, ∀ u ∈ (s.heap a).timers, u < s.spawned ∧ Ticker s u
  joined : ∀ v f, f ∈ (s.tasks v).stack → ∀ u ∈ f.joins, u < s.spawned ∧ Ticker s u

/-- What a `_deactivate` waits for it has found on the list, or waited for before. -/
theorem exec_joins {c : Choice} {f f' : Frame} {r : Resume Outcome}
    (h : exec cfg s t c f r = some (s', n)) (hf' : f' ∈ n.frames) {u : TaskId}
    (hu : u ∈ f'.joins) : u ∈ f.joins ∨ ∃ a, u ∈ (s.heap a).timers := by
  rcases exec_left h hf' with hentry | hcalled
  · cases f
    case deactivate who g pc =>
      simp only [exec] at h
      unfold deactivate at h
      repeat' split at h
      all_goals
        first
          | contradiction
          | (cases h
             simp only [Next.frames, List.mem_cons, List.not_mem_nil, or_false] at hf'
             first
              | done
              | (subst hf'
                 first
                  | exact .inl hu
                  | exact .inr ⟨_, hu⟩
                  | exact .inl (List.mem_cons_of_mem _ hu))
              | (rcases hf' with rfl | rfl <;> cases hu))
    all_goals
      cases f' <;> simp [Frame.entry] at hentry
      all_goals cases hu
  · unfold Frame.called Frame.entry at hcalled
    unfold Frame.joins at hu
    split at hu <;> simp_all

theorem joins_of_new {f : Frame} (h : f.fresh ∨ f.hosted) : f.joins = [] := by
  unfold Frame.fresh Frame.hosted at h
  unfold Frame.joins
  split <;> simp_all

theorem TimersTick.step {l : Label} (hC : Clocked s) (hT : TimersTick s)
    (h : step cfg s l = some s') : TimersTick s' := by
  have hle := spawned_le_step h
  have keep {u : TaskId} (hu : u < s.spawned ∧ Ticker s u) : u < s'.spawned ∧ Ticker s' u :=
    ⟨hu.1.trans_le hle, hu.2.step hC hu.1 h⟩
  refine ⟨fun a u hu => ?_, ?_⟩
  · rcases step_cases h with ⟨t, r, f, rest, c, s1, n, hr, hs, he, rfl⟩ |
      ⟨t, r, f, rest, hr, ht, hs, hf, rfl⟩ | ⟨t, i, call, saved, hr, hs, hdue, rfl⟩ | hw
    · rcases exec_timers he a with hsame | ⟨g, rfl⟩ | ⟨hnil, -⟩
      · exact keep (hT.listed a u (hsame ▸ hu))
      · have hlist := hook_timers he
        rw [show (s1.heap a).timers = _ from hlist, List.mem_append, List.mem_range'_1] at hu
        rcases hu with hu | ⟨hge, hlt⟩
        · exact keep (hT.listed a u hu)
        · -- what the end of `_activated` starts, ticks
          have hk := exec_starts he
          have hlt : u < s1.spawned := hlt.trans_eq (Nat.add_sub_of_le hk.spawned_le)
          obtain ⟨f', hstarts, hstack⟩ := hk.stack_new u hge hlt
          obtain rfl := (hstarts.2 a).2 ⟨g, rfl⟩
          have hut : u ≠ t := ((hC.reached.nested.running t r hr).1.trans_le hge).ne'
          refine ⟨hlt.trans_eq (Loop.spawned_land s1.toLoop t rest n).symm,
            .inl ⟨a, .start, ?_⟩⟩
          rw [Loop.stack_land _ hut, hstack]
          rfl
      · rw [show (s1.heap a).timers = [] from hnil] at hu
        cases hu
    · exact keep (hT.listed a u hu)
    · exact keep (hT.listed a u hu)
    · rw [hw.heap] at hu
      exact keep (hT.listed a u hu)
  · refine frames_step (Φ := fun _ f => ∀ u ∈ f.joins, u < s.spawned ∧ Ticker s u)
      (Ψ := fun _ f => ∀ u ∈ f.joins, u < s'.spawned ∧ Ticker s' u) h hT.joined ?_ ?_ ?_ ?_
    · exact fun _ f hf u hu => keep (hf u hu)
    · rintro t r f rest c s1 n hr hs he -
      have htop : f ∈ (s.tasks t).stack := by
        rw [hs]
        exact List.mem_cons_self
      refine ⟨fun f' hf' u hu => ?_, fun _ f' _ _ hf' u hu => ?_⟩
      · rcases exec_joins he hf' hu with hu | ⟨a, hu⟩
        · exact keep (hT.joined t f htop u hu)
        · exact keep (hT.listed a u hu)
      · rw [joins_of_new (.inl hf'.1)] at hu
        cases hu
    · intro _ f hf u hu
      rw [joins_of_new (.inr hf)] at hu
      cases hu
    · rintro _ call saved - - u hu
      cases hu

end

end Nigrains
