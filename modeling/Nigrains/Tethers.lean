import Nigrains.Leaving
import Nigrains.Readiness

/-!
# Timers that end with their activation

A timer is cancelled by the one `_deactivate` that takes its activation out, which then waits
for it to end. So a timer that is at work belongs to an activation in the table, or to one that
a `_deactivate` is still walking the timers of (`Tethered`), as long as no activation leaves the
table otherwise : by being overwritten, or by being taken out before its timers are there. A
`_deactivate` that a timer ends by raising leaves the timers after it unawaited.
-/

set_option linter.unusedSectionVars false

namespace Nigrains

namespace Protocol

variable {P P' : Protocol} {e : Event} {a : ActId}

/-- An activation is entered where none stands and taken out when it is ready, and no timer ends
a `_deactivate`. -/
def KeepsTimers (P : Protocol) : Event → Prop
  | .published g _ _ => P.entry g = none
  | .taken _ _ a => (P.life a).ready = false
  | .abandoned .. => False
  | _ => True

instance : Decidable (P.KeepsTimers e) :=
  decidableOr (match e with
    | .published .. => some (inferInstanceAs (Decidable (_ = _)))
    | .taken .. => some (inferInstanceAs (Decidable (_ = _)))
    | .abandoned .. => some (.isFalse id)
    | _ => none) (by cases e <;> simp [KeepsTimers])

/-- What is being built stands in the table, and what has been taken out is not being built. -/
structure Placed (P : Protocol) : Prop where
  build_entry : ∀ g a, .build g a ∈ P.pending → P.entry g = some a
  settled : ∀ who a, .down who a ∈ P.pending → ¬ P.building a

theorem placed_init : Placed init where
  build_entry _ _ h := absurd h (Multiset.notMem_zero _)
  settled _ _ h := absurd h (Multiset.notMem_zero _)

namespace Placed

variable (hP : Placed P) (hs : Sound P) (hc : P.KeepsTimers e) (h : Step P e P')

include hP hs hc h

theorem step_build_entry (g : GrainId) (b : ActId) (hb : .build g b ∈ P'.pending) :
    P'.entry g = some b := by
  rw [h.entry_eq g]
  rcases h.build_of hb with hold | ⟨⟨old, rfl⟩, rfl⟩
  · have hentry := hP.build_entry g b hold
    cases e with
    | published g' c old =>
      dsimp only [Event.entry]
      split_ifs with hgg
      · subst hgg
        exact absurd (hc.symm.trans hentry) nofun
      · exact hentry
    | failed g' c x popped =>
      dsimp only [Event.entry]
      split_ifs with hgg
      · subst hgg
        have hc' := hP.build_entry g c (h.takes_mem rfl)
        obtain rfl := Option.some.inj (hentry.symm.trans hc')
        exact (hs.step_not_building h rfl ⟨g, hb⟩).elim
      · exact hentry
    | taken who g' c =>
      dsimp only [Event.entry]
      split_ifs with hgg
      · subst hgg
        cases h with
        | taken _ he _ _ =>
          obtain rfl := Option.some.inj (hentry.symm.trans he)
          exact (hs.not_building (hs.entry_lt g b he) hc ⟨g, hold⟩).elim
      · exact hentry
    | _ => exact hentry
  · exact if_pos rfl

theorem step_settled (who : Remover) (b : ActId) (hd : .down who b ∈ P'.pending) :
    ¬ P'.building b := by
  rcases h.mem_pending hd with hold | hg
  · exact h.not_building_of_not (hs.about_lt _ hold b rfl) (hP.settled who b hold)
  · obtain ⟨g, rfl⟩ : ∃ g, e = .taken who g b := by
      cases h <;> cases hg
      exact ⟨_, rfl⟩
    have hlt : b < P.built := by
      cases h with
      | taken _ he _ _ => exact hs.entry_lt g b he
    exact h.not_building_of_not hlt (hs.not_building hlt hc)

theorem step : Placed P' :=
  ⟨hP.step_build_entry hs hc h, hP.step_settled hs hc h⟩

end Placed

/-- The activation is in the table, or has been taken out and waits for its timers. -/
def Tethered (P : Protocol) (a : ActId) : Prop :=
  (∃ g, P.entry g = some a) ∨ ∃ who, .down who a ∈ P.pending

/-- An activation that is ready stays tethered, until its `_deactivate` has waited for its
timers. -/
theorem Tethered.step (ht : P.Tethered a) (hP : Placed P) (hs : Sound P) (hc : P.KeepsTimers e)
    (hr : (P.life a).ready = false) (h : Step P e P') :
    P'.Tethered a ∨ ∃ who, e = .deactivating who a := by
  rcases ht with ⟨g, hg⟩ | ⟨who, hdown⟩
  · have hnot : ¬ P.building a := hs.not_building (hs.entry_lt g a hg) hr
    have keep (he : e.entry P.entry g = some a) : P'.Tethered a ∨ ∃ who, e = .deactivating who a :=
      .inl (.inl ⟨g, (h.entry_eq g).trans he⟩)
    cases e with
    | published g' b old =>
      refine keep ?_
      dsimp only [Event.entry]
      rw [if_neg, hg]
      rintro rfl
      exact absurd (hc.symm.trans hg) nofun
    | failed g' b x popped =>
      refine keep ?_
      dsimp only [Event.entry]
      rw [if_neg, hg]
      rintro rfl
      -- what fails is what stands there, and that is still being built
      have hb := h.takes_mem (x := .build g b) rfl
      obtain rfl := Option.some.inj (hg.symm.trans (hP.build_entry g b hb))
      exact hnot ⟨g, hb⟩
    | taken who g' b =>
      by_cases hgg : g = g'
      · subst hgg
        have hmem := h.gives_mem (x := .down who b) rfl
        cases h with
        | taken _ he _ _ =>
          obtain rfl := Option.some.inj (hg.symm.trans he)
          exact .inl (.inr ⟨who, hmem⟩)
      · refine keep ?_
        dsimp only [Event.entry]
        rw [if_neg hgg, hg]
    | _ => exact keep hg
  · rcases h.pending_mem hdown with hmem | htakes
    · exact .inl (.inr ⟨who, hmem⟩)
    · cases e <;> simp [Event.takes] at htakes
      · obtain ⟨rfl, rfl⟩ := htakes
        exact .inr ⟨_, rfl⟩
      · exact hc.elim

end Protocol

section

variable {cfg : Config} {isMine : Option (GrainId → Bool)} {s s' : State} {l : Label}

/-- What holds of the timers in every run that keeps them. -/
structure Tied (s : State) : Prop where
  reached : Reached s
  placed : s.view.Placed
  timed : Timed s
  ready : TimersReady s
  tethered : ∀ u a pc, .tick a pc ∈ (s.tasks u).stack → s.view.Tethered a

theorem tied_init (isMine : Option (GrainId → Bool)) : Tied (.init isMine) where
  reached := reached_init isMine
  placed := view_init isMine ▸ Protocol.placed_init
  timed := timed_init isMine
  ready := timersReady_init isMine
  tethered _ _ _ h := by cases h

/-- `_deactivate` comes to the hook when all the timers of the activation have ended. -/
theorem Timed.not_tick (hT : Timed s) (h : Nigrains.step cfg s l = some s') {who : Remover}
    {a : ActId}
    (he : s'.trace = .deactivating who a :: s.trace) (u : TaskId) (pc : TickAt) :
    .tick a pc ∉ (s.tasks u).stack := by
  intro hu
  obtain ⟨t, r, f, rest, c, s1, n, -, hs, -, -, hlogs⟩ := step_logs h he
  obtain ⟨g, rfl⟩ : ∃ g, f = .deactivate who g (.timers a []) := by
    cases hlogs
    exact ⟨_, rfl⟩
  have hjoined : ∀ v ∈ (s.heap a).timers, v ∈ [] ∨ s.ended v = true :=
    hT.joined t (.deactivate who g (.timers a [])) (by rw [hs]; exact List.mem_cons_self)
  have hended := (hjoined u (hT.listed u a pc hu)).resolve_left List.not_mem_nil
  rw [List.isEmpty_iff.1 hended] at hu
  cases hu

namespace Tied

variable (hT : Tied s) (hok : Logs State.trace (fun s => s.view.KeepsTimers) s s')
  (h : Nigrains.step cfg s l = some s')

include hT hok h

/-- What ticks stays tethered. -/
theorem keep_tethered (u : TaskId) (a : ActId) (pc : TickAt)
    (hu : .tick a pc ∈ (s.tasks u).stack) : s'.view.Tethered a := by
  have ht := hT.tethered u a pc hu
  rcases hT.reached.step_view h with hv | ⟨e, hv⟩
  · rw [hv]
    exact ht
  · rcases ht.step hT.placed hT.reached.sound (hok e hv.trace) (hT.ready u a pc hu) hv with
      ht | ⟨who, rfl⟩
    · exact ht
    · exact (hT.timed.not_tick h hv.trace u pc hu).elim

/-- Timers are started for an activation that stands in the table. -/
theorem hook_tethered {t : TaskId} {g : GrainId} {a : ActId} {rest : List Frame}
    (hs : (s.tasks t).stack = .activated g (.hook a) :: rest)
    (hready : (s'.heap a).ready = false) : s'.view.Tethered a := by
  have hbuild : .build g a ∈ s.view.pending :=
    hT.reached.nested.mem_pending (by rw [hs]; exact List.mem_cons_self)
      (Multiset.mem_singleton_self _)
  have hlt := hT.reached.sound.about_lt _ hbuild a rfl
  have hentry := hT.placed.build_entry g a hbuild
  have hnot (hr : (s.view.life a).ready = false) : False :=
    hT.reached.sound.not_building hlt hr ⟨g, hbuild⟩
  rcases hT.reached.step_view h with hv | ⟨e, hv⟩
  · exact (hnot ((congrArg Life.ready (congrFun (congrArg Protocol.life hv) a)).symm.trans
      hready)).elim
  · rcases hv.ready_of_false (hlt.trans_le hv.built_le) hready with ⟨g', rfl⟩ | ⟨-, hr⟩
    · exact .inl ⟨g, (hv.entry_eq g).trans hentry⟩
    · exact (hnot hr).elim

theorem step_tethered (u : TaskId) (a : ActId) (pc : TickAt)
    (hu : .tick a pc ∈ (s'.tasks u).stack) : s'.view.Tethered a := by
  refine frames_step (Φ := fun u f => f ∈ (s.tasks u).stack)
    (Ψ := fun _ f => ∀ a pc, f = .tick a pc → s'.view.Tethered a) h (fun _ _ hf => hf)
    (fun u f hf a pc he => hT.keep_tethered hok h u a pc (he ▸ hf)) ?_ ?_ ?_ u _ hu a pc rfl
  · rintro t r f rest c s1 n hr hs he hs'
    refine ⟨fun f' hf' a pc htick => ?_, fun v f' hv hv' hstart a pc htick => ?_⟩
    · subst htick
      obtain ⟨pc', rfl⟩ := exec_ticks he hf'
      exact hT.keep_tethered hok h t a pc' (by rw [hs]; exact List.mem_cons_self)
    · subst htick
      cases pc with
      | start =>
        obtain ⟨g, rfl⟩ := (hstart.2 a).1 rfl
        have hready := hook_ready he (hv.trans_lt hv')
        exact hT.hook_tethered hok h hs (by rw [hs']; exact hready)
      | sleeping | working => exact hstart.1.elim
  · rintro v f hf a pc rfl
    exact hf.elim
  · rintro v call saved - - a pc he
    cases he

theorem step : Tied s' where
  reached := hT.reached.step h
  placed := by
    rcases hT.reached.step_view h with hv | ⟨e, hv⟩
    · rw [hv]
      exact hT.placed
    · exact hT.placed.step hT.reached.sound (hok e hv.trace) hv
  timed := hT.timed.step hT.reached hT.placed.settled h
  ready := hT.ready.step hT.reached h
  tethered := hT.step_tethered hok h

end Tied

/-- While activations are entered where none stands and taken out when they are ready, and no
timer ends a `_deactivate`, a timer that has not ended is of an activation that stands in the
table, or whose `_deactivate` is in progress. -/
theorem timers_tethered
    (h : Run (step cfg) (Logs State.trace fun s => s.view.KeepsTimers) (.init isMine) s)
    {u : TaskId} {a : ActId} {pc : TickAt} (hu : .tick a pc ∈ (s.tasks u).stack) :
    (∃ g, s.activations.get g = some a) ∨
      ∃ who, .down who a ∈ s.pending ∨ .closing who a ∈ s.pending := by
  have hT : Tied s := h.invariant (tied_init isMine) fun _ _ _ hT hl hok => hT.step hok hl
  rcases hT.tethered u a pc hu with hg | ⟨who, hdown⟩
  · exact .inl hg
  · exact .inr ⟨who, .inl hdown⟩

/-! ## Runs on fixed inputs -/

/-- A grain asks for a timer in its `activate`, and is collected later : its timer is being
cancelled. -/
def timerCollected : List Label :=
  [.arrive, .resume 0] ++ Label.invoke ⟨"counter", "x"⟩ ++ Label.gos 2 ++
  [.run (.every 5), Label.returns] ++ Label.gos 3 ++ [Label.returns] ++ Label.gos 1 ++
  [.run .suspend, .resume 1, .run .go, .clock 300, .resume 0, .run .collect] ++ Label.gos 4

/-- Its timer has not ended yet. -/
theorem timers_tethered_collected : ∃ s : State,
    .tick 0 .sleeping ∈ (s.tasks 1).stack ∧ (∀ g, s.activations.get g ≠ some 0) ∧
    ((∃ g, s.activations.get g = some 0) ∨
      ∃ who, .down who 0 ∈ s.pending ∨ .closing who 0 ∈ s.pending) := by
  obtain ⟨s, hrun, hp⟩ := exists_logged_run (.small none) none (fun s => s.view.KeepsTimers)
    timerCollected (fun s : State => decide (.tick 0 .sleeping ∈ (s.tasks 1).stack ∧
      s.activations.keyList = [])) (by decide +kernel)
  obtain ⟨htick, hnil⟩ := of_decide_eq_true hp
  refine ⟨s, htick, fun g hg => ?_, timers_tethered hrun htick⟩
  have hmem := OrderedDict.mem_keyList.2 ⟨0, hg⟩
  rw [hnil] at hmem
  cases hmem

/-- A runtime is left while a grain that has asked for a timer is being activated, and the
activation goes on when the runtime has been left. -/
def leftBeforeTimers : List Label :=
  [.arrive, .resume 0] ++ Label.invoke ⟨"counter", "x"⟩ ++ Label.gos 2 ++
  [.run (.every 5), .run .suspend, .arrive, .resume 1, .run .leave] ++ Label.gos 8 ++
  [Label.returns] ++ Label.gos 3 ++ [Label.returns, .resume 0, Label.returns] ++ Label.gos 1

/-- Its timer has been started, while nothing stands in the table and no `_deactivate` is in
progress. -/
theorem leftBeforeTimers_ticks : ∃ s : State,
    Run (step (.small none)) (fun _ _ => True) (.init none) s ∧
    .left ∈ s.trace ∧ .tick 0 .start ∈ (s.tasks 2).stack ∧
    ¬((∃ g, s.activations.get g = some 0) ∨
      ∃ who, .down who 0 ∈ s.pending ∨ .closing who 0 ∈ s.pending) := by
  obtain ⟨s, hrun, hp⟩ := exists_free_run (.small none) none leftBeforeTimers
    (fun s : State => decide (Event.left ∈ s.trace ∧ .tick 0 .start ∈ (s.tasks 2).stack ∧
      s.activations.keyList = [] ∧ ∀ who ∈ [Remover.makeRoom, .collect, .aexit],
        Activity.down who 0 ∉ s.pending ∧ Activity.closing who 0 ∉ s.pending)) (by decide +kernel)
  obtain ⟨hleft, htick, hnil, hwho⟩ := of_decide_eq_true hp
  refine ⟨s, hrun, hleft, htick, ?_⟩
  rintro (⟨g, hg⟩ | ⟨who, hmem⟩)
  · have hmem := OrderedDict.mem_keyList.2 ⟨0, hg⟩
    rw [hnil] at hmem
    cases hmem
  · have hnot := hwho who (by cases who <;> simp)
    exact hmem.elim hnot.1 hnot.2

end

end Nigrains
