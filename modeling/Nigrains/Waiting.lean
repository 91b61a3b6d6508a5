import Mathlib.Data.Fintype.Card
import Nigrains.Exclusion

/-!
# Who waits for whom

A task that the loop cannot resume is held up by another one : a caller waits for whoever builds
the activation, a call queues for a lock that some call holds, a task that awaits another one is
held up by that (`State.WaitsOn`). Nobody waits for somebody who is not there. So when nothing
can go on, some tasks wait for each other in a circle (`waits_in_circle`), and then they do so
until one of them is interrupted (`circle_stays`).
-/

namespace Nigrains

/-! ## Circles -/

/-- If each of finitely many is related to some, some of them go round in a circle. -/
theorem exists_circle {α : Type*} [Finite α] [Nonempty α] {r : α → α → Prop}
    (h : ∀ a, ∃ b, r a b) : ∃ a, Relation.TransGen r a a := by
  by_contra hnone
  have htrans : IsTrans α (fun b a => Relation.TransGen r a b) :=
    ⟨fun _ _ _ hab hbc => hbc.trans hab⟩
  have hirrefl : Std.Irrefl (fun b a => Relation.TransGen r a b) :=
    ⟨fun a ha => hnone ⟨a, ha⟩⟩
  have hwf := Finite.wellFounded_of_trans_of_irrefl fun b a => Relation.TransGen r a b
  obtain ⟨a, -, ha⟩ := hwf.has_min Set.univ Set.univ_nonempty
  obtain ⟨b, hb⟩ := h a
  exact ha b trivial (.single hb)

/-- What a loop weighs, some frame does. -/
theorem Loop.exists_of_work_pos {φ ω κ : Type*} {L : Loop φ ω κ} {w : φ → ℕ}
    (h : 0 < L.work w) : ∃ t f, f ∈ (L.tasks t).stack ∧ 0 < w f := by
  by_contra hnone
  refine h.ne' (Finset.sum_eq_zero fun t _ => List.sum_eq_zero fun x hx => ?_)
  obtain ⟨f, hf, rfl⟩ := List.mem_map.1 hx
  exact Nat.eq_zero_of_not_pos fun hpos => hnone ⟨t, f, hf, hpos⟩

/-! ## Waiting -/

/-- Task `v` builds the activation. -/
def State.builds (s : State) (a : ActId) (v : TaskId) : Prop :=
  ∃ g, .activated g (.reading a) ∈ (s.tasks v).stack ∨ .activated g (.hook a) ∈ (s.tasks v).stack

/-- Task `v` holds the activation's lock. -/
def State.holds (s : State) (a : ActId) (v : TaskId) : Prop :=
  ∃ call c, .dispatchHere call (.running c a true) ∈ (s.tasks v).stack

/-- What task `u` is suspended for is in the hands of task `v`. -/
def State.WaitsOn (s : State) (u v : TaskId) : Prop :=
  match (s.tasks u).stack.head? with
  | some (.activated _ (.waiting a)) => s.builds a v
  | some (.dispatchHere _ (.queued _ a)) => s.holds a v
  | some (.deactivate _ _ (.joining _ τ _)) => v = τ
  | some (.aexit (.joining τ _)) => v = τ
  | _ => False

section

variable {cfg : Config} {s s' : State} {u v : TaskId} {a : ActId}

/-- What is being built has not been told to those who wait. -/
theorem Reached.isSet_of_builds (hI : Reached s) (h : s.builds a v) :
    (s.heap a).isSet = false := by
  obtain ⟨g, hframe⟩ := h
  have hb : .build g a ∈ s.pending := by
    rcases hframe with hf | hf
    · exact hI.nested.mem_pending hf (Multiset.mem_singleton_self _)
    · exact hI.nested.mem_pending hf (Multiset.mem_singleton_self _)
  rcases hI.sound.staged a (hI.sound.about_lt _ hb a rfl) with hst | hst | hst
  · exact hst.2.2.1
  · exact absurd ⟨g, hb⟩ hst.1
  · exact absurd ⟨g, hb⟩ hst.1

/-- Whoever waits for an activation that has not been told waits for somebody who builds it. -/
theorem Reached.exists_builds (hI : Reached s) {g : GrainId}
    (hf : .activated g (.waiting a) ∈ (s.tasks u).stack) (hset : (s.heap a).isSet = false) :
    ∃ v, s.builds a v := by
  have hlt := hI.about_lt hf (.wait a) (Multiset.mem_singleton_self _) a rfl
  rcases hI.sound.staged a hlt with hst | hst | hst
  · obtain ⟨g', hb⟩ := hst.1
    obtain ⟨v, f, hv, hx⟩ := exists_frame_of_pending hb (by simp)
    refine ⟨v, g', ?_⟩
    unfold Frame.activity at hx
    split at hx <;> simp at hx
    · obtain ⟨rfl, rfl⟩ := hx
      exact .inl hv
    · obtain ⟨rfl, rfl⟩ := hx
      exact .inr hv
  · exact absurd (hst.2.2.1.symm.trans hset) (by simp)
  · exact absurd (hst.2.2.1.symm.trans hset) (by simp)

/-- A lock is locked while some task holds it. -/
theorem Exclusive.locked_of_holds (hI : Reached s) (hE : Exclusive s) (h : s.holds a v) :
    (s.lock a).locked = true := by
  obtain ⟨call, c, hmem⟩ := h
  have hlt := hI.about_lt hmem (.use a) (Multiset.mem_singleton_self _) a rfl
  have hle := Loop.le_work (w := Frame.holding a) (hI.nested.lt_of_mem hmem) hmem
  rw [hE.held a hlt, show Frame.holding a (.dispatchHere call (.running c a true)) = 1 from
    if_pos rfl] at hle
  cases hlock : (s.lock a).locked with
  | false =>
    rw [hlock] at hle
    exact absurd hle (by decide)
  | true => rfl

theorem Exclusive.exists_holds (hE : Exclusive s) (ha : a < s.built)
    (hl : (s.lock a).locked = true) : ∃ v, s.holds a v := by
  have hpos : 0 < s.toLoop.work (Frame.holding a) := by
    rw [hE.held a ha, hl]
    decide
  obtain ⟨v, f, hf, hw⟩ := Loop.exists_of_work_pos hpos
  unfold Frame.holding at hw
  split at hw
  · next call c b =>
    split_ifs at hw with hb
    · exact ⟨v, call, c, hb ▸ hf⟩
    · cases hw
  · cases hw

theorem not_ended_of_mem {f : Frame} (h : f ∈ (s.tasks v).stack) : s.ended v = false := by
  cases hs : (s.tasks v).stack with
  | nil =>
    rw [hs] at h
    cases h
  | cons g rest => simp [State.ended, hs]

theorem State.WaitsOn.not_ended (h : s.WaitsOn u v) : s.ended u = false := by
  cases hs : (s.tasks u).stack with
  | nil => simp [State.WaitsOn, hs] at h
  | cons f rest => simp [State.ended, hs]

/-- A task that the loop cannot resume waits for one that is there. -/
theorem exists_waitsOn (hI : Reached s) (hE : Exclusive s) (hr : s.running = none)
    (hu : s.ended u = false) (hstuck : resume s u = none) :
    ∃ v, s.WaitsOn u v ∧ s.ended v = false := by
  cases hs : (s.tasks u).stack with
  | nil => simp [State.ended, hs] at hu
  | cons f rest =>
    have hnone : resumption s u f = none := by
      unfold resume at hstuck
      rw [if_pos ⟨hr, hI.nested.lt_spawned hs⟩, hs] at hstuck
      simpa using hstuck
    have hmem : f ∈ (s.tasks u).stack := hs ▸ List.mem_cons_self
    unfold resumption at hnone
    unfold State.WaitsOn
    rw [hs]
    split_ifs at hnone with hcancel hinterrupts hwakes
    · -- interrupted, and awaiting a task that has not ended
      unfold interrupts at hinterrupts
      split at hinterrupts
      · exact ⟨_, rfl, by simpa using hinterrupts⟩
      · exact ⟨_, rfl, by simpa using hinterrupts⟩
      · exact absurd rfl hinterrupts
    · unfold wakes at hwakes
      split at hwakes
      · next g a =>
        obtain ⟨v, hv⟩ := hI.exists_builds hmem (by simpa using hwakes)
        refine ⟨v, hv, ?_⟩
        obtain ⟨g', hf | hf⟩ := hv
        · exact not_ended_of_mem hf
        · exact not_ended_of_mem hf
      · next call c a =>
        have hlocked : (s.lock a).locked = true := by
          unfold State.lock
          cases hlock : (s.heap a).lock with
          | none => simp [hlock] at hwakes
          | some lock => simpa [hlock] using hwakes
        have hlt := hI.about_lt hmem (.use a) (Multiset.mem_singleton_self _) a rfl
        obtain ⟨v, hv⟩ := hE.exists_holds hlt hlocked
        refine ⟨v, hv, ?_⟩
        obtain ⟨call', c', hf⟩ := hv
        exact not_ended_of_mem hf
      · exact ⟨_, rfl, by simpa using hwakes⟩
      · exact ⟨_, rfl, by simpa using hwakes⟩
      · exact absurd rfl hwakes

/-- Whoever waits cannot be resumed, unless it is to be interrupted. -/
theorem State.WaitsOn.stuck (h : s.WaitsOn u v) (hI : Reached s) (hE : Exclusive s)
    (hv : s.ended v = false) (hcancel : (s.tasks u).mustCancel = false) : resume s u = none := by
  unfold resume
  split_ifs
  · cases hs : (s.tasks u).stack with
    | nil => rfl
    | cons f rest =>
      unfold State.WaitsOn at h
      rw [hs] at h
      suffices wakes s f = false by simp [resumption, hcancel, this]
      dsimp only [List.head?_cons] at h
      split at h
      · next heq =>
        cases heq
        exact hI.isSet_of_builds h
      · next g pc a heq =>
        cases heq
        have hlocked := hE.locked_of_holds hI h
        unfold State.lock at hlocked
        cases hlock : (s.heap a).lock with
        | none => simp [hlock] at hlocked
        | some lock => simpa [wakes, hlock] using hlocked
      · next heq =>
        cases heq
        exact h ▸ hv
      · next heq =>
        cases heq
        exact h ▸ hv
      · exact h.elim
  · rfl

/-- In every reachable state a task that cannot be resumed waits for one that has not ended, and
if nothing can go on at all, some tasks wait for each other in a circle. -/
theorem waits_in_circle (cfg : Config) (isMine : Option (GrainId → Bool)) (s : State)
    (hrun : Run (step cfg) (fun _ _ => True) (.init isMine) s) (hidle : s.running = none) :
    (∀ u, s.ended u = false → step cfg s (.resume u) = none →
      ∃ v, s.WaitsOn u v ∧ s.ended v = false) ∧
    ((∃ u, s.ended u = false) → (∀ u, step cfg s (.resume u) = none) →
      ∃ u, Relation.TransGen s.WaitsOn u u) := by
  have hI := hrun.reached
  have hE := hrun.exclusive
  refine ⟨fun u hu hstuck => exists_waitsOn hI hE hidle hu hstuck, fun ⟨u, hu⟩ hstuck => ?_⟩
  -- each of the finitely many tasks that are there waits for another one of them
  have hlt : ∀ v, s.ended v = false → v < s.spawned := by
    intro v hv
    by_contra hge
    simp [State.ended, hI.nested.unspawned v (not_lt.1 hge)] at hv
  have hfinite : Finite {v : TaskId // s.ended v = false} :=
    Set.Finite.subset (Set.finite_Iio s.spawned) fun v hv => hlt v hv
  have hnonempty : Nonempty {v : TaskId // s.ended v = false} := ⟨⟨u, hu⟩⟩
  obtain ⟨v, hv⟩ := exists_circle (r := fun v w : {v : TaskId // s.ended v = false} =>
    s.WaitsOn v.1 w.1) fun v => by
      obtain ⟨w, hw, hthere⟩ := exists_waitsOn hI hE hidle v.2 (hstuck v.1)
      exact ⟨⟨w, hthere⟩, hw⟩
  exact ⟨v.1, hv.lift Subtype.val fun _ _ h => h⟩

/-! ## Circles that stay -/

/-- Tasks that wait for one another, none of them running or to be interrupted. -/
def State.Waiting (s : State) (W : Set TaskId) : Prop :=
  ∀ u ∈ W, (∀ r, s.running ≠ some (u, r)) ∧ (s.tasks u).mustCancel = false ∧
    ∃ v ∈ W, s.WaitsOn u v

/-- Who waits for whom depends on the stacks. -/
theorem State.WaitsOn.of_stack_eq (h : s.WaitsOn u v)
    (hu : (s'.tasks u).stack = (s.tasks u).stack) (hv : (s'.tasks v).stack = (s.tasks v).stack) :
    s'.WaitsOn u v := by
  unfold State.WaitsOn State.builds State.holds at h ⊢
  rw [hu, hv]
  exact h

/-- No step touches the stack of a task that waits for another one that waits. -/
theorem State.Waiting.stack_eq {W : Set TaskId} {l : Label} (hW : s.Waiting W) (hI : Reached s)
    (hE : Exclusive s) (h : Nigrains.step cfg s l = some s')
    (hcalm : ∀ u ∈ W, (s'.tasks u).mustCancel = false) (hu : u ∈ W) :
    (s'.tasks u).stack = (s.tasks u).stack ∧ ∀ r, s'.running ≠ some (u, r) := by
  obtain ⟨hr, hcancel, v, hv, hwaits⟩ := hW u hu
  obtain ⟨-, -, w, -, hwaits'⟩ := hW v hv
  have hstuck := hwaits.stuck hI hE hwaits'.not_ended hcancel
  have hlt : u < s.spawned := by
    by_contra hge
    have hended := hwaits.not_ended
    simp [State.ended, hI.nested.unspawned u (not_lt.1 hge)] at hended
  rcases step_cases h with ⟨t, r, f, rest, c, s1, n, hrt, hs, he, rfl⟩ |
    ⟨t, r, f, rest, hrt, ht, hs, hf, rfl⟩ | ⟨t, i, call, saved, hrt, hs, hdue, rfl⟩ | hw
  · have hne : u ≠ t := by
      rintro rfl
      exact hr r hrt
    refine ⟨?_, fun r' hr' => hne (running_land hr')⟩
    rw [Loop.stack_land _ hne, (exec_keeps he).stack_eq u (.inl hlt)]
  · have hne : u ≠ t := by
      rintro rfl
      simp [resume, hrt, hlt, hs, hf] at hstuck
    refine ⟨stack_runTask .., fun r' hr' => hne ?_⟩
    cases hr'
    rfl
  · have hne : u ≠ t := by
      rintro rfl
      have hthere : (s.tasks u).stack ≠ [] := by
        intro hnil
        rw [hnil] at hs
        cases hs
      have hasked := hcalm u hu
      simp [State.expireTask, Loop.cancel, Loop.setTask, hthere] at hasked
    refine ⟨by rw [stack_expireTask, if_neg hne], fun r' hr' => ?_⟩
    simp [State.expireTask, Loop.setTask, hrt] at hr'
  · refine ⟨hw.keeps.stack_eq u (.inl hlt), fun r' hr' => hr r' ?_⟩
    rw [← hw.keeps.running_eq]
    exact hr'

theorem State.Waiting.step {W : Set TaskId} {l : Label} (hW : s.Waiting W) (hI : Reached s)
    (hE : Exclusive s) (h : Nigrains.step cfg s l = some s')
    (hcalm : ∀ u ∈ W, (s'.tasks u).mustCancel = false) : s'.Waiting W := by
  intro u hu
  obtain ⟨hstack, hr⟩ := hW.stack_eq hI hE h hcalm hu
  obtain ⟨-, -, v, hv, hwaits⟩ := hW u hu
  have hstack' := (hW.stack_eq hI hE h hcalm hv).1
  exact ⟨hr, hcalm u hu, v, hv, hwaits.of_stack_eq hstack hstack'⟩

/-- Tasks that wait for each other in a circle wait for ever, whatever goes on beside them, unless
one of them is interrupted. -/
theorem circle_stays (cfg : Config) (isMine : Option (GrainId → Bool)) (s : State)
    (hrun : Run (step cfg) (fun _ _ => True) (.init isMine) s) (W : Set TaskId)
    (hW : s.Waiting W) (s' : State)
    (hcalm : Run (step cfg) (fun _ s' => ∀ u ∈ W, (s'.tasks u).mustCancel = false) s s') :
    ∀ u ∈ W, (s'.tasks u).stack = (s.tasks u).stack ∧ (∀ r, s'.running ≠ some (u, r)) ∧
      step cfg s' (.resume u) = none := by
  have hend := hcalm.invariant (I := fun s' => Reached s' ∧ Exclusive s' ∧ s'.Waiting W ∧
      ∀ u ∈ W, (s'.tasks u).stack = (s.tasks u).stack)
    ⟨hrun.reached, hrun.exclusive, hW, fun _ _ => rfl⟩ fun s1 l s2 hJ hl hok => by
      obtain ⟨hI, hE, hW1, hstack⟩ := hJ
      refine ⟨hI.step hl, hE.step hI hl, hW1.step hI hE hl hok, fun u hu => ?_⟩
      rw [(hW1.stack_eq hI hE hl hok hu).1, hstack u hu]
  obtain ⟨hI, hE, hW', hstack⟩ := hend
  intro u hu
  obtain ⟨hr, hcancel, v, hv, hwaits⟩ := hW' u hu
  obtain ⟨-, -, w, -, hwaits'⟩ := hW' v hv
  exact ⟨hstack u hu, hr, hwaits.stuck hI hE hwaits'.not_ended hcancel⟩

/-- A call to a grain, whose method calls the grain it is of. -/
def callsItself : List Label :=
  [.arrive, .resume 0] ++ Label.invoke ⟨"counter", "x"⟩ ++ Label.gos 2 ++ [Label.returns] ++
  Label.gos 3 ++ Label.invoke ⟨"counter", "x"⟩ ++ Label.gos 2

/-- It waits for itself, and nothing else is there that could go on. -/
theorem waits_in_circle_callsItself : ∃ s : State, s.ended 0 = false ∧
    ∃ u, Relation.TransGen s.WaitsOn u u := by
  obtain ⟨s, hrun, hp⟩ := exists_free_run (.small none) none callsItself
    (fun s => decide (s.running = none ∧ s.ended 0 = false ∧ s.spawned = 1 ∧
      (resume s 0).isNone = true)) (by decide +kernel)
  obtain ⟨hidle, hthere, hone, hstuck⟩ := of_decide_eq_true hp
  refine ⟨s, hthere, (waits_in_circle _ none s hrun hidle).2 ⟨0, hthere⟩ fun u => ?_⟩
  by_cases hu : u = 0
  · subst hu
    exact Option.isNone_iff_eq_none.1 hstuck
  · have hlt : ¬ u < s.spawned := by
      rw [hone]
      exact fun h => hu (Nat.lt_one_iff.1 h)
    exact if_neg fun h => hlt h.2

/-- It never gets out by itself. -/
theorem circle_stays_callsItself : ∃ s : State, s.ended 0 = false ∧
    ∀ s', Run (step (.small none))
      (fun _ s' => ∀ u ∈ ({0} : Set TaskId), (s'.tasks u).mustCancel = false) s s' →
      step (.small none) s' (.resume 0) = none := by
  obtain ⟨s, hrun, hp⟩ := exists_free_run (.small none) none callsItself
    (fun s => decide (s.running = none ∧ (s.tasks 0).mustCancel = false ∧
      (s.tasks 0).stack = [.dispatchHere ⟨⟨"counter", "x"⟩, "get", 0, 0, none⟩ (.queued 1 0),
        .user (.body 0 0), .dispatchHere ⟨⟨"counter", "x"⟩, "get", 0, 0, none⟩ (.running 0 0 true),
        .user .client])) (by decide +kernel)
  obtain ⟨hidle, hcancel, hstack⟩ := of_decide_eq_true hp
  have hwaits : s.WaitsOn 0 0 := by
    unfold State.WaitsOn State.holds
    rw [hstack]
    exact ⟨⟨⟨"counter", "x"⟩, "get", 0, 0, none⟩, 0, by simp⟩
  have hW : s.Waiting {0} := by
    rintro u rfl
    refine ⟨fun r hr => ?_, hcancel, 0, rfl, hwaits⟩
    rw [hidle] at hr
    cases hr
  exact ⟨s, hwaits.not_ended, fun s' hcalm =>
    (circle_stays _ none s hrun {0} hW s' hcalm 0 rfl).2.2⟩

end

end Nigrains
