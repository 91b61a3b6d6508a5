import Nigrains.Scopes

/-!
# How `with deadline` blocks nest

A block takes the earlier of the deadline it asks for and the one around it, and puts that one back
when it ends. So what is in force for some code is what was in force for its caller, narrowed by
each block on the way (`Nests.narrowedBy`). Whatever is called from whatever in a task, and however
it ends, nothing works under a later deadline than what it is part of, and code that goes on after
a call goes on under the deadline it called under (`deadlines_nest`).
-/

namespace Nigrains

/-- The deadline in force above a frame, `c` being in force beneath it. -/
def Frame.narrows (c : Option Time) : Frame → Option Time
  | .scope asked _ => narrowed c asked
  | _ => c

/-- The deadline in force above some frames, `c` being in force beneath them. -/
def narrowedBy (c : Option Time) (above : List Frame) : Option Time :=
  above.foldr (fun f c => f.narrows c) c

/-- What is in force above each frame is what the frame makes of what it puts back, `c` being in
force for the innermost. -/
def Nests : Option Time → List Frame → Prop
  | _, [] => True
  | c, f :: rest => c = f.narrows (f.outer c) ∧ Nests (f.outer c) rest

theorem noLater_narrows (c : Option Time) (f : Frame) : NoLater (f.narrows c) c := by
  cases f with
  | scope asked saved => exact noLater_narrowed c asked
  | _ => exact .refl c

theorem narrows_of_outer {f : Frame} (h : ∀ c, f.outer c = c) (c : Option Time) :
    f.narrows c = c := by
  cases f with
  | scope asked saved => cases (h none).symm.trans (h (some 0))
  | _ => rfl

/-- What is in force for some frames is what is in force beneath them, narrowed by each. -/
theorem Nests.narrowedBy {c : Option Time} {above low : List Frame} (h : Nests c (above ++ low)) :
    c = narrowedBy (beneath c above) above := by
  induction above generalizing c with
  | nil => rfl
  | cons f above ih => exact h.1.trans (congrArg f.narrows (ih h.2))

/-- What is in force beneath some frames comes no earlier than what is in force for them. -/
theorem Nests.noLater {c : Option Time} {above low : List Frame} (h : Nests c (above ++ low)) :
    NoLater c (beneath c above) := by
  induction above generalizing c with
  | nil => exact .refl c
  | cons f above ih =>
    have hf : NoLater c (f.outer c) := by
      conv => arg 1; rw [h.1]
      exact noLater_narrows _ f
    exact hf.trans (ih h.2)

theorem Nests.of_append {c : Option Time} {above low : List Frame} (h : Nests c (above ++ low)) :
    Nests (beneath c above) low := by
  induction above generalizing c with
  | nil => exact h
  | cons f above ih => exact ih h.2

/-- Frames that put nothing back may stand anywhere. -/
theorem nests_append_plain {c : Option Time} {above low : List Frame}
    (habove : ∀ f ∈ above, ∀ c, f.outer c = c) (hlow : Nests c low) : Nests c (above ++ low) := by
  induction above with
  | nil => exact hlow
  | cons f above ih =>
    have hf := habove f List.mem_cons_self
    refine ⟨?_, ?_⟩
    · rw [hf, narrows_of_outer hf]
    · rw [hf]
      exact ih fun f' hf' => habove f' (List.mem_cons_of_mem _ hf')

section

variable {cfg : Config} {s s' : State} {t u : TaskId} {n : Next Frame Outcome}

theorem nests_of_new {f : Frame} (h : f.fresh ∨ f.hosted) (c : Option Time) : Nests c [f] := by
  have hf : ∀ c, f.outer c = c := by
    intro c
    unfold Frame.fresh Frame.hosted at h
    unfold Frame.outer
    split <;> simp_all
  exact ⟨by rw [hf, narrows_of_outer hf], trivial⟩

theorem Nests.set {call : Call} {saved : ℕ} : ∀ {c : Option Time} {l : List Frame} {i : ℕ},
    l[i]? = some (.timeout call saved false) → Nests c l →
      Nests c (l.set i (.timeout call saved true))
  | _, [], _, h, _ => by simp at h
  | c, f :: rest, 0, h, hd => by
    obtain rfl : f = .timeout call saved false := by simpa using h
    exact hd
  | c, f :: rest, i + 1, h, hd => ⟨hd.1, set (by simpa using h) hd.2⟩

/-- A segment keeps what nests. -/
theorem exec_nests {c : Choice} {f : Frame} {r : Resume Outcome} {rest : List Frame}
    (ht : t < s.spawned) (hd : Nests (s.tasks t).context (f :: rest))
    (h : exec cfg s t c f r = some (s', n)) : Nests (s'.tasks t).context (n.frames ++ rest) := by
  by_cases hf : f.binds = false
  · rw [exec_context h ht (.inr hf)]
    have houter : f.outer (s.tasks t).context = (s.tasks t).context := by
      cases f <;> first | rfl | cases hf
    refine nests_append_plain (fun f' hf' c' => exec_plain hf h hf' c') ?_
    rw [← houter]
    exact hd.2
  · cases exec_binding (Bool.not_eq_false _ ▸ hf) h with
    | refused _ o houter =>
      have hrest := hd.2
      rwa [houter] at hrest
    | blocks seconds inside =>
      rw [setDeadline_context]
      cases inside <;> exact ⟨rfl, rfl, hd.2⟩
    | restores asked saved o =>
      rw [setDeadline_context]
      exact hd.2
    | delivers call =>
      have houter := outer_callFrame cfg { call with deadline := (s.tasks t).context }
        .dispatchHere
      exact ⟨by rw [houter, narrows_of_outer houter], by rw [houter]; exact hd.2⟩
    | deliversWithin call seconds =>
      rw [setDeadline_context]
      have houter := outer_callFrame cfg { call with
        deadline := narrowed (s.tasks t).context (s.now + seconds) } .dispatchHere
      refine ⟨by rw [houter, narrows_of_outer houter], ?_⟩
      rw [houter]
      exact ⟨rfl, hd.2⟩

/-- In every task what is deeper in the stack comes no later. -/
def AllNest (s : State) : Prop :=
  ∀ u, Nests (s.tasks u).context (s.tasks u).stack

theorem AllNest.keeps {fresh : Frame → Prop} (hn : Nested s) (hd : AllNest s)
    (hk : Loop.Keeps fresh s.toLoop s'.toLoop) (hf : ∀ f, fresh f → f.fresh ∨ f.hosted)
    (hc : u < s.spawned → (s'.tasks u).context = (s.tasks u).context) :
    Nests (s'.tasks u).context (s'.tasks u).stack := by
  by_cases hu : u < s.spawned
  · rw [hc hu, hk.stack_eq u (.inl hu)]
    exact hd u
  · rcases hk.stack_cases u with hs | ⟨f, hff, -, -, hs⟩
    · rw [hs, hn.unspawned u (not_lt.1 hu)]
      trivial
    · rw [hs]
      exact nests_of_new (hf f hff) _

theorem AllNest.step {l : Label} (hn : Nested s) (hd : AllNest s) (h : step cfg s l = some s') :
    AllNest s' := by
  rcases step_cases h with ⟨t, r, f, rest, c, s1, n, hr, hs, he, rfl⟩ |
    ⟨t, r, f, rest, hr, ht, hs, hf, rfl⟩ | ⟨t, i, call, saved, hr, hs, hdue, rfl⟩ | hw
  · intro u
    rw [Loop.context_land]
    by_cases hu : u = t
    · subst hu
      rw [Loop.stack_land_self]
      have hdt := hd u
      rw [hs] at hdt
      exact exec_nests (hn.running u r hr).1 hdt he
    · rw [Loop.stack_land _ hu]
      exact hd.keeps hn (exec_keeps he) (fun _ => .inl) fun hlt => exec_context he hlt (.inl hu)
  · intro u
    rw [stack_runTask, context_runTask]
    exact hd u
  · intro u
    rw [context_expireTask, stack_expireTask]
    split_ifs with hu
    · subst hu
      exact (hd u).set hs
    · exact hd u
  · exact fun u => hd.keeps hn hw.keeps (fun _ => .inr) (hw.context u)

theorem Run.allNest {ok : State → State → Prop} (h : Run (step cfg) ok s s') (hn : Nested s)
    (hd : AllNest s) : Nested s' ∧ AllNest s' :=
  h.invariant (I := fun s => Nested s ∧ AllNest s) ⟨hn, hd⟩
    fun _ _ _ ⟨hn, hd⟩ hl _ => ⟨nested_step hn hl, hd.step hn hl⟩

theorem allNest_init (isMine : Option (GrainId → Bool)) : AllNest (.init isMine) :=
  fun _ => trivial

/-- In every run of a runtime, what a frame works under is never later than what the frames it
stands on work under. And if a frame is the innermost one of its task again, after a run in which
it has not set the deadline or put one back itself, the deadline is what it was. -/
theorem deadlines_nest {ok : State → State → Prop} {isMine : Option (GrainId → Bool)}
    (h : Run (step cfg) ok (.init isMine) s) :
    (∀ d d', d ≤ d' → d' < (s.tasks t).stack.length → NoLater (s.inForce t d') (s.inForce t d)) ∧
    ∀ f rest s' f' rest', (s.tasks t).stack = f :: rest →
      Run (step cfg) (Steady t rest.length) s s' → (s'.tasks t).stack = f' :: rest' →
      rest'.length = rest.length → (s'.tasks t).context = (s.tasks t).context := by
  have hI := h.allNest (nested_init isMine) (allNest_init isMine)
  refine ⟨fun d d' hd hd' => ?_, fun f rest s' f' rest' hs hrun hs' hlen => ?_⟩
  · unfold State.inForce State.under
    have hnests := hI.2 t
    generalize (s.tasks t).stack = l at hd' hnests ⊢
    obtain ⟨j, hj⟩ : ∃ j, l.length - (d + 1) = l.length - (d' + 1) + j :=
      Nat.exists_eq_add_of_le (Nat.sub_le_sub_left (Nat.succ_le_succ hd) _)
    rw [← List.take_append_drop (l.length - (d' + 1)) l] at hnests
    have hlow := hnests.of_append
    rw [← List.take_append_drop j (l.drop (l.length - (d' + 1)))] at hlow
    rw [hj, List.take_add, beneath_append]
    exact hlow.noLater
  · rw [← inForce_top hs, ← inForce_top hs', hlen]
    exact inForce_run hI.1 hrun

/-- A block of five seconds begins. -/
def entersBlock : List Label :=
  [.arrive, .resume 0, .run (.within 5), .run .go]

/-- In it one of a second begins, and fails. -/
def blockFails : List Label :=
  [.run (.within 1), .run .go, .run (.finish (.error (.grainNotRegistered "clock"))), .run .go]

theorem deadlines_nest_blockFails : ∃ s s' : State, (s.tasks 0).context = some 5 ∧
    NoLater (s.inForce 0 2) (s.inForce 0 0) ∧
    Run (step (.small none)) (Steady 0 2) s s' ∧ s'.running = some (0, .got
      (.error (.grainNotRegistered "clock"))) ∧ (s'.tasks 0).context = (s.tasks 0).context := by
  obtain ⟨s, hrun, hp⟩ := exists_free_run (.small none) none entersBlock
    (fun s => decide ((s.tasks 0).stack = [.user .block, .scope 5 none, .user .client] ∧
      (s.tasks 0).context = some 5 ∧
      ((execute (step (.small none)) (fun s s' => decide (Steady 0 2 s s')) s blockFails).any
        fun s' : State => decide (
          (s'.tasks 0).stack = [.user .block, .scope 5 none, .user .client] ∧
          s'.running = some (0, .got (.error (.grainNotRegistered "clock"))))) = true))
    (by decide +kernel)
  obtain ⟨hs, hcontext, hfails⟩ := of_decide_eq_true hp
  obtain ⟨s', hrun', hp'⟩ := exists_run (step (.small none)) (fun s s' => decide (Steady 0 2 s s'))
    (fun _ _ h => of_decide_eq_true h) s blockFails _ hfails
  obtain ⟨hs', hr⟩ := of_decide_eq_true hp'
  obtain ⟨hnest, hback⟩ := deadlines_nest (t := 0) hrun
  exact ⟨s, s', hcontext, hnest 0 2 (by omega) (by rw [hs]; decide), hrun', hr,
    hback _ _ s' _ _ hs hrun' hs' rfl⟩

end

end Nigrains
