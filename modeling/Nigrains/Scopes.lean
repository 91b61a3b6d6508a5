import Nigrains.Deadlines

/-!
# The deadline in force for a frame

The context variable holds the deadline of the innermost frame of a task. What is in force
for a frame further down is what the blocks above it will put back (`State.inForce`). It
stays what it is while the frame neither sets the deadline nor puts one back (`inForce_run`) :
blocks nest, and a `with deadline` is undone when it ends. So code that carries out a call
works under the deadline its caller had (`context_eq_inForce`).
-/

namespace Nigrains

/-- The deadline in force beneath some frames, `c` being that of the innermost. -/
def beneath (c : Option Time) (above : List Frame) : Option Time :=
  above.foldl Frame.outer c

@[simp] theorem beneath_nil (c : Option Time) : beneath c [] = c := rfl

@[simp] theorem beneath_cons (c : Option Time) (f : Frame) (above : List Frame) :
    beneath c (f :: above) = beneath (f.outer c) above := rfl

theorem beneath_append (c : Option Time) (above above' : List Frame) :
    beneath c (above ++ above') = beneath (beneath c above) above' :=
  List.foldl_append

/-- The deadline in force when all frames of a task but the `k` outermost have put back what
they will. -/
def State.under (s : State) (t : TaskId) (k : ℕ) : Option Time :=
  beneath (s.tasks t).context ((s.tasks t).stack.take ((s.tasks t).stack.length - k))

/-- The deadline in force for the `d`-th frame of a task, counted from the outermost. -/
def State.inForce (s : State) (t : TaskId) (d : ℕ) : Option Time :=
  s.under t (d + 1)

section

variable {cfg : Config} {s s' : State} {t u : TaskId} {n : Next Frame Outcome} {d : ℕ}

/-- Calls and what wraps them put nothing back. -/
theorem outer_callFrame (cfg : Config) (call : Call) (terminal : Terminal) (c : Option Time) :
    (callFrame cfg call terminal).outer c = c := by
  unfold callFrame
  split_ifs
  · cases terminal <;> rfl
  · rfl

theorem outer_terminalFrame (call : Call) (terminal : Terminal) (c : Option Time) :
    (terminal.frame call).outer c = c := by
  cases terminal <;> rfl

theorem outer_inside (inside : Inside) (c : Option Time) : inside.frame.outer c = c := by
  cases inside <;> rfl

/-- What a segment leaves puts back what its own frame would have put back. -/
theorem exec_outer {c : Choice} {f : Frame} {r : Resume Outcome} (ht : t < s.spawned)
    (h : exec cfg s t c f r = some (s', n)) :
    beneath (s'.tasks t).context n.frames = f.outer (s.tasks t).context := by
  by_cases hf : f.binds = false
  · rw [exec_context h ht (.inr hf)]
    cases exec_passage h
    case ends => cases f <;> first | rfl | cases hf
    all_goals
      first
        | rfl
        | exact outer_callFrame cfg _ _ _
        | exact outer_terminalFrame _ _ _
  · cases exec_binding (Bool.not_eq_false _ ▸ hf) h with
    | refused _ o houter => exact (houter _).symm
    | blocks seconds inside =>
      simp only [Next.frames, beneath_cons, outer_inside]
      rfl
    | restores asked saved o => exact setDeadline_context s t saved
    | delivers call => exact outer_callFrame cfg _ _ _
    | deliversWithin call seconds =>
      simp only [Next.frames, beneath_cons, outer_callFrame]
      rfl

/-- What neither sets the deadline nor puts one back leaves only frames that put none back. -/
theorem exec_plain {c : Choice} {f f' : Frame} {r : Resume Outcome} (hf : f.binds = false)
    (h : exec cfg s t c f r = some (s', n)) (hf' : f' ∈ n.frames) (c' : Option Time) :
    f'.outer c' = c' := by
  cases exec_passage h
  all_goals
    simp only [Next.frames, List.mem_cons, List.not_mem_nil, or_false] at hf'
    try obtain rfl | rfl := hf'
    all_goals
      try subst hf'
      first
        | rfl
        | exact outer_callFrame _ _ _ _
        | exact outer_terminalFrame _ _ _
        | cases hf

theorem beneath_set {call : Call} {saved : ℕ} : ∀ {l : List Frame} {i : ℕ} (k : ℕ)
    (c : Option Time), l[i]? = some (.timeout call saved false) →
      beneath c ((l.set i (.timeout call saved true)).take k) = beneath c (l.take k)
  | [], _, _, _, h => by simp at h
  | _ :: _, _, 0, _, _ => rfl
  | f :: l, 0, k + 1, c, h => by
    obtain rfl : f = .timeout call saved false := by simpa using h
    rfl
  | f :: l, i + 1, k + 1, c, h => beneath_set k (f.outer c) (by simpa using h)

/-- What will be put back stays what it is while other frames stand there. -/
theorem under_step {l : Label} {k : ℕ} (hn : Nested s) (h : step cfg s l = some s')
    (hk : k < (s.tasks u).stack.length) : s'.under u k = s.under u k := by
  have hu : u < s.spawned := by
    by_contra hu
    rw [hn.unspawned u (not_lt.1 hu)] at hk
    exact absurd hk (Nat.not_lt_zero _)
  unfold State.under
  rcases step_cases h with ⟨t, r, f, rest, c, s1, n, hr, hs, he, rfl⟩ |
    ⟨t, r, f, rest, hr, ht, hs, hf, rfl⟩ | ⟨t, i, call, saved, hr, hs, hdue, rfl⟩ | hw
  · by_cases hut : u = t
    · subst hut
      rw [Loop.context_land, Loop.stack_land_self]
      rw [hs] at hk ⊢
      obtain ⟨j, hj⟩ : ∃ j, rest.length = k + j := Nat.exists_eq_add_of_le (Nat.lt_succ_iff.1 hk)
      have h1 : (n.frames ++ rest).length - k = n.frames.length + j := by
        rw [List.length_append]
        omega
      have h2 : (f :: rest).length - k = j + 1 := by
        rw [List.length_cons]
        omega
      rw [h1, h2, List.take_length_add_append, beneath_append, exec_outer hu he]
      rfl
    · rw [Loop.context_land, Loop.stack_land _ hut, exec_context he hu (.inl hut),
        (exec_keeps he).stack_eq u (.inl hu)]
  · rw [stack_runTask, context_runTask]
  · rw [context_expireTask, stack_expireTask]
    split_ifs with hut
    · subst hut
      rw [List.length_set, beneath_set _ _ hs]
    · rfl
  · rw [hw.context u hu, hw.keeps.stack_eq u (.inl hu)]

/-- And through a run in which they do. -/
theorem under_run {k : ℕ} (hn : Nested s)
    (h : Run (step cfg) (fun s _ => k < (s.tasks t).stack.length) s s') :
    s'.under t k = s.under t k := by
  refine (h.invariant (I := fun x => Nested x ∧ x.under t k = s.under t k) ⟨hn, rfl⟩ ?_).2
  rintro x l x' ⟨hn, hx⟩ hl hk
  exact ⟨nested_step hn hl, (under_step hn hl hk).trans hx⟩

/-- What is in force for a frame stays so while others stand on it. -/
theorem inForce_step {l : Label} (hn : Nested s) (h : step cfg s l = some s')
    (hd : d + 1 < (s.tasks u).stack.length) : s'.inForce u d = s.inForce u d :=
  under_step hn h hd

theorem inForce_top {f : Frame} {rest : List Frame} (hs : (s.tasks t).stack = f :: rest) :
    s.inForce t rest.length = (s.tasks t).context := by
  unfold State.inForce State.under
  rw [hs]
  simp

/-- The `d`-th frame of task `t`, counted from the outermost, neither sets the deadline nor puts
one back. -/
def Steady (t : TaskId) (d : ℕ) (s _s' : State) : Prop :=
  ((s.tasks t).stack.reverse[d]?).any (fun f => !f.binds) = true

instance {t : TaskId} {d : ℕ} {s s' : State} : Decidable (Steady t d s s') :=
  inferInstanceAs (Decidable (_ = true))

theorem steady_iff : Steady t d s s' ↔
    ∃ above f low, (s.tasks t).stack = above ++ f :: low ∧ low.length = d ∧ f.binds = false := by
  unfold Steady
  rw [Option.any_eq_true]
  constructor
  · rintro ⟨f, hf, hbinds⟩
    obtain ⟨hlt, hget⟩ := List.getElem?_eq_some_iff.1 hf
    refine ⟨((s.tasks t).stack.reverse.drop (d + 1)).reverse, f,
      ((s.tasks t).stack.reverse.take d).reverse, ?_, ?_, by simpa using hbinds⟩
    · rw [← List.reverse_reverse (s.tasks t).stack]
      conv_lhs => rw [← List.take_append_drop d (s.tasks t).stack.reverse,
        List.drop_eq_getElem_cons hlt, hget]
      simp
    · rw [List.length_reverse, List.length_take]
      exact min_eq_left hlt.le
  · rintro ⟨above, f, low, hs, rfl, hbinds⟩
    exact ⟨f, by simp [hs], by simp [hbinds]⟩

/-- A steady frame that runs leaves what is in force for it. -/
theorem inForce_land {f : Frame} {low : List Frame} {c : Choice} {r : Resume Outcome}
    (hbinds : f.binds = false) (he : exec cfg s t c f r = some (s', n)) (k : ℕ) :
    beneath (s.tasks t).context
      ((n.frames ++ low).take ((n.frames ++ low).length - (low.length + k)))
      = (s.tasks t).context := by
  have hplain : ∀ l : List Frame, (∀ x ∈ l, x ∈ n.frames) →
      beneath (s.tasks t).context l = (s.tasks t).context := by
    intro l hl
    induction l with
    | nil => rfl
    | cons x l ih =>
      rw [beneath_cons, exec_plain hbinds he (hl x List.mem_cons_self)]
      exact ih fun y hy => hl y (List.mem_cons_of_mem _ hy)
  refine hplain _ fun x hx => ?_
  have hle : (n.frames ++ low).length - (low.length + k) ≤ n.frames.length := by
    rw [List.length_append]
    omega
  rw [List.take_append_of_le_length hle] at hx
  exact List.mem_of_mem_take hx

/-- What is in force for a steady frame stays so. -/
theorem inForce_steady {l : Label} (hn : Nested s) (h : step cfg s l = some s')
    (hsteady : Steady t d s s') : s'.inForce t d = s.inForce t d := by
  obtain ⟨above, f, low, hs, rfl, hbinds⟩ := steady_iff.1 hsteady
  cases above with
  | cons top above =>
    refine inForce_step hn h ?_
    rw [hs]
    simp only [List.cons_append, List.length_cons, List.length_append]
    omega
  | nil =>
    rw [List.nil_append] at hs
    rw [inForce_top hs]
    have ht := hn.lt_spawned hs
    have hctx : (s'.tasks t).context = (s.tasks t).context := by
      refine step_context h ht fun r f' rest _ hs' => ?_
      obtain ⟨rfl, -⟩ := List.cons.inj (hs.symm.trans hs')
      exact hbinds
    unfold State.inForce State.under
    rw [hctx]
    rcases step_cases h with ⟨u, r, f', rest, c, s1, n, hr, hs', he, rfl⟩ |
      ⟨u, r, f', rest, hr, hu, hs', hf, rfl⟩ | ⟨u, i, call, saved, hr, hs', hdue, rfl⟩ | hw
    · by_cases hut : t = u
      · subst hut
        obtain ⟨rfl, rfl⟩ := List.cons.inj (hs.symm.trans hs')
        rw [Loop.stack_land_self]
        exact inForce_land hbinds he 1
      · rw [Loop.stack_land _ hut, (exec_keeps he).stack_eq t (.inl ht), hs]
        simp
    · rw [stack_runTask, hs]
      simp
    · rw [stack_expireTask]
      split_ifs with hut
      · subst hut
        rw [List.length_set, hs]
        simp
      · rw [hs]
        simp
    · rw [hw.keeps.stack_eq t (.inl ht), hs]
      simp

/-- And through a run. -/
theorem inForce_run (hn : Nested s) (h : Run (step cfg) (Steady t d) s s') :
    s'.inForce t d = s.inForce t d := by
  refine (h.invariant (I := fun x => Nested x ∧ x.inForce t d = s.inForce t d) ⟨hn, rfl⟩ ?_).2
  intro x l x' hx hl hsteady
  exact ⟨nested_step hx.1 hl, (inForce_steady hx.1 hl hsteady).trans hx.2⟩

/-! ## Code that carries out a call -/

theorem Frame.outer_of_carries {f : Frame} (hf : f.carries = true) (c : Option Time) :
    f.outer c = c := by
  cases f <;> first | rfl | cases hf

/-- What carries a call changes no deadline. -/
theorem beneath_carries {above : List Frame} (h : ∀ f ∈ above, f.carries = true)
    (c : Option Time) : beneath c above = c := by
  induction above with
  | nil => rfl
  | cons f above ih =>
    rw [beneath_cons, Frame.outer_of_carries (h f List.mem_cons_self)]
    exact ih fun f' hf' => h f' (List.mem_cons_of_mem _ hf')

/-- Frames that carry a call put nothing back beneath them. -/
theorem context_eq_under {f : Frame} {mid low : List Frame}
    (hs : (s.tasks t).stack = f :: (mid ++ low)) (hf : ∀ c, f.outer c = c)
    (hmid : ∀ f ∈ mid, f.carries = true) : (s.tasks t).context = s.under t low.length := by
  unfold State.under
  have hlen : (f :: (mid ++ low)).length - low.length = mid.length + 1 := by
    simp only [List.length_cons, List.length_append]
    omega
  rw [hs, hlen, List.take_succ_cons, List.take_left, beneath_cons, beneath_carries hmid, hf]

theorem context_eq_under_top {f : Frame} {low : List Frame} (hs : (s.tasks t).stack = f :: low)
    (hf : ∀ c, f.outer c = c) : (s.tasks t).context = s.under t low.length :=
  context_eq_under (show (s.tasks t).stack = f :: ([] ++ low) from hs) hf nofun

end

end Nigrains
