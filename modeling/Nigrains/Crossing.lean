import Nigrains.Network
import Nigrains.Waking

/-!
# Deadlines on their way to another node

A call crosses as seconds remaining. `deliver` turns them back into a deadline on the clock of the
node it is on, and takes the earlier of that and what is in its context. Over a wire the context is
empty. `LoopbackTransport` runs `deliver` in the sender's context, where there is a reading of the
sender's clock : the deadline is cut short exactly if the receiver's clock is ahead of it
(`deadline_crosses_iff`). Whatever serves a message does so under a deadline no later than the one
it has come with (`Timely`), so no callee has more time than its caller had.
-/

namespace Nigrains

/-- There is a deadline, and it is no later than `e`. -/
def By (e : Time) (c : Option Time) : Prop :=
  ∃ x, c = some x ∧ x ≤ e

theorem By.narrowed {e x : Time} {c : Option Time} (h : By e c) : By e (narrowed c x) := by
  obtain ⟨y, rfl, hy⟩ := h
  exact ⟨min x y, rfl, (min_le_right x y).trans hy⟩

theorem by_narrowed (c : Option Time) (x : Time) : By x (narrowed c x) := by
  cases c with
  | none => exact ⟨x, rfl, le_rfl⟩
  | some y => exact ⟨min x y, rfl, min_le_left x y⟩

theorem By.mono {e e' : Time} {c : Option Time} (h : By e c) (he : e ≤ e') : By e' c := by
  obtain ⟨x, rfl, hx⟩ := h
  exact ⟨x, rfl, hx.trans he⟩

/-- A new deadline in place of one that is no later than asked for. -/
theorem narrowed_eq_iff {c : Option Time} {x : Time} :
    narrowed c x = some x ↔ ∀ y, c = some y → x ≤ y := by
  cases c with
  | none => exact iff_of_true rfl nofun
  | some y => simp [narrowed]

section

variable {cfg : Config} {s s' : State} {t u : TaskId} {n : Next Frame Outcome} {c : Choice}
  {f : Frame} {rest : List Frame} {r : Resume Outcome} {e : Time}

/-! ## A task under a deadline -/

/-- Whatever frames of a task are left, a deadline no later than `e` is in force for them. -/
def State.boundBy (s : State) (u : TaskId) (e : Time) : Prop :=
  ∀ k, 0 < k → k ≤ (s.tasks u).stack.length → By e (s.under u k)

theorem under_length : s.under u (s.tasks u).stack.length = (s.tasks u).context := by
  unfold State.under
  rw [Nat.sub_self, List.take_zero, beneath_nil]

theorem State.boundBy.mono {e' : Time} (h : s.boundBy u e) (he : e ≤ e') : s.boundBy u e' :=
  fun k h0 hk => (h k h0 hk).mono he

theorem State.boundBy.context (h : s.boundBy u e) (hs : (s.tasks u).stack = f :: rest) :
    By e (s.tasks u).context := by
  rw [← under_length]
  refine h _ ?_ le_rfl
  rw [hs]
  exact Nat.succ_pos _

/-- A task of one frame that puts nothing back. -/
theorem boundBy_singleton (hs : (s.tasks u).stack = [f]) (hc : By e (s.tasks u).context) :
    s.boundBy u e := by
  intro k h0 hk
  have hlen : (s.tasks u).stack.length = 1 := by rw [hs]; rfl
  obtain rfl : k = (s.tasks u).stack.length := by omega
  rwa [under_length]

/-- What a segment calls puts nothing back. -/
theorem exec_callee (h : exec cfg s t c f r = some (s', n)) {f' : Frame}
    (hf' : f' ∈ n.frames.dropLast) (c' : Option Time) : f'.outer c' = c' := by
  cases exec_passage h
  all_goals
    simp only [Next.frames, List.dropLast_cons_cons, List.dropLast_singleton, List.dropLast_nil,
      List.mem_singleton, List.not_mem_nil] at hf'
    try subst hf'
    first
      | done
      | rfl
      | exact outer_callFrame _ _ _ _
      | exact outer_terminalFrame _ _ _
      | exact outer_inside _ _

/-- No segment puts off the deadline of its context, but the end of a block. -/
theorem exec_narrows (ht : t < s.spawned) (h : exec cfg s t c f r = some (s', n))
    (hn : n.frames ≠ []) (hc : By e (s.tasks t).context) : By e (s'.tasks t).context := by
  cases exec_effect h
  case within | delivers => exact (setDeadline_context s t _).symm ▸ hc.narrowed
  case restores =>
    cases h
    exact (hn rfl).elim
  all_goals
    first
      | exact hc
      | (rw [exec_context h ht (.inr rfl)]; exact hc)

/-- For what a segment leaves in place of its frame, the deadline of the context is in force. -/
theorem under_land {s1 : State} {k : ℕ} (h : exec cfg s t c f r = some (s1, n))
    (hk : rest.length < k) (hk' : k ≤ (n.frames ++ rest).length) :
    State.under { s1 with toLoop := s1.toLoop.land t rest n } t k = (s1.tasks t).context := by
  have hplain : ∀ l : List Frame, (∀ x ∈ l, x ∈ n.frames.dropLast) →
      beneath (s1.tasks t).context l = (s1.tasks t).context := by
    intro l hl
    induction l with
    | nil => rfl
    | cons x l ih =>
      rw [beneath_cons, exec_callee h (hl x List.mem_cons_self)]
      exact ih fun y hy => hl y (List.mem_cons_of_mem _ hy)
  unfold State.under
  rw [Loop.context_land, Loop.stack_land_self]
  refine hplain _ fun x hx => ?_
  have hlt : (n.frames ++ rest).length - k ≤ n.frames.length - 1 := by
    rw [List.length_append] at hk' ⊢
    omega
  rw [List.take_append_of_le_length (hlt.trans (Nat.sub_le _ _))] at hx
  rw [List.dropLast_eq_take]
  exact (List.take_subset_take_left _ hlt) hx

/-- What will be put back stays what it is while other frames stand there, in a network too. -/
theorem NodeStep.under {k : ℕ} (hn : Nested s) (h : NodeStep cfg s s')
    (hk : k < (s.tasks u).stack.length) : s'.under u k = s.under u k := by
  cases h with
  | step l h => exact under_step hn h hk
  | refuse t call rest hr hs =>
    unfold State.under
    rw [context_refuse, stack_refuse]
    split_ifs with hut
    · subst hut
      rw [hs] at hk ⊢
      have hlen : (Frame.dispatch call :: rest).length - k = (rest.length - k) + 1 := by
        rw [List.length_cons] at hk ⊢
        omega
      rw [hlen, List.take_succ_cons, beneath_cons]
      rfl
    · rfl
  | arrive call timeout c hr =>
    have hu : u ≠ s.spawned := by
      rintro rfl
      rw [hn.unspawned _ le_rfl] at hk
      exact absurd hk (Nat.not_lt_zero _)
    unfold State.under
    simp [State.spawn, Loop.spawn, Function.update_of_ne hu]

/-- What a step of a node that runs no segment of a task does to the task's frames. -/
def Stays (s s' : State) (u : TaskId) : Prop :=
  (s'.tasks u).stack = (s.tasks u).stack ∨
  (∃ call, (s.tasks u).stack = .dispatch call :: (s'.tasks u).stack) ∨
  ∃ i call saved, (s.tasks u).stack[i]? = some (.timeout call saved false) ∧
    (s'.tasks u).stack = (s.tasks u).stack.set i (.timeout call saved true)

theorem Stays.length_le (h : Stays s s' u) :
    (s'.tasks u).stack.length ≤ (s.tasks u).stack.length := by
  rcases h with h | ⟨call, h⟩ | ⟨i, call, saved, -, h⟩
  · rw [h]
  · rw [h]
    exact Nat.le_succ _
  · rw [h, List.length_set]

/-- A step of a node runs a segment of a task, or leaves its context. -/
theorem NodeStep.task (h : NodeStep cfg s s') (hu : u < s.spawned) :
    (∃ r f rest c s1 n, s.running = some (u, r) ∧ (s.tasks u).stack = f :: rest ∧
      exec cfg s u c f r = some (s1, n) ∧ s' = { s1 with toLoop := s1.toLoop.land u rest n }) ∨
    (s'.tasks u).context = (s.tasks u).context ∧ Stays s s' u := by
  cases h with
  | step l h =>
    rcases step_cases h with ⟨t, r, f, rest, c, s1, n, hr, hs, he, rfl⟩ |
      ⟨t, r, f, rest, hr, ht, hs, hf, rfl⟩ | ⟨t, i, call, saved, hr, hs, hdue, rfl⟩ | hw
    · by_cases hut : u = t
      · subst hut
        exact .inl ⟨r, f, rest, c, s1, n, hr, hs, he, rfl⟩
      · refine .inr ⟨(Loop.context_land _ _ _ _ _).trans (exec_context he hu (.inl hut)), .inl ?_⟩
        rw [Loop.stack_land _ hut, (exec_keeps he).stack_eq u (.inl hu)]
    · exact .inr ⟨context_runTask r u, .inl (stack_runTask r u)⟩
    · refine .inr ⟨context_expireTask i call saved u, ?_⟩
      by_cases hut : u = t
      · subst hut
        exact .inr (.inr ⟨i, call, saved, hs, (stack_expireTask i call saved u).trans (if_pos rfl)⟩)
      · exact .inl ((stack_expireTask i call saved u).trans (if_neg hut))
    · exact .inr ⟨hw.context u hu, .inl (hw.keeps.stack_eq u (.inl hu))⟩
  | refuse t call rest hr hs =>
    refine .inr ⟨context_refuse _, ?_⟩
    by_cases hut : u = t
    · subst hut
      refine .inr (.inl ⟨call, ?_⟩)
      rw [stack_refuse, if_pos rfl]
      exact hs
    · exact .inl ((stack_refuse _).trans (if_neg hut))
  | arrive call timeout c hr =>
    refine .inr ⟨Loop.context_spawn s.toLoop _ _ hu, .inl ?_⟩
    simp [State.spawn, Loop.spawn, Function.update_of_ne hu.ne]

/-- A step of a node keeps a task under its deadline. -/
theorem boundBy_step (hn : Nested s) (h : NodeStep cfg s s') (hu : u < s.spawned)
    (hb : s.boundBy u e) : s'.boundBy u e := by
  intro k h0 hk
  by_cases hlt : k < (s.tasks u).stack.length
  · rw [h.under hn hlt]
    exact hb k h0 hlt.le
  rcases h.task hu with ⟨r, f, rest, c, s1, n, hr, hs, he, rfl⟩ | ⟨hctx, hstays⟩
  · rw [Loop.stack_land_self] at hk
    have hrest : rest.length < k := by
      rw [hs, List.length_cons] at hlt
      omega
    rw [under_land he hrest hk]
    refine exec_narrows hu he (fun hnil => ?_) (hb.context hs)
    rw [hnil, List.nil_append] at hk
    omega
  · -- the frames are as many as before
    have hle := hstays.length_le
    obtain rfl : k = (s'.tasks u).stack.length := by omega
    have hlen : (s'.tasks u).stack.length = (s.tasks u).stack.length := by omega
    rw [under_length, hctx, ← under_length]
    exact hb _ (hlen ▸ h0) le_rfl

/-- A task that is to deliver a call waits, or starts to serve it, and then it is under the deadline
that the call has come with. -/
theorem NodeStep.delivers {call : Call} {timeout : Option Time} (h : NodeStep cfg s s')
    (hu : u < s.spawned) (hs : (s.tasks u).stack = [.deliver call timeout]) :
    (s'.tasks u).stack = [.deliver call timeout] ∧
      (s'.tasks u).context = (s.tasks u).context ∨
    ∀ seconds, timeout = some seconds → s'.boundBy u (s.now + seconds) := by
  rcases h.task hu with ⟨r, f, rest, c, s1, n, hr, hs', he, rfl⟩ | ⟨hctx, hstays⟩
  · right
    rintro seconds rfl
    obtain ⟨rfl, rfl⟩ := List.cons.inj (hs.symm.trans hs')
    intro k h0 hk
    rw [Loop.stack_land_self] at hk
    rw [under_land he h0 hk]
    cases exec_binding rfl he with
    | refused _ o houter => exact absurd hk (not_le.2 h0)
    | deliversWithin call seconds =>
      rw [setDeadline_context]
      exact by_narrowed _ _
  · left
    rcases hstays with h | ⟨call', h⟩ | ⟨i, call', saved, hi, -⟩
    · exact ⟨h.trans hs, hctx⟩
    · rw [hs] at h
      cases h
    · rw [hs] at hi
      cases i <;> simp at hi

theorem context_spawn_new {f₀ : Frame} {c₀ : Option Time} (hu : s.spawned ≤ u)
    (hu' : u < (s.spawn f₀ c₀).spawned) : ((s.spawn f₀ c₀).tasks u).context = c₀ := by
  obtain rfl : u = s.spawned := le_antisymm (Nat.lt_succ_iff.1 hu') hu
  simp [State.spawn, Loop.spawn]

theorem context_startBackground_new (ht : t < s.spawned) (hu : s.spawned ≤ u)
    (hu' : u < (s.startBackground cfg t).spawned) :
    ((s.startBackground cfg t).tasks u).context = (s.tasks t).context := by
  unfold State.startBackground at hu' ⊢
  split_ifs at hu' ⊢
  · rcases hu.lt_or_eq with hlt | rfl
    · have hold : ((s.startSweeper t).tasks t).context = (s.tasks t).context :=
        Loop.context_spawn s.toLoop _ _ ht
      exact (context_spawn_new (s := s.startSweeper t) hlt hu').trans hold
    · refine (Loop.context_spawn (s.startSweeper t).toLoop _ _ (Nat.lt_succ_self _)).trans ?_
      exact context_spawn_new le_rfl (Nat.lt_succ_self _)
  · exact context_spawn_new hu hu'

theorem spawned_cancel_all (τs : List TaskId) (s : State) :
    (τs.foldl State.cancel s).spawned = s.spawned := by
  induction τs generalizing s with
  | nil => rfl
  | cons τ τs ih => exact (ih (s.cancel τ)).trans (Loop.spawned_cancel s.toLoop τ)

/-- Tasks that a segment starts copy its context. -/
theorem exec_context_new (h : exec cfg s t c f r = some (s', n)) (ht : t < s.spawned)
    (hu : s.spawned ≤ u) (hu' : u < s'.spawned) :
    (s'.tasks u).context = (s.tasks t).context := by
  cases exec_effect h
  case creates => exact context_spawn_new hu hu'
  case activates g a o => exact context_startTimers_new a s ht hu hu'
  case takes => exact absurd (hu'.trans_eq (spawned_cancel_all _ _)) hu.not_gt
  case begins => exact context_startBackground_new ht hu hu'
  case cancels τ rest => exact absurd (hu'.trans_eq (Loop.spawned_cancel s.toLoop τ)) hu.not_gt
  all_goals exact absurd hu' hu.not_gt

theorem deliver_ne_callFrame {call call' : Call} {timeout : Option Time} {terminal : Terminal} :
    .deliver call timeout ≠ callFrame cfg call' terminal := by
  intro h
  have hcarries : (callFrame cfg call' terminal).carries = true := callFrame_carries call' terminal
  rw [← h] at hcarries
  cases hcarries

theorem deliver_ne_terminalFrame {call call' : Call} {timeout : Option Time}
    {terminal : Terminal} : .deliver call timeout ≠ terminal.frame call' := by
  cases terminal <;> nofun

theorem deliver_ne_inside {call : Call} {timeout : Option Time} {inside : Inside} :
    .deliver call timeout ≠ inside.frame := by
  cases inside <;> nofun

/-- No coroutine calls `deliver`. -/
theorem exec_no_deliver {call : Call} {timeout : Option Time}
    (h : exec cfg s t c f r = some (s', n)) :
    .deliver call timeout ∉ n.frames := by
  intro hf'
  cases exec_passage h <;>
    simp [Next.frames, deliver_ne_callFrame, deliver_ne_terminalFrame, deliver_ne_inside] at hf'

theorem not_on_deliver {call : Call} {timeout : Option Time} (hn : Nested s) :
    (s.tasks u).stack ≠ [f, .deliver call timeout] := by
  intro hs
  have hbelow : below (some (.deliver call timeout)) f = true := by
    have h := hn.stacked u
    rw [hs] at h
    exact h.1
  cases awaits_of_below hbelow

/-- A task that is to deliver a call has been there, and nothing has come of it yet. -/
theorem NodeStep.still {call : Call} {timeout : Option Time} (hn : Nested s)
    (h : NodeStep cfg s s') (hu : u < s.spawned)
    (hs : (s'.tasks u).stack = [.deliver call timeout]) :
    (s.tasks u).stack = [.deliver call timeout] ∧
      (s'.tasks u).context = (s.tasks u).context := by
  rcases h.task hu with ⟨r, f, rest, c, s1, n, hr, hs', he, rfl⟩ | ⟨hctx, hstays⟩
  · rw [Loop.stack_land_self] at hs
    cases hframes : n.frames with
    | nil =>
      rw [hframes, List.nil_append] at hs
      exact (not_on_deliver hn (hs ▸ hs')).elim
    | cons f' l =>
      rw [hframes, List.cons_append] at hs
      obtain ⟨rfl, -⟩ := List.cons.inj hs
      exact (exec_no_deliver he (hframes ▸ List.mem_cons_self)).elim
  · refine ⟨?_, hctx⟩
    rcases hstays with h | ⟨call', h⟩ | ⟨i, call', saved, hi, h⟩
    · exact h ▸ hs
    · rw [hs] at h
      exact (not_on_deliver hn h).elim
    · have hlen : (s.tasks u).stack.length = 1 := by
        rw [← List.length_set, ← h, hs]
        rfl
      obtain ⟨f, hf⟩ := List.length_eq_one_iff.1 hlen
      rw [hf] at hi h
      rw [hs] at h
      cases i with
      | zero => cases h
      | succ i => cases hi

end

/-! ## What serves a message -/

variable {D : Deployment} {first : NodeId → Option (List NodeId)} {net net' : Network}

/-- What serves a message has served it, or is started by what does, or is started by its
arrival. -/
theorem NetStep.serving {n : NodeId} {u : TaskId} {i : MessageId}
    (hun : ∀ n u, (net.nodes n).spawned ≤ u → net.serving n u = none) (h : NetStep D net net')
    (hi : net'.serving n u = some i) :
    (net.serving n u = some i ∧ u < (net.nodes n).spawned) ∨
    (∃ t r f rest c s next, (net.nodes n).running = some (t, r) ∧
      ((net.nodes n).tasks t).stack = f :: rest ∧
      exec (D.config n) (net.nodes n) t c f r = some (s, next) ∧
      net'.nodes n = { s with toLoop := s.toLoop.land t rest next } ∧
      net.serving n t = some i ∧ (net.nodes n).spawned ≤ u ∧ u < s.spawned) ∨
    ∃ loopback, i < net.sent ∧ (net.messages i).target = n ∧ u = (net.nodes n).spawned ∧
      net' = net.arrived i loopback := by
  have hold : net.serving n u = some i →
      (net.serving n u = some i ∧ u < (net.nodes n).spawned) := by
    intro h0
    refine ⟨h0, ?_⟩
    by_contra hu
    rw [hun n u (not_lt.1 hu)] at h0
    cases h0
  have hran : ∀ (m : NodeId) (t : TaskId) (r : Resume Outcome) (f : Frame) (rest : List Frame)
      (c : Choice) (s : State), (net.nodes m).running = some (t, r) →
      ((net.nodes m).tasks t).stack = f :: rest →
      step (D.config m) (net.nodes m) (.run c) = some s → net'.nodes m = s →
      (if n = m ∧ (net.nodes m).spawned ≤ u ∧ u < s.spawned then net.serving m t
        else net.serving n u) = some i →
      (net.serving n u = some i ∧ u < (net.nodes n).spawned) ∨
      ∃ t r f rest c s next, (net.nodes n).running = some (t, r) ∧
        ((net.nodes n).tasks t).stack = f :: rest ∧
        exec (D.config n) (net.nodes n) t c f r = some (s, next) ∧
        net'.nodes n = { s with toLoop := s.toLoop.land t rest next } ∧
        net.serving n t = some i ∧ (net.nodes n).spawned ≤ u ∧ u < s.spawned := by
    intro m t r f rest c s hr hs hstep hnode hserving
    split_ifs at hserving with hnew
    · obtain ⟨rfl, hle, hlt⟩ := hnew
      obtain ⟨t', r', f', rest', s1, next, hr', hs', he, rfl⟩ := run_cases hstep
      obtain ⟨rfl, rfl⟩ := Prod.mk.inj (Option.some.inj (hr.symm.trans hr'))
      obtain ⟨rfl, rfl⟩ := List.cons.inj (hs.symm.trans hs')
      exact .inr ⟨t, r, f, rest, c, s1, next, hr, hs, he, hnode, hserving, hle, by simpa using hlt⟩
    · exact .inl (hold hserving)
  cases h with
  | run hr hs h hw hkeeps =>
    exact (hran _ _ _ _ _ _ _ hr hs h setNode_nodes_self hi).imp id .inl
  | send hr hs h hw hmine howner hne =>
    exact (hran _ _ _ _ _ _ _ hr hs h setNode_nodes_self hi).imp id .inl
  | arrive j loopback hj hr =>
    replace hi : (if n = (net.messages j).target ∧
      u = (net.nodes (net.messages j).target).spawned then some j else net.serving n u) = some i :=
      hi
    split_ifs at hi with hnew
    · cases hi
      obtain ⟨rfl, rfl⟩ := hnew
      exact .inr (.inr ⟨loopback, hj, rfl, rfl, rfl⟩)
    · exact .inl (hold hi)
  | _ => exact .inl (hold hi)

theorem NodeStep.spawned_le {cfg : Config} {s s' : State} (h : NodeStep cfg s s') :
    s.spawned ≤ s'.spawned := by
  cases h with
  | step l h => exact spawned_le_step h
  | refuse t call rest hr hs =>
    obtain ⟨turns, h⟩ := refuse_eq cfg s t call.grain rest
    rw [h]
    exact (Loop.spawned_land _ _ _ _).ge
  | arrive call timeout c hr => exact Nat.le_succ _

/-- A task that is to deliver a message has what the message says, and its context : none over a
wire, and the sender's by `LoopbackTransport`. -/
def Network.Awaits (net : Network) (n : NodeId) (u : TaskId) (i : MessageId) (call : Call)
    (timeout : Option Time) : Prop :=
  call = (net.messages i).call ∧ timeout = (net.messages i).timeout ∧
  ((((net.nodes n).tasks u).context = none) ∨
    ((net.nodes n).tasks u).context = (net.messages i).context)

/-- What serves a message does so under a deadline no later than the one that the message has come
with, and what it sends says no more time. -/
structure Network.Timely (net : Network) : Prop where
  nested : net.AllNested
  unspawned : ∀ n u, (net.nodes n).spawned ≤ u → net.serving n u = none
  sent : ∀ n u i, net.serving n u = some i → i < net.sent
  message : ∀ i < net.sent, (net.messages i).timeout =
    (net.messages i).context.map fun deadline => deadline - (net.messages i).sentAt
  awaits : ∀ n u i call timeout, net.serving n u = some i →
    ((net.nodes n).tasks u).stack = [.deliver call timeout] → net.Awaits n u i call timeout
  bound : ∀ n u i seconds, net.serving n u = some i → (net.messages i).timeout = some seconds →
    (∃ call timeout, ((net.nodes n).tasks u).stack = [.deliver call timeout]) ∨
    ∃ start ≤ (net.nodes n).now, (net.nodes n).boundBy u (start + seconds)
  cause : ∀ j < net.sent, ∀ i, (net.messages j).cause = some i → i < j ∧
    ∀ seconds, (net.messages i).timeout = some seconds →
      ∃ left, (net.messages j).timeout = some left ∧ left ≤ seconds

theorem timely_init : (Network.init D first).Timely where
  nested := allNested_init
  unspawned _ _ _ := rfl
  sent _ _ _ h := by cases h
  message _ h := by cases h
  awaits _ _ _ _ _ h := by cases h
  bound _ _ _ _ h := by cases h
  cause _ h := by cases h

namespace Network.Timely

variable {n : NodeId} {u : TaskId} {i : MessageId} (hT : net.Timely) (h : NetStep D net net')

include hT h in
theorem step_unspawned (hu : (net'.nodes n).spawned ≤ u) : net'.serving n u = none := by
  by_contra hne
  obtain ⟨i, hi⟩ := Option.ne_none_iff_exists'.1 hne
  rcases h.serving hT.unspawned hi with ⟨-, hlt⟩ |
    ⟨t, r, f, rest, c, s, next, hr, hs, he, hnode, hserving, hle, hlt⟩ |
    ⟨loopback, hsent, rfl, rfl, rfl⟩
  · refine absurd hu (not_le.2 (hlt.trans_le ?_))
    rcases h.node n with he | hnode
    · rw [he]
    · exact hnode.spawned_le
  · rw [hnode] at hu
    exact absurd hu (not_le.2 (by simpa using hlt))
  · refine absurd hu (not_le.2 ?_)
    show _ < ((net.setNode _ _).nodes _).spawned
    rw [setNode_nodes_self]
    exact Nat.lt_succ_self _

include hT h in
theorem step_sent (hi : net'.serving n u = some i) : i < net.sent := by
  rcases h.serving hT.unspawned hi with ⟨h0, -⟩ |
    ⟨t, r, f, rest, c, s, next, hr, hs, he, hnode, hserving, hle, hlt⟩ |
    ⟨loopback, hsent, rfl, rfl, rfl⟩
  · exact hT.sent n u i h0
  · exact hT.sent n t i hserving
  · exact hsent

/-- A task that is started by another has one frame, and the other's deadline. -/
theorem starts_new {cfg : Config} {s s1 : State} {t : TaskId} {c : Choice} {f : Frame}
    {r : Resume Outcome} {next : Next Frame Outcome} (rest : List Frame)
    (he : exec cfg s t c f r = some (s1, next)) (ht : t < s.spawned) (hle : s.spawned ≤ u)
    (hlt : u < s1.spawned) :
    ∃ f', f.starts f' ∧
      ((s1.toLoop.land t rest next).tasks u).stack = [f'] ∧
      ((s1.toLoop.land t rest next).tasks u).context = (s.tasks t).context := by
  obtain ⟨f', hf', hs'⟩ := (exec_starts he).stack_new u hle hlt
  refine ⟨f', hf', ?_, ?_⟩
  · rw [Loop.stack_land _ (ht.trans_le hle).ne']
    exact hs'
  · rw [Loop.context_land]
    exact exec_context_new he ht hle hlt

include hT h in
theorem step_awaits {call : Call} {timeout : Option Time} (hi : net'.serving n u = some i)
    (hs' : ((net'.nodes n).tasks u).stack = [.deliver call timeout]) :
    net'.Awaits n u i call timeout := by
  unfold Network.Awaits
  rw [h.message_eq (hT.step_sent h hi)]
  rcases h.serving hT.unspawned hi with ⟨h0, hlt⟩ |
    ⟨t, r, f, rest, c, s, next, hr, hs, he, hnode, hserving, hle, hlt⟩ |
    ⟨loopback, hsent, rfl, rfl, rfl⟩
  · rcases h.node n with he | hnode
    · rw [he] at hs' ⊢
      exact hT.awaits n u i call timeout h0 hs'
    · obtain ⟨hs, hctx⟩ := hnode.still (hT.nested n) hlt hs'
      rw [hctx]
      exact hT.awaits n u i call timeout h0 hs
  · obtain ⟨f', hf', hstack, -⟩ := starts_new rest he ((hT.nested n).running t r hr).1 hle hlt
    rw [hnode, hstack] at hs'
    obtain rfl := List.singleton_inj.1 hs'
    exact hf'.1.elim
  · have hnode : ((net.arrived i loopback).nodes (net.messages i).target) =
        (net.nodes (net.messages i).target).spawn (.deliver (net.messages i).call
          (net.messages i).timeout) (if loopback then (net.messages i).context else none) :=
      setNode_nodes_self
    rw [hnode] at hs' ⊢
    rw [context_spawn_new le_rfl (Nat.lt_succ_self _)]
    obtain ⟨rfl, rfl⟩ : call = (net.messages i).call ∧ timeout = (net.messages i).timeout := by
      simpa [State.spawn, Loop.spawn, eq_comm] using hs'
    refine ⟨rfl, rfl, ?_⟩
    cases loopback
    · exact .inl rfl
    · exact .inr rfl

include hT h in
theorem step_bound {seconds : Time} (hi : net'.serving n u = some i)
    (hseconds : (net'.messages i).timeout = some seconds) :
    (∃ call timeout, ((net'.nodes n).tasks u).stack = [.deliver call timeout]) ∨
    ∃ start ≤ (net'.nodes n).now, (net'.nodes n).boundBy u (start + seconds) := by
  rw [h.message_eq (hT.step_sent h hi)] at hseconds
  rcases h.serving hT.unspawned hi with ⟨h0, hlt⟩ |
    ⟨t, r, f, rest, c, s, next, hr, hs, he, hnode, hserving, hle, hlt⟩ |
    ⟨loopback, hsent, rfl, rfl, rfl⟩
  · have hbound := hT.bound n u i seconds h0 hseconds
    rcases h.node n with he | hnode
    · rw [he]
      exact hbound
    · rcases hbound with ⟨call, timeout, hs⟩ | ⟨start, hstart, hb⟩
      · rcases hnode.delivers hlt hs with ⟨hs', -⟩ | hb
        · exact .inl ⟨call, timeout, hs'⟩
        · have htimeout := (hT.awaits n u i call timeout h0 hs).2.1
          exact .inr ⟨_, hnode.now_le, hb seconds (htimeout.trans hseconds)⟩
      · exact .inr ⟨start, hstart.trans hnode.now_le, boundBy_step (hT.nested n) hnode hlt hb⟩
  · have ht := ((hT.nested n).running t r hr).1
    rcases hT.bound n t i seconds hserving hseconds with ⟨call, timeout, hdeliver⟩ |
      ⟨start, hstart, hb⟩
    · -- what is to deliver a call starts no task
      obtain ⟨rfl, rfl⟩ := List.cons.inj (hdeliver.symm.trans hs)
      cases exec_binding rfl he <;> exact absurd hlt hle.not_gt
    · obtain ⟨f', -, hstack, hctx⟩ := starts_new rest he ht hle hlt
      refine .inr ⟨start, ?_, ?_⟩
      · rw [hnode]
        exact hstart.trans (exec_now he).ge
      · rw [hnode]
        refine boundBy_singleton hstack ?_
        rw [hctx]
        exact hb.context hs
  · refine .inl ⟨(net.messages i).call, (net.messages i).timeout, ?_⟩
    show ((((net.setNode _ _).nodes _)).tasks _).stack = _
    rw [setNode_nodes_self]
    simp [State.spawn, Loop.spawn]

/-- Who sends for what serves a message says no more time than that has come with. -/
theorem left_le {t : TaskId} {call : Call} {rest : List Frame} {owner : NodeId} {seconds : Time}
    (hT : net.Timely) (hsends : net.Sends D n t call rest owner) (hi : net.serving n t = some i)
    (hseconds : (net.messages i).timeout = some seconds) :
    ∃ left, (net.message D n t rest.length call owner).timeout = some left ∧ left ≤ seconds := by
  rcases hT.bound n t i seconds hi hseconds with ⟨call', timeout, hs⟩ | ⟨start, hstart, hb⟩
  · cases hsends.stack.symm.trans hs
  · obtain ⟨deadline, hctx, hle⟩ := hb.context hsends.stack
    refine ⟨deadline - (net.nodes n).now, ?_, ?_⟩
    · show ((net.nodes n).tasks t).context.map _ = _
      rw [hctx]
      rfl
    · rw [sub_le_iff_le_add]
      calc deadline ≤ start + seconds := hle
        _ = seconds + start := add_comm _ _
        _ ≤ seconds + (net.nodes n).now := add_le_add le_rfl hstart

include hT h in
theorem step : net'.Timely where
  nested := h.nested hT.nested
  unspawned _ _ hu := hT.step_unspawned h hu
  sent _ _ _ hi := (hT.step_sent h hi).trans_le h.sent_le
  message := by
    refine h.sent (p := fun m => m.timeout = m.context.map fun deadline => deadline - m.sentAt)
      hT.message fun n t call rest owner hsends => rfl
  awaits _ _ _ _ _ hi hs := hT.step_awaits h hi hs
  bound _ _ _ _ hi hseconds := hT.step_bound h hi hseconds
  cause := by
    intro j hj i hcause
    have hkeep : j < net.sent → i < j ∧ ∀ seconds, (net'.messages i).timeout = some seconds →
        ∃ left, (net'.messages j).timeout = some left ∧ left ≤ seconds := by
      intro hj
      rw [h.message_eq hj] at hcause ⊢
      obtain ⟨hlt, hle⟩ := hT.cause j hj i hcause
      rw [h.message_eq (hlt.trans hj)]
      exact ⟨hlt, hle⟩
    rcases h.messages with ⟨hsent, -⟩ | ⟨n, t, call, rest, owner, hsends, hsent, he⟩
    · exact hkeep (hsent ▸ hj)
    · rcases (Nat.lt_succ_iff.1 (hsent ▸ hj)).lt_or_eq with hlt | rfl
      · exact hkeep hlt
      · have hnew : net'.messages net.sent = net.message D n t rest.length call owner := by
          rw [he, Function.update_self]
        rw [hnew] at hcause ⊢
        have hi : i < net.sent := hT.sent n t i hcause
        rw [h.message_eq hi]
        exact ⟨hi, fun seconds hseconds => hT.left_le hsends hcause hseconds⟩

end Network.Timely

theorem Run.timely {ok : Network → Network → Prop} (h : Run (netStep D) ok (.init D first) net) :
    net.Timely :=
  h.invariant timely_init fun _ _ _ hT hl _ => hT.step (netStep_cases hl)

/-! ## Hops -/

/-- A message is sent, over one hop or more, for what serves another. -/
def Network.Stems (net : Network) : MessageId → MessageId → Prop :=
  Relation.ReflTransGen fun i j => j < net.sent ∧ (net.messages j).cause = some i

/-- Along a chain of hops the seconds remaining never grow. -/
theorem Network.Stems.left_le {i j : MessageId} {seconds : Time} (hT : net.Timely)
    (h : net.Stems i j) (hseconds : (net.messages i).timeout = some seconds) :
    ∃ left, (net.messages j).timeout = some left ∧ left ≤ seconds := by
  induction h with
  | refl => exact ⟨seconds, hseconds, le_rfl⟩
  | tail _ hcause ih =>
    obtain ⟨left, hleft, hle⟩ := ih
    obtain ⟨left', hleft', hle'⟩ := (hT.cause _ hcause.1 _ hcause.2).2 left hleft
    exact ⟨left', hleft', hle'.trans hle⟩

/-- A task serves a delivered call under a deadline, of which the call tells its filters. -/
def Dispatched (cfg : Config) (s : State) (u : TaskId) (call : Call) (deadline : Time) : Prop :=
  (s.tasks u).context = some deadline ∧ ∃ asked saved, (s.tasks u).stack =
    [callFrame cfg { call with deadline := some deadline } .dispatchHere, .scope asked saved]

/-- `deliver` turns seconds back into a deadline. -/
theorem dispatched_of_deliver {cfg : Config} {s s' : State} {u : TaskId} {call : Call}
    {seconds : Time} {c : Choice} (hr : s.running = some (u, .send))
    (hs : (s.tasks u).stack = [.deliver call (some seconds)])
    (hl : step cfg s (.run c) = some s') :
    ∃ deadline, narrowed (s.tasks u).context (s.now + seconds) = some deadline ∧
      Dispatched cfg s' u call deadline := by
  obtain ⟨t, r, f, rest, s1, n, hr', hs', he, rfl⟩ := run_cases hl
  obtain ⟨rfl, rfl⟩ := Prod.mk.inj (Option.some.inj (hr.symm.trans hr'))
  obtain ⟨rfl, rfl⟩ := List.cons.inj (hs.symm.trans hs')
  cases he
  obtain ⟨deadline, hdeadline, -⟩ := by_narrowed (s.tasks u).context (s.now + seconds)
  refine ⟨deadline, hdeadline, ?_, s.now + seconds, (s.tasks u).context, ?_⟩
  · rw [Loop.context_land, setDeadline_context, hdeadline]
  · rw [Loop.stack_land_self, hdeadline]
    rfl

/-- In every run, when a message that says how many seconds remain has arrived and `deliver` begins
to serve it : the call is dispatched under a deadline, which leaves it no more time than any caller
along the chain of hops had when it sent. It is exactly that many seconds after the receiver's clock
if and only if the message has come over a wire, or the receiver's clock does not read later than
the sender's did. -/
theorem deadline_crosses_iff {n : NodeId} {u : TaskId} {i : MessageId} {call : Call}
    {timeout : Option Time} {c : Choice} {s' : State} {seconds : Time}
    (h : Run (netStep D) (fun _ _ => True) (.init D first) net) (hi : net.serving n u = some i)
    (hr : (net.nodes n).running = some (u, .send))
    (hs : ((net.nodes n).tasks u).stack = [.deliver call timeout])
    (hl : step (D.config n) (net.nodes n) (.run c) = some s')
    (hseconds : (net.messages i).timeout = some seconds) :
    ∃ deadline, Dispatched (D.config n) s' u (net.messages i).call deadline ∧
      (deadline = (net.nodes n).now + seconds ↔
        ((net.nodes n).tasks u).context = none ∨ (net.nodes n).now ≤ (net.messages i).sentAt) ∧
      ∀ j seconds', net.Stems j i → (net.messages j).timeout = some seconds' →
        deadline - (net.nodes n).now ≤ seconds' := by
  have hT := h.timely
  obtain ⟨rfl, rfl, hctx⟩ := hT.awaits n u i call timeout hi hs
  rw [hseconds] at hs
  obtain ⟨deadline, hdeadline, hdispatched⟩ := dispatched_of_deliver hr hs hl
  refine ⟨deadline, hdispatched, ?_, fun j seconds' hstems hj => ?_⟩
  · have hexact : deadline = (net.nodes n).now + seconds ↔
        ∀ y, ((net.nodes n).tasks u).context = some y → (net.nodes n).now + seconds ≤ y := by
      rw [← narrowed_eq_iff, hdeadline, Option.some.injEq]
    rw [hexact]
    have hmessage := hT.message i (hT.sent n u i hi)
    rw [hseconds] at hmessage
    rcases hctx with hnone | hsame
    · rw [hnone]
      exact iff_of_true nofun (.inl rfl)
    · obtain ⟨y, hy, hleft⟩ := Option.map_eq_some_iff.1 hmessage.symm
      have hclocks : (net.nodes n).now + (y - (net.messages i).sentAt) ≤ y ↔
          (net.nodes n).now ≤ (net.messages i).sentAt := by
        rw [← add_sub_assoc, sub_le_iff_le_add, add_comm (net.nodes n).now y, add_le_add_iff_left]
      rw [hsame, hy, ← hleft]
      simpa using hclocks
  · obtain ⟨left, hleft, hle⟩ := hstems.left_le hT hj
    obtain rfl : left = seconds := Option.some.inj (hleft.symm.trans hseconds)
    obtain ⟨x, hx, hxle⟩ := by_narrowed ((net.nodes n).tasks u).context ((net.nodes n).now + left)
    obtain rfl : x = deadline := Option.some.inj (hx.symm.trans hdeadline)
    exact (sub_le_iff_le_add'.2 hxle).trans hle

/-! ## Runs on fixed inputs -/

/-- The first node calls `x` with ten seconds left. The second's clock is five seconds ahead when
the call arrives. -/
def crossing (loopback : Bool) : List NetLabel :=
  Label.on "one" ([.arrive, .resume 0, .run (.within 10)] ++ Label.gos 1 ++
    [.run (.call ⟨"counter", "x"⟩ "get" 0 0)] ++ Label.gos 2 ++ [.run .suspend]) ++
  .own "two" (.clock 5) :: .arrive 0 loopback :: Label.on "two" [.resume 0]

/-- Where the message of `crossing` is about to be served. -/
def Arrived (loopback : Bool) (net : Network) : Prop :=
  net.serving "two" 0 = some 0 ∧ (net.nodes "two").running = some (0, .send) ∧
  ((net.nodes "two").tasks 0).stack =
    [.deliver ⟨⟨"counter", "x"⟩, "get", 0, 0, none⟩ (some 10)] ∧
  (net.messages 0).timeout = some 10 ∧ (net.nodes "two").now = 5 ∧
  ((net.nodes "two").tasks 0).context = if loopback then some 10 else none

instance {loopback : Bool} {net : Network} : Decidable (Arrived loopback net) :=
  inferInstanceAs (Decidable (_ ∧ _ ∧ _ ∧ _ ∧ _ ∧ _))

theorem exists_crossing (loopback : Bool) : ∃ net : Network, ∃ s' : State,
    Run (netStep (.pair 0)) (fun _ _ => True) (.init (.pair 0) fun _ => some pairMembers) net ∧
    Arrived loopback net ∧
    step ((Deployment.pair 0).config "two") (net.nodes "two") (.run .go) = some s' := by
  obtain ⟨net, hrun, hp⟩ := exists_pair_run (.pair 0) (crossing loopback)
    (fun net => decide (Arrived loopback net) &&
      (step ((Deployment.pair 0).config "two") (net.nodes "two") (.run .go)).isSome)
    (by cases loopback <;> decide +kernel)
  rw [Bool.and_eq_true, decide_eq_true_eq] at hp
  obtain ⟨s', hl⟩ := Option.isSome_iff_exists.1 hp.2
  exact ⟨net, s', hrun, hp.1, hl⟩

/-- Over a wire the call has ten seconds on the second node too. -/
theorem deadline_crosses_iff_wire : ∃ net : Network, ∃ s' : State,
    (net.messages 0).timeout = some 10 ∧ (net.nodes "two").now = 5 ∧
    step ((Deployment.pair 0).config "two") (net.nodes "two") (.run .go) = some s' ∧
    Dispatched ((Deployment.pair 0).config "two") s' 0 (net.messages 0).call 15 := by
  obtain ⟨net, s', hrun, ⟨hi, hr, hs, hseconds, hnow, hctx⟩, hl⟩ := exists_crossing false
  obtain ⟨deadline, hdispatched, hexact, -⟩ := deadline_crosses_iff hrun hi hr hs hl hseconds
  obtain rfl : deadline = 15 := (hexact.2 (.inl hctx)).trans (by rw [hnow]; decide +kernel)
  exact ⟨net, s', hseconds, hnow, hl, hdispatched⟩

/-- By `LoopbackTransport` it has five : the sender's reading is still in its context. -/
theorem crossing_loopback_short : ∃ net : Network, ∃ s' : State,
    Run (netStep (.pair 0)) (fun _ _ => True) (.init (.pair 0) fun _ => some pairMembers) net ∧
    Arrived true net ∧
    step ((Deployment.pair 0).config "two") (net.nodes "two") (.run .go) = some s' ∧
    (s'.tasks 0).context = some 10 ∧ (10 : Time) ≠ (net.nodes "two").now + 10 := by
  obtain ⟨net, s', hrun, harrived, hl⟩ := exists_crossing true
  obtain ⟨-, hr, hs, -, hnow, hctx⟩ := id harrived
  obtain ⟨deadline, hdeadline, hdispatched⟩ := dispatched_of_deliver hr hs hl
  refine ⟨net, s', hrun, harrived, hl, ?_, by rw [hnow]; decide +kernel⟩
  rw [hdispatched.1, ← hdeadline, hctx, hnow]
  decide +kernel

end Nigrains
