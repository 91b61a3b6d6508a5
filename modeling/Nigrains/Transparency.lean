import Nigrains.Isolation

/-!
# What wraps a call

`_through_filters` puts filters and a timeout around a dispatch. `Stage` follows one call
through them : inward, from one filter's `next` to the next, until the dispatch starts, and
outward from what the dispatch has ended with. It is a history variable of a run, `watched`.
A filter may await its `next` in a `with deadline` block, or in none (`Wraps`). If every filter
hands the call on unchanged and ends with what its `next` has given it (`PassesOn`), and the call
is over before its deadline, its outcome is that of the dispatch exactly if there is no deadline
or the dispatch has not ended with a `TimeoutError` (`transparent`). The `except TimeoutError`
around the timeout catches those that the timeout has not raised (`ownTimeout_fails`).
-/

namespace Nigrains

/-- How far a call has come. A depth counts the frames beneath. -/
inductive Stage
  /-- On its way to the dispatch, beneath its chain, the filter it has come to, or the block that
  filter enters with it. -/
  | inward (depth : ℕ)
  /-- The dispatch is under way. -/
  | dispatching (depth : ℕ)
  /-- The dispatch has ended with `bottom`, and the call has come out to where `depth` frames
  are left, which were given `told`. -/
  | outward (depth : ℕ) (bottom told : Outcome)
deriving DecidableEq

/-- A call begins, above `depth` frames. -/
def Stage.start (cfg : Config) (call : Call) (depth : ℕ) : Stage :=
  if cfg.filters = 0 ∧ call.deadline = none then .dispatching depth else .inward depth

/-- What the innermost frame of a task was given, or what its last frame has ended with. -/
def State.told (s : State) (t : TaskId) : Option Outcome :=
  s.gave t (s.tasks t).stack

/-- A call of task `t` after a step from `s` to `s'`. -/
def Stage.after (t : TaskId) (s : State) (l : Label) (s' : State) : Stage → Stage
  | .inward depth =>
    match l, s.running, (s.tasks t).stack with
    | .run c, some (u, _), f :: rest =>
      if u = t ∧ rest.length = depth then
        match f, c with
        | .chain 0 _ _, _ =>
          if depth < (s'.tasks t).stack.length then .dispatching ((s'.tasks t).stack.length - 1)
          else .inward depth
        | .user _, c => if c.handed.isSome then .inward (depth + 1) else .inward depth
        | .within _ (.next ..), _ =>
          if depth + 1 < (s'.tasks t).stack.length then .inward (depth + 1) else .inward depth
        | _, _ => .inward depth
      else .inward depth
    | _, _, _ => .inward depth
  | .dispatching depth =>
    match s'.told t with
    | some o =>
      if (s'.tasks t).stack.length ≤ depth then .outward depth o o else .dispatching depth
    | none => .dispatching depth
  | .outward depth bottom told =>
    match s'.told t with
    | some o =>
      if (s'.tasks t).stack.length < depth then .outward (s'.tasks t).stack.length bottom o
      else .outward depth bottom told
    | none => .outward depth bottom told

/-- A runtime, and how far a call of task `t` has come. -/
def watched (cfg : Config) (t : TaskId) (x : State × Stage) (l : Label) : Option (State × Stage) :=
  (step cfg x.1 l).map fun s' => (s', x.2.after t x.1 l s')

/-- A step of a call that is not over, and stands above `depth` frames. A filter awaits its
`next` before it ends, with the call it was given, and then ends with what that gave it. -/
def PassesOn (t : TaskId) (depth : ℕ) (x x' : State × Stage) : Prop :=
  depth < (x.1.tasks t).stack.length ∧
  ∀ k call terminal rest, (x.1.tasks t).stack = .user (.filter k call terminal) :: rest →
    match x.2, x'.2 with
    | .inward at_, .inward at' =>
      rest.length = at_ → at_ < (x'.1.tasks t).stack.length ∧
        (at' ≠ at_ → (x'.1.tasks t).stack.head?.bind Frame.handed = some call)
    | .outward at_ _ told, .outward at' _ told' => at' < at_ → told' = told
    | _, _ => True

/-- The filters of a call with `j` and more inside them, the innermost first, each of them in the
block that it may be awaiting its `next` in. They stand on `low`. -/
inductive Wraps (filters : ℕ) (call : Call) (terminal : Terminal) (low : List Frame) :
    ℕ → List Frame → Prop
  | low : Wraps filters call terminal low filters low
  | filter {j : ℕ} {l : List Frame} (h : Wraps filters call terminal low (j + 1) l) :
      Wraps filters call terminal low j (.user (.filter j call terminal) :: l)
  | block {j : ℕ} {l : List Frame} (asked : Time) (saved : Option Time)
      (h : Wraps filters call terminal low (j + 1) l) :
      Wraps filters call terminal low j (.scope asked saved :: .user (.filter j call terminal) :: l)

/-- What `asyncio.timeout` and the `except` around it make of an outcome when the timeout has
not expired. -/
def through (call : Call) (o : Outcome) : Outcome :=
  if call.deadline.isSome then toDeadlineExceeded call o else o

/-- The timeout of a call with a deadline. -/
def Guards (call : Call) (guard : List Frame) : Prop :=
  if call.deadline.isSome then ∃ saved expired, guard = [.timeout call saved expired]
  else guard = []

section

variable {cfg : Config} {s s' : State} {t : TaskId} {n : Next Frame Outcome} {call : Call}
  {terminal : Terminal} {m : ℕ}

/-! ## What a `TimeoutError` becomes -/

theorem deadlineExceededFrom_ne (grain method : String) (e : Exc) :
    Exc.deadlineExceededFrom grain method e ≠ e := by
  intro h
  have hsize := congrArg sizeOf h
  simp at hsize

/-- What is no `TimeoutError` comes through as it is, and only that. -/
theorem through_eq_iff (o : Outcome) :
    through call o = o ↔ call.deadline = none ∨ ∀ e, o = .error e → e.isTimeout = false := by
  unfold through
  cases hd : call.deadline with
  | none => simp
  | some deadline =>
    cases o with
    | ok v => simp [toDeadlineExceeded]
    | error e =>
      by_cases he : e.isTimeout = true
      · simp [toDeadlineExceeded, he, deadlineExceededFrom_ne]
      · simp [toDeadlineExceeded, he]

/-! ## What a step does to the stack of a task -/

/-- A timeout may have expired. -/
def Frame.ages (f f' : Frame) : Prop :=
  f' = f ∨ ∃ call saved, f = .timeout call saved false ∧ f' = .timeout call saved true

theorem ages_refl (l : List Frame) : List.Forall₂ Frame.ages l l :=
  List.forall₂_same.2 fun _ _ => .inl rfl

theorem ages_set {call : Call} {saved : ℕ} : ∀ {l : List Frame} {i : ℕ},
    l[i]? = some (.timeout call saved false) →
      List.Forall₂ Frame.ages l (l.set i (.timeout call saved true))
  | [], _, h => by simp at h
  | f :: l, 0, h => by
    obtain rfl : f = .timeout call saved false := by simpa using h
    exact .cons (.inr ⟨call, saved, rfl, rfl⟩) (ages_refl l)
  | f :: l, i + 1, h => .cons (.inl rfl) (ages_set (by simpa using h))

/-- Of two stacks, one above the other, each ages. -/
theorem ages_append {a b l : List Frame} (h : List.Forall₂ Frame.ages (a ++ b) l) :
    ∃ a' b', l = a' ++ b' ∧ List.Forall₂ Frame.ages a a' ∧ List.Forall₂ Frame.ages b b' := by
  induction a generalizing l with
  | nil => exact ⟨[], l, rfl, .nil, h⟩
  | cons f a ih =>
    cases h with
    | cons hf hl =>
      obtain ⟨a', b', rfl, ha, hb⟩ := ih hl
      exact ⟨_ :: a', b', rfl, .cons hf ha, hb⟩

/-- Only timeouts age. -/
theorem ages_eq {l l' : List Frame} (h : List.Forall₂ Frame.ages l l')
    (hl : ∀ f ∈ l, ∀ call saved, f ≠ .timeout call saved false) : l' = l := by
  induction h with
  | nil => rfl
  | cons hf _ ih =>
    rw [ih fun f hf => hl f (List.mem_cons_of_mem _ hf)]
    rcases hf with rfl | ⟨call, saved, rfl, -⟩
    · rfl
    · exact (hl _ List.mem_cons_self call saved rfl).elim

/-- What is no timeout stays what it is. -/
theorem Frame.ages.eq {f f' : Frame} (h : f.ages f')
    (hf : ∀ call saved, f ≠ .timeout call saved false) : f' = f :=
  h.resolve_right fun ⟨call, saved, heq, _⟩ => hf call saved heq

/-- Filters do not age, nor do their blocks. -/
theorem Wraps.ages {filters j : ℕ} {low l l' : List Frame} (h : Wraps filters call terminal low j l)
    (hl : List.Forall₂ Frame.ages l l') :
    ∃ low', List.Forall₂ Frame.ages low low' ∧ Wraps filters call terminal low' j l' := by
  induction h generalizing l' with
  | low => exact ⟨l', hl, .low⟩
  | filter h ih =>
    cases hl with
    | cons hf hl =>
      obtain ⟨low', hlow, hl'⟩ := ih hl
      rw [hf.eq (by simp)]
      exact ⟨low', hlow, .filter hl'⟩
  | block asked saved h ih =>
    cases hl with
    | cons hb hl =>
      cases hl with
      | cons hf hl =>
        obtain ⟨low', hlow, hl'⟩ := ih hl
        rw [hb.eq (by simp), hf.eq (by simp)]
        exact ⟨low', hlow, .block asked saved hl'⟩

theorem Wraps.le {filters j : ℕ} {low l : List Frame} (h : Wraps filters call terminal low j l) :
    j ≤ filters := by
  induction h with
  | low => exact le_rfl
  | filter h ih | block asked saved h ih => exact Nat.le_of_succ_le ih

theorem Wraps.length_le {filters j : ℕ} {low l : List Frame}
    (h : Wraps filters call terminal low j l) : low.length ≤ l.length := by
  induction h with
  | low => exact le_rfl
  | filter h ih => exact ih.trans (Nat.le_succ _)
  | block asked saved h ih => exact ih.trans ((Nat.le_succ _).trans (Nat.le_succ _))

theorem Guards.ages {guard l : List Frame} (hg : Guards call guard)
    (h : List.Forall₂ Frame.ages guard l) : Guards call l := by
  unfold Guards at hg ⊢
  split_ifs at hg ⊢
  · obtain ⟨saved, expired, rfl⟩ := hg
    cases h with
    | cons hf hl =>
      cases hl
      rcases hf with rfl | ⟨_, _, hf, rfl⟩
      · exact ⟨saved, expired, rfl⟩
      · cases hf
        exact ⟨saved, true, rfl⟩
  · subst hg
    cases h
    rfl

/-- A step runs the innermost frame of task `t`, or leaves its stack as it is but for a
timeout that expires, and what the task is given if it is running. -/
theorem step_at {l : Label} (h : step cfg s l = some s') (ht : t < s.spawned) :
    (∃ c r f rest s1 n, l = .run c ∧ s.running = some (t, r) ∧ (s.tasks t).stack = f :: rest ∧
      exec cfg s t c f r = some (s1, n) ∧ s' = { s1 with toLoop := s1.toLoop.land t rest n }) ∨
    ((∀ c r, l = .run c → s.running ≠ some (t, r)) ∧
      List.Forall₂ Frame.ages (s.tasks t).stack (s'.tasks t).stack ∧
      ∀ r, s.running = some (t, r) → s'.running = some (t, r)) := by
  by_cases hl : ∃ c, l = .run c
  · obtain ⟨c, rfl⟩ := hl
    obtain ⟨u, r, f, rest, s1, n, hr, hs, he, rfl⟩ := run_cases h
    by_cases hut : t = u
    · subst hut
      exact .inl ⟨c, r, f, rest, s1, n, rfl, hr, hs, he, rfl⟩
    · have hne : ∀ r', s.running ≠ some (t, r') := by
        intro r' h'
        rw [hr] at h'
        exact hut (Prod.mk.inj (Option.some.inj h')).1.symm
      refine .inr ⟨fun _ r' _ => hne r', ?_, fun r' h' => (hne r' h').elim⟩
      rw [Loop.stack_land _ hut, (exec_keeps he).stack_eq t (.inl ht)]
      exact ages_refl _
  · have hne : ∀ c, l ≠ .run c := not_exists.1 hl
    refine .inr ⟨fun c r h' => (hne c h').elim, ?_⟩
    rcases step_other hne h with ⟨u, r, f, rest, hr, -, -, -, rfl⟩ |
      ⟨u, i, call, saved, hr, hs, -, rfl⟩ | hw
    · rw [stack_runTask]
      exact ⟨ages_refl _, fun r' h' => by rw [hr] at h'; cases h'⟩
    · refine ⟨?_, fun r' h' => by rw [hr] at h'; cases h'⟩
      rw [stack_expireTask]
      split_ifs with hut
      · subst hut
        exact ages_set hs
      · exact ages_refl _
    · rw [hw.keeps.stack_eq t (.inl ht)]
      exact ⟨ages_refl _, fun r' h' => hw.keeps.running_eq.trans h'⟩

/-- While a task runs, its stack is changed by its own segments only. -/
theorem step_still {l : Label} {r : Resume Outcome} (hr : s.running = some (t, r))
    (ht : t < s.spawned) (hl : ∀ c, l ≠ .run c) (h : step cfg s l = some s') :
    (s'.tasks t).stack = (s.tasks t).stack ∧ s'.running = some (t, r) := by
  rcases step_other hl h with ⟨u, r', f, rest, hr', -, -, -, rfl⟩ |
    ⟨u, i, call, saved, hr', -, -, rfl⟩ | hw
  · rw [hr'] at hr
    cases hr
  · rw [hr'] at hr
    cases hr
  · exact ⟨hw.keeps.stack_eq t (.inl ht), hw.keeps.running_eq.trans hr⟩

/-- Who has not ended is told something only when it runs. -/
theorem running_of_told {f : Frame} {rest : List Frame} {o : Outcome}
    (hs : (s.tasks t).stack = f :: rest) (h : s.told t = some o) :
    s.running = some (t, .got o) := by
  unfold State.told State.gave at h
  rw [if_pos rfl, hs] at h
  split at h
  · next heq => cases heq
  · next u o' hr =>
    split_ifs at h with hu
    rw [hr, hu, Option.some.inj h]
  · cases h

/-- The segment that the running task is about to run. -/
theorem run_of_exec {c : Choice} {r : Resume Outcome} {f : Frame} {rest : List Frame} {s1 : State}
    (hr : s.running = some (t, r)) (hs : (s.tasks t).stack = f :: rest)
    (hx : exec cfg s t c f r = some (s1, n)) (h : step cfg s (.run c) = some s') :
    s' = { s1 with toLoop := s1.toLoop.land t rest n } := by
  simp only [step, run, hr, hs, hx] at h
  exact (Option.some.inj h).symm

/-- Code outside the runtime stays on the stack until it ends. -/
theorem user_stays {c : Choice} {role : Role} (h : user cfg s t role c = some (s', n)) :
    (∃ o, n = .done o) ∨ ∃ above, n.frames = above ++ [.user role] := by
  unfold user at h
  repeat' split at h
  all_goals
    first
      | contradiction
      | (cases h
         first
          | exact .inl ⟨_, rfl⟩
          | exact .inr ⟨[], rfl⟩
          | exact .inr ⟨[_], rfl⟩)

/-! ## Where a call stands -/

variable (cfg call terminal t m) in
/-- The call stands where its stage says, above `m` frames. -/
inductive Wrapped (s : State) : Stage → Prop
  /-- Its chain goes on to the next filter, or to the dispatch. -/
  | chaining {j : ℕ} {base l : List Frame} (hm : base.length = m)
      (hl : Wraps cfg.filters call terminal base j l) (hr : s.running = some (t, .send))
      (hs : (s.tasks t).stack = .chain j call terminal :: l) : Wrapped s (.inward l.length)
  /-- A filter enters the block that it awaits its `next` in. -/
  | entering {j : ℕ} {base l : List Frame} {seconds : Time} (hm : base.length = m)
      (hl : Wraps cfg.filters call terminal base (j + 1) l) (hr : s.running = some (t, .send))
      (hs : (s.tasks t).stack = .within seconds (.next j call terminal) ::
        .user (.filter j call terminal) :: l) : Wrapped s (.inward (l.length + 1))
  /-- A filter has the call, and may do something of its own before it passes it on. -/
  | filtering {j : ℕ} {base l above : List Frame} (hm : base.length = m)
      (hl : Wraps cfg.filters call terminal base (j + 1) l)
      (hs : (s.tasks t).stack = above ++ .user (.filter j call terminal) :: l) :
      Wrapped s (.inward l.length)
  /-- Its dispatch is under way. -/
  | dispatching {base l guard above : List Frame} {f : Frame} (hm : base.length = m)
      (hl : Wraps cfg.filters call terminal base 0 l) (hguard : Guards call guard)
      (hs : (s.tasks t).stack = f :: above ++ (guard ++ l)) :
      Wrapped s (.dispatching (guard ++ l).length)
  /-- What the dispatch has ended with has come out to the timeout. -/
  | timed {base l : List Frame} {saved : ℕ} {expired : Bool} {bottom : Outcome}
      (hm : base.length = m) (hl : Wraps cfg.filters call terminal base 0 l)
      (hd : call.deadline.isSome = true) (hr : s.running = some (t, .got bottom))
      (hs : (s.tasks t).stack = .timeout call saved expired :: l) :
      Wrapped s (.outward (l.length + 1) bottom bottom)
  /-- What has come through the timeout ends a filter's block. -/
  | unblocking {j : ℕ} {base l : List Frame} {asked : Time} {saved : Option Time} {bottom : Outcome}
      (hm : base.length = m) (hl : Wraps cfg.filters call terminal base (j + 1) l)
      (hr : s.running = some (t, .got (through call bottom)))
      (hs : (s.tasks t).stack = .scope asked saved :: .user (.filter j call terminal) :: l) :
      Wrapped s (.outward (l.length + 2) bottom (through call bottom))
  /-- A filter has been given it, and may do something of its own before it ends. -/
  | leaving {j : ℕ} {base l above : List Frame} {bottom : Outcome} (hm : base.length = m)
      (hl : Wraps cfg.filters call terminal base (j + 1) l)
      (hs : (s.tasks t).stack = above ++ .user (.filter j call terminal) :: l) :
      Wrapped s (.outward (l.length + 1) bottom (through call bottom))
  /-- It has come out to the caller. -/
  | out {base : List Frame} {bottom : Outcome} (hm : base.length = m)
      (htold : s.told t = some (through call bottom)) (hs : (s.tasks t).stack = base) :
      Wrapped s (.outward base.length bottom (through call bottom))

/-- It comes out of one wrapping to the next. -/
theorem wrapped_out {j : ℕ} {base l : List Frame} {bottom : Outcome} (hm : base.length = m)
    (hl : Wraps cfg.filters call terminal base j l) (htold : s.told t = some (through call bottom))
    (hs : (s.tasks t).stack = l) :
    Wrapped cfg t call terminal m s (.outward l.length bottom (through call bottom)) := by
  cases hl with
  | low => exact .out hm htold hs
  | filter hl => exact .leaving hm hl (show _ = [] ++ _ from hs)
  | block asked saved hl => exact .unblocking hm hl (running_of_told hs htold) hs

/-- A step that runs nothing of the task leaves the call where it is. -/
theorem Wrapped.ages {stage : Stage} (h : Wrapped cfg t call terminal m s stage)
    (hm : m < (s.tasks t).stack.length)
    (hs' : List.Forall₂ Frame.ages (s.tasks t).stack (s'.tasks t).stack)
    (hr' : ∀ r, s.running = some (t, r) → s'.running = some (t, r)) :
    Wrapped cfg t call terminal m s' stage := by
  cases h with
  | chaining hbase hl hr hs =>
    rw [hs, List.forall₂_cons_left_iff] at hs'
    obtain ⟨f', l', hf, hages, heq⟩ := hs'
    obtain ⟨low', hlow, hl'⟩ := hl.ages hages
    rw [hf.eq (by simp)] at heq
    rw [hages.length_eq]
    exact .chaining (hlow.length_eq.symm.trans hbase) hl' (hr' _ hr) heq
  | entering hbase hl hr hs =>
    rw [hs, List.forall₂_cons_left_iff] at hs'
    obtain ⟨b', l', hb, hages, heq⟩ := hs'
    obtain ⟨f', l', hf, hrest, rfl⟩ := List.forall₂_cons_left_iff.1 hages
    obtain ⟨low', hlow, hl'⟩ := hl.ages hrest
    rw [hb.eq (by simp), hf.eq (by simp)] at heq
    rw [hrest.length_eq]
    exact .entering (hlow.length_eq.symm.trans hbase) hl' (hr' _ hr) heq
  | filtering hbase hl hs =>
    rw [hs] at hs'
    obtain ⟨above', l', heq, -, hages⟩ := ages_append hs'
    obtain ⟨f', l', hf, hrest, rfl⟩ := List.forall₂_cons_left_iff.1 hages
    obtain ⟨low', hlow, hl'⟩ := hl.ages hrest
    rw [hf.eq (by simp)] at heq
    rw [hrest.length_eq]
    exact .filtering (hlow.length_eq.symm.trans hbase) hl' heq
  | dispatching hbase hl hguard hs =>
    rw [hs] at hs'
    obtain ⟨top, l', heq, htop, hages⟩ := ages_append hs'
    obtain ⟨f', above', -, -, rfl⟩ := List.forall₂_cons_left_iff.1 htop
    obtain ⟨guard', l', rfl, hguard', hages'⟩ := ages_append hages
    obtain ⟨low', hlow, hl'⟩ := hl.ages hages'
    rw [hages.length_eq]
    exact .dispatching (hlow.length_eq.symm.trans hbase) hl' (hguard.ages hguard') heq
  | @timed base l saved expired bottom hbase hl hd hr hs =>
    rw [hs, List.forall₂_cons_left_iff] at hs'
    obtain ⟨f', l', hf, hages, heq⟩ := hs'
    obtain ⟨low', hlow, hl'⟩ := hl.ages hages
    obtain ⟨expired', rfl⟩ : ∃ expired', f' = .timeout call saved expired' := by
      rcases hf with rfl | ⟨_, _, hf, rfl⟩
      · exact ⟨expired, rfl⟩
      · cases hf
        exact ⟨true, rfl⟩
    rw [hages.length_eq]
    exact .timed (hlow.length_eq.symm.trans hbase) hl' hd (hr' _ hr) heq
  | unblocking hbase hl hr hs =>
    rw [hs, List.forall₂_cons_left_iff] at hs'
    obtain ⟨b', l', hb, hages, heq⟩ := hs'
    obtain ⟨f', l', hf, hrest, rfl⟩ := List.forall₂_cons_left_iff.1 hages
    obtain ⟨low', hlow, hl'⟩ := hl.ages hrest
    rw [hb.eq (by simp), hf.eq (by simp)] at heq
    rw [hrest.length_eq]
    exact .unblocking (hlow.length_eq.symm.trans hbase) hl' (hr' _ hr) heq
  | leaving hbase hl hs =>
    rw [hs] at hs'
    obtain ⟨above', l', heq, -, hages⟩ := ages_append hs'
    obtain ⟨f', l', hf, hrest, rfl⟩ := List.forall₂_cons_left_iff.1 hages
    obtain ⟨low', hlow, hl'⟩ := hl.ages hrest
    rw [hf.eq (by simp)] at heq
    rw [hrest.length_eq]
    exact .leaving (hlow.length_eq.symm.trans hbase) hl' heq
  | out hbase htold hs =>
    -- the call would be over
    rw [hs, hbase] at hm
    exact absurd hm (lt_irrefl m)

theorem Stage.after_dispatching {l : Label} {depth : ℕ}
    (h : depth < (s'.tasks t).stack.length) :
    (Stage.dispatching depth).after t s l s' = .dispatching depth := by
  simp only [Stage.after]
  split
  · exact if_neg h.not_ge
  · rfl

theorem Stage.after_outward {l : Label} {depth : ℕ} {bottom told : Outcome}
    (h : depth ≤ (s'.tasks t).stack.length) :
    (Stage.outward depth bottom told).after t s l s' = .outward depth bottom told := by
  simp only [Stage.after]
  split
  · exact if_neg h.not_gt
  · rfl

/-- A step that runs nothing of the task leaves the stage. -/
theorem Wrapped.after_eq {stage : Stage} {l : Label} (h : Wrapped cfg t call terminal m s stage)
    (hl : ∀ c r, l = .run c → s.running ≠ some (t, r))
    (hlen : (s'.tasks t).stack.length = (s.tasks t).stack.length) :
    stage.after t s l s' = stage := by
  cases stage with
  | inward depth =>
    simp only [Stage.after]
    split
    · next c u r f rest hr hs =>
      rw [if_neg]
      rintro ⟨rfl, -⟩
      exact hl c r rfl hr
    · rfl
  | dispatching depth =>
    cases h with
    | dispatching hm hl hguard hs =>
      refine Stage.after_dispatching ?_
      simp only [hlen, hs, List.length_append, List.length_cons]
      omega
  | outward depth bottom told =>
    refine Stage.after_outward (hlen ▸ ?_)
    cases h with
    | timed hm hl hd hr hs | unblocking hm hl hr hs => exact (congrArg List.length hs).ge
    | leaving hm hl hs =>
      rw [hs, List.length_append, List.length_cons]
      omega
    | out hm htold hs => exact (congrArg List.length hs).ge

/-! ## What a segment does to a call -/

section

variable {c : Choice} {r : Resume Outcome} {f : Frame} {rest above base : List Frame} {s1 : State}
  {j depth : ℕ} (hr : s.running = some (t, r)) (hs : (s.tasks t).stack = f :: rest)
  (hx : exec cfg s t c f r = some (s1, n))
    (hs' : s' = { s1 with toLoop := s1.toLoop.land t rest n })

include hs' in
theorem stack_landed : (s'.tasks t).stack = n.frames ++ rest := by
  rw [hs', Loop.stack_land_self]

include hs' in
/-- What a task is told by the end of its innermost frame. -/
theorem told_landed {o : Outcome} (hn : n = .done o) : s'.told t = some o := by
  subst hn
  unfold State.told
  rw [stack_landed hs', hs']
  exact gave_land

include hs' in
/-- A segment of a frame above a part of the stack leaves that part, and tells it what it ends
with if nothing else is left above it. -/
theorem landed_above (hrest : rest = above ++ base) :
    (∃ f' above', (s'.tasks t).stack = f' :: above' ++ base) ∨ ∃ o, n = .done o ∧ above = [] := by
  rw [stack_landed hs', hrest]
  cases n with
  | done o =>
    cases above with
    | nil => exact .inr ⟨o, rfl, rfl⟩
    | cons f' above => exact .inl ⟨f', above, rfl⟩
  | await self callee => exact .inl ⟨callee, self :: above, rfl⟩
  | goto frame => exact .inl ⟨frame, above, rfl⟩
  | park self => exact .inl ⟨self, above, rfl⟩

include hr hs hx hs'

/-- The chain goes on to its next filter, or to the dispatch. -/
theorem wrapped_chain (hnow : overdue call.deadline s.now = false)
    (hf : f = .chain j call terminal) (hsend : r = .send)
    (hl : Wraps cfg.filters call terminal base j rest) (hm : base.length = m) :
    Wrapped cfg t call terminal m s' ((Stage.inward rest.length).after t s (.run c) s') := by
  subst hf hsend
  have hstack := stack_landed hs'
  simp only [Stage.after, hr, hs, and_self, if_true, hstack]
  simp only [exec] at hx
  unfold chain at hx
  cases j with
  | succ j =>
    cases hx
    exact .filtering hm hl (show _ = [] ++ _ from hstack)
  | zero =>
    have hdispatching (guard : List Frame) (hguard : Guards call guard)
        (hn : n.frames = terminal.frame call :: guard) : Wrapped cfg t call terminal m s'
          (if rest.length < (n.frames ++ rest).length then
            .dispatching ((n.frames ++ rest).length - 1) else .inward rest.length) := by
      rw [if_pos (by simp [hn])]
      have hlen : (n.frames ++ rest).length - 1 = (guard ++ rest).length := by simp [hn]
      rw [hlen]
      exact .dispatching hm hl hguard
        (show _ = [terminal.frame call] ++ (guard ++ rest) by rw [hstack, hn]; rfl)
    dsimp only at hx
    split at hx
    · next hd =>
      cases hx
      exact hdispatching [] (by simp [Guards, hd]) rfl
    · next d hd =>
      split_ifs at hx with hle
      · simp [overdue, hd] at hnow
        exact (hle.not_gt (sub_pos.2 hnow)).elim
      · cases hx
        exact hdispatching _ (by simp [Guards, hd]) rfl

/-- A filter's block begins, and its `next` with it. -/
theorem wrapped_within {seconds : Time} {l : List Frame}
    (hf : f = .within seconds (.next j call terminal)) (hsend : r = .send)
    (hrest : rest = .user (.filter j call terminal) :: l)
    (hl : Wraps cfg.filters call terminal base (j + 1) l) (hm : base.length = m) :
    Wrapped cfg t call terminal m s' ((Stage.inward (l.length + 1)).after t s (.run c) s') := by
  subst hf hsend hrest
  have hstack := stack_landed hs'
  simp only [exec, within] at hx
  cases hx
  simp only [Stage.after, hr, hs, hstack, List.length_cons, and_self, if_true]
  rw [if_pos (by simp [Next.frames])]
  exact .chaining hm (.block _ _ hl) (by rw [hs']; rfl) hstack

/-- A filter awaits its `next`, in a block or not, or does something of its own before it does. -/
theorem wrapped_inward {l : List Frame}
    (hstack : (s.tasks t).stack = above ++ .user (.filter j call terminal) :: l)
    (hl : Wraps cfg.filters call terminal base (j + 1) l) (hm : base.length = m)
    (hpass : PassesOn t m (s, .inward l.length)
      (s', (Stage.inward l.length).after t s (.run c) s')) :
    Wrapped cfg t call terminal m s' ((Stage.inward l.length).after t s (.run c) s') := by
  have hstack' := stack_landed hs'
  rw [hs] at hstack
  cases above with
  | cons f' above =>
    -- the filter's own business
    rw [List.cons_append, List.cons.injEq] at hstack
    obtain ⟨rfl, rfl⟩ := hstack
    have hne : (above ++ .user (.filter j call terminal) :: l).length ≠ l.length := by
      simp only [List.length_append, List.length_cons]
      omega
    simp only [Stage.after, hr, hs, hne, and_false, if_false]
    refine .filtering hm hl (show _ = (n.frames ++ above) ++ _ from ?_)
    rw [hstack', List.append_assoc]
  | nil =>
    rw [List.nil_append, List.cons.injEq] at hstack
    obtain ⟨rfl, rfl⟩ := hstack
    have hown := hpass.2 j call terminal _ hs
    simp only [Stage.after, hr, hs, and_self, if_true] at hown ⊢
    simp only [exec] at hx
    cases c with
    | next call' =>
      simp only [user] at hx
      cases hx
      obtain ⟨-, hcall⟩ := hown rfl
      obtain rfl : call' = call := by simpa [hstack', Next.frames, Frame.handed] using hcall
      exact .chaining hm (.filter hl) (by rw [hs']; rfl) hstack'
    | nextWithin seconds call' =>
      simp only [user] at hx
      cases hx
      obtain ⟨-, hcall⟩ := hown rfl
      obtain rfl : call' = call := by simpa [hstack', Next.frames, Frame.handed] using hcall
      exact .entering hm hl (by rw [hs']; rfl) hstack'
    | _ =>
      rcases user_stays hx with ⟨o, rfl⟩ | ⟨above, hframes⟩
      · simp [hstack', Next.frames, Choice.handed] at hown
      · refine .filtering hm hl (show _ = above ++ _ from ?_)
        rw [hstack', hframes]
        simp

omit hr hx in
/-- The dispatch goes on, or has ended. -/
theorem wrapped_dispatching {guard l : List Frame} {f' : Frame} (hguard : Guards call guard)
    (hl : Wraps cfg.filters call terminal base 0 l) (hm : base.length = m)
    (hstack : (s.tasks t).stack = f' :: above ++ (guard ++ l)) :
    Wrapped cfg t call terminal m s'
      ((Stage.dispatching (guard ++ l).length).after t s (.run c) s') := by
  rw [hs, List.cons_append, List.cons.injEq] at hstack
  obtain ⟨rfl, hrest⟩ := hstack
  rcases landed_above hs' hrest with ⟨f', above', hland⟩ | ⟨o, rfl, rfl⟩
  · rw [Stage.after_dispatching (by rw [hland, List.length_append]; simp)]
    exact .dispatching hm hl hguard hland
  · have htold := told_landed hs' rfl
    have hstack' : (s'.tasks t).stack = guard ++ l := by
      rw [stack_landed hs', hrest]
      rfl
    simp only [Stage.after, htold, hstack', le_refl, if_true]
    unfold Guards at hguard
    split_ifs at hguard with hd
    · obtain ⟨saved, expired, rfl⟩ := hguard
      exact .timed hm hl hd (running_of_told hstack' htold) hstack'
    · subst hguard
      have hthrough : through call o = o := by simp [through, hd]
      have hout := wrapped_out hm hl
        (show s'.told t = some (through call o) by rw [hthrough]; exact htold) hstack'
      rwa [hthrough] at hout

omit hr in
/-- The timeout has not expired. -/
theorem wrapped_timeout {bottom : Outcome} {saved : ℕ} {expired : Bool}
    (hnow : overdue call.deadline s.now = false) (hE : Expired s)
    (hd : call.deadline.isSome = true) (hf : f = .timeout call saved expired)
    (hgot : r = .got bottom) (hl : Wraps cfg.filters call terminal base 0 rest)
    (hm : base.length = m) :
    Wrapped cfg t call terminal m s'
      ((Stage.outward (rest.length + 1) bottom bottom).after t s (.run c) s') := by
  subst hf hgot
  have hexpired : expired = false := by
    cases expired with
    | false => rfl
    | true =>
      rw [hE t call saved (by rw [hs]; exact List.mem_cons_self)] at hnow
      cases hnow
  subst hexpired
  simp only [exec, timeout, timeoutExit_false] at hx
  cases hx
  have hthrough : toDeadlineExceeded call bottom = through call bottom := by simp [through, hd]
  rw [hthrough] at hs'
  have htold := told_landed hs' rfl
  have hstack' : (s'.tasks t).stack = rest := stack_landed hs'
  simp only [Stage.after, htold, hstack', Nat.lt_succ_self, if_true]
  exact wrapped_out hm hl htold hstack'

omit hr in
/-- The end of a filter's block lets through what it is given. -/
theorem wrapped_scope {l : List Frame} {asked : Time} {saved : Option Time} {bottom : Outcome}
    (hf : f = .scope asked saved) (hgot : r = .got (through call bottom))
    (hrest : rest = .user (.filter j call terminal) :: l)
    (hl : Wraps cfg.filters call terminal base (j + 1) l) (hm : base.length = m) :
    Wrapped cfg t call terminal m s'
      ((Stage.outward (l.length + 2) bottom (through call bottom)).after t s (.run c) s') := by
  subst hf hgot hrest
  simp only [exec, scope] at hx
  cases hx
  have htold := told_landed hs' rfl
  have hstack' : (s'.tasks t).stack = .user (.filter j call terminal) :: l := stack_landed hs'
  simp only [Stage.after, htold, hstack', List.length_cons, Nat.lt_succ_self, if_true]
  exact .leaving hm hl (show _ = [] ++ _ from hstack')

omit hr in
/-- A filter ends with what its `next` has given it, or does something of its own first. -/
theorem wrapped_outward {l : List Frame} {bottom : Outcome}
    (hstack : (s.tasks t).stack = above ++ .user (.filter j call terminal) :: l)
    (hl : Wraps cfg.filters call terminal base (j + 1) l) (hm : base.length = m)
    (hpass : PassesOn t m (s, .outward (l.length + 1) bottom (through call bottom))
      (s', (Stage.outward (l.length + 1) bottom (through call bottom)).after t s (.run c) s')) :
    Wrapped cfg t call terminal m s'
      ((Stage.outward (l.length + 1) bottom (through call bottom)).after t s (.run c) s') := by
  have hstays (above' : List Frame)
      (hl' : (s'.tasks t).stack = above' ++ .user (.filter j call terminal) :: l) :
      Wrapped cfg t call terminal m s'
        ((Stage.outward (l.length + 1) bottom (through call bottom)).after t s (.run c) s') := by
    rw [Stage.after_outward (by rw [hl', List.length_append, List.length_cons]; omega)]
    exact .leaving hm hl hl'
  have hstack' := stack_landed hs'
  rw [hs] at hstack
  cases above with
  | cons f' above =>
    -- the filter's own business
    rw [List.cons_append, List.cons.injEq] at hstack
    refine hstays (n.frames ++ above) ?_
    rw [hstack', hstack.2, List.append_assoc]
  | nil =>
    rw [List.nil_append, List.cons.injEq] at hstack
    obtain ⟨rfl, rfl⟩ := hstack
    simp only [exec] at hx
    rcases user_stays hx with ⟨o, rfl⟩ | ⟨above', hframes⟩
    · have htold := told_landed hs' rfl
      have hown := hpass.2 j call terminal _ hs
      have hland : (s'.tasks t).stack = rest := hstack'
      simp only [Stage.after, htold, hland, Nat.lt_succ_self, if_true] at hown ⊢
      obtain rfl : o = through call bottom := hown trivial
      exact wrapped_out hm hl htold hland
    · refine hstays above' ?_
      rw [hstack', hframes]
      simp

end

/-- Every step of a call keeps it where its stage says, until its deadline has passed. -/
theorem Wrapped.step {stage : Stage} {l : Label} (hW : Wrapped cfg t call terminal m s stage)
    (hC : Clocked s) (h : Nigrains.step cfg s l = some s')
    (hnow : overdue call.deadline s.now = false)
    (hpass : PassesOn t m (s, stage) (s', stage.after t s l s')) :
    Wrapped cfg t call terminal m s' (stage.after t s l s') := by
  have hn := hC.reached.nested
  have ht : t < s.spawned := by
    cases hs : (s.tasks t).stack with
    | nil => exact absurd hpass.1 (by simp [hs])
    | cons f rest => exact hn.lt_spawned hs
  rcases step_at h ht with ⟨c, r, f, rest, s1, n, rfl, hr, hs, hx, hs'⟩ | ⟨hl, hages, hrun⟩
  · have hgiven {r' : Resume Outcome} (hrun : s.running = some (t, r')) : r = r' := by
      rw [hr, Option.some.injEq, Prod.mk.injEq] at hrun
      exact hrun.2
    cases hW with
    | chaining hm hl hsend hstack =>
      obtain ⟨rfl, rfl⟩ := List.cons.inj (hs.symm.trans hstack)
      exact wrapped_chain hr hs hx hs' hnow rfl (hgiven hsend) hl hm
    | entering hm hl hsend hstack =>
      obtain ⟨rfl, rfl⟩ := List.cons.inj (hs.symm.trans hstack)
      exact wrapped_within hr hs hx hs' rfl (hgiven hsend) rfl hl hm
    | filtering hm hl hstack => exact wrapped_inward hr hs hx hs' hstack hl hm hpass
    | dispatching hm hl hguard hstack => exact wrapped_dispatching hs hs' hguard hl hm hstack
    | timed hm hl hd hgot hstack =>
      obtain ⟨rfl, rfl⟩ := List.cons.inj (hs.symm.trans hstack)
      exact wrapped_timeout hs hx hs' hnow hC.expired hd rfl (hgiven hgot) hl hm
    | unblocking hm hl hgot hstack =>
      obtain ⟨rfl, rfl⟩ := List.cons.inj (hs.symm.trans hstack)
      exact wrapped_scope hs hx hs' rfl (hgiven hgot) rfl hl hm
    | leaving hm hl hstack => exact wrapped_outward hs hx hs' hstack hl hm hpass
    | out hm htold hstack =>
      -- the call is over
      have hopen := hpass.1
      rw [hstack, hm] at hopen
      exact absurd hopen (lt_irrefl m)
  · rw [hW.after_eq hl hages.length_eq.symm]
    exact hW.ages hpass.1 hages hrun

variable (cfg t call terminal m) in
/-- What holds at each step of a call. -/
def Following (x : State × Stage) : Prop :=
  Clocked x.1 ∧ (overdue call.deadline x.1.now = true ∨ Wrapped cfg t call terminal m x.1 x.2)

theorem Following.step {x x' : State × Stage} {l : Label} (hF : Following cfg t call terminal m x)
    (h : watched cfg t x l = some x') (hpass : PassesOn t m x x') :
    Following cfg t call terminal m x' := by
  obtain ⟨s', hl, rfl⟩ := Option.map_eq_some_iff.1 h
  obtain ⟨hC, hover | hW⟩ := hF
  · exact ⟨hC.step hl, .inl (overdue_mono (now_le_step hl) hover)⟩
  · cases hnow : overdue call.deadline x.1.now with
    | true => exact ⟨hC.step hl, .inl (overdue_mono (now_le_step hl) hnow)⟩
    | false => exact ⟨hC.step hl, .inr (hW.step hC hl hnow hpass)⟩

/-- A call that begins stands where its stage says. -/
theorem wrapped_start {rest : List Frame} (hr : s.running = some (t, .send))
    (hs : (s.tasks t).stack = callFrame cfg call terminal :: rest) :
    Wrapped cfg t call terminal rest.length s (.start cfg call rest.length) := by
  unfold Stage.start
  unfold callFrame at hs
  split_ifs at hs ⊢ with h
  · have hlow : Wraps cfg.filters call terminal rest 0 rest := h.1 ▸ .low
    have hguard : Guards call [] := by simp [Guards, h.2]
    exact .dispatching rfl hlow hguard (show _ = [_] ++ ([] ++ _) from hs)
  · exact .chaining rfl .low hr hs

/-- The outcome of a call that is over before its deadline, through filters that pass
everything on, is what the dispatch has ended with exactly if the call has no deadline or that
is no `TimeoutError`. -/
theorem transparent {isMine : Option (GrainId → Bool)} {rest : List Frame} {stage : Stage}
    (h : Run (Nigrains.step cfg) (fun _ _ => True) (.init isMine) s)
    (hr : s.running = some (t, .send))
    (hs : (s.tasks t).stack = callFrame cfg call terminal :: rest)
    (hcall : Run (watched cfg t) (PassesOn t rest.length)
      (s, .start cfg call rest.length) (s', stage))
    (hover : (s'.tasks t).stack.length ≤ rest.length)
    (hnow : overdue call.deadline s'.now = false) :
    ∃ bottom told, stage = .outward rest.length bottom told ∧ s'.told t = some told ∧
      (told = bottom ↔
        call.deadline = none ∨ ∀ e, bottom = .error e → e.isTimeout = false) := by
  obtain ⟨-, hlate | hW⟩ := hcall.invariant
    (I := Following cfg t call terminal rest.length) ⟨h.clocked, .inr (wrapped_start hr hs)⟩
    fun _ _ _ hF hl hpass => hF.step hl hpass
  · rw [hnow] at hlate
    cases hlate
  · replace hW : Wrapped cfg t call terminal rest.length s' stage := hW
    cases hW with
    | chaining hm hl hr hs | entering hm hl hr hs | timed hm hl hd hr hs | unblocking hm hl hr hs =>
      have hle := hl.length_le
      simp only [hs, List.length_cons] at hover
      omega
    | filtering hm hl hs | leaving hm hl hs =>
      have hle := hl.length_le
      simp only [hs, List.length_append, List.length_cons] at hover
      omega
    | dispatching hm hl hguard hs =>
      have hle := hl.length_le
      simp only [hs, List.length_append, List.length_cons] at hover
      omega
    | @out base bottom hm htold hs =>
      exact ⟨bottom, _, by rw [hm], htold, through_eq_iff bottom⟩

/-! ## Runs on fixed inputs -/

/-- The check of a step. -/
def passesCheck (t : TaskId) (depth : ℕ) (x x' : State × Stage) : Bool :=
  decide (depth < (x.1.tasks t).stack.length) &&
  match (x.1.tasks t).stack with
  | .user (.filter _ call _) :: rest =>
    match x.2, x'.2 with
    | .inward at_, .inward at' =>
      decide (rest.length = at_ → at_ < (x'.1.tasks t).stack.length ∧
        (at' ≠ at_ → (x'.1.tasks t).stack.head?.bind Frame.handed = some call))
    | .outward at_ _ told, .outward at' _ told' => decide (at' < at_ → told' = told)
    | _, _ => true
  | _ => true

theorem passes_of_check (t : TaskId) (depth : ℕ) (x x' : State × Stage)
    (h : passesCheck t depth x x' = true) : PassesOn t depth x x' := by
  rw [passesCheck, Bool.and_eq_true] at h
  refine ⟨of_decide_eq_true h.1, fun k call terminal rest hs => ?_⟩
  have hown := h.2
  rw [hs] at hown
  dsimp only at hown
  split
  · next at_ at' hx hx' => exact of_decide_eq_true (by rwa [hx, hx'] at hown)
  · next at_ _ told at' _ told' hx hx' => exact of_decide_eq_true (by rwa [hx, hx'] at hown)
  · trivial

/-- A runtime alone, with one filter. -/
def Config.filtered : Config :=
  { Config.small none with filters := 1 }

/-- What the method of `counter/x` is called with by a caller with a second to spare. -/
def timedCall : Call :=
  ⟨⟨"counter", "x"⟩, "get", 0, 0, some 1⟩

/-- That caller is about to call. -/
def timed : List Label :=
  [.arrive, .resume 0, .run (.within 1), .run .go, .run (.call ⟨"counter", "x"⟩ "get" 0 0)]

/-- A dispatch of that call, whose method ends with `o`. -/
def dispatched (o : Except Exc Obj) : List Label :=
  Label.gos 5 ++ [Label.returns] ++ Label.gos 3 ++ [.run (.finish o)] ++ Label.gos 1

/-- A method's value comes through the timeout and a filter that awaits its `next` in a block. -/
theorem transparent_value : ∃ s s' : State, ∃ told,
    Run (watched .filtered 0) (PassesOn 0 3)
      (s, .inward 3) (s', .outward 3 (.ok (.obj 7)) told) ∧
    (told = .ok (.obj 7) ↔ timedCall.deadline = none ∨
      ∀ e, (.ok (.obj 7) : Outcome) = .error e → e.isTimeout = false) := by
  obtain ⟨s, hrun, hp⟩ := exists_free_run Config.filtered none timed
    (fun s : State => decide (s.running = some (0, .send) ∧ (s.tasks 0).stack =
        [.chain 1 timedCall .dispatch, .user .block, .scope 1 none, .user .client]) &&
      (execute (watched .filtered 0) (passesCheck 0 3)
        (s, .inward 3) ([.run .go, .run (.nextWithin 5 timedCall)] ++ Label.gos 2 ++
          dispatched (.ok 7) ++ Label.gos 2 ++
          [.run (.finish (.ok 7))])).any fun x : State × Stage =>
        decide (x.2 = .outward 3 (.ok (.obj 7)) (.ok (.obj 7)) ∧
          (x.1.tasks 0).stack.length ≤ 3) && !overdue (some 1) x.1.now)
    (by decide +kernel)
  simp only [Bool.and_eq_true, decide_eq_true_eq] at hp
  obtain ⟨⟨hr, hs⟩, hrest⟩ := hp
  obtain ⟨⟨s', stage⟩, hcall, hx⟩ := exists_run _ _ (passes_of_check 0 3) _ _ _ hrest
  simp only [Bool.and_eq_true, decide_eq_true_eq, Bool.not_eq_true'] at hx
  obtain ⟨⟨rfl, hlen⟩, hnow⟩ := hx
  have hcalled : (s.tasks 0).stack = callFrame .filtered timedCall .dispatch ::
      [.user .block, .scope 1 none, .user .client] := hs
  obtain ⟨bottom, told, hstage, -, hiff⟩ := transparent hrun hr hcalled hcall hlen hnow
  cases hstage
  exact ⟨s, s', _, hcall, hiff⟩

/-- A method raises a `TimeoutError` of its own, in good time. -/
theorem ownTimeout_fails : ∃ s s' : State,
    Run (step (.small none)) (fun _ _ => True) (.init none) s ∧
    s.running = some (0, .send) ∧
    (s.tasks 0).stack =
      callFrame (.small none) timedCall .dispatch :: [.user .block, .scope 1 none, .user .client] ∧
    Run (watched (.small none) 0) (PassesOn 0 3) (s, .start (.small none) timedCall 3)
      (s', .outward 3 (.error .timeoutError)
        (.error (.deadlineExceededFrom "counter/x" "get" .timeoutError))) ∧
    (s'.tasks 0).stack.length ≤ 3 ∧ overdue timedCall.deadline s'.now = false := by
  obtain ⟨s, hrun, hp⟩ := exists_free_run (.small none) none timed
    (fun s : State => decide (s.running = some (0, .send) ∧ (s.tasks 0).stack =
        [.chain 0 timedCall .dispatch, .user .block, .scope 1 none, .user .client]) &&
      (execute (watched (.small none) 0) (passesCheck 0 3) (s, .inward 3)
        ([.run .go] ++ dispatched (.error .timeoutError) ++
          [.run .go])).any fun x : State × Stage =>
        decide (x.2 = .outward 3 (.error .timeoutError)
            (.error (.deadlineExceededFrom "counter/x" "get" .timeoutError)) ∧
          (x.1.tasks 0).stack.length ≤ 3) && !overdue (some 1) x.1.now)
    (by decide +kernel)
  simp only [Bool.and_eq_true, decide_eq_true_eq] at hp
  obtain ⟨⟨hr, hs⟩, hrest⟩ := hp
  obtain ⟨⟨s', stage⟩, hcall, hx⟩ := exists_run _ _ (passes_of_check 0 3) _ _ _ hrest
  simp only [Bool.and_eq_true, decide_eq_true_eq, Bool.not_eq_true'] at hx
  obtain ⟨⟨rfl, hlen⟩, hnow⟩ := hx
  exact ⟨s, s', hrun, hr, hs, hcall, hlen, hnow⟩

end

end Nigrains
