import Mathlib.Algebra.Order.Monoid.Prod
import Mathlib.Data.Prod.Lex
import Nigrains.Nesting

/-!
# From one suspension to the next

While a task runs, no other does. The loops of the runtime that do not suspend are walks of lists
that are read off its tables once : the identities that are stale, the activations that are left,
the timers of one of them. So what a stack may still do until code that is not the runtime's takes
over is bounded (`Frame.cost`), where taking an activation out counts for more than any segments,
and walking the table for more than any activations. Each segment lowers it (`burst_lt`), and there
is one to run wherever the runtime's own code stands (`Fed.exists_go`), so the runtime always comes
to the end of a burst (`bursts_end`).
-/

namespace Nigrains

/-! ## What is still to be done -/

/-- The walks of the table that may begin, the activations that may be taken out, and the segments
that may run beside these. -/
abbrev Cost := ℕ ×ₗ (ℕ ×ₗ ℕ)

/-- A cost by its three parts. -/
def Cost.of (walks removals segments : ℕ) : Cost :=
  toLex (walks, toLex (removals, segments))

section

variable {a b c a' b' c' : ℕ}

theorem Cost.of_add : Cost.of a b c + Cost.of a' b' c' =
    Cost.of (a + a') (b + b') (c + c') := rfl

theorem Cost.of_lt : Cost.of a b c < Cost.of a' b' c' ↔
    a < a' ∨ a = a' ∧ (b < b' ∨ b = b' ∧ c < c') := by
  simp [Cost.of, Prod.Lex.toLex_lt_toLex]

theorem Cost.zero_le (x : Cost) : 0 ≤ x := by
  show toLex (0, toLex (0, 0)) ≤ toLex (x.1, toLex (x.2.1, x.2.2))
  simp only [Prod.Lex.toLex_le_toLex]
  omega

end

/-- The runtime's own code. -/
def Frame.own : Frame → Bool
  | .user _ => false
  | _ => true

/-- What a frame may still cost, with all that it awaits on its way. -/
def Frame.cost : Frame → Cost
  | .user _ => 0
  | .within .. => Cost.of 0 1 30
  | .scope .. => Cost.of 0 0 2
  | .deliver .. => Cost.of 0 1 30
  | .chain .. => Cost.of 0 1 25
  | .timeout .. => Cost.of 0 0 2
  | .dispatch _ => Cost.of 0 1 20
  | .dispatchHere _ .start => Cost.of 0 1 18
  | .dispatchHere _ (.activating _) => Cost.of 0 0 6
  | .dispatchHere _ (.running ..) => Cost.of 0 0 2
  | .dispatchHere _ _ => Cost.of 0 0 5
  | .activated _ .lookup => Cost.of 0 1 8
  | .activated _ (.waiting _) => Cost.of 0 1 9
  | .activated _ _ => Cost.of 0 0 3
  | .makeRoom .start => Cost.of 0 1 3
  | .makeRoom .evicting => Cost.of 0 0 2
  | .deactivate _ _ .start => Cost.of 0 1 0
  | .deactivate _ _ (.timers _ rest) => Cost.of 0 0 (2 * rest.length + 3)
  | .deactivate _ _ (.joining _ _ rest) => Cost.of 0 0 (2 * rest.length + 4)
  | .deactivate _ _ (.hook _) => Cost.of 0 0 2
  | .collect .start => Cost.of 1 0 0
  | .collect (.walking _ rest _ _) => Cost.of 0 rest.length (2 * rest.length + 2)
  | .collect (.taking _ rest _ _) => Cost.of 0 rest.length (2 * rest.length + 3)
  | .sweep .sleeping => Cost.of 1 0 3
  | .sweep _ => Cost.of 0 0 2
  | .tick _ .working => Cost.of 0 0 2
  | .tick .. => Cost.of 0 0 3
  | .drain (.looping _) => Cost.of 0 0 2
  | .drain _ => Cost.of 0 0 4
  | .aenter .start => Cost.of 0 0 3
  | .aenter .starting => Cost.of 0 0 2
  | .aexit .start => Cost.of 2 0 0
  | .aexit (.stopping rest) => Cost.of 1 0 (2 * rest.length + 10)
  | .aexit (.joining _ rest) => Cost.of 1 0 (2 * rest.length + 11)
  | .aexit .draining => Cost.of 1 0 2
  | .aexit (.deactivating rest) => Cost.of 0 rest.length (2 * rest.length + 3)
  | .aexit .leaving => Cost.of 0 0 2

/-- A frame that is given an outcome may run on where it stands. -/
def Resume.cost : Resume Outcome → Cost
  | .send => 0
  | .got _ => Cost.of 0 0 1

/-- What the frames cost that stand above all code that is not the runtime's. -/
def ahead (stack : List Frame) : Cost :=
  ((stack.takeWhile Frame.own).map Frame.cost).sum

/-- What the running task costs until code that is not the runtime's takes over. -/
def State.burst (s : State) : Cost :=
  match s.running with
  | none => 0
  | some (t, r) => ahead (s.tasks t).stack + r.cost

section

variable {cfg : Config} {s s' : State} {t : TaskId} {n : Next Frame Outcome} {c : Choice}
  {f : Frame} {r : Resume Outcome}

theorem ahead_cons (hf : f.own = true) (rest : List Frame) :
    ahead (f :: rest) = f.cost + ahead rest := by
  simp [ahead, List.takeWhile_cons_of_pos hf]

theorem ahead_append_le (l rest : List Frame) :
    ahead (l ++ rest) ≤ (l.map Frame.cost).sum + ahead rest := by
  induction l with
  | nil => simp
  | cons f l ih =>
    rw [List.cons_append, List.map_cons, List.sum_cons, add_assoc]
    cases hf : f.own with
    | true =>
      rw [ahead_cons hf]
      exact add_le_add le_rfl ih
    | false =>
      rw [ahead, List.takeWhile_cons_of_neg (by simp [hf])]
      exact Cost.zero_le _

/-- Whatever a frame ends with, it has cost more than that. -/
theorem one_lt_cost (hf : f.own = true) : Cost.of 0 0 1 < f.cost := by
  cases f with
  | user role => cases hf
  | dispatchHere _ pc | activated _ pc | makeRoom pc | deactivate _ _ pc | collect pc | sweep pc
  | tick _ pc | drain pc | aenter pc | aexit pc =>
    cases pc <;> simp only [Frame.cost, Cost.of_lt, true_and] <;> omega
  | _ => simp [Frame.cost, Cost.of_lt]

theorem cost_terminalFrame (call : Call) (terminal : Terminal) :
    (terminal.frame call).cost < Cost.of 0 1 21 := by
  cases terminal <;> simp [Terminal.frame, Frame.cost, Cost.of_lt]

theorem cost_callFrame (call : Call) (terminal : Terminal) :
    (callFrame cfg call terminal).cost < Cost.of 0 1 26 := by
  unfold callFrame
  split_ifs
  · exact (cost_terminalFrame call terminal).trans (by simp [Cost.of_lt])
  · simp [Frame.cost, Cost.of_lt]

theorem cost_inside (inside : Inside) : inside.frame.cost < Cost.of 0 1 26 := by
  cases inside with
  | block => exact (Cost.of_lt (a := 0) (b := 0) (c := 0)).2 (by omega)
  | next rest call terminal => simp [Inside.frame, Frame.cost, Cost.of_lt]

/-- What the frames cost that a segment leaves to run on. -/
def Next.cost : Next Frame Outcome → Cost
  | .await self callee => callee.cost + self.cost
  | .goto frame => frame.cost
  | _ => 0

theorem cost_pos (hf : f.own = true) (r : Resume Outcome) : 0 < f.cost + r.cost := by
  have hr : 0 ≤ r.cost := Cost.zero_le _
  have hone : 0 ≤ Cost.of 0 0 1 := Cost.zero_le _
  exact (hone.trans_lt (one_lt_cost hf)).trans_le (le_add_of_nonneg_right hr)

/-- A segment of the runtime's own code leaves less than it has found. -/
theorem exec_cost (hf : f.own = true) (h : exec cfg s t c f r = some (s', n)) :
    n.cost < f.cost + r.cost := by
  cases n with
  | done o => exact cost_pos hf r
  | park self => exact cost_pos hf r
  | _ =>
    cases f <;> simp only [exec] at h
    case user => cases hf
    case chain rest call terminal =>
      have hterminal := cost_terminalFrame call terminal
      have hawait : (terminal.frame call).cost + Cost.of 0 0 2 < Cost.of 0 1 25 :=
        (add_lt_add_of_lt_of_le hterminal le_rfl).trans (by simp [Cost.of_add, Cost.of_lt])
      unfold chain interrupted at h
      repeat' split at h
      all_goals
        first
          | (cases h; done)
          | (cases h; exact cost_pos hf _)
          | (cases h; exact hterminal.trans (by simp [Frame.cost, Resume.cost, Cost.of_lt]))
          | (cases h; exact hawait)
    case deliver call timeout =>
      have hcall : ∀ call,
          (callFrame cfg call .dispatchHere).cost + Cost.of 0 0 2 < Cost.of 0 1 30 := fun call =>
        (add_lt_add_of_lt_of_le (cost_callFrame call _) le_rfl).trans
          (by simp [Cost.of_add, Cost.of_lt])
      unfold deliver interrupted at h
      repeat' split at h
      all_goals
        first
          | (cases h; done)
          | (cases h
             exact (cost_callFrame _ _).trans (by simp [Frame.cost, Resume.cost, Cost.of_lt]))
          | (cases h; exact hcall _)
    case within seconds inside =>
      unfold within interrupted at h
      repeat' split at h
      all_goals
        first
          | (cases h; done)
          | (cases h; exact (add_lt_add_of_lt_of_le (cost_inside inside) le_rfl).trans
              (by simp [Frame.cost, Resume.cost, Cost.of_add, Cost.of_lt]))
    all_goals
      first
        | unfold scope at h | unfold timeout at h | unfold dispatch at h
        | unfold dispatchHere at h | unfold activated at h | unfold makeRoom at h
        | unfold deactivate at h | unfold collect at h | unfold sweep at h
        | unfold tick at h | unfold drain at h | unfold aenter at h | unfold aexit at h
      try unfold interrupted at h
      repeat' split at h
      all_goals
        first
          | (cases h; done)
          | (cases h
             simp only [Next.cost, Frame.cost, Resume.cost, zero_add, add_zero, Cost.of_add,
               Cost.of_lt, true_and, List.length_cons]
             omega)
          | (cases h
             exact cost_pos hf _)

/-- Each segment of the runtime's own code brings the end of the burst nearer. -/
theorem burst_lt (h : step cfg s (.run .go) = some s') : s'.burst < s.burst := by
  obtain ⟨t, r, f, rest, s1, n, hr, hs, he, rfl⟩ := run_cases h
  have hf : f.own = true := by
    cases f with
    | user role => cases he
    | _ => rfl
  have hburst : s.burst = f.cost + ahead rest + r.cost := by
    unfold State.burst
    rw [hr]
    show ahead (s.tasks t).stack + r.cost = _
    rw [hs, ahead_cons hf]
  have hcost := exec_cost hf he
  have hle : n.cost + ahead rest < s.burst := by
    rw [hburst, add_right_comm]
    exact add_lt_add_of_lt_of_le hcost le_rfl
  have hstack := Loop.stack_land_self s1.toLoop t rest n
  cases n with
  | park self => exact (Cost.zero_le _).trans_lt hle
  | done o =>
    cases rest with
    | nil => exact (Cost.zero_le _).trans_lt hle
    | cons p rest =>
      show ahead ((s1.toLoop.land t (p :: rest) (.done o)).tasks t).stack + Cost.of 0 0 1 < s.burst
      rw [hstack, hburst, add_assoc, add_comm f.cost, add_assoc]
      refine add_lt_add_of_le_of_lt le_rfl ?_
      rw [add_comm]
      exact (one_lt_cost hf).trans_le (le_add_of_nonneg_right (Cost.zero_le _))
  | await self callee =>
    show ahead ((s1.toLoop.land t rest (.await self callee)).tasks t).stack + 0 < s.burst
    rw [hstack, add_zero]
    refine (ahead_append_le [callee, self] rest).trans_lt ?_
    simpa [Next.cost] using hle
  | goto frame =>
    show ahead ((s1.toLoop.land t rest (.goto frame)).tasks t).stack + 0 < s.burst
    rw [hstack, add_zero]
    refine (ahead_append_le [frame] rest).trans_lt ?_
    simpa [Next.cost] using hle

/-! ## There is a segment to run -/

/-- Where a frame runs on by itself. -/
def Frame.runs : Frame → Bool
  | .scope .. => false
  | .timeout .. => false
  | .dispatchHere _ (.activating _) => false
  | .dispatchHere _ (.running ..) => false
  | .activated _ .lookup => true
  | .activated _ (.waiting _) => true
  | .activated .. => false
  | .makeRoom .evicting => false
  | .deactivate _ _ (.hook _) => false
  | .collect (.taking ..) => false
  | .sweep .collecting => false
  | .tick _ .working => false
  | .aenter .starting => false
  | .aexit .draining => false
  | .aexit .leaving => false
  | _ => true

/-- Where a frame awaits a coroutine. -/
def Frame.expects : Frame → Bool
  | .aexit (.deactivating _) => true
  | .user _ => true
  | f => !f.runs

/-- What a frame can do something with, where it stands. -/
def Frame.Takes (f : Frame) : Resume Outcome → Prop
  | .send => f.runs = true
  | .got (.error e) => f.expects = true ∨ f.parks = true ∧ e = .cancelledError
  | .got (.ok v) => f.expects = true ∧
    ∀ call i, f = .dispatchHere call (.activating i) → ∃ a, v = .activation a

/-- A coroutine that makes room does so for a grain that can be built. -/
def Frame.Buildable (cfg : Config) (f : Frame) : Prop :=
  ∀ g, f = .activated g .room → (cfg.factories g.type).isSome = true

theorem exec_send (hf : f.own = true) (hr : f.runs = true) :
    (exec cfg s t c f .send).isSome = true := by
  cases f with
  | user role => cases hf
  | scope asked saved => cases hr
  | timeout call saved expired => cases hr
  | within | deliver | chain | dispatch =>
    simp only [exec, within, deliver, chain, dispatch]
    repeat' split
    all_goals rfl
  | deactivate who g pc =>
    rcases pc with _ | ⟨a, _ | ⟨τ, rest⟩⟩ | _ | _
    case hook => cases hr
    all_goals
      simp only [exec, deactivate]
      repeat' split
      all_goals rfl
  | collect pc =>
    rcases pc with _ | ⟨cutoff, _ | ⟨g, rest⟩, index, collected⟩ | _
    case taking => cases hr
    all_goals
      simp only [exec, collect]
      repeat' split
      all_goals rfl
  | aexit pc =>
    rcases pc with _ | (_ | ⟨τ, rest⟩) | _ | _ | (_ | ⟨g, rest⟩) | _
    case draining | leaving => cases hr
    all_goals
      simp only [exec, aexit]
      repeat' split
      all_goals rfl
  | dispatchHere _ pc | activated _ pc | makeRoom pc | sweep pc | tick _ pc | drain pc
  | aenter pc =>
    cases pc
    all_goals
      first
        | (cases hr; done)
        | (simp only [exec, dispatchHere, activated, makeRoom, sweep, tick, drain, aenter]
           repeat' split
           all_goals rfl)

theorem exec_error {e : Exc} (hf : f.own = true)
    (hr : f.expects = true ∨ f.parks = true ∧ e = .cancelledError) :
    (exec cfg s t c f (.got (.error e))).isSome = true := by
  cases f with
  | user role => cases hf
  | timeout call saved expired =>
    simp only [exec, timeout]
    split_ifs <;> rfl
  | scope | within | deliver | chain | dispatch => rfl
  | dispatchHere call pc =>
    rcases hr with hr | ⟨hr, rfl⟩
    all_goals
      rcases pc with _ | _ | _ | _ | ⟨i, a, _ | _⟩
      all_goals first | (cases hr; done) | rfl
  | activated _ pc | makeRoom pc | deactivate _ _ pc | collect pc | sweep pc | tick _ pc | drain pc
  | aenter pc | aexit pc =>
    rcases hr with hr | ⟨hr, rfl⟩
    all_goals
      cases pc
      all_goals
        first
          | (cases hr; done)
          | rfl
          | (simp only [exec, deactivate, collect, sweep, tick, aexit]
             repeat' split
             all_goals rfl)

theorem exec_ok {v : Ret} (hf : f.own = true) (hbuild : f.Buildable cfg) (hr : f.expects = true)
    (hv : ∀ call i, f = .dispatchHere call (.activating i) → ∃ a, v = .activation a) :
    (exec cfg s t c f (.got (.ok v))).isSome = true := by
  cases f with
  | user role => cases hf
  | scope saved => rfl
  | within | deliver | chain | dispatch => cases hr
  | timeout call saved expired =>
    simp only [exec, timeout]
    split_ifs <;> rfl
  | dispatchHere call pc =>
    cases pc with
    | activating i =>
      obtain ⟨a, rfl⟩ := hv call i rfl
      simp only [exec, dispatchHere]
      split_ifs <;> rfl
    | running i a locked => cases locked <;> rfl
    | _ => cases hr
  | activated g pc =>
    cases pc with
    | room =>
      obtain ⟨factory, hfactory⟩ := Option.isSome_iff_exists.1 (hbuild g rfl)
      have hbuilds : build cfg g = some (factory g) := by
        rw [build, hfactory]
        rfl
      simp only [exec, activated, hbuilds]
      repeat' split
      all_goals first | rfl | cases ‹some _ = none›
    | reading | hook => rfl
    | lookup | waiting => cases hr
  | makeRoom pc | deactivate _ _ pc | collect pc | sweep pc | tick _ pc | drain pc | aenter pc
  | aexit pc =>
    cases pc
    all_goals
      first
        | (cases hr; done)
        | rfl
        | (simp only [exec, collect, aexit]
           repeat' split
           all_goals rfl)

/-- Where the runtime's own code stands, there is a segment to run. -/
theorem exec_isSome (hf : f.own = true) (hbuild : f.Buildable cfg) (hr : f.Takes r) :
    (exec cfg s t c f r).isSome = true := by
  cases r with
  | send => exact exec_send hf hr
  | got o =>
    cases o with
    | error e => exact exec_error hf hr
    | ok v => exact exec_ok hf hbuild hr.1 hr.2

/-! ## In every reachable state -/

theorem Awaits.expects {p f : Frame} (h : Awaits p f) : p.expects = true := by
  cases h <;> rfl

theorem runs_of_parks (h : f.parks = true) : f.runs = true := by
  cases f with
  | dispatchHere _ pc | activated _ pc | makeRoom pc | deactivate _ _ pc | collect pc | sweep pc
  | tick _ pc | drain pc | aenter pc | aexit pc => cases pc <;> first | rfl | cases h
  | _ => first | rfl | cases h

theorem runs_terminalFrame (call : Call) (terminal : Terminal) :
    (terminal.frame call).runs = true := by
  cases terminal <;> rfl

theorem runs_callFrame (call : Call) (terminal : Terminal) :
    (callFrame cfg call terminal).runs = true := by
  unfold callFrame
  split_ifs
  · exact runs_terminalFrame call terminal
  · rfl

theorem aexit_goto {pc : AexitAt} (h : aexit s pc r = some (s', .goto f)) : f.runs = true := by
  unfold aexit at h
  repeat' split at h
  all_goals first | (cases h; done) | (cases h; rfl)

/-- What a segment leaves to run on can do so. -/
theorem exec_runs (h : exec cfg s t c f r = some (s', n)) :
    (∀ self callee, n = .await self callee → callee.runs = true) ∧
      ∀ frame, n = .goto frame → frame.runs = true := by
  refine ⟨fun self callee hn => ?_, fun frame hn => ?_⟩
  · subst hn
    cases exec_passage h
    case calls | deliversWithin => exact runs_callFrame _ _
    case reachesWithin => exact runs_terminalFrame _ _
    case blocks seconds inside => cases inside <;> rfl
    all_goals rfl
  · subst hn
    cases exec_passage h
    case delivers => exact runs_callFrame _ _
    case reaches => exact runs_terminalFrame _ _
    case exits => exact aexit_goto h
    all_goals rfl

/-- `_activated` returns an activation. -/
theorem activated_done {g : GrainId} {pc : ActivatedAt} {v : Ret}
    (h : activated cfg s t g pc r = some (s', .done (.ok v))) : ∃ a, v = .activation a := by
  unfold activated at h
  repeat' split at h
  all_goals first | (cases h; done) | (cases h; exact ⟨_, rfl⟩)

/-- A coroutine that goes on to make room has found a factory. -/
theorem exec_buildable (h : exec cfg s t c f r = some (s', n)) {f' : Frame}
    (hf : f' ∈ n.frames) : f'.Buildable cfg := by
  rintro g rfl
  rcases exec_left h hf with he | hc
  · obtain ⟨pc, rfl⟩ : ∃ pc, f = .activated g pc := by
      cases f <;> cases he
      exact ⟨_, rfl⟩
    simp only [exec] at h
    unfold activated at h
    repeat' split at h
    all_goals first | (cases h; done) | (cases h; simp [Next.frames] at hf; done) | cases h
    next hfactory =>
      rw [hfactory]
      rfl
  · cases hc

end

/-- What runs can do something with what it is given. -/
structure Fed (cfg : Config) (s : State) : Prop where
  nested : Nested s
  buildable : ∀ u, ∀ f ∈ (s.tasks u).stack, f.Buildable cfg
  takes : ∀ t r f rest, s.running = some (t, r) → (s.tasks t).stack = f :: rest → f.Takes r

section

variable {cfg : Config} {s s' : State} {isMine : Option (GrainId → Bool)}
  {ok : State → State → Prop}

theorem fed_init (cfg : Config) (isMine : Option (GrainId → Bool)) : Fed cfg (.init isMine) where
  nested := nested_init isMine
  buildable _ _ hf := by cases hf
  takes _ _ _ _ hr := by cases hr

theorem not_buildable_of_new {f : Frame} (h : f.fresh ∨ f.hosted) : f.Buildable cfg := by
  rintro g rfl
  rcases h with h | h <;> cases h

theorem Fed.step {l : Label} (hF : Fed cfg s) (h : Nigrains.step cfg s l = some s') :
    Fed cfg s' where
  nested := nested_step hF.nested h
  buildable := frames_step (Φ := fun _ f => f.Buildable cfg) h hF.buildable (fun _ _ => id)
    (fun t r f rest c s1 n hr hs he hs' =>
      ⟨fun f' hf' => exec_buildable he hf', fun u f' _ _ hf' => not_buildable_of_new (.inl hf'.1)⟩)
    (fun u f hf => not_buildable_of_new (.inr hf)) fun u call saved _ _ g hg => by cases hg
  takes t r f rest hr hs := by
    rcases step_cases h with ⟨t', r', f', rest', c, s1, n, hr', hs', he, rfl⟩ |
      ⟨t', r', f', rest', hr', ht, hs', hf, rfl⟩ | ⟨t', i, call, saved, hr', hs', hdue, rfl⟩ | hw
    · have hstack := Loop.stack_land_self s1.toLoop t' rest' n
      obtain ⟨hawait, hgoto⟩ := exec_runs he
      cases n with
      | park self => cases hr
      | await self callee =>
        cases hr
        obtain ⟨rfl, -⟩ := List.cons.inj (hstack.symm.trans hs)
        exact hawait _ _ rfl
      | goto frame =>
        cases hr
        obtain ⟨rfl, -⟩ := List.cons.inj (hstack.symm.trans hs)
        exact hgoto _ rfl
      | done o =>
        cases rest' with
        | nil => cases hr
        | cons p rest' =>
          cases hr
          obtain ⟨rfl, -⟩ := List.cons.inj (hstack.symm.trans hs)
          have hb := hF.nested.stacked t
          rw [hs'] at hb
          have hawaits := awaits_of_below hb.1
          cases o with
          | error e => exact .inl hawaits.expects
          | ok v =>
            refine ⟨hawaits.expects, ?_⟩
            rintro call i rfl
            cases hawaits
            exact activated_done he
    · cases hr
      rw [stack_runTask, hs'] at hs
      obtain ⟨rfl, -⟩ := List.cons.inj hs
      have hparks := hF.nested.parked t _ _ (fun r h => by rw [hr'] at h; cases h) hs'
      unfold resumption at hf
      split_ifs at hf
      · cases hf
        exact .inr ⟨hparks, rfl⟩
      · cases hf
        exact runs_of_parks hparks
    · simp [State.expireTask, Loop.setTask, hr'] at hr
    · rw [hw.keeps.running_eq] at hr
      rw [hw.keeps.stack_eq t (.inl (hF.nested.running t r hr).1)] at hs
      exact hF.takes t r f rest hr hs

theorem Fed.exists_go {t : TaskId} {r : Resume Outcome} (hF : Fed cfg s)
    (hr : s.running = some (t, r))
    (huser : ∀ role rest, (s.tasks t).stack ≠ .user role :: rest) :
    ∃ s', Nigrains.step cfg s (.run .go) = some s' := by
  cases hs : (s.tasks t).stack with
  | nil => exact absurd hs (hF.nested.running t r hr).2
  | cons f rest =>
    have hf : f.own = true := by
      cases f with
      | user role => exact absurd hs (huser role rest)
      | _ => rfl
    obtain ⟨⟨s1, n⟩, he⟩ := Option.isSome_iff_exists.1 (exec_isSome (s := s) (t := t) (c := .go) hf
      (hF.buildable t f (hs ▸ List.mem_cons_self)) (hF.takes t r f rest hr hs))
    exact ⟨{ s1 with toLoop := s1.toLoop.land t rest n },
      by simp [Nigrains.step, run, hr, hs, he]⟩

/-- From where a task runs, its own code comes to an end. -/
theorem Fed.end_of_burst (hF : Fed cfg s) :
    ∃ s', Relation.ReflTransGen (fun s s' => Nigrains.step cfg s (.run .go) = some s') s s' ∧
      (s'.running = none ∨ ∃ t r role rest, s'.running = some (t, r) ∧
        (s'.tasks t).stack = .user role :: rest) := by
  induction hcost : s.burst using WellFoundedLT.induction generalizing s with
  | ind cost ih =>
    subst hcost
    cases hr : s.running with
    | none => exact ⟨s, .refl, .inl hr⟩
    | some x =>
      obtain ⟨t, r⟩ := x
      by_cases huser : ∃ role rest, (s.tasks t).stack = .user role :: rest
      · obtain ⟨role, rest, hs⟩ := huser
        exact ⟨s, .refl, .inr ⟨t, r, role, rest, hr, hs⟩⟩
      · obtain ⟨s1, h⟩ := hF.exists_go hr fun role rest hs => huser ⟨role, rest, hs⟩
        obtain ⟨s', hrun, hend⟩ := ih s1.burst (burst_lt h) (hF.step h) rfl
        exact ⟨s', hrun.head h, hend⟩

/-- Whatever has happened before, and whatever the tables hold : if a task runs, then after finitely
many segments of the runtime's own code it has been suspended or has ended, or code that is not the
runtime's is to decide. -/
theorem bursts_end (cfg : Config) (isMine : Option (GrainId → Bool)) (s : State)
    (h : Run (step cfg) ok (.init isMine) s) :
    ∃ s', Relation.ReflTransGen (fun s s' => step cfg s (.run .go) = some s') s s' ∧
      (s'.running = none ∨ ∃ t r role rest, s'.running = some (t, r) ∧
        (s'.tasks t).stack = .user role :: rest) := by
  have hF : Fed cfg s :=
    h.invariant (I := Fed cfg) (fed_init cfg isMine) fun _ _ _ hF hl _ => hF.step hl
  exact hF.end_of_burst

/-- A grain has been called, and 400 seconds later the sweeper is about to look. -/
def sweepingRun : List Label :=
  [.arrive, .resume 0, .run .enter] ++ Label.gos 1 ++ Label.invoke ⟨"counter", "x"⟩ ++
    Label.serve ++ [.run .suspend, .resume 1, .run .go, .clock 400, .resume 1]

/-- It looks at a table with an idle activation in it, and sleeps again or comes to somebody else's
code. -/
theorem bursts_end_sweeping : ∃ s s' : State, (s.tasks 1).stack = [.sweep .sleeping] ∧
    s.running = some (1, .send) ∧ s.activations.items = [(⟨"counter", "x"⟩, 0)] ∧
    stale s (400 - 300) 0 = true ∧
    Relation.ReflTransGen (fun s s' => step (.small none) s (.run .go) = some s') s s' ∧
      (s'.running = none ∨ ∃ t r role rest, s'.running = some (t, r) ∧
        (s'.tasks t).stack = .user role :: rest) := by
  obtain ⟨s, hrun, hp⟩ := exists_free_run (.small none) none sweepingRun
    (fun s => decide ((s.tasks 1).stack = [.sweep .sleeping] ∧ s.running = some (1, .send) ∧
      s.activations.items = [(⟨"counter", "x"⟩, 0)] ∧ stale s (400 - 300) 0 = true))
    (by decide +kernel)
  obtain ⟨hs, hr, htable, hstale⟩ := of_decide_eq_true hp
  obtain ⟨s', hburst, hend⟩ := bursts_end (.small none) none s hrun
  exact ⟨s, s', hs, hr, htable, hstale, hburst, hend⟩

end

end Nigrains
