import Nigrains.Identities
import Nigrains.Transparency

/-!
# A refused call leaves no trace

A call whose deadline has passed when it reaches its dispatch, and a call of a kind nobody
has registered, are refused : `DeadlineExceeded` at the end of the filter chain, before
anything is routed, and `GrainNotRegisteredError` in `_activated`, before room is made.
`Stands` says where such a call is, from its entry to its caller, if every filter passes it
on unchanged. Each segment of the call's own is then `Untouched` : the table and its order,
the turns of the pools, the counters and the activations are what they were. What the caller
gets is the refusal, and wherever the call has come it may run on until the caller has it
(`refused_traceless`).
-/

namespace Nigrains

/-- Why a call is refused. -/
inductive Reason
  /-- Its deadline has passed. -/
  | late
  /-- Nobody has registered its kind. -/
  | unregistered
deriving DecidableEq

/-- What the caller gets. -/
def Reason.error (call : Call) : Reason → Exc
  | late => .deadlineExceeded call.grain.str call.method
  | unregistered => .grainNotRegistered call.grain.type

/-- The refusal has come out to where `depth` frames are left. -/
abbrev Reason.leaving (call : Call) (reason : Reason) (depth : ℕ) : Stage :=
  .outward depth (.error (reason.error call)) (.error (reason.error call))

/-- The call has a deadline, or its kind is in neither of the maps `register` fills. -/
def Reason.Concerns (cfg : Config) (call : Call) : Reason → Prop
  | late => call.deadline.isSome = true
  | unregistered => cfg.kinds call.grain.type = none ∧ cfg.factories call.grain.type = none

/-- Nothing is written but the tasks : not the table or its order, no turn of a pool, no
counter, and no activation. `served` numbers the executions of `_dispatch_here`, and is not
part of the program. -/
def Untouched (s s' : State) : Prop :=
  s' = { s with toLoop := s'.toLoop, served := s'.served }

/-- A call that is over before its dispatch has started has come out as well. -/
def Stage.settle (t : TaskId) (s' : State) : Stage → Stage
  | .inward depth =>
    match s'.told t with
    | some o =>
      if (s'.tasks t).stack.length ≤ depth then .outward (s'.tasks t).stack.length o o
      else .inward depth
    | none => .inward depth
  | stage => stage

/-- A call that may be refused on its way, after a step from `s` to `s'`. -/
def Stage.past (t : TaskId) (s : State) (l : Label) (s' : State) (stage : Stage) : Stage :=
  (stage.after t s l s').settle t s'

/-- A runtime, and how far a call of task `t` has come. -/
def attended (cfg : Config) (t : TaskId) (x : State × Stage) (l : Label) :
    Option (State × Stage) :=
  (step cfg x.1 l).map fun s' => (s', x.2.past t x.1 l s')

/-- A step of a call that is not over, whose filters pass it on. Its deadline has passed when
it reaches the dispatch, or has not and this node owns the grain. -/
structure Refusal (cfg : Config) (reason : Reason) (t : TaskId) (depth : ℕ)
    (x x' : State × Stage) : Prop where
  passes : PassesOn t depth x x'
  awaits : ∀ k call terminal rest,
    (x.1.tasks t).stack = .user (.filter k call terminal) :: rest → x.2 = .inward rest.length →
      rest.length < (x'.1.tasks t).stack.length
  reaches : ∀ call terminal rest, (x.1.tasks t).stack = .chain 0 call terminal :: rest →
    x.2 = .inward rest.length → (overdue call.deadline x.1.now = true ↔ reason = .late)
  owned : ∀ call rest, (x.1.tasks t).stack = .dispatch call :: rest →
    x.2 = .dispatching rest.length →
      (x.1.isMine.any fun isMine => !isMine (route cfg x.1 call.grain)) = false

/-- Task `t` is about to run a segment of the call's own : of what takes it to its grain, or
of the filter it has come to. What stands on that filter is the filter's business. -/
def Own (t : TaskId) (x : State × Stage) : Prop :=
  (∃ r, x.1.running = some (t, r)) ∧
  match x.2 with
  | .inward depth => (x.1.tasks t).stack.length ≤ depth + 1
  | .dispatching _ => True
  | .outward depth _ _ => (x.1.tasks t).stack.length ≤ depth

/-- A call comes in, from `s` to `s'` : its chain is about to start, above the frames `outer` of
`deliver` and those of its caller. -/
inductive Enters (cfg : Config) (t : TaskId) :
    Call → Terminal → List Frame → List Frame → State → State → Prop
  /-- Through `call`. -/
  | call {call : Call} {s : State} {base : List Frame} (hr : s.running = some (t, .send))
      (hs : (s.tasks t).stack = callFrame cfg call .dispatch :: base) :
      Enters cfg t call .dispatch [] base s s
  /-- Through `deliver` with no timeout. -/
  | deliver {call : Call} {s s' : State} {base : List Frame} {c : Choice}
      (hr : s.running = some (t, .send)) (hs : (s.tasks t).stack = .deliver call none :: base)
      (hstep : step cfg s (.run c) = some s') :
      Enters cfg t { call with deadline := (s.tasks t).context } .dispatchHere [] base s s'
  /-- Through `deliver` with one, which becomes a deadline around the call. -/
  | deliverWithin {call : Call} {seconds : Time} {s s' : State} {base : List Frame} {c : Choice}
      (hr : s.running = some (t, .send))
      (hs : (s.tasks t).stack = .deliver call (some seconds) :: base)
      (hstep : step cfg s (.run c) = some s') :
      Enters cfg t { call with deadline := narrowed (s.tasks t).context (s.now + seconds) }
        .dispatchHere [.scope (s.now + seconds) (s.tasks t).context] base s s'

/-- Every entry of the table is of a registered kind. -/
def Registered (cfg : Config) (s : State) : Prop :=
  ∀ g a, s.activations.get g = some a → (cfg.factories g.type).isSome = true

/-- As things stand, the call is refused for that reason : its deadline has passed, or has not
and this node owns the grain. -/
def Due (reason : Reason) (call : Call) (s : State) : Prop :=
  (overdue call.deadline s.now = true ↔ reason = .late) ∧
  (s.isMine.any fun isMine => !isMine call.grain) = false

section

variable {cfg : Config} {s s' : State} {t : TaskId} {n : Next Frame Outcome} {call : Call}
  {terminal : Terminal} {reason : Reason}

/-! ## Only registered kinds are built -/

theorem Registered.step {l : Label} (hR : Registered cfg s) (h : step cfg s l = some s') :
    Registered cfg s' := by
  intro g a ha
  rcases step_cases h with ⟨t, r, f, rest, c, s1, n, hr, hs, he, rfl⟩ |
    ⟨t, r, f, rest, hr, ht, hs, hf, rfl⟩ | ⟨t, i, call, saved, hr, hs, hdue, rfl⟩ | hw
  · rcases exec_entry he ha with hold | ⟨grain, hbuild, -, -⟩
    · exact hR g a hold
    · obtain ⟨factory, hfactory, -⟩ := Option.map_eq_some_iff.1 hbuild
      rw [hfactory]
      rfl
  · exact hR g a ha
  · exact hR g a ha
  · exact hR g a (hw.activations ▸ ha)

theorem Run.registered {ok : State → State → Prop} {isMine : Option (GrainId → Bool)}
    (h : Run (Nigrains.step cfg) ok (.init isMine) s) : Registered cfg s :=
  h.invariant (I := Registered cfg) (fun _ _ ha => by cases ha) fun _ _ _ hI hl _ => hI.step hl

theorem Registered.untouched (hR : Registered cfg s) (h : Untouched s s') : Registered cfg s' := by
  rw [h]
  exact hR

theorem Due.untouched (hd : Due reason call s) (h : Untouched s s') : Due reason call s' := by
  rw [h]
  exact hd

/-- A kind without a factory has no entry. -/
theorem Registered.get_eq_none (hR : Registered cfg s) {g : GrainId}
    (hfactory : cfg.factories g.type = none) : s.activations.get g = none := by
  rw [Option.eq_none_iff_forall_ne_some]
  intro a ha
  have hsome := hR _ _ ha
  rw [hfactory] at hsome
  cases hsome

/-- A kind nobody has registered has no pool. -/
theorem pool_of_kind {g : GrainId} (h : cfg.kinds g.type = none) : pool cfg s g = none := by
  simp [pool, h]

theorem route_of_kind {g : GrainId} (h : cfg.kinds g.type = none) : route cfg s g = g := by
  simp [route, pool_of_kind h]

theorem advance_of_kind {g : GrainId} (h : cfg.kinds g.type = none) : s.advance cfg g = s := by
  simp [State.advance, pool_of_kind h]

/-! ## Where a refused call stands -/

/-- What `deliver` leaves on the stack : the end of its `with deadline`, if it has one. -/
def Outer (outer : List Frame) : Prop :=
  ∀ f ∈ outer, ∃ asked saved, f = .scope asked saved

/-- The frames above the timeout while a dispatch finds no factory, and what the innermost of
them is given. -/
inductive Looking (call : Call) : List Frame → Resume Outcome → Prop
  | dispatch : Looking call [.dispatch call] .send
  | start : Looking call [.dispatchHere call .start] .send
  | lookup (c : CallId) :
      Looking call [.activated call.grain .lookup, .dispatchHere call (.activating c)] .send
  | refused (c : CallId) :
      Looking call [.dispatchHere call (.activating c)]
        (.got (.error (.grainNotRegistered call.grain.type)))

variable (cfg reason t call terminal) in
/-- Where the call stands, above the frames `base` of its caller. -/
inductive Stands (outer base : List Frame) (s : State) : Stage → Prop
  /-- Its chain goes on to the next filter, or to the dispatch. -/
  | chaining {j : ℕ} {w : List Frame} (hw : Wraps cfg.filters call terminal (outer ++ base) j w)
      (hr : s.running = some (t, .send)) (hs : (s.tasks t).stack = .chain j call terminal :: w) :
      Stands outer base s (.inward w.length)
  /-- A filter enters the block that it awaits its `next` in. -/
  | entering {j : ℕ} {w : List Frame} {seconds : Time}
      (hw : Wraps cfg.filters call terminal (outer ++ base) (j + 1) w)
      (hr : s.running = some (t, .send))
      (hs : (s.tasks t).stack = .within seconds (.next j call terminal) ::
        .user (.filter j call terminal) :: w) :
      Stands outer base s (.inward w.length.succ)
  /-- A filter has the call, and may do something of its own before it passes it on. -/
  | filtering {j : ℕ} {w above : List Frame}
      (hw : Wraps cfg.filters call terminal (outer ++ base) (j + 1) w)
      (hs : (s.tasks t).stack = above ++ .user (.filter j call terminal) :: w) :
      Stands outer base s (.inward w.length)
  /-- Its dispatch is under way. -/
  | dispatching {guard top w : List Frame} {r : Resume Outcome} (hreason : reason = .unregistered)
      (hguard : guard = [] ∨ ∃ saved, guard = [.timeout call saved false])
      (htop : Looking call top r) (hr : s.running = some (t, r))
      (hw : Wraps cfg.filters call terminal (outer ++ base) 0 w)
      (hs : (s.tasks t).stack = top ++ (guard ++ w)) :
      Stands outer base s (.dispatching (guard ++ w).length)
  /-- The refusal has come out to the timeout. -/
  | timed {saved : ℕ} {w : List Frame} (hreason : reason = .unregistered)
      (hr : s.running = some (t, .got (.error (reason.error call))))
      (hw : Wraps cfg.filters call terminal (outer ++ base) 0 w)
      (hs : (s.tasks t).stack = .timeout call saved false :: w) :
      Stands outer base s (reason.leaving call w.length.succ)
  /-- The refusal ends the block of a filter. -/
  | unblocking {j : ℕ} {w : List Frame} {asked : Time} {saved : Option Time}
      (hw : Wraps cfg.filters call terminal (outer ++ base) (j + 1) w)
      (hr : s.running = some (t, .got (.error (reason.error call))))
      (hs : (s.tasks t).stack = .scope asked saved :: .user (.filter j call terminal) :: w) :
      Stands outer base s (reason.leaving call w.length.succ.succ)
  /-- A filter has been given the refusal, and may do something of its own before it ends. -/
  | leaving {j : ℕ} {w above : List Frame}
      (hw : Wraps cfg.filters call terminal (outer ++ base) (j + 1) w)
      (hs : (s.tasks t).stack = above ++ .user (.filter j call terminal) :: w) :
      Stands outer base s (reason.leaving call w.length.succ)
  /-- The refusal has come out of the filters. -/
  | out {l : List Frame} (hl : l <:+ outer)
      (htold : s.told t = some (.error (reason.error call)))
      (hs : (s.tasks t).stack = l ++ base) :
      Stands outer base s (reason.leaving call (l ++ base).length)

section

variable {c : Choice} {r : Resume Outcome} {f : Frame} {rest outer base w : List Frame} {s1 : State}
  {j : ℕ}

/-- The refusal comes out of one wrapping to the next. -/
theorem stands_out (hw : Wraps cfg.filters call terminal (outer ++ base) j w)
    (htold : s.told t = some (.error (reason.error call))) (hs : (s.tasks t).stack = w) :
    Stands cfg t call terminal reason outer base s (reason.leaving call w.length) := by
  cases hw with
  | low => exact .out List.suffix_rfl htold hs
  | filter hw => exact .leaving hw (show _ = [] ++ _ from hs)
  | block asked saved hw => exact .unblocking hw (running_of_told hs htold) hs

variable (hr : s.running = some (t, r)) (hs : (s.tasks t).stack = f :: rest)
  (hx : exec cfg s t c f r = some (s1, n))
    (hs' : s' = { s1 with toLoop := s1.toLoop.land t rest n })

/-- Code outside the runtime writes nothing of it but in `activate`. -/
theorem user_untouched {role : Role} (hrole : ∀ a, role ≠ .activate a)
    (hx : user cfg s t role c = some (s1, n)) : Untouched s s1 := by
  unfold user at hx
  repeat' split at hx
  all_goals
    first
      | contradiction
      | exact (hrole _ rfl).elim
      | (cases hx; rfl)

include hs' in
theorem Untouched.landed (h : Untouched s s1) : Untouched s s' := by
  unfold Untouched at h ⊢
  rw [hs']
  generalize s1.toLoop.land t rest n = L
  rw [h]

include hs' in
theorem stage_landed {stage : Stage} {o : Outcome} (hn : n = .done o) {depth : ℕ}
    (hstage : stage.after t s (.run c) s' = .inward depth) (hdepth : rest.length = depth) :
    stage.past t s (.run c) s' = .outward rest.length o o := by
  have hlen : (s'.tasks t).stack.length = rest.length := by
    rw [stack_landed hs', hn]
    rfl
  rw [Stage.past, hstage]
  simp only [Stage.settle, told_landed hs' hn, hlen, hdepth, le_refl, if_true]

/-- A call that is still on its way in has not come out. -/
theorem settle_inward {depth : ℕ} (h : depth < (s'.tasks t).stack.length) :
    (Stage.inward depth).settle t s' = .inward depth := by
  simp only [Stage.settle]
  split
  · exact if_neg h.not_ge
  · rfl

include hr hs hx hs'

/-- The chain goes on to its next filter, or to the dispatch, which may be refused at once. -/
theorem stands_chain
    (hreach : j = 0 → (overdue call.deadline s.now = true ↔ reason = .late))
    (hf : f = .chain j call terminal) (hsend : r = .send)
    (hw : Wraps cfg.filters call terminal (outer ++ base) j rest) :
    Untouched s s' ∧ Stands cfg t call terminal reason outer base s'
      ((Stage.inward rest.length).past t s (.run c) s') := by
  subst hf hsend
  have hstack := stack_landed hs'
  simp only [exec] at hx
  unfold chain at hx
  cases j with
  | succ j =>
    cases hx
    refine ⟨Untouched.landed hs' rfl, ?_⟩
    have hafter : (Stage.inward rest.length).after t s (.run c) s' = .inward rest.length := by
      simp [Stage.after, hr, hs]
    rw [Stage.past, hafter, settle_inward (by rw [hstack]; simp [Next.frames])]
    exact .filtering hw (show _ = [] ++ _ from hstack)
  | zero =>
    have hdispatching (guard : List Frame) (hreason : reason = .unregistered)
        (hguard : guard = [] ∨ ∃ saved, guard = [.timeout call saved false])
        (hn : n.frames = terminal.frame call :: guard) (hrun : s'.running = some (t, .send)) :
        Stands cfg t call terminal reason outer base s'
          ((Stage.inward rest.length).past t s (.run c) s') := by
      have hafter : (Stage.inward rest.length).after t s (.run c) s' =
          .dispatching (guard ++ rest).length := by
        simp [Stage.after, hr, hs, hstack, hn]
      rw [Stage.past, hafter]
      have htop : Looking call [terminal.frame call] .send := by
        cases terminal
        · exact .dispatch
        · exact .start
      exact .dispatching hreason hguard htop hrun hw (by rw [hstack, hn]; simp)
    have hlate (h : overdue call.deadline s.now = false) : reason = .unregistered := by
      cases reason with
      | late => rw [(hreach rfl).2 rfl] at h; cases h
      | unregistered => rfl
    dsimp only at hx
    split at hx
    · next hd =>
      cases hx
      exact ⟨Untouched.landed hs' rfl,
        hdispatching [] (hlate (by rw [hd]; rfl)) (.inl rfl) rfl (by rw [hs']; rfl)⟩
    · next d hd =>
      split_ifs at hx with hle
      · have hover : overdue call.deadline s.now = true := by
          simpa [overdue, hd] using hle
        obtain rfl := (hreach rfl).1 hover
        cases hx
        refine ⟨Untouched.landed hs' rfl, ?_⟩
        have hafter : (Stage.inward rest.length).after t s (.run c) s' = .inward rest.length := by
          simp [Stage.after, hr, hs, hstack, Next.frames]
        rw [stage_landed hs' rfl hafter rfl]
        exact stands_out hw (told_landed hs' rfl) hstack
      · cases hx
        refine ⟨Untouched.landed hs' rfl,
          hdispatching _ (hlate ?_) (.inr ⟨_, rfl⟩) rfl (by rw [hs']; rfl)⟩
        simpa [overdue, hd] using hle

/-- A filter's block begins, and its `next` with it. -/
theorem stands_within {seconds : Time} (hf : f = .within seconds (.next j call terminal))
    (hsend : r = .send) (hrest : rest = .user (.filter j call terminal) :: w)
    (hw : Wraps cfg.filters call terminal (outer ++ base) (j + 1) w) :
    Untouched s s' ∧ Stands cfg t call terminal reason outer base s'
      ((Stage.inward w.length.succ).past t s (.run c) s') := by
  subst hf hsend hrest
  have hstack := stack_landed hs'
  simp only [exec, within] at hx
  cases hx
  refine ⟨Untouched.landed hs' rfl, ?_⟩
  have hafter : (Stage.inward w.length.succ).after t s (.run c) s' =
      .inward w.length.succ.succ := by
    simp [Stage.after, hr, hs, hstack, Next.frames]
  rw [Stage.past, hafter, settle_inward (by rw [hstack]; simp [Next.frames])]
  exact .chaining (.block _ _ hw) (by rw [hs']; rfl) hstack

/-- A filter awaits its `next`, in a block or not, or does something of its own before it does. -/
theorem stands_filter {above : List Frame}
    (hw : Wraps cfg.filters call terminal (outer ++ base) (j + 1) w)
    (hstack : (s.tasks t).stack = above ++ .user (.filter j call terminal) :: w)
    (hpass : Refusal cfg reason t base.length (s, .inward w.length)
      (s', (Stage.inward w.length).past t s (.run c) s')) :
    (above = [] → Untouched s s') ∧ Stands cfg t call terminal reason outer base s'
      ((Stage.inward w.length).past t s (.run c) s') := by
  have hstack' := stack_landed hs'
  have hstay (l : List Frame)
      (hl : (s'.tasks t).stack = l ++ .user (.filter j call terminal) :: w) :
      Stands cfg t call terminal reason outer base s' ((Stage.inward w.length).settle t s') := by
    rw [settle_inward (by rw [hl]; simp; omega)]
    exact .filtering hw hl
  rw [hs] at hstack
  cases above with
  | cons f' above =>
    -- the filter's own business
    rw [List.cons_append, List.cons.injEq] at hstack
    obtain ⟨rfl, rfl⟩ := hstack
    refine ⟨fun h => by simp at h, ?_⟩
    simp only [Stage.past, Stage.after, hr, hs]
    rw [if_neg (by simp; omega)]
    exact hstay (n.frames ++ above) (by rw [hstack', List.append_assoc])
  | nil =>
    rw [List.nil_append, List.cons.injEq] at hstack
    obtain ⟨rfl, rfl⟩ := hstack
    have hawaits := hpass.awaits j call terminal _ hs rfl
    have hown := hpass.passes.2 j call terminal _ hs
    simp only [exec] at hx
    refine ⟨fun _ => Untouched.landed hs' (user_untouched (by simp) hx), ?_⟩
    -- the call that its `next` is awaited with is the one it was given
    have hhanded (call' : Call)
        (hstage : (Stage.inward rest.length).past t s (.run c) s' = .inward rest.length.succ)
        (hcall : (s'.tasks t).stack.head?.bind Frame.handed = some call') : call' = call := by
      rw [hstage] at hown
      obtain ⟨-, hpassed⟩ := hown rfl
      exact Option.some.inj (hcall.symm.trans (hpassed (Nat.succ_ne_self _)))
    cases c with
    | next call' =>
      simp only [user] at hx
      cases hx
      have hstage : (Stage.inward rest.length).past t s (.run (.next call')) s' =
          .inward rest.length.succ := by
        rw [Stage.past, show (Stage.inward rest.length).after t s (.run (.next call')) s' =
          .inward rest.length.succ by simp [Stage.after, hr, hs, Choice.handed]]
        exact settle_inward (by rw [hstack']; simp [Next.frames])
      obtain rfl := hhanded call' hstage (by rw [hstack']; rfl)
      rw [hstage]
      exact .chaining (.filter hw) (by rw [hs']; rfl) hstack'
    | nextWithin seconds call' =>
      simp only [user] at hx
      cases hx
      have hstage : (Stage.inward rest.length).past t s (.run (.nextWithin seconds call')) s' =
          .inward rest.length.succ := by
        rw [Stage.past, show (Stage.inward rest.length).after t s
          (.run (.nextWithin seconds call')) s' = .inward rest.length.succ by
            simp [Stage.after, hr, hs, Choice.handed]]
        exact settle_inward (by rw [hstack']; simp [Next.frames])
      obtain rfl := hhanded call' hstage (by rw [hstack']; rfl)
      rw [hstage]
      exact .entering hw (by rw [hs']; rfl) hstack'
    | _ =>
      simp only [Stage.past, Stage.after, hr, hs, and_self, if_true, Choice.handed,
        Option.isSome_none, Bool.false_eq_true, if_false]
      rcases user_stays hx with ⟨o, rfl⟩ | ⟨above, hframes⟩
      · simp [hstack', Next.frames] at hawaits
      · exact hstay above (by rw [hstack', hframes]; simp)

omit hr in
/-- A dispatch finds no factory. -/
theorem stands_dispatch {guard top : List Frame} (hR : Registered cfg s)
    (hconcerns : reason.Concerns cfg call) (hreason : reason = .unregistered)
    (hguard : guard = [] ∨ ∃ saved, guard = [.timeout call saved false])
    (htop : Looking call top r) (hw : Wraps cfg.filters call terminal (outer ++ base) 0 w)
    (hstack : (s.tasks t).stack = top ++ (guard ++ w))
    (howned : top = [.dispatch call] →
      (s.isMine.any fun isMine => !isMine (route cfg s call.grain)) = false) :
    Untouched s s' ∧ Stands cfg t call terminal reason outer base s'
      (Stage.past t s (.run c) s' (.dispatching (guard ++ w).length)) := by
  subst hreason
  obtain ⟨hkind, hfactory⟩ := hconcerns
  have hstack' := stack_landed hs'
  have hon {top' : List Frame} {r' : Resume Outcome} (htop' : Looking call top' r')
      (hrun : s'.running = some (t, r'))
      (hl : (s'.tasks t).stack = top' ++ (guard ++ w)) :
      Stands cfg t call terminal .unregistered outer base s'
        (Stage.past t s (.run c) s' (.dispatching (guard ++ w).length)) := by
    rw [Stage.past, Stage.after_dispatching (by rw [hl]; cases htop' <;> simp)]
    exact .dispatching rfl hguard htop' hrun hw hl
  rw [hs] at hstack
  cases htop with
  | dispatch =>
    obtain ⟨rfl, rfl⟩ := List.cons.inj hstack
    have hmine := howned rfl
    rw [route_of_kind hkind] at hmine
    simp only [exec, dispatch, route_of_kind hkind, advance_of_kind hkind, hmine,
      Bool.false_eq_true, if_false] at hx
    cases hx
    exact ⟨Untouched.landed hs' rfl, hon .start (by rw [hs']; rfl) (by rw [hstack']; rfl)⟩
  | start =>
    obtain ⟨rfl, rfl⟩ := List.cons.inj hstack
    simp only [exec, dispatchHere] at hx
    cases hx
    exact ⟨Untouched.landed hs' rfl, hon (.lookup _) (by rw [hs']; rfl) (by rw [hstack']; rfl)⟩
  | lookup i =>
    obtain ⟨rfl, rfl⟩ := List.cons.inj hstack
    simp only [exec, activated, hR.get_eq_none hfactory, hfactory] at hx
    cases hx
    exact ⟨Untouched.landed hs' rfl, hon (.refused i) (by rw [hs']; rfl) (by rw [hstack']; rfl)⟩
  | refused i =>
    obtain ⟨rfl, rfl⟩ := List.cons.inj hstack
    simp only [exec, dispatchHere] at hx
    cases hx
    refine ⟨Untouched.landed hs' rfl, ?_⟩
    have htold : s'.told t = some (.error (Reason.error call .unregistered)) := told_landed hs' rfl
    have hland : (s'.tasks t).stack = guard ++ w := hstack'
    have hrun : guard ≠ [] →
        s'.running = some (t, .got (.error (Reason.error call .unregistered))) := by
      intro hne
      obtain ⟨f', guard', rfl⟩ := List.exists_cons_of_ne_nil hne
      rw [hs']
      rfl
    simp only [Stage.past, Stage.after, htold, hland, le_refl, if_true]
    rcases hguard with rfl | ⟨saved, rfl⟩
    · exact stands_out hw htold hland
    · exact .timed rfl (hrun (by simp)) hw hland

omit hr in
/-- The timeout, which has not expired, lets the refusal through. -/
theorem stands_timeout {saved : ℕ} (hreason : reason = .unregistered)
    (hgot : r = .got (.error (reason.error call)))
    (hw : Wraps cfg.filters call terminal (outer ++ base) 0 w)
    (hstack : (s.tasks t).stack = .timeout call saved false :: w) :
    Untouched s s' ∧ Stands cfg t call terminal reason outer base s'
      (Stage.past t s (.run c) s'
        (reason.leaving call w.length.succ)) := by
  subst hreason hgot
  rw [hs] at hstack
  obtain ⟨rfl, rfl⟩ := List.cons.inj hstack
  simp only [exec, timeout, timeoutExit_false] at hx
  cases hx
  refine ⟨Untouched.landed hs' rfl, ?_⟩
  have htold := told_landed hs' rfl
  have hstack' := stack_landed hs'
  simp only [Stage.past, Stage.after, htold, hstack', Next.frames, List.nil_append,
    Nat.lt_succ_self, if_true]
  exact stands_out hw htold hstack'

omit hr in
/-- The end of a filter's block lets the refusal through. -/
theorem stands_unblocking {asked : Time} {saved : Option Time}
    (hgot : r = .got (.error (reason.error call)))
    (hw : Wraps cfg.filters call terminal (outer ++ base) (j + 1) w)
    (hstack : (s.tasks t).stack = .scope asked saved :: .user (.filter j call terminal) :: w) :
    Untouched s s' ∧ Stands cfg t call terminal reason outer base s'
      ((reason.leaving call w.length.succ.succ).past t s (.run c) s') := by
  subst hgot
  rw [hs] at hstack
  obtain ⟨rfl, rfl⟩ := List.cons.inj hstack
  simp only [exec, scope] at hx
  cases hx
  refine ⟨Untouched.landed hs' rfl, ?_⟩
  have htold := told_landed hs' rfl
  have hstack' : (s'.tasks t).stack = .user (.filter j call terminal) :: w := stack_landed hs'
  simp only [Stage.past, Stage.after, htold, hstack', List.length_cons, Nat.lt_succ_self, if_true]
  exact .leaving hw (show _ = [] ++ _ from hstack')

omit hr in
/-- A filter ends with the refusal it was given, or does something of its own first. -/
theorem stands_leaving {above : List Frame}
    (hw : Wraps cfg.filters call terminal (outer ++ base) (j + 1) w)
    (hstack : (s.tasks t).stack = above ++ .user (.filter j call terminal) :: w)
    (hpass : PassesOn t base.length (s, reason.leaving call w.length.succ)
      (s', (reason.leaving call w.length.succ).past t s (.run c) s')) :
    (above = [] → Untouched s s') ∧ Stands cfg t call terminal reason outer base s'
      ((reason.leaving call w.length.succ).past t s (.run c) s') := by
  have hstack' := stack_landed hs'
  have hstay (l : List Frame)
      (hl : (s'.tasks t).stack = l ++ .user (.filter j call terminal) :: w) :
      Stands cfg t call terminal reason outer base s'
        ((reason.leaving call w.length.succ).past t s (.run c) s') := by
    rw [Stage.past, Stage.after_outward (by rw [hl]; simp)]
    exact .leaving hw hl
  rw [hs] at hstack
  cases above with
  | cons f' above =>
    -- the filter's own business
    rw [List.cons_append, List.cons.injEq] at hstack
    refine ⟨fun h => by simp at h, hstay (n.frames ++ above) ?_⟩
    rw [hstack', hstack.2, List.append_assoc]
  | nil =>
    rw [List.nil_append, List.cons.injEq] at hstack
    obtain ⟨rfl, rfl⟩ := hstack
    simp only [exec] at hx
    refine ⟨fun _ => Untouched.landed hs' (user_untouched (by simp) hx), ?_⟩
    rcases user_stays hx with ⟨o, rfl⟩ | ⟨l, hframes⟩
    · have htold := told_landed hs' rfl
      have hown := hpass.2 j call terminal _ hs
      simp only [Stage.past, Stage.after, htold, hstack', Next.frames, List.nil_append,
        Nat.lt_succ_self, if_true, Stage.settle] at hown ⊢
      obtain rfl : o = .error (reason.error call) := hown trivial
      exact stands_out hw htold hstack'
    · exact hstay l (by rw [hstack', hframes]; simp)

omit hr in
/-- The end of `with deadline` lets the refusal through. -/
theorem stands_scope {asked : Time} {saved : Option Time} {l : List Frame}
    (hl : .scope asked saved :: l <:+ outer)
    (hgot : r = .got (.error (reason.error call)))
    (hstack : (s.tasks t).stack = .scope asked saved :: l ++ base) :
    Untouched s s' ∧ Stands cfg t call terminal reason outer base s'
      ((reason.leaving call (.scope asked saved :: l ++ base).length).past t s (.run c) s') := by
  subst hgot
  rw [hs] at hstack
  obtain ⟨rfl, rfl⟩ := List.cons.inj hstack
  simp only [exec, scope] at hx
  cases hx
  refine ⟨Untouched.landed hs' rfl, ?_⟩
  have htold := told_landed hs' rfl
  have hstack' : (s'.tasks t).stack = l ++ base := stack_landed hs'
  simp only [Stage.past, Stage.after, htold, hstack', List.cons_append, List.length_cons,
    Nat.lt_succ_self,
    if_true]
  exact .out ((List.suffix_cons _ _).trans hl) htold hstack'

end

/-! ## Each step -/

section

variable {outer base : List Frame} {stage : Stage} {l : Label}

theorem Stage.after_inward {depth : ℕ} (hl : ∀ c r, l = .run c → s.running ≠ some (t, r)) :
    (Stage.inward depth).after t s l s' = .inward depth := by
  simp only [Stage.after]
  split
  · next c u r f rest hr hs =>
    rw [if_neg]
    rintro ⟨rfl, -⟩
    exact hl c r rfl hr
  · rfl

/-- What wraps a dispatch, but for its timeout, does not age. -/
theorem Wraps.ages_outer (houter : Outer outer) {j : ℕ} {w w' : List Frame}
    (hw : Wraps cfg.filters call terminal (outer ++ base) j w)
    (h : List.Forall₂ Frame.ages w w') :
    ∃ base', base'.length = base.length ∧
      Wraps cfg.filters call terminal (outer ++ base') j w' := by
  obtain ⟨low', hlow, hw'⟩ := hw.ages h
  obtain ⟨outer', base', rfl, hout, hbase⟩ := ages_append hlow
  have heq : outer' = outer := by
    refine ages_eq hout ?_
    rintro f hf _ _ rfl
    obtain ⟨_, _, heq⟩ := houter _ hf
    cases heq
  exact ⟨base', hbase.length_eq.symm, heq ▸ hw'⟩

theorem Wraps.base_le {j : ℕ} {w : List Frame}
    (hw : Wraps cfg.filters call terminal (outer ++ base) j w) : base.length ≤ w.length :=
  (List.length_append ▸ Nat.le_add_left _ _).trans hw.length_le

theorem Wraps.base_le_append {j : ℕ} {w : List Frame} (l : List Frame)
    (hw : Wraps cfg.filters call terminal (outer ++ base) j w) :
    base.length ≤ (l ++ w).length :=
  hw.base_le.trans (List.length_append ▸ Nat.le_add_left _ _)

/-- A step that runs nothing of the task leaves the call where it is. -/
theorem Stands.still (hS : Stands cfg t call terminal reason outer base s stage)
    (houter : Outer outer) (hopen : base.length < (s.tasks t).stack.length)
    (ht : t < s.spawned) (h : step cfg s l = some s')
    (hl : ∀ c r, l = .run c → s.running ≠ some (t, r))
    (hages : List.Forall₂ Frame.ages (s.tasks t).stack (s'.tasks t).stack) :
    ∃ base', base'.length = base.length ∧ Stands cfg t call terminal reason outer base' s'
      (stage.past t s l s') := by
  have hlen := hages.length_eq
  have hstill {r : Resume Outcome} (hr : s.running = some (t, r)) :
      (s'.tasks t).stack = (s.tasks t).stack ∧ s'.running = some (t, r) :=
    step_still hr ht (fun c hc => hl c r hc hr) h
  cases hS with
  | chaining hw hr hs =>
    obtain ⟨hs', hr'⟩ := hstill hr
    rw [Stage.past, Stage.after_inward hl, settle_inward (by rw [hs', hs]; simp)]
    exact ⟨base, rfl, .chaining hw hr' (hs'.trans hs)⟩
  | entering hw hr hs =>
    obtain ⟨hs', hr'⟩ := hstill hr
    rw [Stage.past, Stage.after_inward hl, settle_inward (by rw [hs', hs]; simp)]
    exact ⟨base, rfl, .entering hw hr' (hs'.trans hs)⟩
  | filtering hw hs =>
    rw [hs] at hages
    obtain ⟨above', l', hs', -, hl'⟩ := ages_append hages
    obtain ⟨f', w', hf, hrest, rfl⟩ := List.forall₂_cons_left_iff.1 hl'
    obtain ⟨base', hbase, hw'⟩ := hw.ages_outer houter hrest
    rw [hf.eq (by simp)] at hs'
    rw [Stage.past, Stage.after_inward hl, settle_inward (by rw [← hlen, hs]; simp; omega),
      hrest.length_eq]
    exact ⟨base', hbase, .filtering hw' hs'⟩
  | dispatching hreason hguard htop hr hw hs =>
    obtain ⟨hs', hr'⟩ := hstill hr
    rw [Stage.past, Stage.after_dispatching (by rw [hs', hs]; cases htop <;> simp)]
    exact ⟨base, rfl, .dispatching hreason hguard htop hr' hw (hs'.trans hs)⟩
  | timed hreason hr hw hs =>
    obtain ⟨hs', hr'⟩ := hstill hr
    rw [Stage.past, Stage.after_outward (by rw [hs', hs]; simp)]
    exact ⟨base, rfl, .timed hreason hr' hw (hs'.trans hs)⟩
  | unblocking hw hr hs =>
    obtain ⟨hs', hr'⟩ := hstill hr
    rw [Stage.past, Stage.after_outward (by rw [hs', hs]; simp)]
    exact ⟨base, rfl, .unblocking hw hr' (hs'.trans hs)⟩
  | leaving hw hs =>
    rw [hs] at hages
    obtain ⟨above', l', hs', -, hl'⟩ := ages_append hages
    obtain ⟨f', w', hf, hrest, rfl⟩ := List.forall₂_cons_left_iff.1 hl'
    obtain ⟨base', hbase, hw'⟩ := hw.ages_outer houter hrest
    rw [hf.eq (by simp)] at hs'
    rw [Stage.past, Stage.after_outward (by rw [← hlen, hs]; simp), hrest.length_eq]
    exact ⟨base', hbase, .leaving hw' hs'⟩
  | @out l hl' htold hs =>
    cases l with
    | nil => simp [hs] at hopen
    | cons f l =>
      obtain ⟨hs', hr'⟩ := hstill (running_of_told hs htold)
      rw [Stage.past, Stage.after_outward (by rw [hs', hs])]
      refine ⟨base, rfl, .out hl' ?_ (hs'.trans hs)⟩
      unfold State.told State.gave
      rw [if_pos rfl, hs', hs, hr']
      exact if_pos rfl

/-- A step of a refused call. -/
theorem Stands.step (hS : Stands cfg t call terminal reason outer base s stage)
    (hn : Nested s) (hR : Registered cfg s) (hconcerns : reason.Concerns cfg call)
    (houter : Outer outer) (h : Nigrains.step cfg s l = some s')
    (hok : Refusal cfg reason t base.length (s, stage)
      (s', stage.past t s l s')) :
    (∀ c, l = .run c → Own t (s, stage) → Untouched s s') ∧
    ∃ base', base'.length = base.length ∧ Stands cfg t call terminal reason outer base' s'
      (stage.past t s l s') := by
  have hopen := hok.passes.1
  have ht : t < s.spawned := by
    cases hs : (s.tasks t).stack with
    | nil => simp [hs] at hopen
    | cons f rest => exact hn.lt_spawned hs
  rcases step_at h ht with ⟨c, r, f, rest, s1, n, rfl, hr, hs, hx, hs'⟩ | ⟨hl, hages, -⟩
  · have hgiven {r' : Resume Outcome} (hrun : s.running = some (t, r')) : r = r' := by
      rw [hr, Option.some.injEq, Prod.mk.injEq] at hrun
      exact hrun.2
    cases hS with
    | chaining hw hsend hstack =>
      obtain ⟨rfl, rfl⟩ := List.cons.inj (hs.symm.trans hstack)
      obtain ⟨hu, hS'⟩ := stands_chain hr hs hx hs' (fun h0 => by
        subst h0
        exact hok.reaches call terminal _ hstack rfl) rfl (hgiven hsend) hw
      exact ⟨fun _ _ _ => hu, base, rfl, hS'⟩
    | entering hw hsend hstack =>
      obtain ⟨rfl, rfl⟩ := List.cons.inj (hs.symm.trans hstack)
      obtain ⟨hu, hS'⟩ := stands_within hr hs hx hs' rfl (hgiven hsend) rfl hw
      exact ⟨fun _ _ _ => hu, base, rfl, hS'⟩
    | @filtering j w above hw hstack =>
      obtain ⟨hu, hS'⟩ := stands_filter hr hs hx hs' hw hstack hok
      refine ⟨fun _ _ hown => hu ?_, base, rfl, hS'⟩
      have hlen := hown.2
      simp only [hstack, List.length_append, List.length_cons] at hlen
      exact List.eq_nil_of_length_eq_zero (by omega)
    | dispatching hreason hguard htop hrun hw hstack =>
      obtain rfl := hgiven hrun
      obtain ⟨hu, hS'⟩ := stands_dispatch hs hx hs' hR hconcerns hreason hguard htop hw hstack
        (fun h1 => hok.owned call _ (by rw [hstack, h1]; rfl) rfl)
      exact ⟨fun _ _ _ => hu, base, rfl, hS'⟩
    | timed hreason hrun hw hstack =>
      obtain ⟨hu, hS'⟩ := stands_timeout hs hx hs' hreason (hgiven hrun) hw hstack
      exact ⟨fun _ _ _ => hu, base, rfl, hS'⟩
    | unblocking hw hrun hstack =>
      obtain ⟨hu, hS'⟩ := stands_unblocking hs hx hs' (hgiven hrun) hw hstack
      exact ⟨fun _ _ _ => hu, base, rfl, hS'⟩
    | @leaving j w above hw hstack =>
      obtain ⟨hu, hS'⟩ := stands_leaving hs hx hs' hw hstack hok.passes
      refine ⟨fun _ _ hown => hu ?_, base, rfl, hS'⟩
      have hlen := hown.2
      simp only [hstack, List.length_append, List.length_cons] at hlen
      exact List.eq_nil_of_length_eq_zero (by omega)
    | @out l hl htold hstack =>
      cases l with
      | nil => simp [hstack] at hopen
      | cons f' l =>
        obtain ⟨asked, saved, rfl⟩ := houter f' (hl.subset List.mem_cons_self)
        obtain ⟨hu, hS'⟩ := stands_scope hs hx hs' hl (hgiven (running_of_told hstack htold)) hstack
        exact ⟨fun _ _ _ => hu, base, rfl, hS'⟩
  · refine ⟨fun c hc hown => ?_, hS.still houter hopen ht h hl hages⟩
    obtain ⟨r, hr⟩ := hown.1
    exact (hl c r hc hr).elim

end

/-! ## To the end of the call -/

section

variable {outer base w : List Frame} {m : ℕ}

variable (cfg t reason m) in
/-- The call may run on until it is over. -/
def Ends (x : State × Stage) : Prop :=
  ∃ x' : State × Stage, Run (attended cfg t) (Refusal cfg reason t m) x x' ∧
    (x'.1.tasks t).stack.length ≤ m

/-- A segment of a frame of the runtime's. -/
theorem ends_of_run {stage : Stage} {c : Choice} {r : Resume Outcome} {f : Frame}
    {rest : List Frame} {s1 : State} (hr : s.running = some (t, r))
    (hs : (s.tasks t).stack = f :: rest) (hx : exec cfg s t c f r = some (s1, n))
    (hok : ∀ s' : State, s' = { s1 with toLoop := s1.toLoop.land t rest n } →
      Refusal cfg reason t m (s, stage) (s', stage.past t s (.run c) s') ∧
      Ends cfg t reason m (s', stage.past t s (.run c) s')) :
    Ends cfg t reason m (s, stage) := by
  obtain ⟨hrefusal, x', hrun, hover⟩ := hok _ rfl
  refine ⟨x', .head ⟨⟨.run c, ?_⟩, hrefusal⟩ hrun, hover⟩
  simp only [attended, Nigrains.step, run, hr, hs, hx]
  rfl

/-- A step of a frame of the runtime's that neither reaches the dispatch nor routes. -/
theorem refusal_of_head {x x' : State × Stage} {f : Frame} {rest : List Frame}
    (hs : (x.1.tasks t).stack = f :: rest) (hopen : m ≤ rest.length)
    (hf : ∀ role, f ≠ .user role)
    (hchain : ∀ call terminal, f = .chain 0 call terminal →
      (overdue call.deadline x.1.now = true ↔ reason = .late))
    (hdispatch : ∀ call, f = .dispatch call →
      (x.1.isMine.any fun isMine => !isMine (route cfg x.1 call.grain)) = false) :
    Refusal cfg reason t m x x' where
  passes := by
    refine ⟨by rw [hs]; simp; omega, fun k call terminal rest' hs' => ?_⟩
    rw [hs] at hs'
    exact (hf _ (List.cons.inj hs').1).elim
  awaits k call terminal rest' hs' := by
    rw [hs] at hs'
    exact (hf _ (List.cons.inj hs').1).elim
  reaches call terminal rest' hs' _ := by
    rw [hs] at hs'
    exact hchain _ _ (List.cons.inj hs').1
  owned call rest' hs' _ := by
    rw [hs] at hs'
    exact hdispatch _ (List.cons.inj hs').1

/-- A step of a filter that hands the call on, or ends with what it was given. -/
theorem refusal_of_filter {x x' : State × Stage} {k : ℕ} {rest : List Frame}
    (hs : (x.1.tasks t).stack = .user (.filter k call terminal) :: rest) (hopen : m ≤ rest.length)
    (hpass : match x.2, x'.2 with
      | .inward at_, .inward at' =>
        rest.length = at_ → at_ < (x'.1.tasks t).stack.length ∧
          (at' ≠ at_ → (x'.1.tasks t).stack.head?.bind Frame.handed = some call)
      | .outward at_ _ told, .outward at' _ told' => at' < at_ → told' = told
      | _, _ => True)
    (hawaits : x.2 = .inward rest.length → rest.length < (x'.1.tasks t).stack.length) :
    Refusal cfg reason t m x x' where
  passes := by
    refine ⟨by rw [hs]; simp; omega, fun k' call' terminal' rest' hs' => ?_⟩
    rw [hs] at hs'
    cases hs'
    exact hpass
  awaits k' call' terminal' rest' hs' := by
    rw [hs] at hs'
    cases hs'
    exact hawaits
  reaches call' terminal' rest' hs' := by
    rw [hs] at hs'
    cases hs'
  owned call' rest' hs' := by
    rw [hs] at hs'
    cases hs'

theorem ends_out : ∀ {l : List Frame} {s : State}, Outer l →
    s.told t = some (.error (reason.error call)) → (s.tasks t).stack = l ++ base →
    Ends cfg t reason base.length (s, reason.leaving call (l ++ base).length)
  | [], s, _, _, hs => ⟨_, .refl, by rw [hs]; rfl⟩
  | f :: l, s, hl, htold, hs => by
    obtain ⟨asked, saved, rfl⟩ := hl f List.mem_cons_self
    refine ends_of_run (c := .go) (running_of_told hs htold) hs rfl fun s' hs' => ⟨?_, ?_⟩
    · exact refusal_of_head hs (by simp) (by simp) (by simp) (by simp)
    · have htold' := told_landed hs' rfl
      have hstack' : (s'.tasks t).stack = l ++ base := stack_landed hs'
      simp only [Stage.past, Stage.after, htold', hstack', List.cons_append, List.length_cons,
        Nat.lt_succ_self, if_true]
      exact ends_out (fun f hf => hl f (List.mem_cons_of_mem _ hf)) htold' hstack'

/-- A filter may end with the refusal. -/
theorem ends_told {j : ℕ} {r : Resume Outcome}
    (hw : Wraps cfg.filters call terminal (outer ++ base) (j + 1) w)
    (hr : s.running = some (t, r)) (hs : (s.tasks t).stack = .user (.filter j call terminal) :: w)
    (hnext : ∀ s' : State, s'.told t = some (.error (reason.error call)) →
      (s'.tasks t).stack = w → Ends cfg t reason base.length (s', reason.leaving call w.length)) :
    Ends cfg t reason base.length (s, reason.leaving call w.length.succ) := by
  refine ends_of_run (c := .finish (.error (reason.error call))) hr hs rfl fun s' hs' => ?_
  have htold : s'.told t = some (.error (reason.error call)) := told_landed hs' rfl
  have hstack' : (s'.tasks t).stack = w := stack_landed hs'
  simp only [Stage.past, Stage.after, htold, hstack', Nat.lt_succ_self, if_true]
  refine ⟨refusal_of_filter hs hw.base_le (fun _ => rfl) (fun h => by cases h), ?_⟩
  exact hnext s' htold hstack'

/-- The end of a filter's block lets the refusal through. -/
theorem ends_block {j : ℕ} {asked : Time} {saved : Option Time}
    (hw : Wraps cfg.filters call terminal (outer ++ base) (j + 1) w)
    (hr : s.running = some (t, .got (.error (reason.error call))))
    (hs : (s.tasks t).stack = .scope asked saved :: .user (.filter j call terminal) :: w)
    (hnext : ∀ s' : State, s'.told t = some (.error (reason.error call)) →
      (s'.tasks t).stack = w → Ends cfg t reason base.length (s', reason.leaving call w.length)) :
    Ends cfg t reason base.length (s, reason.leaving call w.length.succ.succ) := by
  refine ends_of_run (c := .go) hr hs rfl fun s' hs' => ⟨?_, ?_⟩
  · have hle := hw.base_le
    exact refusal_of_head hs (by simp; omega) (by simp) (by simp) (by simp)
  · have htold : s'.told t = some (.error (reason.error call)) := told_landed hs' rfl
    have hstack' : (s'.tasks t).stack = .user (.filter j call terminal) :: w := stack_landed hs'
    simp only [Stage.past, Stage.after, htold, hstack', List.length_cons, Nat.lt_succ_self,
      if_true]
    exact ends_told hw (running_of_told hstack' htold) hstack' hnext

/-- Filters that end as soon as they are told let the refusal out. -/
theorem ends_leaving (houter : Outer outer) {j : ℕ}
    (hw : Wraps cfg.filters call terminal (outer ++ base) j w)
    (htold : s.told t = some (.error (reason.error call))) (hs : (s.tasks t).stack = w) :
    Ends cfg t reason base.length (s, reason.leaving call w.length) := by
  induction hw generalizing s with
  | low => exact ends_out houter htold hs
  | filter hw ih => exact ends_told hw (running_of_told hs htold) hs fun _ => ih
  | block asked saved hw ih => exact ends_block hw (running_of_told hs htold) hs fun _ => ih

/-- The timeout lets the refusal through. -/
theorem ends_timed (houter : Outer outer) {saved : ℕ} (hreason : reason = .unregistered)
    (hr : s.running = some (t, .got (.error (reason.error call))))
    (hw : Wraps cfg.filters call terminal (outer ++ base) 0 w)
    (hs : (s.tasks t).stack = .timeout call saved false :: w) :
    Ends cfg t reason base.length (s, reason.leaving call w.length.succ) := by
  subst hreason
  have hx : exec cfg s t .go (.timeout call saved false)
      (.got (.error (Reason.error call .unregistered))) =
      some (s, .done (.error (Reason.error call .unregistered))) := by
    simp only [exec, timeout, timeoutExit_false]
    rfl
  refine ends_of_run hr hs hx fun s' hs' => ⟨?_, ?_⟩
  · exact refusal_of_head hs hw.base_le (by simp) (by simp) (by simp)
  · have htold' : s'.told t = some (.error (Reason.error call .unregistered)) :=
      told_landed hs' rfl
    have hstack' : (s'.tasks t).stack = w := stack_landed hs'
    simp only [Stage.past, Stage.after, htold', hstack', Nat.lt_succ_self, if_true]
    exact ends_leaving houter hw htold' hstack'

section

variable {guard : List Frame} (houter : Outer outer)
  (hguard : guard = [] ∨ ∃ saved, guard = [.timeout call saved false])
  (hw : Wraps cfg.filters call terminal (outer ++ base) 0 w)

include houter hguard hw

theorem ends_refused {i : CallId}
    (hr : s.running = some (t, .got (.error (.grainNotRegistered call.grain.type))))
    (hs : (s.tasks t).stack = .dispatchHere call (.activating i) :: (guard ++ w)) :
    Ends cfg t .unregistered base.length (s, .dispatching (guard ++ w).length) := by
  refine ends_of_run (c := .go) hr hs rfl fun s' hs' => ⟨?_, ?_⟩
  · exact refusal_of_head hs (hw.base_le_append guard) (by simp) (by simp) (by simp)
  · have htold : s'.told t = some (.error (Reason.error call .unregistered)) := told_landed hs' rfl
    have hland : (s'.tasks t).stack = guard ++ w :=
      stack_landed hs'
    simp only [Stage.past, Stage.after, htold, hland, le_refl, if_true]
    rcases hguard with rfl | ⟨saved, rfl⟩
    · exact ends_leaving houter hw htold hland
    · exact ends_timed houter rfl (running_of_told hland htold) hw hland

/-- A lookup finds neither an entry nor a factory. -/
theorem ends_lookup {i : CallId} (hR : Registered cfg s)
    (hfactory : cfg.factories call.grain.type = none) (hr : s.running = some (t, .send))
    (hs : (s.tasks t).stack = .activated call.grain .lookup ::
      .dispatchHere call (.activating i) :: (guard ++ w)) :
    Ends cfg t .unregistered base.length (s, .dispatching (guard ++ w).length) := by
  have hx : exec cfg s t .go (.activated call.grain .lookup) .send =
      some (s, .done (.error (.grainNotRegistered call.grain.type))) := by
    simp only [exec, activated, hR.get_eq_none hfactory, hfactory]
  refine ends_of_run hr hs hx fun s' hs' => ⟨?_, ?_⟩
  · exact refusal_of_head hs (hw.base_le_append (_ :: guard)) (by simp) (by simp) (by simp)
  · have hstack' := stack_landed hs'
    rw [Stage.past, Stage.after_dispatching (by rw [hstack']; simp [Next.frames])]
    exact ends_refused houter hguard hw (by rw [hs']; rfl) hstack'

theorem ends_start (hR : Registered cfg s) (hfactory : cfg.factories call.grain.type = none)
    (hr : s.running = some (t, .send))
    (hs : (s.tasks t).stack = .dispatchHere call .start :: (guard ++ w)) :
    Ends cfg t .unregistered base.length (s, .dispatching (guard ++ w).length) := by
  refine ends_of_run (c := .go) hr hs rfl fun s' hs' => ⟨?_, ?_⟩
  · exact refusal_of_head hs (hw.base_le_append guard) (by simp) (by simp) (by simp)
  · have hstack' := stack_landed hs'
    rw [Stage.past, Stage.after_dispatching (by rw [hstack']; simp [Next.frames])]
    have hR' : Registered cfg s' := by rw [hs']; exact hR
    exact ends_lookup houter hguard hw hR' hfactory (by rw [hs']; rfl) hstack'

/-- A dispatch serves here a call that this node owns. -/
theorem ends_dispatch (hR : Registered cfg s) (hkind : cfg.kinds call.grain.type = none)
    (hfactory : cfg.factories call.grain.type = none)
    (hmine : (s.isMine.any fun isMine => !isMine call.grain) = false)
    (hr : s.running = some (t, .send))
    (hs : (s.tasks t).stack = .dispatch call :: (guard ++ w)) :
    Ends cfg t .unregistered base.length (s, .dispatching (guard ++ w).length) := by
  have hx : exec cfg s t .go (.dispatch call) .send =
      some (s, .goto (.dispatchHere call .start)) := by
    simp only [exec, dispatch, route_of_kind hkind, advance_of_kind hkind, hmine,
      Bool.false_eq_true, if_false]
  refine ends_of_run hr hs hx fun s' hs' => ⟨?_, ?_⟩
  · refine refusal_of_head hs (hw.base_le_append guard) (by simp) (by simp) ?_
    intro call' hcall
    cases hcall
    rwa [route_of_kind hkind]
  · have hstack' := stack_landed hs'
    rw [Stage.past, Stage.after_dispatching (by rw [hstack']; simp [Next.frames])]
    have hR' : Registered cfg s' := by rw [hs']; exact hR
    exact ends_start houter hguard hw hR' hfactory (by rw [hs']; rfl) hstack'

end

/-- A filter passes the call on at once. -/
theorem ends_filter {j : ℕ} {r : Resume Outcome}
    (hw : Wraps cfg.filters call terminal (outer ++ base) (j + 1) w)
    (hr : s.running = some (t, r)) (hs : (s.tasks t).stack = .user (.filter j call terminal) :: w)
    (hnext : ∀ (s' : State) (w' : List Frame), Untouched s s' →
      Wraps cfg.filters call terminal (outer ++ base) j w' → s'.running = some (t, .send) →
      (s'.tasks t).stack = .chain j call terminal :: w' →
      Ends cfg t reason base.length (s', .inward w'.length)) :
    Ends cfg t reason base.length (s, .inward w.length) := by
  refine ends_of_run (c := .next call) hr hs rfl fun s' hs' => ?_
  have hstack' : (s'.tasks t).stack =
      .chain j call terminal :: .user (.filter j call terminal) :: w := stack_landed hs'
  have hafter : (Stage.inward w.length).after t s (.run (.next call)) s' =
      .inward w.length.succ := by
    simp [Stage.after, hr, hs, Choice.handed]
  rw [Stage.past, hafter, settle_inward (by rw [hstack']; simp)]
  have hlen : w.length < (s'.tasks t).stack.length := by
    rw [hstack']
    simp
  refine ⟨refusal_of_filter hs hw.base_le (fun _ => ⟨hlen, fun _ => ?_⟩) fun _ => hlen, ?_⟩
  · rw [hstack']
    rfl
  · exact hnext s' _ (Untouched.landed hs' rfl) (.filter hw) (by rw [hs']; rfl) hstack'

/-- A filter's block begins, and its `next` with it. -/
theorem ends_within {j : ℕ} {seconds : Time}
    (hw : Wraps cfg.filters call terminal (outer ++ base) (j + 1) w)
    (hr : s.running = some (t, .send))
    (hs : (s.tasks t).stack =
      .within seconds (.next j call terminal) :: .user (.filter j call terminal) :: w)
    (hnext : ∀ (s' : State) (w' : List Frame), Untouched s s' →
      Wraps cfg.filters call terminal (outer ++ base) j w' → s'.running = some (t, .send) →
      (s'.tasks t).stack = .chain j call terminal :: w' →
      Ends cfg t reason base.length (s', .inward w'.length)) :
    Ends cfg t reason base.length (s, .inward w.length.succ) := by
  refine ends_of_run (c := .go) hr hs rfl fun s' hs' => ?_
  have hstack' := stack_landed hs'
  have hafter : (Stage.inward w.length.succ).after t s (.run .go) s' =
      .inward w.length.succ.succ := by
    simp [Stage.after, hr, hs, hstack', Next.frames]
  rw [Stage.past, hafter, settle_inward (by rw [hstack']; simp [Next.frames])]
  have hle := hw.base_le
  exact ⟨refusal_of_head hs (by simp; omega) (by simp) (by simp) (by simp),
    hnext s' _ (Untouched.landed hs' rfl) (.block _ _ hw) (by rw [hs']; rfl) hstack'⟩

/-- At its end the chain refuses a call whose deadline has passed. -/
theorem ends_late (houter : Outer outer) (hdue : Due .late call s)
    (hr : s.running = some (t, .send)) (hw : Wraps cfg.filters call terminal (outer ++ base) 0 w)
    (hs : (s.tasks t).stack = .chain 0 call terminal :: w) :
    Ends cfg t .late base.length (s, .inward w.length) := by
  have hover := hdue.1.2 rfl
  have hx : exec cfg s t .go (.chain 0 call terminal) .send =
      some (s, .done (.error (Reason.error call .late))) := by
    simp only [overdue, Option.any_eq_true, decide_eq_true_eq] at hover
    obtain ⟨deadline, hd, hle⟩ := hover
    simp only [exec, chain, hd, sub_nonpos.2 hle, if_true]
    rfl
  refine ends_of_run hr hs hx fun s' hs' => ⟨?_, ?_⟩
  · exact refusal_of_head hs hw.base_le (by simp) (by rintro _ _ ⟨⟩; exact hdue.1) (by simp)
  · rw [stage_landed hs' rfl (by simp [Stage.after, hr, hs, stack_landed hs', Next.frames]) rfl]
    exact ends_leaving houter hw (told_landed hs' rfl) (stack_landed hs')

/-- A call whose deadline has not passed is dispatched, with what is left of its time, and is
refused there if nobody has registered its kind. -/
theorem ends_unregistered (houter : Outer outer) (hR : Registered cfg s)
    (hconcerns : Reason.unregistered.Concerns cfg call) (hdue : Due .unregistered call s)
    (hr : s.running = some (t, .send)) (hw : Wraps cfg.filters call terminal (outer ++ base) 0 w)
    (hs : (s.tasks t).stack = .chain 0 call terminal :: w) :
    Ends cfg t .unregistered base.length (s, .inward w.length) := by
  have hdispatching {guard : List Frame}
      (hguard : guard = [] ∨ ∃ saved, guard = [.timeout call saved false])
      {n : Next Frame Outcome} (hn : n.frames = terminal.frame call :: guard)
      (hx : exec cfg s t .go (.chain 0 call terminal) .send = some (s, n))
      (hrun : ∀ rest, (s.toLoop.land t rest n).running = some (t, .send)) :
      Ends cfg t .unregistered base.length (s, .inward w.length) := by
    refine ends_of_run hr hs hx fun s' hs' => ⟨?_, ?_⟩
    · exact refusal_of_head hs hw.base_le (by simp) (by rintro _ _ ⟨⟩; exact hdue.1) (by simp)
    · have hstack' := stack_landed hs'
      have hafter : (Stage.inward w.length).after t s (.run .go) s' =
          .dispatching (guard ++ w).length := by
        simp [Stage.after, hr, hs, hstack', hn]
      rw [Stage.past, hafter]
      have hs1 : Untouched s s' := Untouched.landed hs' rfl
      have hr' : s'.running = some (t, .send) := by rw [hs']; exact hrun _
      rw [hn] at hstack'
      cases terminal with
      | dispatch =>
        exact ends_dispatch houter hguard hw (hR.untouched hs1) hconcerns.1 hconcerns.2
          (hdue.untouched hs1).2 hr' (by rw [hstack']; simp [Terminal.frame])
      | dispatchHere =>
        exact ends_start houter hguard hw (hR.untouched hs1) hconcerns.2 hr'
          (by rw [hstack']; simp [Terminal.frame])
  cases hd : call.deadline with
  | none =>
    refine hdispatching (.inl rfl) (n := .goto (terminal.frame call)) rfl ?_ fun _ => rfl
    simp only [exec, chain, hd]
  | some deadline =>
    have hlt : ¬ deadline - s.now ≤ 0 := by
      intro hle
      have hover : overdue call.deadline s.now = true := by simpa [overdue, hd] using hle
      cases hdue.1.1 hover
    refine hdispatching (.inr ⟨(s.tasks t).cancelling, rfl⟩)
      (n := .await (.timeout call (s.tasks t).cancelling false) (terminal.frame call)) rfl ?_
      fun _ => rfl
    simp only [exec, chain, hd, if_neg hlt]

/-- The chain goes on, through filters that pass the call on at once. -/
theorem ends_chain (houter : Outer outer) (hR : Registered cfg s)
    (hconcerns : reason.Concerns cfg call) (hdue : Due reason call s) {j : ℕ}
    (hw : Wraps cfg.filters call terminal (outer ++ base) j w) (hr : s.running = some (t, .send))
    (hs : (s.tasks t).stack = .chain j call terminal :: w) :
    Ends cfg t reason base.length (s, .inward w.length) := by
  induction j generalizing s w with
  | succ j ih =>
    refine ends_of_run (c := .go) hr hs rfl fun s' hs' => ⟨?_, ?_⟩
    · exact refusal_of_head hs hw.base_le (by simp) (by simp) (by simp)
    · have hstack' := stack_landed hs'
      have hafter : (Stage.inward w.length).after t s (.run .go) s' = .inward w.length := by
        simp [Stage.after, hr, hs]
      rw [Stage.past, hafter, settle_inward (by rw [hstack']; simp [Next.frames])]
      refine ends_filter hw (by rw [hs']; rfl) hstack' fun s2 w2 hs2 hw2 hr2 hstack2 => ?_
      have hs1 : Untouched s s' := Untouched.landed hs' rfl
      exact ih ((hR.untouched hs1).untouched hs2) ((hdue.untouched hs1).untouched hs2) hw2 hr2
        hstack2
  | zero =>
    cases reason with
    | late => exact ends_late houter hdue hr hw hs
    | unregistered => exact ends_unregistered houter hR hconcerns hdue hr hw hs

/-- From wherever the call is about to run a segment of its own, it may run on to its end. -/
theorem Stands.ends {stage : Stage} (hS : Stands cfg t call terminal reason outer base s stage)
    (houter : Outer outer) (hR : Registered cfg s) (hconcerns : reason.Concerns cfg call)
    (hdue : Due reason call s) (hown : Own t (s, stage)) :
    Ends cfg t reason base.length (s, stage) := by
  obtain ⟨⟨r, hr⟩, hlen⟩ := hown
  cases hS with
  | chaining hw hsend hs => exact ends_chain houter hR hconcerns hdue hw hsend hs
  | entering hw hsend hs =>
    exact ends_within hw hsend hs fun s' w' hs' hw' hr' hstack' =>
      ends_chain houter (hR.untouched hs') hconcerns (hdue.untouched hs') hw' hr' hstack'
  | @filtering j w above hw hs =>
    simp only [hs, List.length_append, List.length_cons] at hlen
    obtain rfl : above = [] := List.eq_nil_of_length_eq_zero (by omega)
    exact ends_filter hw hr hs fun s' w' hs' hw' hr' hstack' =>
      ends_chain houter (hR.untouched hs') hconcerns (hdue.untouched hs') hw' hr' hstack'
  | dispatching hreason hguard htop hrun hw hs =>
    subst hreason
    obtain ⟨hkind, hfactory⟩ := hconcerns
    cases htop with
    | dispatch => exact ends_dispatch houter hguard hw hR hkind hfactory hdue.2 hrun hs
    | start => exact ends_start houter hguard hw hR hfactory hrun hs
    | lookup i => exact ends_lookup houter hguard hw hR hfactory hrun hs
    | refused i => exact ends_refused houter hguard hw hrun hs
  | timed hreason hrun hw hs => exact ends_timed houter hreason hrun hw hs
  | unblocking hw hrun hs =>
    exact ends_block hw hrun hs fun _ => ends_leaving houter hw
  | @leaving j w above hw hs =>
    simp only [hs, List.length_append, List.length_cons] at hlen
    obtain rfl : above = [] := List.eq_nil_of_length_eq_zero (by omega)
    exact ends_told hw hr hs fun _ => ends_leaving houter hw
  | out hl htold hs => exact ends_out (fun f hf => houter f (hl.subset hf)) htold hs

/-- When the call is over, its caller has been given the refusal. -/
theorem Stands.told_of_over {stage : Stage}
    (hS : Stands cfg t call terminal reason outer base s stage)
    (hover : (s.tasks t).stack.length ≤ base.length) :
    s.told t = some (.error (reason.error call)) := by
  cases hS with
  | out hl htold hs => exact htold
  | dispatching hreason hguard htop hr hw hs =>
    have hle := hw.base_le
    rw [hs] at hover
    cases htop <;> simp at hover <;> omega
  | chaining hw hr hs | entering hw hr hs | timed hreason hr hw hs | unblocking hw hr hs =>
    have hle := hw.base_le
    simp only [hs, List.length_cons] at hover
    omega
  | filtering hw hs | leaving hw hs =>
    have hle := hw.base_le
    simp only [hs, List.length_append, List.length_cons] at hover
    omega

/-- A call that begins stands where its stage says. -/
theorem stands_start (hconcerns : reason.Concerns cfg call) (hr : s.running = some (t, .send))
    (hs : (s.tasks t).stack = callFrame cfg call terminal :: (outer ++ base)) :
    Stands cfg t call terminal reason outer base s (.start cfg call (outer ++ base).length) := by
  unfold Stage.start
  unfold callFrame at hs
  split_ifs at hs ⊢ with h
  · have hlow : Wraps cfg.filters call terminal (outer ++ base) 0 (outer ++ base) := h.1 ▸ .low
    have hreason : reason = .unregistered := by
      cases reason with
      | late => simp [Reason.Concerns, h.2] at hconcerns
      | unregistered => rfl
    have htop : Looking call [terminal.frame call] .send := by
      cases terminal
      · exact .dispatch
      · exact .start
    have hguard : ([] : List Frame) = [] ∨ ∃ saved, [] = [Frame.timeout call saved false] :=
      .inl rfl
    have hstands := Stands.dispatching hreason hguard htop hr hlow hs
    exact hstands
  · exact .chaining .low hr hs

/-! ## The whole call -/

/-- Entering leaves no trace either. -/
theorem Enters.stands {s1 : State} (h : Enters cfg t call terminal outer base s s1)
    (hconcerns : reason.Concerns cfg call) :
    Untouched s s1 ∧ Outer outer ∧ Stands cfg t call terminal reason outer base s1
      (.start cfg call (outer ++ base).length) := by
  have hnil : Outer [] := fun _ hf => by cases hf
  cases h with
  | call hr hs => exact ⟨rfl, hnil, stands_start hconcerns hr hs⟩
  | deliver hr hs hstep =>
    have hs1 := run_of_exec hr hs rfl hstep
    exact ⟨Untouched.landed hs1 rfl, hnil,
      stands_start hconcerns (by rw [hs1]; rfl) (stack_landed hs1)⟩
  | deliverWithin hr hs hstep =>
    have hs1 := run_of_exec hr hs rfl hstep
    exact ⟨Untouched.landed hs1 rfl, fun f hf => ⟨_, _, List.mem_singleton.1 hf⟩,
      stands_start hconcerns (by rw [hs1]; rfl) (stack_landed hs1)⟩

variable (cfg t call terminal reason outer base) in
/-- What holds at each step of a refused call. -/
structure Refused (x : State × Stage) : Prop where
  nested : Nested x.1
  registered : Registered cfg x.1
  stands : ∃ base', base'.length = base.length ∧
    Stands cfg t call terminal reason outer base' x.1 x.2

theorem Refused.step {x x' : State × Stage} {l : Label}
    (hI : Refused cfg t call terminal reason outer base x) (hconcerns : reason.Concerns cfg call)
    (houter : Outer outer) (h : attended cfg t x l = some x')
    (hok : Refusal cfg reason t base.length x x') :
    (∀ c, l = .run c → Own t x → Untouched x.1 x'.1) ∧
    Refused cfg t call terminal reason outer base x' := by
  obtain ⟨s', hl, rfl⟩ := Option.map_eq_some_iff.1 h
  obtain ⟨base', hbase, hS⟩ := hI.stands
  rw [← hbase] at hok
  obtain ⟨hown, base2, hbase2, hS'⟩ :=
    hS.step hI.nested hI.registered hconcerns houter hl hok
  exact ⟨hown, nested_step hI.nested hl, hI.registered.step hl, base2, hbase2.trans hbase, hS'⟩

/-- A call that is refused, with filters that pass it on : none of its own segments touches
anything, what its caller gets is the refusal, and it gets it if the call runs on. -/
theorem refused_traceless {isMine : Option (GrainId → Bool)} {s1 : State}
    (h : Run (Nigrains.step cfg) (fun _ _ => True) (.init isMine) s)
    (henters : Enters cfg t call terminal outer base s s1)
    (hconcerns : reason.Concerns cfg call) :
    Untouched s s1 ∧ ∀ x : State × Stage,
      Run (attended cfg t) (Refusal cfg reason t base.length)
        (s1, .start cfg call (outer ++ base).length) x →
      (∀ c x', attended cfg t x (.run c) = some x' → Refusal cfg reason t base.length x x' →
        Own t x → Untouched x.1 x'.1) ∧
      ((x.1.tasks t).stack.length ≤ base.length →
        x.1.told t = some (.error (reason.error call))) ∧
      (Own t x → Due reason call x.1 → Ends cfg t reason base.length x) := by
  obtain ⟨hentry, houter, hstart⟩ := henters.stands hconcerns
  have hreached : Nested s1 ∧ Registered cfg s1 := by
    cases henters with
    | call => exact ⟨h.reached.nested, h.registered⟩
    | deliver _ _ hstep | deliverWithin _ _ hstep =>
      exact ⟨nested_step h.reached.nested hstep, h.registered.step hstep⟩
  refine ⟨hentry, fun x hx => ?_⟩
  have hI : Refused cfg t call terminal reason outer base x :=
    hx.invariant (I := Refused cfg t call terminal reason outer base)
      ⟨hreached.1, hreached.2, base, rfl, hstart⟩
      fun _ _ _ hI hl hok => (hI.step hconcerns houter hl hok).2
  obtain ⟨base', hbase, hS⟩ := hI.stands
  refine ⟨fun c x' hl hok => (hI.step hconcerns houter hl hok).1 c rfl, fun hover => ?_,
    fun hown hdue => hbase ▸ hS.ends houter hI.registered hconcerns hdue hown⟩
  exact hS.told_of_over (hover.trans_eq hbase.symm)

end

end

/-- A runtime alone, with one filter, and room for one activation. -/
def Config.tight : Config :=
  { Config.small (some 1) with filters := 1 }

/-- The call of `counter/y` by a caller with no time left. -/
def lateCall : Call :=
  ⟨⟨"counter", "y"⟩, "get", 0, 0, some 0⟩

/-- A caller is served by `counter/x`, which fills the table, and calls `counter/y` too late. -/
def lateCaller : List Label :=
  [.arrive, .resume 0, .run (.call ⟨"counter", "x"⟩ "get" 0 0), .run .go,
    .run (.next ⟨⟨"counter", "x"⟩, "get", 0, 0, none⟩), .run .go] ++ Label.gos 5 ++
  [Label.returns] ++ Label.gos 3 ++ [Label.returns] ++ Label.gos 1 ++
  [Label.returns, .run (.within 0), .run .go, .run (.call ⟨"counter", "y"⟩ "get" 0 0)]

/-- The table is full, and the call comes back refused. -/
theorem refused_traceless_late : ∃ s : State, ∃ x : State × Stage,
    Run (step .tight) (fun _ _ => True) (.init none) s ∧ s.activations.len = 1 ∧
    Run (attended .tight 0) (Refusal .tight .late 0 3) (s, .start .tight lateCall 3) x ∧
    x.1.told 0 = some (.error (.deadlineExceeded "counter/y" "get")) := by
  obtain ⟨s, hrun, hp⟩ := exists_free_run Config.tight none lateCaller
    (fun s : State => decide (s.running = some (0, .send) ∧ (s.tasks 0).stack =
        [.chain 1 lateCall .dispatch, .user .block, .scope 0 none, .user .client] ∧
      s.activations.len = 1 ∧ s.now = 0 ∧ s.isMine.isNone)) (by decide +kernel)
  simp only [decide_eq_true_eq, Option.isNone_iff_eq_none] at hp
  obtain ⟨hr, hs, hlen, hnow, hmine⟩ := hp
  have hcalled : (s.tasks 0).stack = callFrame .tight lateCall .dispatch ::
      [.user .block, .scope 0 none, .user .client] := hs
  have hconcerns : Reason.Concerns .tight lateCall .late := rfl
  obtain ⟨-, hall⟩ := refused_traceless hrun (.call hr hcalled) hconcerns
  have hown : Own 0 (s, .start .tight lateCall 3) :=
    ⟨⟨_, hr⟩, by simp [hs, Stage.start, Config.tight, lateCall]⟩
  have hdue : Due .late lateCall s := ⟨by simp [overdue, lateCall, hnow], by simp [hmine]⟩
  obtain ⟨x, hx, hover⟩ := (hall _ .refl).2.2 hown hdue
  exact ⟨s, x, hrun, hlen, hx, (hall x hx).2.1 hover⟩

end Nigrains
