import Nigrains.Counting
import Nigrains.Identities
import Nigrains.Transparency

/-!
# What a sweep takes and what it leaves

`collect` lists the identities whose activations are stale, and walks the list, with a
deactivation and now and then a yield in between, while calls, ticks and evictions go on.
`sweeping` follows one walk : what it finds at the turn of each identity (`Verdict`), and what it
takes out of the table. It also keeps, beside the runtime's own `lastUsed`, when each activation
was created or last left by a call.

What is taken was stale then, by the state it was taken from, because nothing runs between the
second look and the removal. Every identity of the list has had its turn when the walk returns,
in order, and was taken or found absent, activating, busy or used since the walk began. The count
is that of what was taken (`sweep_exact`).
-/

namespace Nigrains

/-- What a walk finds at the turn of an identity. -/
inductive Verdict
  | absent
  | activating (a : ActId)
  | busy (a : ActId)
  /-- Last used after the cutoff. -/
  | used (a : ActId) (at_ : Time)
  | stale (a : ActId)
deriving DecidableEq

/-- What the state says of an identity. -/
def State.verdict (s : State) (cutoff : Time) (g : GrainId) : Verdict :=
  match s.activations.get g with
  | none => .absent
  | some a =>
    if (s.heap a).ready then .activating a
    else if (s.heap a).inFlight ≠ 0 then .busy a
    else if cutoff < (s.heap a).lastUsed then .used a (s.heap a).lastUsed
    else .stale a

/-- What a walk has done. -/
structure Sweep where
  /-- What it has found, the latest turn first. -/
  turns : List (GrainId × Verdict)
  /-- What has been taken out of the table for it, the latest first. -/
  removed : List (GrainId × ActId)

/-- A walk that has just begun. -/
def Sweep.empty : Sweep :=
  ⟨[], []⟩

/-- What the walk of task `t` above `depth` frames does in a step from `s`. -/
def Sweep.after (t : TaskId) (depth : ℕ) (s : State) (l : Label) (w : Sweep) : Sweep :=
  match l, s.running, (s.tasks t).stack with
  | .run _, some (u, .send), .collect (.walking cutoff (g :: _) _ _) :: rest =>
    if u = t ∧ rest.length = depth then { w with turns := (g, s.verdict cutoff g) :: w.turns }
    else w
  | .run _, some (u, .send), .deactivate .collect g .start :: rest =>
    if u = t ∧ rest.length = depth + 1 then
      { w with removed := ((s.activations.get g).map fun a => (g, a)).toList ++ w.removed }
    else w
  | _, _, _ => w

/-- The time of an event is the creation of an activation, or the end of a call on it. -/
def Event.use (now : Time) (used : ActId → Time) : Event → ActId → Time
  | .published _ a _ => Function.update used a now
  | .answered _ a _ _ => Function.update used a now
  | _ => used

/-- A runtime, when each activation was created or its latest call has ended, and what a walk
has done. -/
structure Swept where
  state : State
  used : ActId → Time
  sweep : Sweep

/-- When each activation was last used, after a step from `s` to `s'`. -/
def State.use (s s' : State) (used : ActId → Time) : ActId → Time :=
  match s'.trace with
  | e :: trace => if trace = s.trace then e.use s.now used else used
  | [] => used

/-- A step, and what it is for the walk of task `t` above `depth` frames. -/
def sweeping (cfg : Config) (t : TaskId) (depth : ℕ) (x : Swept) (l : Label) : Option Swept :=
  (step cfg x.state l).map fun s' =>
    ⟨s', x.state.use s' x.used, x.sweep.after t depth x.state l⟩

/-- Before anything has happened. -/
def Swept.init (isMine : Option (GrainId → Bool)) : Swept :=
  ⟨.init isMine, fun _ => 0, .empty⟩

/-- A walk begins. -/
def Swept.begin (x : Swept) : Swept :=
  { x with sweep := .empty }

section

variable {cfg : Config} {s s' : State} {t : TaskId} {n : Next Frame Outcome} {c : Choice}
  {f : Frame} {r : Resume Outcome} {used : ActId → Time}

/-! ## When an activation was last used -/

theorem use_of_cons {e : Event} (h : s'.trace = e :: s.trace) :
    s.use s' used = e.use s.now used := by
  simp only [State.use, h, if_true]

theorem use_of_same (h : s'.trace = s.trace) : s.use s' used = used := by
  unfold State.use
  rw [h]
  split
  · next e trace he => exact if_neg fun heq => List.cons_ne_self e trace (he.symm.trans heq.symm)
  · rfl

/-- The runtime's own record of when its activations were last used is right. -/
def Used (s : State) (used : ActId → Time) : Prop :=
  ∀ b < s.built, (s.heap b).lastUsed = used b

/-- A record that is changed in something else. -/
theorem lastUsed_update {heap : ActId → Activation} {a : ActId} {x : Activation} (b : ActId)
    (hx : x.lastUsed = (heap a).lastUsed) :
    (Function.update heap a x b).lastUsed = (heap b).lastUsed := by
  rw [Function.update_apply]
  split_ifs with hb
  · rw [hx, hb]
  · rfl

theorem used_same (hU : Used s used) (htrace : s'.trace = s.trace) (hbuilt : s'.built = s.built)
    (hheap : ∀ b, (s'.heap b).lastUsed = (s.heap b).lastUsed) : Used s' (s.use s' used) := by
  rw [use_of_same htrace]
  intro b hb
  rw [hheap]
  exact hU b (hbuilt ▸ hb)

/-- Only the creation of an activation and the end of a call are a use. -/
theorem used_log {e : Event} (hU : Used s used) (htrace : s'.trace = e :: s.trace)
    (he : e.use s.now used = used) (hbuilt : s'.built = s.built)
    (hheap : ∀ b, (s'.heap b).lastUsed = (s.heap b).lastUsed) : Used s' (s.use s' used) := by
  rw [use_of_cons htrace, he]
  intro b hb
  rw [hheap]
  exact hU b (hbuilt ▸ hb)

theorem used_leave {call : CallId} {a : ActId} {o : Outcome} {s1 : State} (hU : Used s used)
    (hbuilt : s1.built = s.built) (htrace : s1.trace = s.trace) (hnow : s1.now = s.now)
    (hheap : ∀ b, (s1.heap b).lastUsed = (s.heap b).lastUsed) :
    Used (s1.leave cfg call a o) (s.use (s1.leave cfg call a o) used) := by
  have hlog : (s1.leave cfg call a o).trace =
      .answered call a o (countedOutcome cfg s1 a o) :: s.trace := by
    rw [← htrace]
    rfl
  rw [use_of_cons hlog]
  intro b hb
  show (Function.update s1.heap a _ b).lastUsed = Function.update used a s.now b
  rw [Function.update_apply, Function.update_apply]
  split_ifs
  · exact hnow
  · rw [hheap]
    exact hU b (hbuilt ▸ hb)

/-- A segment keeps the record, and a tick does nothing to it. -/
theorem exec_used (hU : Used s used) (h : exec cfg s t c f r = some (s', n)) :
    Used s' (s.use s' used) := by
  cases exec_effect h
  case asks | queues => exact used_same hU rfl rfl fun b => lastUsed_update b rfl
  case enters | locks | unqueues | failsReading | fails | ticks | tocks | deactivates =>
    exact used_log hU rfl rfl rfl fun b => lastUsed_update b rfl
  case forsakes | unlocks => exact used_leave hU rfl rfl rfl fun b => lastUsed_update b rfl
  case leaves => exact used_leave hU rfl rfl rfl fun _ => rfl
  case publishes g grain o hbuild =>
    have hlog : (s.publish g grain).trace =
        .published g s.built (s.activations.get g) :: s.trace := rfl
    rw [use_of_cons hlog]
    intro b hb
    show (Function.update s.heap s.built (.new grain s.now) b).lastUsed =
      Function.update used s.built s.now b
    rw [Function.update_apply, Function.update_apply]
    split_ifs with hbb
    · rfl
    · exact hU b (lt_of_le_of_ne (Nat.lt_succ_iff.1 hb) hbb)
  case activates g a o =>
    obtain ⟨L, timers, heq⟩ := startTimers_eq (t := t) a s
    have hlog : (s.activate t g a).trace = .activated g a :: s.trace := by
      simp [State.activate, State.emit, State.modify, heq]
    refine used_log hU hlog rfl (by simp [State.activate, State.emit, State.modify, heq])
      fun b => ?_
    show (Function.update (s.startTimers t a).heap a _ b).lastUsed = _
    rw [lastUsed_update b (by rfl), heq]
    exact lastUsed_update b rfl
  case takes who g a hentry =>
    obtain ⟨L, heq⟩ := cancel_all_eq (s.heap a).timers (s.take who g a)
    rw [heq]
    exact used_log hU rfl rfl rfl fun _ => rfl
  case begins =>
    obtain ⟨L, sweeper, scanner, heq⟩ := startBackground_eq cfg s t
    rw [heq]
    exact used_same hU rfl rfl fun _ => rfl
  all_goals
    first
      | exact used_same hU rfl rfl fun _ => rfl
      | exact used_log hU rfl rfl rfl fun _ => rfl

theorem Used.step {l : Label} (hU : Used s used) (h : step cfg s l = some s') :
    Used s' (s.use s' used) := by
  by_cases hrun : ∃ c, l = .run c
  · obtain ⟨c, rfl⟩ := hrun
    obtain ⟨t, r, f, rest, s1, n, -, -, he, rfl⟩ := run_cases h
    have hU1 : Used s1 (s.use s1 used) := exec_used hU he
    exact hU1
  · obtain ⟨L, now, isMine, rfl⟩ := step_outside (not_exists.1 hrun) h
    exact used_same hU rfl rfl fun _ => rfl

/-- An activation was used as before, or just now. -/
theorem Protocol.Step.use {P P' : Protocol} {e : Event} (h : Protocol.Step P e P') (now : Time)
    (used : ActId → Time) {b : ActId} (hb : b < P'.built) :
    b < P.built ∧ e.use now used b = used b ∨ e.use now used b = now := by
  cases h
  case published g hp =>
    by_cases hbb : b = P.built
    · subst hbb
      exact .inr (Function.update_self ..)
    · exact .inl ⟨lt_of_le_of_ne (Nat.lt_succ_iff.1 hb) hbb, Function.update_of_ne hbb _ _⟩
  case answered c a inside outcome hp =>
    by_cases hba : b = a
    · subst hba
      exact .inr (Function.update_self ..)
    · exact .inl ⟨hb, Function.update_of_ne hba _ _⟩
  all_goals exact .inl ⟨hb, rfl⟩

/-- What has become of the activations since `x`. -/
structure Since (x y : Swept) : Prop where
  now_le : x.state.now ≤ y.state.now
  built_le : x.state.built ≤ y.state.built
  entry : ∀ g a, y.state.activations.get g = some a →
    x.state.activations.get g = some a ∨ x.state.built ≤ a
  used : ∀ b < y.state.built,
    b < x.state.built ∧ y.used b = x.used b ∨ x.state.now ≤ y.used b

theorem since_refl (x : Swept) : Since x x :=
  ⟨le_rfl, le_rfl, fun _ _ h => .inl h, fun _ h => .inl ⟨h, rfl⟩⟩

theorem Since.step {x y y' : Swept} {depth : ℕ} {l : Label} (hS : Since x y)
    (hI : Reached y.state) (h : sweeping cfg t depth y l = some y') : Since x y' := by
  obtain ⟨s', hl, rfl⟩ := Option.map_eq_some_iff.1 h
  have hnow := hS.now_le.trans (now_le_step hl)
  rcases hI.step_view hl with hv | ⟨e, hv⟩
  · have htrace : s'.trace = y.state.trace := congrArg Protocol.trace hv
    have hbuilt : s'.built = y.state.built := congrArg Protocol.built hv
    have hentry : s'.view.entry = y.state.view.entry := congrArg Protocol.entry hv
    refine ⟨hnow, hbuilt ▸ hS.built_le, fun g a ha => hS.entry g a ?_, fun b hb => ?_⟩
    · exact (congrFun hentry g).symm.trans ha
    · show _ ∧ y.state.use s' y.used b = _ ∨ _ ≤ y.state.use s' y.used b
      rw [use_of_same htrace]
      exact hS.used b (hbuilt ▸ hb)
  · refine ⟨hnow, hS.built_le.trans hv.built_le, fun g a ha => ?_, fun b hb => ?_⟩
    · rcases hv.entry_of ha with hold | ⟨-, rfl⟩
      · exact hS.entry g a hold
      · exact .inr hS.built_le
    · show _ ∧ y.state.use s' y.used b = _ ∨ _ ≤ y.state.use s' y.used b
      rw [use_of_cons hv.trace]
      rcases hv.use y.state.now y.used hb with ⟨hlt, he⟩ | he
      · rw [he]
        exact hS.used b hlt
      · rw [he]
        exact .inr hS.now_le

/-! ## One turn after another -/

theorem verdict_stale_iff {cutoff : Time} {g : GrainId} {a : ActId} :
    s.verdict cutoff g = .stale a ↔
      s.activations.get g = some a ∧ stale s cutoff a = true := by
  unfold State.verdict
  cases hg : s.activations.get g with
  | none => simp
  | some b =>
    dsimp only
    have hne (hb : stale s cutoff b = false) :
        False ↔ some b = some a ∧ stale s cutoff a = true := by
      refine ⟨False.elim, ?_⟩
      rintro ⟨hba, h⟩
      cases hba
      rw [hb] at h
      cases h
    split_ifs with hr hf hu
    · exact hne (by simp [stale, State.idle, hr])
    · exact hne (by simp [stale, State.idle, hf])
    · exact hne (by simp [stale, hu])
    · refine ⟨fun h => ?_, ?_⟩
      · cases h
        exact ⟨rfl, by simpa [stale, State.idle, hr, not_not.1 hf] using hu⟩
      · rintro ⟨hb, -⟩
        cases hb
        rfl

/-- What a turn takes out. -/
def Verdict.takes (g : GrainId) : Verdict → Option (GrainId × ActId)
  | .stale a => some (g, a)
  | _ => none

/-- What the turns of a walk have taken out. -/
def taken (turns : List (GrainId × Verdict)) : List (GrainId × ActId) :=
  turns.filterMap fun turn => turn.2.takes turn.1

variable (t) in
/-- Where a walk over the identities `gs` stands, above the frames `base`. -/
inductive Walks (cutoff : Time) (gs : List GrainId) (base : List Frame) (y : Swept) : Prop
  /-- At the head of its loop. -/
  | walking {rest : List GrainId} {index : ℕ}
      (hs : (y.state.tasks t).stack =
        .collect (.walking cutoff rest index y.sweep.removed.length) :: base)
      (hgs : (y.sweep.turns.map Prod.fst).reverse ++ rest = gs)
      (hremoved : y.sweep.removed = taken y.sweep.turns)
  /-- About to take out what it has found stale. -/
  | entering {g : GrainId} {a : ActId} {turns : List (GrainId × Verdict)} {rest : List GrainId}
      {index : ℕ} (hr : y.state.running = some (t, .send))
      (hs : (y.state.tasks t).stack = .deactivate .collect g .start ::
        .collect (.taking cutoff rest index y.sweep.removed.length) :: base)
      (hgs : (y.sweep.turns.map Prod.fst).reverse ++ rest = gs)
      (hturns : y.sweep.turns = (g, .stale a) :: turns)
      (hremoved : y.sweep.removed = taken turns)
      (hget : y.state.activations.get g = some a)
      (hstale : stale y.state cutoff a = true)
  /-- In a deactivation, or given what it has come to. -/
  | taking {above : List Frame} {rest : List GrainId} {index collected : ℕ}
      (hs : (y.state.tasks t).stack =
        above ++ .collect (.taking cutoff rest index collected) :: base)
      (habove : above = [] ∨ ∃ above' g pc,
        above = above' ++ [.deactivate .collect g pc] ∧ pc ≠ .start)
      (hgs : (y.sweep.turns.map Prod.fst).reverse ++ rest = gs)
      (hremoved : y.sweep.removed = taken y.sweep.turns)
      (hcount : y.sweep.removed.length = collected + 1)
  /-- It has returned, or raised. -/
  | ended {o : Outcome} (hs : (y.state.tasks t).stack = base)
      (htold : y.state.told t = some o)
      (hok : ∀ r, o = .ok r → r = .count y.sweep.removed.length ∧
        (y.sweep.turns.map Prod.fst).reverse = gs)
      (hremoved : y.sweep.removed = taken y.sweep.turns)

/-- A step of another task, or of the world, is nothing to the walk. -/
theorem after_other {l : Label} {w : Sweep} {depth : ℕ}
    (hl : ∀ c r, l = .run c → s.running ≠ some (t, r)) : w.after t depth s l = w := by
  unfold Sweep.after
  split
  · next u _ _ _ _ _ hr _ =>
    rw [if_neg]
    rintro ⟨rfl, -⟩
    exact hl _ _ rfl hr
  · next u _ _ hr _ =>
    rw [if_neg]
    rintro ⟨rfl, -⟩
    exact hl _ _ rfl hr
  · rfl

theorem verdict_none {cutoff : Time} {g : GrainId} (h : s.activations.get g = none) :
    s.verdict cutoff g = .absent := by
  simp [State.verdict, h]

section

variable {x x' y y' : Swept} {cutoff : Time} {gs : List GrainId} {base rest : List Frame}
  {s1 : State}

/-- What is not found stale is not taken. -/
theorem taken_cons {g : GrainId} {v : Verdict} {turns : List (GrainId × Verdict)}
    (hv : ∀ a, v ≠ .stale a) : taken ((g, v) :: turns) = taken turns := by
  have hnone : v.takes g = none := by
    unfold Verdict.takes
    split
    · next a => exact (hv a rfl).elim
    · rfl
  simp only [taken, List.filterMap_cons, hnone]

/-- The turn of one identity : it is passed over, or is about to be taken out. -/
theorem walks_turn {gs' : List GrainId} {g : GrainId} {index : ℕ}
    (hx : exec cfg y.state t c
      (.collect (.walking cutoff (g :: gs') index y.sweep.removed.length)) .send = some (s1, n))
    (hy : y'.state = { s1 with toLoop := s1.toLoop.land t base n })
    (hturn : y'.sweep =
      { y.sweep with turns := (g, y.state.verdict cutoff g) :: y.sweep.turns })
    (hgs : (y.sweep.turns.map Prod.fst).reverse ++ g :: gs' = gs)
    (hremoved : y.sweep.removed = taken y.sweep.turns) :
    Walks t cutoff gs base y' := by
  have hstack := stack_landed hy
  have hgs1 : (y'.sweep.turns.map Prod.fst).reverse ++ gs' = gs := by
    rw [hturn, ← hgs]
    simp
  have hlen : y'.sweep.removed.length = y.sweep.removed.length := by rw [hturn]
  have hpass (hv : ∀ a, y.state.verdict cutoff g ≠ .stale a) :
      y'.sweep.removed = taken y'.sweep.turns := by
    rw [hturn, taken_cons hv]
    exact hremoved
  simp only [exec, collect] at hx
  split at hx
  · next hget =>
    cases hx
    refine .walking (hstack.trans (by rw [hlen]; rfl)) hgs1 (hpass fun a ha => ?_)
    rw [verdict_none hget] at ha
    cases ha
  · next a hget =>
    split_ifs at hx with hstale
    · cases hx
      have hv : y.state.verdict cutoff g = .stale a := verdict_stale_iff.2 ⟨hget, hstale⟩
      rw [hv] at hturn
      refine .entering (by rw [hy]; rfl) (hstack.trans (by rw [hlen]; rfl)) hgs1
        (by rw [hturn]) (by rw [hturn]; exact hremoved) ?_ ?_
      · rw [hy]
        exact hget
      · rw [hy]
        exact hstale
    · cases hx
      refine .walking (hstack.trans (by rw [hlen]; rfl)) hgs1 (hpass fun b hb => ?_)
      obtain ⟨hgb, hsb⟩ := verdict_stale_iff.1 hb
      rw [hget] at hgb
      cases hgb
      exact hstale hsb

/-- A walk at the head of its loop returns, looks at one more identity, or is interrupted. -/
theorem walks_walking {gs' : List GrainId} {index : ℕ} (hr : y.state.running = some (t, r))
    (hs : (y.state.tasks t).stack =
      .collect (.walking cutoff gs' index y.sweep.removed.length) :: base)
    (hx : exec cfg y.state t c (.collect (.walking cutoff gs' index y.sweep.removed.length)) r =
      some (s1, n))
    (hy : y'.state = { s1 with toLoop := s1.toLoop.land t base n })
    (hsweep : y'.sweep = y.sweep.after t base.length y.state (.run c))
    (hgs : (y.sweep.turns.map Prod.fst).reverse ++ gs' = gs)
    (hremoved : y.sweep.removed = taken y.sweep.turns) :
    Walks t cutoff gs base y' := by
  have hstack := stack_landed hy
  cases r with
  | got o =>
    have hsame : y'.sweep = y.sweep := by
      rw [hsweep]
      simp [Sweep.after, hr]
    cases o with
    | ok v => cases gs' <;> simp [exec, collect] at hx
    | error e =>
      obtain ⟨rfl, rfl⟩ : s1 = y.state ∧ n = .done (.error e) := by
        cases gs' <;> simpa [exec, collect, eq_comm] using hx
      exact .ended hstack (told_landed hy rfl) (fun r hr => by cases hr) (by rw [hsame, hremoved])
  | send =>
    cases gs' with
    | nil =>
      have hsame : y'.sweep = y.sweep := by
        rw [hsweep]
        simp [Sweep.after, hr, hs]
      simp only [exec, collect] at hx
      cases hx
      refine .ended hstack (told_landed hy rfl) (fun r hr => ?_) (by rw [hsame, hremoved])
      cases hr
      rw [hsame]
      exact ⟨rfl, by simpa using hgs⟩
    | cons g gs' =>
      refine walks_turn hx hy ?_ hgs hremoved
      rw [hsweep]
      simp [Sweep.after, hr, hs]

/-- What has been found stale a moment ago is taken out. -/
theorem walks_entering {g : GrainId} {a : ActId} {turns : List (GrainId × Verdict)}
    {gs' : List GrainId} {index : ℕ} (hr : y.state.running = some (t, .send))
    (hs : (y.state.tasks t).stack = .deactivate .collect g .start :: rest)
    (hrest : rest = .collect (.taking cutoff gs' index y.sweep.removed.length) :: base)
    (hx : exec cfg y.state t c (.deactivate .collect g .start) .send = some (s1, n))
    (hy : y'.state = { s1 with toLoop := s1.toLoop.land t rest n })
    (hsweep : y'.sweep = y.sweep.after t base.length y.state (.run c))
    (hgs : (y.sweep.turns.map Prod.fst).reverse ++ gs' = gs)
    (hturns : y.sweep.turns = (g, .stale a) :: turns)
    (hremoved : y.sweep.removed = taken turns) (hget : y.state.activations.get g = some a) :
    Walks t cutoff gs base y' := by
  subst hrest
  have hstack := stack_landed hy
  have hturn : y'.sweep = { y.sweep with removed := (g, a) :: y.sweep.removed } := by
    rw [hsweep]
    simp [Sweep.after, hr, hs, hget]
  simp only [exec, deactivate, hget] at hx
  cases hx
  refine .taking (show _ = [_] ++ _ from hstack) (.inr ⟨[], g, _, rfl, by simp⟩)
    (by rw [hturn]; exact hgs) ?_ (by rw [hturn]; rfl)
  rw [hturn]
  show (g, a) :: y.sweep.removed = taken y.sweep.turns
  rw [hturns, hremoved]
  rfl

/-- Only a turn, and a removal at the end of one, are anything to the walk. -/
theorem after_same {w : Sweep} {depth : ℕ} (hs : (s.tasks t).stack = f :: rest)
    (hturn : ∀ cutoff gs index collected,
      f = .collect (.walking cutoff gs index collected) → rest.length ≠ depth)
    (hremoval : ∀ g, f = .deactivate .collect g .start → rest.length ≠ depth + 1) :
    w.after t depth s (.run c) = w := by
  unfold Sweep.after
  split
  · next heq =>
    rw [if_neg]
    rintro ⟨rfl, hlen⟩
    rw [hs] at heq
    cases heq
    exact hturn _ _ _ _ rfl hlen
  · next heq =>
    rw [if_neg]
    rintro ⟨rfl, hlen⟩
    rw [hs] at heq
    cases heq
    exact hremoval _ rfl hlen
  · rfl

/-- A deactivation does not start again. -/
theorem deactivate_frames {who : Remover} {g : GrainId} {pc : DeactivateAt}
    (hx : deactivate s who g pc r = some (s1, n)) :
    n.frames = [] ∨ ∃ above pc', n.frames = above ++ [.deactivate who g pc'] ∧ pc' ≠ .start := by
  unfold deactivate at hx
  repeat' split at hx
  all_goals
    first
      | contradiction
      | (cases hx
         first
           | exact .inl rfl
           | exact .inr ⟨[], _, rfl, by simp⟩
           | exact .inr ⟨[_], _, rfl, by simp⟩)

/-- A deactivation goes on, or the walk goes on with the next identity. -/
theorem walks_taking {above : List Frame} {gs' : List GrainId} {index collected : ℕ}
    (hs : (y.state.tasks t).stack = f :: rest)
    (hx : exec cfg y.state t c f r = some (s1, n))
    (hy : y'.state = { s1 with toLoop := s1.toLoop.land t rest n })
    (hsweep : y'.sweep = y.sweep.after t base.length y.state (.run c))
    (hstack : f :: rest = above ++ .collect (.taking cutoff gs' index collected) :: base)
    (habove : above = [] ∨ ∃ above' g pc,
      above = above' ++ [.deactivate .collect g pc] ∧ pc ≠ .start)
    (hgs : (y.sweep.turns.map Prod.fst).reverse ++ gs' = gs)
    (hremoved : y.sweep.removed = taken y.sweep.turns)
    (hcount : y.sweep.removed.length = collected + 1) : Walks t cutoff gs base y' := by
  have hland := stack_landed hy
  rcases habove with rfl | ⟨above, g, pc, rfl, hpc⟩
  · obtain ⟨rfl, rfl⟩ := List.cons.inj hstack
    rw [after_same hs (by simp) (by simp)] at hsweep
    have hwalk {index' : ℕ} (hstack' : (y'.state.tasks t).stack =
        .collect (.walking cutoff gs' index' (collected + 1)) :: rest) :
        Walks t cutoff gs rest y' :=
      .walking (by rw [hstack', hsweep, hcount]) (by rw [hsweep, hgs]) (by rw [hsweep, hremoved])
    simp only [exec] at hx
    unfold collect at hx
    cases r with
    | send => cases hx
    | got o =>
      cases o with
      | ok v =>
        dsimp only at hx
        split_ifs at hx <;> cases hx
        · exact hwalk hland
        · exact hwalk hland
      | error e =>
        cases hx
        exact .ended hland (told_landed hy rfl) (fun r hr => by cases hr) (by rw [hsweep, hremoved])
  · cases above with
    | nil =>
      obtain ⟨rfl, rfl⟩ := List.cons.inj hstack
      rw [after_same hs (by simp) (by simpa using hpc)] at hsweep
      have hland' : (y'.state.tasks t).stack =
          n.frames ++ .collect (.taking cutoff gs' index collected) :: base := hland
      refine .taking hland' ?_ (by rw [hsweep, hgs]) (by rw [hsweep, hremoved])
        (by rw [hsweep, hcount])
      rcases deactivate_frames hx with h | ⟨above, pc', h, hpc'⟩
      · exact .inl h
      · exact .inr ⟨above, g, pc', h, hpc'⟩
    | cons f' above =>
      rw [List.cons_append, List.cons_append, List.cons.injEq] at hstack
      obtain ⟨rfl, rfl⟩ := hstack
      rw [after_same hs (fun _ _ _ _ _ => by simp; omega) (fun _ _ => by simp; omega)] at hsweep
      have hland' : (y'.state.tasks t).stack = n.frames ++ above ++ [.deactivate .collect g pc] ++
          .collect (.taking cutoff gs' index collected) :: base := by
        rw [hland]
        simp
      exact .taking hland' (.inr ⟨_, g, pc, rfl, hpc⟩) (by rw [hsweep, hgs])
        (by rw [hsweep, hremoved]) (by rw [hsweep, hcount])

/-- A step of another task, or of the world, leaves the walk where it is. -/
theorem walks_other {l : Label} (hW : Walks t cutoff gs base y) (ht : t < y.state.spawned)
    (hopen : base.length < (y.state.tasks t).stack.length)
    (h : step cfg y.state l = some y'.state) (hsweep : y'.sweep = y.sweep)
    (hl : ∀ c r, l = .run c → y.state.running ≠ some (t, r))
    (hages : List.Forall₂ Frame.ages (y.state.tasks t).stack (y'.state.tasks t).stack) :
    ∃ base', base'.length = base.length ∧ Walks t cutoff gs base' y' := by
  cases hW with
  | @walking gs' index hs hgs hremoved =>
    rw [hs] at hages
    obtain ⟨top, base', hs', htop, hbase⟩ := ages_append (a := [_]) hages
    obtain rfl := ages_eq htop (by simp)
    exact ⟨base', hbase.length_eq.symm,
      .walking (by rw [hs', hsweep]; rfl) (by rw [hsweep, hgs]) (by rw [hsweep, hremoved])⟩
  | entering hr hs hgs hturns hremoved hget hstale =>
    have hrun : ∀ c, l ≠ .run c := fun c hc => hl c _ hc hr
    obtain ⟨hs', hr'⟩ := step_still hr ht hrun h
    obtain ⟨L, now, isMine, heq⟩ := step_outside hrun h
    refine ⟨base, rfl, .entering hr' (by rw [hs', hs, hsweep]) (by rw [hsweep, hgs])
      (by rw [hsweep, hturns]) (by rw [hsweep, hremoved]) ?_ ?_⟩
    · rw [heq]
      exact hget
    · rw [heq]
      exact hstale
  | @taking above gs' index collected hs habove hgs hremoved hcount =>
    rw [hs] at hages
    obtain ⟨above', l', hs', habove', hl'⟩ := ages_append hages
    obtain ⟨top, base', rfl, htop, hbase⟩ := ages_append (a := [_]) hl'
    obtain rfl := ages_eq htop (by simp)
    refine ⟨base', hbase.length_eq.symm, .taking hs' ?_ (by rw [hsweep, hgs])
      (by rw [hsweep, hremoved]) (by rw [hsweep, hcount])⟩
    rcases habove with rfl | ⟨above, g, pc, rfl, hpc⟩
    · cases habove'
      exact .inl rfl
    · obtain ⟨above2, last, rfl, -, hlast⟩ := ages_append habove'
      obtain rfl := ages_eq hlast (by simp)
      exact .inr ⟨above2, g, pc, rfl, hpc⟩
  | ended hs =>
    rw [hs] at hopen
    exact (lt_irrefl _ hopen).elim

/-- A step of a walk. -/
theorem Walks.step {l : Label} (hW : Walks t cutoff gs base y) (hn : Nested y.state)
    (hopen : base.length < (y.state.tasks t).stack.length)
    (h : sweeping cfg t base.length y l = some y') :
    ∃ base', base'.length = base.length ∧ Walks t cutoff gs base' y' := by
  obtain ⟨s', hl, rfl⟩ := Option.map_eq_some_iff.1 h
  have ht : t < y.state.spawned := by
    cases hs : (y.state.tasks t).stack with
    | nil => simp [hs] at hopen
    | cons f rest => exact hn.lt_spawned hs
  rcases step_at hl ht with ⟨c, r, f, rest, s1, n, rfl, hr, hs, hx, hs'⟩ | ⟨hother, hages, -⟩
  · refine ⟨base, rfl, ?_⟩
    cases hW with
    | walking hstack hgs hremoved =>
      have htop := hstack
      rw [hs, List.cons.injEq] at htop
      obtain ⟨rfl, rfl⟩ := htop
      exact walks_walking hr hs hx hs' rfl hgs hremoved
    | entering hsend hstack hgs hturns hremoved hget hstale =>
      rw [hr, Option.some.injEq, Prod.mk.injEq] at hsend
      obtain ⟨-, rfl⟩ := hsend
      rw [hs, List.cons.injEq] at hstack
      obtain ⟨rfl, hrest⟩ := hstack
      exact walks_entering hr hs hrest hx hs' rfl hgs hturns hremoved hget
    | taking hstack habove hgs hremoved hcount =>
      exact walks_taking hs hx hs' rfl (hs.symm.trans hstack) habove hgs hremoved hcount
    | ended hstack =>
      rw [hstack] at hopen
      exact (lt_irrefl _ hopen).elim
  · exact walks_other hW ht hopen hl (after_other hother) hother hages

/-! ## What is found, and what is taken -/

/-- A step is nothing to the walk, or a turn, or a removal. -/
theorem after_cases (w : Sweep) (depth : ℕ) (s : State) (l : Label) :
    w.after t depth s l = w ∨
    (∃ cutoff g gs index collected rest,
      (s.tasks t).stack = .collect (.walking cutoff (g :: gs) index collected) :: rest ∧
      rest.length = depth ∧
      w.after t depth s l = { w with turns := (g, s.verdict cutoff g) :: w.turns }) ∨
    ∃ c g rest, l = .run c ∧ s.running = some (t, .send) ∧
      (s.tasks t).stack = .deactivate .collect g .start :: rest ∧ rest.length = depth + 1 ∧
      w.after t depth s l =
        { w with removed := ((s.activations.get g).map fun a => (g, a)).toList ++ w.removed } := by
  unfold Sweep.after
  split
  · next hstack =>
    split_ifs with ht
    · exact .inr (.inl ⟨_, _, _, _, _, _, hstack, ht.2, rfl⟩)
    · exact .inl rfl
  · next hr hstack =>
    split_ifs with ht
    · obtain ⟨rfl, hlen⟩ := ht
      exact .inr (.inr ⟨_, _, _, rfl, hr, hstack, hlen, rfl⟩)
    · exact .inl rfl
  · exact .inl rfl

/-- The stack of a walk that has a turn, or a removal, to come. -/
theorem Walks.top (hW : Walks t cutoff gs base y)
    (hs : (y.state.tasks t).stack = f :: rest) :
    (∀ cutoff' gs' index collected, f = .collect (.walking cutoff' gs' index collected) →
      rest.length = base.length → cutoff' = cutoff) ∧
    ∀ g, f = .deactivate .collect g .start → rest.length = base.length + 1 →
      ∃ a, y.state.activations.get g = some a ∧ stale y.state cutoff a = true := by
  cases hW with
  | walking hstack =>
    obtain ⟨rfl, rfl⟩ := List.cons.inj (hs.symm.trans hstack)
    refine ⟨fun _ _ _ _ h _ => ?_, fun _ h => (by cases h)⟩
    cases h
    rfl
  | entering hr hstack hgs hturns hremoved hget hstale =>
    obtain ⟨rfl, rfl⟩ := List.cons.inj (hs.symm.trans hstack)
    refine ⟨fun _ _ _ _ h => (by cases h), fun g h _ => ?_⟩
    cases h
    exact ⟨_, hget, hstale⟩
  | taking hstack habove =>
    rw [hs] at hstack
    rcases habove with rfl | ⟨above, g, pc, rfl, hpc⟩
    · obtain ⟨rfl, rfl⟩ := List.cons.inj hstack
      exact ⟨fun _ _ _ _ h => (by cases h), fun _ h => (by cases h)⟩
    · cases above with
      | nil =>
        obtain ⟨rfl, rfl⟩ := List.cons.inj hstack
        refine ⟨fun _ _ _ _ h => (by cases h), fun g h => ?_⟩
        cases h
        exact (hpc rfl).elim
      | cons f' above =>
        have hlen := congrArg List.length (List.cons.inj hstack).2
        simp at hlen
        exact ⟨fun _ _ _ _ _ h => by omega, fun _ _ h => by omega⟩
  | ended hstack =>
    have hlen := congrArg List.length (hs.symm.trans hstack)
    simp at hlen
    exact ⟨fun _ _ _ _ _ h => by omega, fun _ _ h => by omega⟩

/-- What an identity is found to be at its turn is what it is by the cutoff of the walk. -/
theorem Walks.turns {l : Label} (hW : Walks t cutoff gs base y)
    (h : sweeping cfg t base.length y l = some y') :
    y'.sweep.turns = y.sweep.turns ∨
    ∃ g, y'.sweep.turns = (g, y.state.verdict cutoff g) :: y.sweep.turns := by
  obtain ⟨s', -, rfl⟩ := Option.map_eq_some_iff.1 h
  rcases after_cases (t := t) y.sweep base.length y.state l with
    hsame | ⟨cutoff', g, gs', index, collected, rest, hs, hlen, hturn⟩ |
      ⟨c, g, rest, -, -, -, -, hremoval⟩
  · exact .inl (congrArg Sweep.turns hsame)
  · obtain rfl := (hW.top hs).1 _ _ _ _ rfl hlen
    exact .inr ⟨g, congrArg Sweep.turns hturn⟩
  · have hsame : (y.sweep.after t base.length y.state l).turns = y.sweep.turns := by rw [hremoval]
    exact .inl hsame

/-- What is taken out was stale. -/
theorem Walks.removes {l : Label} (hW : Walks t cutoff gs base y)
    (h : sweeping cfg t base.length y l = some y') :
    y'.sweep.removed = y.sweep.removed ∨
    ∃ g a, y'.sweep.removed = (g, a) :: y.sweep.removed ∧
      y.state.activations.get g = some a ∧ stale y.state cutoff a = true ∧
      y'.state.activations.get g = none ∧
      y'.state.trace = .taken .collect g a :: y.state.trace := by
  obtain ⟨s', hl, rfl⟩ := Option.map_eq_some_iff.1 h
  rcases after_cases (t := t) y.sweep base.length y.state l with
    hsame | ⟨cutoff', g, gs', index, collected, rest, -, -, hturn⟩ |
      ⟨c, g, rest, rfl, hr, hs, hlen, hremoval⟩
  · exact .inl (congrArg Sweep.removed hsame)
  · have hsame : (y.sweep.after t base.length y.state l).removed = y.sweep.removed := by rw [hturn]
    exact .inl hsame
  · obtain ⟨a, hget, hstale⟩ := (hW.top hs).2 g rfl hlen
    have hlog : ((y.state.heap a).timers.foldl State.cancel
          (y.state.take .collect g a)).activations.get g = none ∧
        ((y.state.heap a).timers.foldl State.cancel (y.state.take .collect g a)).trace =
          .taken .collect g a :: y.state.trace := by
      obtain ⟨L, heq⟩ := cancel_all_eq (y.state.heap a).timers (y.state.take .collect g a)
      rw [heq]
      refine ⟨?_, rfl⟩
      show (y.state.activations.pop g).get g = none
      rw [OrderedDict.get_pop, if_pos rfl]
    refine .inr ⟨g, a, ?_, hget, hstale, ?_⟩
    · show (y.sweep.after t base.length y.state (.run c)).removed = _
      rw [hremoval, hget]
      rfl
    · have hx : exec cfg y.state t c (.deactivate .collect g .start) .send =
          some ((y.state.heap a).timers.foldl State.cancel (y.state.take .collect g a),
            .goto (.deactivate .collect g (.timers a (y.state.heap a).timers))) := by
        simp only [exec, deactivate, hget]
      simp only [Nigrains.step, run, hr, hs, hx, Option.some.injEq] at hl
      subst hl
      exact hlog

variable (t) in
/-- The walk above `depth` frames is not over. -/
def Open (depth : ℕ) (y _y' : Swept) : Prop :=
  depth < (y.state.tasks t).stack.length

/-- Why an identity that was stale at `now`, when the walk began, has been left at its turn. -/
def Verdict.spares (now : Time) : Verdict → Prop
  | .used _ at_ => now ≤ at_
  | .stale _ => False
  | _ => True

/-- What holds between two steps of the world. -/
theorem Run.swept {depth : ℕ} {isMine : Option (GrainId → Bool)}
    (h : Run (sweeping cfg t depth) (fun _ _ => True) (.init isMine) y) :
    Reached y.state ∧ Used y.state y.used := by
  refine h.invariant (I := fun y => Reached y.state ∧ Used y.state y.used)
    ⟨reached_init _, fun b hb => absurd hb (Nat.not_lt_zero b)⟩ ?_
  rintro y l y' ⟨hI, hU⟩ h -
  obtain ⟨s', hl, rfl⟩ := Option.map_eq_some_iff.1 h
  exact ⟨hI.step hl, hU.step hl⟩

/-- What was stale, and is found to be used, has been used since. -/
theorem Since.spares {g : GrainId} {a b : ActId} {at_ : Time} (hS : Since x y)
    (hI : Reached y.state) (hU : Used x.state x.used) (hU' : Used y.state y.used)
    (hget : x.state.activations.get g = some a) (hstale : stale x.state cutoff a = true)
    (hv : y.state.verdict cutoff g = .used b at_) : x.state.now ≤ at_ := by
  obtain ⟨hb, hat, hlt⟩ : y.state.activations.get g = some b ∧
      at_ = (y.state.heap b).lastUsed ∧ cutoff < at_ := by
    unfold State.verdict at hv
    repeat' split at hv
    all_goals cases hv
    exact ⟨by assumption, rfl, by assumption⟩
  have hbuilt := hI.sound.entry_lt g b hb
  rw [hat, hU' b hbuilt]
  rcases hS.used b hbuilt with ⟨hold, hsame⟩ | hnow
  · -- an activation of before that nothing has used since is the one that was stale
    rcases hS.entry g b hb with hx | hx
    · rw [hget] at hx
      cases hx
      have hle : (x.state.heap a).lastUsed ≤ cutoff := by
        simp only [stale, Bool.and_eq_true, decide_eq_true_eq] at hstale
        exact hstale.2
      rw [hat, hU' a hbuilt, hsame, ← hU a hold] at hlt
      exact absurd hle hlt.not_ge
    · exact absurd hold hx.not_gt
  · exact hnow

variable (t) in
/-- What holds while a walk that has begun in `x` goes on. -/
structure Sweeps (cutoff : Time) (gs : List GrainId) (depth : ℕ) (x y : Swept) : Prop where
  reached : Reached y.state
  used : Used y.state y.used
  since : Since x y
  walks : ∃ base, base.length = depth ∧ Walks t cutoff gs base y
  spares : ∀ g a, x.state.activations.get g = some a → stale x.state cutoff a = true →
    ∀ v, (g, v) ∈ y.sweep.turns → (∃ b, v = .stale b) ∨ v.spares x.state.now

theorem Sweeps.step {depth : ℕ} {l : Label} (hS : Sweeps t cutoff gs depth x y)
    (hU : Used x.state x.used) (hopen : depth < (y.state.tasks t).stack.length)
    (h : sweeping cfg t depth y l = some y') : Sweeps t cutoff gs depth x y' := by
  obtain ⟨base, rfl, hW⟩ := hS.walks
  obtain ⟨s', hl, hy'⟩ := Option.map_eq_some_iff.1 h
  refine ⟨by subst hy'; exact hS.reached.step hl, by subst hy'; exact hS.used.step hl,
    hS.since.step hS.reached h, hW.step hS.reached.nested hopen h, fun g a hg ha v hv => ?_⟩
  rcases hW.turns h with hturns | ⟨g', hturns⟩
  · exact hS.spares g a hg ha v (hturns ▸ hv)
  · rw [hturns, List.mem_cons] at hv
    rcases hv with hv | hv
    · cases hv
      cases hverdict : y.state.verdict cutoff g with
      | absent => exact .inr trivial
      | activating b => exact .inr trivial
      | busy b => exact .inr trivial
      | used b at_ => exact .inr (hS.since.spares hS.reached hU hS.used hg ha hverdict)
      | stale b => exact .inl ⟨b, rfl⟩
    · exact hS.spares g a hg ha v hv

/-- A walk begins with the identities that are stale. -/
theorem sweeps_begin (hI : Reached x.state) (hU : Used x.state x.used)
    (hr : x.state.running = some (t, .send))
    (hs : (x.state.tasks t).stack = .collect .start :: base)
    (h : sweeping cfg t base.length x (.run c) = some y) :
    Sweeps t (x.state.now - cfg.idleSeconds) ((x.state.activations.items.filter fun e =>
      stale x.state (x.state.now - cfg.idleSeconds) e.2).map Prod.fst) base.length x y.begin := by
  have hS : Since x y := (since_refl x).step hI h
  obtain ⟨s', hl, rfl⟩ := Option.map_eq_some_iff.1 h
  refine ⟨hI.step hl, hU.step hl, ⟨hS.1, hS.2, hS.3, hS.4⟩, ⟨base, rfl, ?_⟩,
    fun _ _ _ _ _ hv => absurd hv List.not_mem_nil⟩
  simp only [Nigrains.step, run, hr, hs, exec, collect, Option.some.injEq] at hl
  exact .walking (stack_landed hl.symm) rfl rfl

/-- What a sweep takes out of the table had finished activating, had no call and no tick in
flight, and was last used before the cutoff : its latest call had ended by then, or it had been
created by then, whatever its timers did. When it returns, it has counted what it took, and has
taken whatever was stale when it began, or found it at its turn absent, activating, busy, or used
since. -/
theorem sweep_exact {isMine : Option (GrainId → Bool)}
    (h : Run (sweeping cfg t base.length) (fun _ _ => True) (.init isMine) x)
    (hr : x.state.running = some (t, .send))
    (hs : (x.state.tasks t).stack = .collect .start :: base)
    (hbegin : sweeping cfg t base.length x (.run c) = some x')
    (hy : Run (sweeping cfg t base.length) (Open t base.length) x'.begin y) :
    (∀ l z, base.length < (y.state.tasks t).stack.length →
      sweeping cfg t base.length y l = some z →
      z.sweep.removed = y.sweep.removed ∨
      ∃ g a, z.sweep.removed = (g, a) :: y.sweep.removed ∧
        y.state.activations.get g = some a ∧ z.state.activations.get g = none ∧
        z.state.trace = .taken .collect g a :: y.state.trace ∧
        (y.state.heap a).ready = false ∧ y.state.counted a = 0 ∧ y.state.working a = 0 ∧
        (y.state.heap a).lastUsed = y.used a ∧ y.used a ≤ x.state.now - cfg.idleSeconds) ∧
    ∀ r, (y.state.tasks t).stack.length ≤ base.length → y.state.told t = some (.ok r) →
      r = .count y.sweep.removed.length ∧
      ∀ g a, x.state.activations.get g = some a →
        stale x.state (x.state.now - cfg.idleSeconds) a = true →
        (∃ b, (g, b) ∈ y.sweep.removed) ∨
          ∃ v, (g, v) ∈ y.sweep.turns ∧ v.spares x.state.now := by
  obtain ⟨hI, hU⟩ := h.swept
  have hS := hy.invariant (I := Sweeps t _ _ base.length x) (sweeps_begin hI hU hr hs hbegin)
    fun _ _ _ hS hl hopen => hS.step hU hopen hl
  obtain ⟨base', hlen, hW⟩ := hS.walks
  constructor
  · intro l z _ hl
    rcases hW.removes (hlen ▸ hl) with hsame | ⟨g, a, hremoved, hget, hstale, hgone, hlog⟩
    · exact .inl hsame
    · have hin : (y.state.heap a).inFlight =
          y.state.pending.count (.use a) + y.state.pending.count (.tick a) :=
        hS.reached.sound.inFlight a
      simp only [stale, State.idle, Bool.and_eq_true, Bool.not_eq_true', decide_eq_true_eq]
        at hstale
      obtain ⟨⟨hflight, hready⟩, hused⟩ := hstale
      have hcount : y.state.counted a = 0 ∧ y.state.working a = 0 := by
        rw [counted_eq, working_eq]
        rw [eq_of_beq hflight] at hin
        omega
      have hlast := hS.used a (hS.reached.sound.entry_lt g a hget)
      exact .inr ⟨g, a, hremoved, hget, hgone, hlog, hready, hcount.1, hcount.2, hlast,
        hlast ▸ hused⟩
  · intro r hclosed htold
    cases hW with
    | walking hstack => simp [hstack, ← hlen] at hclosed
    | entering _ hstack => simp [hstack, ← hlen] at hclosed
    | taking hstack =>
      simp [hstack, ← hlen] at hclosed
      omega
    | ended hstack htold' hok hremoved =>
      rw [htold', Option.some.injEq] at htold
      obtain ⟨hcount, hall⟩ := hok r htold
      refine ⟨hcount, fun g a hg ha => ?_⟩
      have hmem : g ∈ (y.sweep.turns.map Prod.fst).reverse := by
        rw [hall]
        exact List.mem_map.2 ⟨(g, a), List.mem_filter.2 ⟨OrderedDict.mem_items.2 hg, ha⟩, rfl⟩
      rw [List.mem_reverse, List.mem_map] at hmem
      obtain ⟨⟨_, v⟩, hv, rfl⟩ := hmem
      rcases hS.spares _ a hg ha v hv with ⟨b, rfl⟩ | hspares
      · refine .inl ⟨b, ?_⟩
        rw [hremoved]
        exact List.mem_filterMap.2 ⟨_, hv, rfl⟩
      · exact .inr ⟨v, hv, hspares⟩

end

end

/-- `counter/x` and `counter/y` have been called, and 400 seconds later the sweep begins. -/
def sweepDue : List Label :=
  [.arrive, .resume 0, .run .enter] ++ Label.gos 1 ++ Label.invoke ⟨"counter", "x"⟩ ++
  Label.serve ++ Label.invoke ⟨"counter", "y"⟩ ++ Label.serve ++
  [.run .suspend, .resume 1, .run .go, .clock 400, .resume 1] ++ Label.gos 1

/-- `counter/y` is called during the `deactivate` of `counter/x`. -/
def calledDuring : List Label :=
  Label.gos 3 ++ [.run .suspend, .resume 0] ++ Label.invoke ⟨"counter", "y"⟩ ++ Label.gos 2 ++
  [Label.returns] ++ Label.gos 1 ++ [.run .suspend, .resume 1, Label.returns] ++ Label.gos 4

/-- Both are stale when the sweep begins, and it takes one. -/
theorem sweep_exact_called : ∃ x y : Swept, x.state.now = 400 ∧
    stale x.state (400 - 300) 0 = true ∧ stale x.state (400 - 300) 1 = true ∧
    y.sweep.removed = [(⟨"counter", "x"⟩, 0)] ∧ y.state.told 1 = some (.ok (.count 1)) ∧
    ∃ v, (⟨"counter", "y"⟩, v) ∈ y.sweep.turns ∧ v.spares 400 := by
  obtain ⟨x, hx, hp⟩ := exists_run_free (sweeping (.small none) 1 1) (.init none) sweepDue
    (fun x => decide (x.state.running = some (1, .send) ∧
        (x.state.tasks 1).stack = [.collect .start, .sweep .collecting] ∧ x.state.now = 400 ∧
        stale x.state (400 - 300) 0 = true ∧ stale x.state (400 - 300) 1 = true ∧
        x.state.activations.get ⟨"counter", "y"⟩ = some 1) &&
      (sweeping (.small none) 1 1 x (.run .go)).any fun x' : Swept =>
        (execute (sweeping (.small none) 1 1)
          (fun y _ => decide (1 < (y.state.tasks 1).stack.length)) x'.begin calledDuring).any
          fun y : Swept => decide (y.sweep.removed = [(⟨"counter", "x"⟩, 0)] ∧
            (y.state.tasks 1).stack.length ≤ 1 ∧ y.state.told 1 = some (.ok (.count 1))))
    (by decide +kernel)
  simp only [Bool.and_eq_true, decide_eq_true_eq] at hp
  obtain ⟨⟨hr, hs, hnow, h0, h1, hget⟩, hrest⟩ := hp
  obtain ⟨x', hbegin, hrest⟩ := (Option.any_eq_true ..).1 hrest
  obtain ⟨y, hy, hq⟩ := exists_run _ _ (fun _ _ => of_decide_eq_true) _ _ _ hrest
  obtain ⟨hremoved, hclosed, htold⟩ := of_decide_eq_true hq
  have hreached : Run (sweeping (.small none) 1 [Frame.sweep .collecting].length)
      (fun _ _ => True) (.init none) x := hx
  obtain ⟨-, hreturned⟩ := sweep_exact hreached hr hs hbegin hy
  obtain ⟨-, hall⟩ := hreturned _ hclosed htold
  refine ⟨x, y, hnow, h0, h1, hremoved, htold, ?_⟩
  have hcutoff : x.state.now - (Config.small none).idleSeconds = 400 - 300 := by
    rw [hnow]
    rfl
  rw [hcutoff] at hall
  rcases hall _ 1 hget h1 with ⟨b, hb⟩ | hspared
  · simp [hremoved] at hb
  · rwa [hnow] at hspared

end Nigrains
