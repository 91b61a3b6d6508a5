import Nigrains.Lifecycle
import Nigrains.Nesting

/-!
# The runtime refines the protocol

The protocol's view of a state is its table, its records and the multiset of activities
of all frames on all stacks (`State.view`). Each step of the runtime is one step of the
protocol, or one that the view does not see (`step_view`), so every run of the runtime is
a run of the protocol under the same conditions (`Run.view`).

A segment is matched beside whatever else is going on (`Moves`) : it trades the
activities of its own frame for those of the frames it leaves.
-/

namespace Nigrains

/-! ## The view -/

/-- What a frame does that the protocol sees. -/
def Frame.activity : Frame → Multiset Activity
  | .activated g .room => {.room g}
  | .activated g (.reading a) => {.build g a}
  | .activated g (.hook a) => {.build g a}
  | .activated _ (.waiting a) => {.wait a}
  | .dispatchHere _ (.entered _ a) => {.use a}
  | .dispatchHere _ (.queued _ a) => {.use a}
  | .dispatchHere _ (.running _ a _) => {.use a}
  | .tick a .working => {.tick a}
  | .deactivate who _ (.timers a _) => {.down who a}
  | .deactivate who _ (.joining a _ _) => {.down who a}
  | .deactivate who _ (.hook a) => {.closing who a}
  | _ => 0

/-- An activation on its way from `_activated` to the call that asked for it. -/
def held : Outcome → Multiset Activity
  | .ok (.activation a) => {.hold a}
  | _ => 0

def Resume.held : Resume Outcome → Multiset Activity
  | .send => 0
  | .got o => Nigrains.held o

def Next.held : Next Frame Outcome → Multiset Activity
  | .done o => Nigrains.held o
  | _ => 0

/-- What a record says of its activation. -/
def Activation.life (x : Activation) : Life :=
  ⟨x.ready, x.isSet, x.failure.isSome, x.inFlight⟩

namespace State

def life (s : State) (a : ActId) : Life :=
  (s.heap a).life

/-- What is going on. -/
def pending (s : State) : Multiset Activity :=
  s.toLoop.work Frame.activity + (s.running.map fun x => x.2.held).getD 0

/-- The table and the records, beside given activities. -/
def viewWith (s : State) (M : Multiset Activity) : Protocol :=
  ⟨s.activations.get, s.life, s.built, M, s.trace⟩

/-- The protocol's view of a state. -/
def view (s : State) : Protocol :=
  s.viewWith s.pending

end State

/-! ## What a frame may count on when it runs -/

/-- What holds when a frame runs on : what it awaited has come, and only the caller of
`_activated` is given an activation. -/
def Ready (s : State) : Frame → Resume Outcome → Prop
  | .activated _ (.waiting a), .send => (s.heap a).isSet = true
  | .dispatchHere _ (.queued _ a), .send => (s.lock a).locked = false
  | .deactivate who g .start, .send =>
    who ≠ .aexit → ∀ a, s.activations.get g = some a → s.idle a = true
  | .deactivate _ _ (.joining _ τ _), _ => s.ended τ = true
  | .aexit (.joining τ _), _ => s.ended τ = true
  | .dispatchHere _ (.activating _), _ => True
  | _, r => r.held = 0

/-- What holds of the frame that a segment of `f` has run on as, or called, and of the
outcome it has ended with. -/
def Next.Ready (s : State) (f : Frame) : Next Frame Outcome → Prop
  | .await _ callee => Nigrains.Ready s callee .send
  | .goto frame => Nigrains.Ready s frame .send
  | .park _ => True
  | .done o => Nigrains.held o = 0 ∨ ∃ g pc, f = .activated g pc

section

variable {cfg : Config} {s s' : State} {t : TaskId} {n : Next Frame Outcome}

theorem ready_callFrame (call : Call) (terminal : Terminal) :
    Ready s (callFrame cfg call terminal) .send := by
  unfold callFrame
  split_ifs
  · cases terminal <;> rfl
  · rfl

theorem ready_terminalFrame (call : Call) (terminal : Terminal) :
    Ready s (terminal.frame call) .send := by
  cases terminal <;> rfl

theorem ready_inside (inside : Inside) : Ready s inside.frame .send := by
  cases inside <;> rfl

/-- An outcome that a call ends with holds no activation if the method's does not. -/
theorem held_countedOutcome {a : ActId} {o : Outcome} (h : held o = 0) :
    held (countedOutcome cfg s a o) = 0 := by
  unfold countedOutcome
  split_ifs
  · rfl
  · exact h

theorem held_timeoutExit {call : Call} {cancelling saved : ℕ} {expired : Bool} {o : Outcome}
    (h : held o = 0) :
    held (toDeadlineExceeded call (timeoutExit cancelling saved expired o)) = 0 := by
  have hx : held (timeoutExit cancelling saved expired o) = 0 := by
    unfold timeoutExit
    split
    · split_ifs <;> rfl
    · exact h
  unfold toDeadlineExceeded
  split
  · split_ifs <;> rfl
  · next v hv =>
    rwa [hv] at hx

/-- Code outside the runtime returns objects of its own. -/
theorem held_map_obj (o : Except Exc Obj) : held (o.map .obj) = 0 := by
  cases o <;> rfl

theorem makeRoom_ready {pc : MakeRoomAt} {r : Resume Outcome}
    (h : makeRoom cfg s pc r = some (s', n)) : n.Ready s' (.makeRoom pc) := by
  unfold makeRoom at h
  split at h
  · split at h
    · cases h
      exact .inl rfl
    · split at h
      · next e hfind =>
        cases h
        rintro - a ha
        have hmem := OrderedDict.mem_items.1 (List.mem_of_find?_eq_some hfind)
        rw [ha] at hmem
        have hidle := List.find?_some hfind
        rwa [← Option.some.inj hmem] at hidle
      · cases h
        exact .inl rfl
  all_goals
    cases h
    try exact .inl rfl

theorem collect_ready {pc : CollectAt} {r : Resume Outcome}
    (h : collect cfg s pc r = some (s', n)) : n.Ready s' (.collect pc) := by
  unfold collect at h
  repeat' split at h
  case isTrue a ha hstale =>
    cases h
    rintro - a' ha'
    rw [ha] at ha'
    obtain rfl := Option.some.inj ha'
    simp only [stale, Bool.and_eq_true] at hstale
    exact hstale.1
  all_goals
    first
      | contradiction
      | (cases h; first | rfl | trivial | exact .inl rfl)

theorem deactivate_ready {who : Remover} {g : GrainId} {pc : DeactivateAt} {r : Resume Outcome}
    (h : deactivate s who g pc r = some (s', n)) : n.Ready s' (.deactivate who g pc) := by
  unfold deactivate at h
  repeat' split at h
  all_goals
    first
      | contradiction
      | (cases h; first | rfl | trivial | assumption | exact .inl rfl)

theorem aexit_ready {pc : AexitAt} {r : Resume Outcome}
    (h : aexit s pc r = some (s', n)) : n.Ready s' (.aexit pc) := by
  unfold aexit at h
  repeat' split at h
  all_goals
    first
      | contradiction
      | (cases h; first | rfl | trivial | assumption | exact .inl rfl | exact fun h => (h rfl).elim)

/-- A segment calls and runs on as frames that may count on what they need. -/
theorem exec_ready {c : Choice} {f : Frame} {r : Resume Outcome} (hr : Ready s f r)
    (h : exec cfg s t c f r = some (s', n)) : n.Ready s' f := by
  cases f <;> simp only [exec] at h
  case makeRoom => exact makeRoom_ready h
  case collect => exact collect_ready h
  case deactivate => exact deactivate_ready h
  case aexit => exact aexit_ready h
  all_goals
    first
      | unfold user at h | unfold within at h | unfold scope at h | unfold deliver at h
      | unfold chain at h | unfold timeout at h | unfold dispatch State.advance at h
      | unfold dispatchHere at h | unfold activated at h
      | unfold sweep at h | unfold tick at h
      | unfold drain at h | unfold aenter at h
    try unfold interrupted at h
    repeat' split at h
  all_goals
    first
      | contradiction
      | (cases h
         first
          | rfl
          | trivial
          | exact .inl rfl
          | exact .inl hr
          | exact .inl (held_map_obj _)
          | exact .inl (held_countedOutcome hr)
          | exact .inl (held_countedOutcome rfl)
          | exact .inl (held_timeoutExit hr)
          | exact .inr ⟨_, _, rfl⟩
          | exact ready_callFrame _ _
          | exact ready_terminalFrame _ _
          | exact ready_inside _)

/-- The frame that runs may count on what it needs. -/
def Asserted (s : State) : Prop :=
  ∀ t r f rest, s.running = some (t, r) → (s.tasks t).stack = f :: rest → Ready s f r

theorem asserted_init (isMine : Option (GrainId → Bool)) : Asserted (.init isMine) := by
  rintro t r f rest hr
  cases hr

theorem Ready.mono {f : Frame} {r : Resume Outcome} (hh : s'.heap = s.heap)
    (ha : s'.activations = s.activations) (he : ∀ τ, s.ended τ = true → s'.ended τ = true)
    (h : Ready s f r) : Ready s' f r := by
  unfold Ready at h ⊢
  split at h <;> simp_all [State.lock, State.idle]

/-- What a coroutine returns to the one that awaits it. -/
theorem ready_of_below {p f : Frame} {o : Outcome} (hb : below (some p) f = true)
    (ho : held o = 0 ∨ ∃ g pc, f = .activated g pc) : Ready s p (.got o) := by
  rcases ho with ho | ⟨g, pc, rfl⟩
  · cases awaits_of_below hb
    case activating => trivial
    all_goals exact ho
  · cases awaits_of_below hb
    case activating => trivial
    case outside hf | timeout hf => cases hf
    case scope hf => rcases hf with hf | hf <;> cases hf

theorem not_locked_of_all {a : ActId}
    (h : ((s.heap a).lock.all fun lock => !lock.locked) = true) : (s.lock a).locked = false := by
  unfold State.lock
  cases hl : (s.heap a).lock with
  | none => rfl
  | some lock => simpa [hl] using h

/-- A suspended task is resumed with what its frame awaits, or interrupted. -/
theorem ready_of_resumption {f : Frame} {r : Resume Outcome} (hp : f.parks = true)
    (h : resumption s t f = some r) : Ready s f r := by
  unfold resumption at h
  split_ifs at h with hc hi hw
  · cases h
    unfold interrupts at hi
    unfold Ready
    split <;> simp_all [Resume.held, held]
  · cases h
    unfold wakes at hw
    unfold Frame.parks at hp
    unfold Ready
    split <;> simp_all [Resume.held, not_locked_of_all]

theorem asserted_step {l : Label} (hn : Nested s) (ha : Asserted s)
    (h : step cfg s l = some s') : Asserted s' := by
  rcases step_cases h with ⟨t, r, f, rest, c, s1, n, hr, hs, he, rfl⟩ |
    ⟨t, r, f, rest, hr, ht, hs, hf, rfl⟩ | ⟨t, i, call, saved, hr, hs, hdue, rfl⟩ | hw
  · intro t' r' f' rest' hr' hs'
    have hk := exec_keeps he
    have hs1 : (s1.tasks t).stack = f :: rest := by
      rw [hk.stack_eq t (.inl (hn.running t r hr).1), hs]
    have hready := exec_ready (ha t r f rest hr hs) he
    have hended : ∀ τ, s1.ended τ = true →
        State.ended { s1 with toLoop := s1.toLoop.land t rest n } τ = true := by
      intro τ hτ
      have hne : τ ≠ t := by
        rintro rfl
        simp [State.ended, hs1] at hτ
      unfold State.ended
      rw [Loop.stack_land _ hne]
      exact hτ
    cases n with
    | park self => cases hr'
    | done o =>
      cases rest with
      | nil => cases hr'
      | cons p rest =>
        cases hr'
        have hb := (hn.stacked t)
        rw [hs] at hb
        have hp : p = f' := by
          simpa [Loop.land, Loop.setStack, Loop.setTask] using congrArg List.head? hs'
        exact hp ▸ ready_of_below hb.1 hready
    | await self callee =>
      cases hr'
      have hp : callee = f' := by
        simpa [Loop.land, Loop.setStack, Loop.setTask] using congrArg List.head? hs'
      exact hp ▸ Ready.mono (s := s1) rfl rfl hended hready
    | goto frame =>
      cases hr'
      have hp : frame = f' := by
        simpa [Loop.land, Loop.setStack, Loop.setTask] using congrArg List.head? hs'
      exact hp ▸ Ready.mono (s := s1) rfl rfl hended hready
  · intro t' r' f' rest' hr' hs'
    cases hr'
    rw [stack_runTask, hs] at hs'
    cases hs'
    refine Ready.mono (s := s) rfl rfl (fun τ hτ => ?_)
      (ready_of_resumption (hn.parked t f rest (fun r' h' => by rw [hr] at h'; cases h') hs) hf)
    simpa [State.ended] using hτ
  · intro t' r' f' rest' hr'
    have h' : s.running = some (t', r') := by
      simpa [State.expireTask, Loop.setTask] using hr'
    simp [hr] at h'
  · intro t' r' f' rest' hr' hs'
    rw [hw.keeps.running_eq] at hr'
    have hlt := (hn.running t' r' hr').1
    have hsp := hw.spawned (by simp [hr'])
    rw [hw.keeps.stack_eq t' (.inl hlt)] at hs'
    refine (ha t' r' f' rest' hr' hs').mono hw.heap hw.activations fun τ hτ => ?_
    unfold State.ended
    rw [hw.keeps.stack_eq τ (by omega)]
    exact hτ

/-! ## What the blocks of the source do to the view -/

section View

variable {c : CallId} {a : ActId} {g : GrainId} {M N : Multiset Activity}

theorem viewWith_congr {P : Protocol} (he : ∀ g, s'.activations.get g = P.entry g)
    (hl : ∀ a, s'.life a = P.life a) (hb : s'.built = P.built) (hM : M = P.pending)
    (ht : s'.trace = P.trace) : s'.viewWith M = P := by
  cases P
  simp only [State.viewWith, Protocol.mk.injEq]
  exact ⟨funext he, funext hl, hb, hM, ht⟩

/-- Writing to a record changes what the protocol sees of it, and of no other. -/
theorem life_modify {f : Activation → Activation} {k : Life → Life}
    (hf : ∀ x, (f x).life = k x.life) :
    (s.modify a f).life = Function.update s.life a (k (s.life a)) := by
  funext b
  by_cases hb : b = a
  · subst hb
    simp [State.life, State.modify, hf]
  · simp [State.life, State.modify, Function.update_of_ne hb]

theorem viewWith_emit (e : Event) : (s.emit e).viewWith M = (s.viewWith N).log e M :=
  rfl

theorem viewWith_modify {f : Activation → Activation} {k : Life → Life}
    (hf : ∀ x, (f x).life = k x.life) :
    (s.modify a f).viewWith M = (s.viewWith M).modify a k := by
  refine viewWith_congr (fun _ => rfl) (fun b => ?_) rfl rfl rfl
  rw [life_modify hf]
  rfl

theorem viewWith_silent {f : Activation → Activation} (hf : ∀ x, (f x).life = x.life) :
    (s.modify a f).viewWith M = s.viewWith M := by
  rw [viewWith_modify (k := id) hf]
  simp [Protocol.modify]

theorem viewWith_setLock (f : Lock → Lock) : (s.setLock a f).viewWith M = s.viewWith M :=
  viewWith_silent fun _ => rfl

theorem viewWith_enter : (s.enter c a).viewWith M =
    ((s.viewWith N).modify a fun x => { x with inFlight := x.inFlight + 1 }).log
      (.entered c a) M :=
  congrArg (Protocol.log · (.entered c a) M)
    (viewWith_modify (s := s) (a := a) (M := N)
      (f := fun x => { x with inFlight := x.inFlight + 1 })
      fun _ => rfl)

theorem viewWith_tick : (s.tick a).viewWith M =
    ((s.viewWith N).modify a fun x => { x with inFlight := x.inFlight + 1 }).log (.ticked a) M :=
  congrArg (Protocol.log · (.ticked a) M)
    (viewWith_modify (s := s) (a := a) (M := N)
      (f := fun x => { x with inFlight := x.inFlight + 1 })
      fun _ => rfl)

theorem viewWith_tock : (s.tock a).viewWith M =
    ((s.viewWith N).modify a fun x => { x with inFlight := x.inFlight - 1 }).log (.tocked a) M :=
  congrArg (Protocol.log · (.tocked a) M)
    (viewWith_modify (s := s) (a := a) (M := N)
      (f := fun x => { x with inFlight := x.inFlight - 1 })
      fun _ => rfl)

theorem viewWith_leave (o : Outcome) : (s.leave cfg c a o).viewWith M =
    ((s.viewWith N).modify a fun x => { x with inFlight := x.inFlight - 1 }).log
      (.answered c a o (countedOutcome cfg s a o)) M := by
  refine viewWith_congr (fun g => ?_) (fun b => ?_) rfl rfl rfl
  · unfold State.leave
    dsimp only
    split_ifs
    · exact OrderedDict.get_moveToEnd
    · rfl
  · exact congrFun (life_modify (s := s) (a := a)
      (f := fun x => { x with inFlight := x.inFlight - 1, lastUsed := s.now })
      (k := fun x => { x with inFlight := x.inFlight - 1 }) fun _ => rfl) b

theorem viewWith_publish (grain : Grain) : (s.publish g grain).viewWith M =
    ({ ((s.viewWith N).setEntry g (some s.built)).modify s.built (fun _ => .new) with
        built := s.built + 1 } : Protocol).log
      (.published g s.built (s.activations.get g)) M := by
  refine viewWith_congr (fun g' => ?_) (fun b => ?_) rfl rfl rfl
  · rw [Protocol.log, Protocol.modify, Protocol.setEntry]
    dsimp only [State.publish, State.viewWith]
    rw [OrderedDict.get_set, Function.update_apply]
  · by_cases hb : b = s.built
    · subst hb
      simp [State.life, State.publish, Protocol.log, Protocol.modify, Activation.life,
        Activation.new, Life.new]
    · simp [State.life, State.publish, Protocol.log, Protocol.modify, Protocol.setEntry,
        State.viewWith, Function.update_of_ne hb]

theorem viewWith_fail (e : Exc) : (s.fail g a e).viewWith M =
    (((s.viewWith N).setEntry g none).modify a fun x =>
        { x with failed := true, isSet := x.isSet || x.ready }).log
      (.failed g a e (s.activations.get g)) M := by
  refine viewWith_congr (fun g' => ?_) (fun b => ?_) rfl rfl rfl
  · rw [Protocol.log, Protocol.modify, Protocol.setEntry]
    dsimp only [State.fail, State.viewWith]
    rw [OrderedDict.get_pop, Function.update_apply]
  · exact congrFun (life_modify (s := s) (a := a)
      (f := fun x => { x with failure := some e, isSet := x.isSet || x.ready })
      (k := fun x => { x with failed := true, isSet := x.isSet || x.ready }) fun _ => rfl) b

theorem viewWith_take (who : Remover) : (s.take who g a).viewWith M =
    ((s.viewWith N).setEntry g none).log (.taken who g a) M := by
  refine viewWith_congr (fun g' => ?_) (fun b => rfl) rfl rfl rfl
  rw [Protocol.log, Protocol.setEntry]
  dsimp only [State.take, State.viewWith]
  rw [OrderedDict.get_pop, Function.update_apply]

theorem viewWith_cancel_all (τs : List TaskId) (s : State) :
    (τs.foldl State.cancel s).viewWith M = s.viewWith M := by
  obtain ⟨L, h⟩ := cancel_all_eq τs s
  rw [h]
  rfl

theorem viewWith_startTimers (s : State) : (s.startTimers t a).viewWith M = s.viewWith M := by
  obtain ⟨L, timers, h⟩ := startTimers_eq (t := t) a s
  rw [h]
  exact viewWith_silent (s := s) (f := fun x => { x with timers := timers }) fun _ => rfl

theorem viewWith_activate : (s.activate t g a).viewWith M =
    ((s.viewWith N).modify a fun x => { x with isSet := x.isSet || x.ready, ready := false }).log
      (.activated g a) M := by
  have h := viewWith_modify (s := s.startTimers t a) (a := a) (M := N)
    (f := fun x => { x with isSet := x.isSet || x.ready, ready := false })
    (k := fun x => { x with isSet := x.isSet || x.ready, ready := false }) fun _ => rfl
  rw [viewWith_startTimers] at h
  exact congrArg (Protocol.log · (.activated g a) M) h

theorem viewWith_startBackground : (s.startBackground cfg t).viewWith M = s.viewWith M := by
  obtain ⟨L, sweeper, scanner, h⟩ := startBackground_eq cfg s t
  rw [h]
  rfl

theorem viewWith_advance : (s.advance cfg g).viewWith M = s.viewWith M := by
  unfold State.advance
  split <;> rfl

end View

/-! ## What a segment does to the view -/

/-- A segment trades the activities `x` for `y` in one step of the protocol, whatever
else is going on, or the protocol sees nothing of it. -/
def Moves (s s' : State) (x y : Multiset Activity) : Prop :=
  ∀ M : Multiset Activity, (∀ b, .hold b ∉ M) →
    s'.viewWith (y + M) = s.viewWith (x + M) ∨
    ∃ e, (s.viewWith (x + M)).Step e (s'.viewWith (y + M))

theorem Moves.silent {x y : Multiset Activity} (hxy : x = y)
    (h : ∀ M, s'.viewWith M = s.viewWith M) : Moves s s' x y :=
  fun M _ => .inl (by rw [hxy, h])

theorem Moves.step {x y : Multiset Activity} (e : Event) (x' y' : Multiset Activity) (hx : x = x')
    (hy : y = y')
    (h : ∀ M : Multiset Activity, (∀ b, .hold b ∉ M) →
      (s.viewWith (x' + M)).Step e (s'.viewWith (y' + M))) : Moves s s' x y :=
  fun M hM => .inr ⟨e, by rw [hx, hy]; exact h M hM⟩

/-- What a segment of `f` given `r` trades. -/
def Next.Moves (s s' : State) (f : Frame) (r : Resume Outcome) (n : Next Frame Outcome) : Prop :=
  Nigrains.Moves s s' (f.activity + r.held) (n.work Frame.activity + n.held)

theorem Moves.answered {c : CallId} {a : ActId} {o : Outcome} {x y : Multiset Activity}
    (hx : x = {.use a}) (hy : y = 0) : Moves s (s.leave cfg c a o) x y :=
  .step _ _ _ hx hy fun M _ => by
    rw [viewWith_leave (N := {.use a} + M), zero_add]
    exact .answered (Multiset.singleton_add _ _)

theorem Moves.started {c : CallId} {a : ActId} {x y : Multiset Activity}
    (hx : x = {.use a}) (hy : y = {.use a}) : Moves s (s.emit (.started c a)) x y :=
  .step _ _ _ hx hy fun _ _ => .started (Multiset.mem_add.2 (.inl (Multiset.mem_singleton_self _)))

theorem Moves.unjoined {a : ActId} {x y : Multiset Activity} (hx : x = {.wait a}) (hy : y = 0) :
    Moves s (s.emit (.unjoined a)) x y :=
  .step _ _ _ hx hy fun M _ => by
    rw [viewWith_emit (N := {.wait a} + M), zero_add]
    exact .unjoined (Multiset.singleton_add _ _)

theorem Moves.gaveUp {g : GrainId} {x y : Multiset Activity} (hx : x = {.room g}) (hy : y = 0) :
    Moves s (s.emit (.gaveUp g)) x y :=
  .step _ _ _ hx hy fun M _ => by
    rw [viewWith_emit (N := {.room g} + M), zero_add]
    exact .gaveUp (Multiset.singleton_add _ _)

theorem Moves.published {g : GrainId} {grain : Grain} {x y : Multiset Activity}
    (hx : x = {.room g}) (hy : y = {.build g s.built}) : Moves s (s.publish g grain) x y :=
  .step (.published g s.built (s.activations.get g)) _ _ hx hy fun M _ => by
    rw [viewWith_publish (N := {.room g} + M)]
    exact .published (P := s.viewWith ({Activity.room g} + M)) (Multiset.singleton_add _ _)

theorem Moves.failed {g : GrainId} {a : ActId} {e : Exc} {x y : Multiset Activity}
    (hx : x = {.build g a}) (hy : y = 0) : Moves s (s.fail g a e) x y :=
  .step (.failed g a e (s.activations.get g)) _ _ hx hy fun M _ => by
    rw [viewWith_fail (N := {.build g a} + M), zero_add]
    exact .failed (P := s.viewWith ({Activity.build g a} + M)) e (Multiset.singleton_add _ _)

theorem Moves.tocked {a : ActId} {x y : Multiset Activity} (hx : x = {.tick a}) (hy : y = 0) :
    Moves s (s.tock a) x y :=
  .step _ _ _ hx hy fun M _ => by
    rw [viewWith_tock (N := {.tick a} + M), zero_add]
    exact .tocked (Multiset.singleton_add _ _)

theorem Moves.deactivated {who : Remover} {a : ActId} {x y : Multiset Activity}
    (hx : x = {.closing who a}) (hy : y = 0) : Moves s (s.emit (.deactivated who a)) x y :=
  .step _ _ _ hx hy fun M _ => by
    rw [viewWith_emit (N := {.closing who a} + M), zero_add]
    exact .deactivated (Multiset.singleton_add _ _)

/-- An event that changes nothing. -/
theorem Moves.marked {x y : Multiset Activity} (e : Event) (hx : x = 0) (hy : y = 0)
    (he : ∀ P : Protocol, P.Step e (P.log e P.pending)) : Moves s (s.emit e) x y :=
  .step e _ _ hx hy fun M _ => he (s.viewWith (0 + M))

/-- A frame that is given no activation trades its own activities only. -/
theorem activity_of_ready {f : Frame} {r : Resume Outcome} (hr : r.held = 0) :
    f.activity + r.held = f.activity := by
  rw [hr, add_zero]

/-- Nothing the protocol sees happens first. -/
theorem Moves.after (s1 : State) {x y : Multiset Activity}
    (h1 : ∀ M, s1.viewWith M = s.viewWith M) (h : Moves s1 s' x y) : Moves s s' x y :=
  fun M hM => h1 (x + M) ▸ h M hM

theorem dispatchHere_moves {call : Call} {pc : DispatchAt} {r : Resume Outcome}
    (hr : Ready s (.dispatchHere call pc) r) (h : dispatchHere cfg s call pc r = some (s', n)) :
    n.Moves s s' (.dispatchHere call pc) r := by
  unfold dispatchHere interrupted at h
  split at h
  · cases h
    exact .silent rfl fun _ => rfl
  · split at h <;> cases h
    exact .silent rfl fun _ => rfl
  · next c a =>
    split_ifs at h <;> cases h
    · refine .step (.entered c a) {.hold a} {.use a} rfl rfl fun M _ => ?_
      rw [viewWith_enter (N := {.hold a} + M)]
      exact .entered (Multiset.singleton_add _ _)
    · refine .step (.refused c a) {.hold a} 0 rfl rfl fun M _ => ?_
      rw [viewWith_emit (N := {.hold a} + M), zero_add]
      exact .refused (Multiset.singleton_add _ _)
  · cases h
    exact .silent rfl fun _ => rfl
  · split_ifs at h <;> cases h
    · exact .started rfl rfl
    · exact .after _ (fun _ => viewWith_setLock _) (.started rfl rfl)
    · exact .silent rfl fun _ => viewWith_setLock _
  · cases h
    exact .after _ (fun _ => viewWith_setLock _) (.started rfl rfl)
  · cases h
    refine .after _ (fun _ => viewWith_setLock _) (.answered rfl ?_)
    exact (zero_add _).trans (held_countedOutcome rfl)
  · next o =>
    cases h
    refine .after _ (fun _ => viewWith_setLock _) (.answered (activity_of_ready hr) ?_)
    exact (zero_add _).trans (held_countedOutcome hr)
  · next o =>
    cases h
    exact .answered (activity_of_ready hr) ((zero_add _).trans (held_countedOutcome hr))
  · cases h

theorem activated_moves {g : GrainId} {pc : ActivatedAt} {r : Resume Outcome}
    (hr : Ready s (.activated g pc) r) (h : activated cfg s t g pc r = some (s', n)) :
    n.Moves s s' (.activated g pc) r := by
  unfold activated at h
  split at h
  · split at h
    · next a ha =>
      split_ifs at h with hready <;> cases h
      · refine .step (.joined g a) 0 {.wait a} rfl rfl fun M _ => ?_
        rw [viewWith_emit (N := 0 + M), zero_add]
        exact .joined (P := s.viewWith M) ha hready
      · refine .step (.found g a) 0 {.hold a} rfl rfl fun M _ => ?_
        rw [viewWith_emit (N := 0 + M), zero_add]
        exact .found (P := s.viewWith M) ha (Bool.eq_false_of_not_eq_true hready)
    · next hnone =>
      split at h <;> cases h
      · exact .silent rfl fun _ => rfl
      · refine .step (.missed g) 0 {.room g} rfl rfl fun M _ => ?_
        rw [viewWith_emit (N := 0 + M), zero_add]
        exact .missed (P := s.viewWith M) hnone
  · next a =>
    split at h
    · next hf =>
      cases h
      refine .step (.woke a) {.wait a} {.hold a} rfl rfl fun M _ => ?_
      rw [viewWith_emit (N := {.wait a} + M)]
      exact .woke (Multiset.singleton_add _ _) hr (by simp [State.viewWith, State.life,
        Activation.life, hf])
    · split_ifs at h <;> cases h
      · exact .unjoined rfl rfl
      · exact .unjoined rfl rfl
  · cases h
    exact .unjoined rfl rfl
  · next o =>
    have hx : Frame.activity (.activated g .room) + Resume.held (.got (.ok o)) = {.room g} :=
      activity_of_ready hr
    split at h
    · split_ifs at h <;> cases h
      · exact .published hx rfl
      · exact .published hx rfl
    · cases h
      exact .gaveUp hx rfl
    · cases h
  · cases h
    exact .gaveUp rfl rfl
  · next a o =>
    cases h
    exact .silent ((activity_of_ready hr).trans rfl) fun _ => rfl
  · cases h
    exact .failed rfl rfl
  · next a o =>
    cases h
    refine .step (.activated g a) {.build g a} {.hold a}
      (activity_of_ready hr) rfl fun M _ => ?_
    rw [viewWith_activate (N := {.build g a} + M)]
    exact .activated (Multiset.singleton_add _ _)
  · cases h
    exact .failed rfl rfl
  · cases h

theorem tick_moves {a : ActId} {pc : TickAt} {r : Resume Outcome} (ha : a < s.built)
    (hr : Ready s (.tick a pc) r) (h : tick s a pc r = some (s', n)) :
    n.Moves s s' (.tick a pc) r := by
  unfold tick interrupted at h
  split at h
  · cases h
    exact .silent rfl fun _ => rfl
  · cases h
    refine .step (.ticked a) 0 {.tick a} rfl rfl fun M _ => ?_
    rw [viewWith_tick (N := 0 + M), zero_add]
    exact .ticked (P := s.viewWith M) ha
  · split_ifs at h <;> cases h
    · exact .tocked rfl rfl
    · exact .tocked rfl rfl
  · cases h
    exact .tocked (activity_of_ready hr) rfl
  · cases h
  · split at h <;> cases h
    cases pc with
    | working => simp_all
    | start | sleeping => exact .silent rfl fun _ => rfl

theorem deactivate_moves {who : Remover} {g : GrainId} {pc : DeactivateAt} {r : Resume Outcome}
    (hr : Ready s (.deactivate who g pc) r) (h : deactivate s who g pc r = some (s', n)) :
    n.Moves s s' (.deactivate who g pc) r := by
  unfold deactivate at h
  split at h
  · split at h
    · cases h
      exact .silent rfl fun _ => rfl
    · next a ha =>
      cases h
      refine .step (.taken who g a) 0 {.down who a} rfl rfl fun M hM => ?_
      rw [viewWith_cancel_all, viewWith_take (N := 0 + M), zero_add]
      refine .taken (P := s.viewWith M) who ha (fun hwho => ?_) hM
      have hidle := hr hwho a ha
      simpa [State.idle, State.viewWith, State.life, Activation.life] using hidle
  · next a =>
    cases h
    refine Moves.after (s.modify a fun x => { x with timers := [] })
      (fun _ => viewWith_silent fun _ => rfl)
      (.step (.deactivating who a) {.down who a} {.closing who a} rfl rfl
        fun M _ => ?_)
    rw [viewWith_emit (N := {.down who a} + M)]
    exact .deactivating (Multiset.singleton_add _ _)
  · split_ifs at h <;> cases h
    · exact .silent rfl fun _ => rfl
    · exact .silent rfl fun _ => rfl
  · next a τ rest =>
    split at h <;> cases h
    · exact .silent rfl fun _ => rfl
    · refine .step (.abandoned who a) {.down who a} 0 rfl rfl fun M _ => ?_
      rw [viewWith_emit (N := {.down who a} + M), zero_add]
      exact .abandoned (Multiset.singleton_add _ _)
  · cases h
    exact .silent rfl fun _ => rfl
  · cases h
    exact .after _ (fun _ => rfl) (.deactivated (activity_of_ready hr) rfl)
  · split_ifs at h <;> cases h
    · exact .after _ (fun _ => rfl) (.deactivated rfl rfl)
    · exact .deactivated rfl rfl
  · cases h

theorem aexit_moves {pc : AexitAt} {r : Resume Outcome}
    (hr : Ready s (.aexit pc) r) (h : aexit s pc r = some (s', n)) :
    n.Moves s s' (.aexit pc) r := by
  unfold aexit at h
  repeat' split at h
  all_goals
    first
      | contradiction
      | (cases h
         first
          | exact .silent rfl fun _ => rfl
          | exact .silent (activity_of_ready hr) fun _ => rfl
          | exact .marked .left (activity_of_ready hr) rfl fun _ => .left
          | exact .marked (.listed _) (activity_of_ready hr) rfl fun _ => .listed _)

theorem makeRoom_moves {pc : MakeRoomAt} {r : Resume Outcome}
    (hr : Ready s (.makeRoom pc) r) (h : makeRoom cfg s pc r = some (s', n)) :
    n.Moves s s' (.makeRoom pc) r := by
  unfold makeRoom at h
  repeat' split at h
  all_goals
    first
      | contradiction
      | (cases h
         first
          | exact .silent rfl fun _ => rfl
          | exact .after _ (fun _ => rfl)
              (.marked .evicted (activity_of_ready hr) rfl fun _ => .evicted))

theorem drain_moves {pc : DrainAt} {r : Resume Outcome}
    (h : drain cfg s pc r = some (s', n)) : n.Moves s s' (.drain pc) r := by
  unfold drain at h
  repeat' split at h
  all_goals
    first
      | contradiction
      | (cases h
         first
          | exact .silent rfl fun _ => rfl
          | exact .marked (.drained _) rfl rfl fun _ => .drained _)

theorem collect_moves {pc : CollectAt} {r : Resume Outcome}
    (hr : Ready s (.collect pc) r) (h : collect cfg s pc r = some (s', n)) :
    n.Moves s s' (.collect pc) r := by
  unfold collect at h
  repeat' split at h
  all_goals
    first
      | contradiction
      | (cases h
         first
          | exact .silent rfl fun _ => rfl
          | exact .silent (activity_of_ready hr) fun _ => rfl)

/-- A call on its way to a grain does nothing the protocol sees. -/
theorem activity_callFrame (call : Call) (terminal : Terminal) :
    (callFrame cfg call terminal).activity = 0 := by
  unfold callFrame
  split_ifs
  · cases terminal <;> rfl
  · rfl

theorem activity_terminalFrame (call : Call) (terminal : Terminal) :
    (terminal.frame call).activity = 0 := by
  cases terminal <;> rfl

theorem activity_inside (inside : Inside) : inside.frame.activity = 0 := by
  cases inside <;> rfl

/-- A frame the protocol does not see awaits another. -/
theorem silent_await {self callee : Frame} (hs : self.activity = 0) (hc : callee.activity = 0) :
    Next.work Frame.activity (.await self callee : Next Frame Outcome) +
      Next.held (.await self callee) = 0 := by
  simp only [Next.work, Next.held, hs, hc, add_zero]

/-- A frame the protocol does not see runs on as another. -/
theorem silent_goto {f : Frame} (hf : f.activity = 0) :
    Next.work Frame.activity (.goto f : Next Frame Outcome) + Next.held (.goto f) = 0 := by
  simp only [Next.work, Next.held, hf, add_zero]

/-- A frame the protocol does not see ends with no activation. -/
theorem silent_done {o : Outcome} (ho : held o = 0) :
    Next.work Frame.activity (.done o) + Next.held (.done o) = 0 := by
  simp only [Next.work, Next.held, ho, add_zero]

/-- Code outside the runtime does nothing the protocol sees. -/
theorem user_moves {role : Role} {c : Choice} {r : Resume Outcome} (hr : Ready s (.user role) r)
    (h : user cfg s t role c = some (s', n)) : n.Moves s s' (.user role) r := by
  have hx : Frame.activity (.user role) + r.held = 0 := activity_of_ready hr
  unfold user at h
  repeat' split at h
  all_goals
    first
      | contradiction
      | (cases h
         first
          | exact .silent hx fun _ => rfl
          | exact .silent hx fun _ => viewWith_silent fun _ => rfl
          | exact .silent (hx.trans (silent_await rfl (activity_callFrame _ _)).symm) fun _ => rfl
          | exact .silent (hx.trans (silent_done (held_map_obj _)).symm) fun _ => rfl)

/-- Every segment is a step of the protocol beside what else is going on, or none. -/
theorem exec_moves {c : Choice} {f : Frame} {r : Resume Outcome} (hr : Ready s f r)
    (ht : ∀ a pc, f = .tick a pc → a < s.built) (h : exec cfg s t c f r = some (s', n)) :
    n.Moves s s' f r := by
  cases f <;> simp only [exec] at h
  case user => exact user_moves hr h
  case dispatchHere => exact dispatchHere_moves hr h
  case activated => exact activated_moves hr h
  case makeRoom => exact makeRoom_moves hr h
  case deactivate => exact deactivate_moves hr h
  case collect => exact collect_moves hr h
  case tick => exact tick_moves (ht _ _ rfl) hr h
  case drain => exact drain_moves h
  case aexit => exact aexit_moves hr h
  case dispatch =>
    unfold dispatch interrupted at h
    repeat' split at h
    all_goals
      first
        | contradiction
        | (cases h
           first
            | exact .silent rfl fun _ => rfl
            | exact .silent rfl fun _ => viewWith_advance)
  case timeout =>
    unfold timeout at h
    repeat' split at h
    all_goals
      first
        | contradiction
        | (cases h
           exact .silent ((activity_of_ready hr).trans (silent_done (held_timeoutExit hr)).symm)
             fun _ => rfl)
  all_goals
    first
      | unfold within at h | unfold scope at h | unfold deliver at h
      | unfold chain at h | unfold sweep at h | unfold aenter at h
    try unfold interrupted at h
    repeat' split at h
  all_goals
    first
      | contradiction
      | (cases h
         first
          | exact .silent rfl fun _ => rfl
          | exact .silent (activity_of_ready hr) fun _ => rfl
          | exact .silent (activity_of_ready hr) fun _ => viewWith_startBackground
          | exact .silent rfl fun _ => viewWith_startBackground
          | exact .silent (silent_await rfl (activity_callFrame _ _)).symm fun _ => rfl
          | exact .silent (silent_await rfl (activity_terminalFrame _ _)).symm fun _ => rfl
          | exact .silent (silent_await rfl (activity_inside _)).symm fun _ => rfl
          | exact .silent (silent_goto (activity_callFrame _ _)).symm fun _ => rfl
          | exact .silent (silent_goto (activity_terminalFrame _ _)).symm fun _ => rfl)

/-! ## Which coroutine logs what -/

/-- The events that a segment of a frame may log. -/
def Frame.Logs : Frame → Resume Outcome → Event → Prop
  | .dispatchHere _ (.activating _), _, .entered .. => True
  | .dispatchHere _ (.activating _), _, .refused .. => True
  | .dispatchHere _ (.entered c a), .send, .started c' a' => c' = c ∧ a' = a
  | .dispatchHere _ (.queued c a), .send, .started c' a' => c' = c ∧ a' = a
  | .dispatchHere _ (.queued c a), _, .answered c' a' .. => c' = c ∧ a' = a
  | .dispatchHere _ (.running c a _), _, .answered c' a' .. => c' = c ∧ a' = a
  | .activated g .lookup, .send, .found g' _ => g' = g
  | .activated g .lookup, .send, .joined g' _ => g' = g
  | .activated g .lookup, .send, .missed g' => g' = g
  | .activated _ (.waiting a), .send, .woke a' => a' = a
  | .activated _ (.waiting a), _, .unjoined a' => a' = a
  | .activated g .room, .got (.ok _), .published g' _ _ => g' = g
  | .activated g .room, _, .gaveUp g' => g' = g
  | .activated g (.hook a), _, .activated g' a' => g' = g ∧ a' = a
  | .activated g (.reading a), .got (.error e), .failed g' a' e' _ => g' = g ∧ a' = a ∧ e' = e
  | .activated g (.hook a), .got (.error e), .failed g' a' e' _ => g' = g ∧ a' = a ∧ e' = e
  | .tick a _, _, .ticked a' => a' = a
  | .tick a _, _, .tocked a' => a' = a
  | .makeRoom .evicting, _, .evicted => True
  | .deactivate who g .start, .send, .taken who' g' _ => who' = who ∧ g' = g
  | .deactivate who _ (.timers a []), .send, .deactivating who' a' => who' = who ∧ a' = a
  | .deactivate who _ (.joining a ..), _, .abandoned who' a' => who' = who ∧ a' = a
  | .deactivate who _ (.hook a), _, .deactivated who' a' => who' = who ∧ a' = a
  | .drain (.looping _), _, .drained _ => True
  | .aexit .draining, _, .listed _ => True
  | .aexit (.deactivating []), _, .left => True
  | .aexit .leaving, _, .left => True
  | _, _, _ => False

/-- Which frame logs which event. -/
inductive Logged : Frame → Resume Outcome → Event → Prop
  | entered {call c r c' a} : Logged (.dispatchHere call (.activating c)) r (.entered c' a)
  | refused {call c r c' a} : Logged (.dispatchHere call (.activating c)) r (.refused c' a)
  | started {call c a} : Logged (.dispatchHere call (.entered c a)) .send (.started c a)
  | startedQueued {call c a} : Logged (.dispatchHere call (.queued c a)) .send (.started c a)
  | forsaken {call c a r inside o} :
    Logged (.dispatchHere call (.queued c a)) r (.answered c a inside o)
  | answered {call c a lock r inside o} :
    Logged (.dispatchHere call (.running c a lock)) r (.answered c a inside o)
  | found {g a} : Logged (.activated g .lookup) .send (.found g a)
  | joined {g a} : Logged (.activated g .lookup) .send (.joined g a)
  | missed {g} : Logged (.activated g .lookup) .send (.missed g)
  | woke {g a} : Logged (.activated g (.waiting a)) .send (.woke a)
  | unjoined {g a r} : Logged (.activated g (.waiting a)) r (.unjoined a)
  | published {g v a old} : Logged (.activated g .room) (.got (.ok v)) (.published g a old)
  | gaveUp {g r} : Logged (.activated g .room) r (.gaveUp g)
  | activated {g a r} : Logged (.activated g (.hook a)) r (.activated g a)
  | failedReading {g a e popped} :
    Logged (.activated g (.reading a)) (.got (.error e)) (.failed g a e popped)
  | failed {g a e popped} :
    Logged (.activated g (.hook a)) (.got (.error e)) (.failed g a e popped)
  | ticked {a pc r} : Logged (.tick a pc) r (.ticked a)
  | tocked {a pc r} : Logged (.tick a pc) r (.tocked a)
  | evicted {r} : Logged (.makeRoom .evicting) r .evicted
  | taken {who g a} : Logged (.deactivate who g .start) .send (.taken who g a)
  | deactivating {who g a} :
    Logged (.deactivate who g (.timers a [])) .send (.deactivating who a)
  | abandoned {who g a τ τs r} :
    Logged (.deactivate who g (.joining a τ τs)) r (.abandoned who a)
  | deactivated {who g a r} : Logged (.deactivate who g (.hook a)) r (.deactivated who a)
  | drained {since r b} : Logged (.drain (.looping since)) r (.drained b)
  | listed {r gs} : Logged (.aexit .draining) r (.listed gs)
  | leftEmpty {r} : Logged (.aexit (.deactivating [])) r .left
  | left {r} : Logged (.aexit .leaving) r .left

theorem logged_of_logs {f : Frame} {r : Resume Outcome} {e : Event} (h : f.Logs r e) :
    Logged f r e := by
  unfold Frame.Logs at h
  split at h
  case h_28 => exact h.elim
  all_goals
    obtain ⟨rfl, rfl, rfl⟩ := h
    constructor

theorem trace_cancel_all (τs : List TaskId) (s : State) :
    (τs.foldl State.cancel s).trace = s.trace :=
  congrArg Protocol.trace (viewWith_cancel_all (M := 0) τs s)

theorem trace_startTimers (a : ActId) (s : State) : (s.startTimers t a).trace = s.trace :=
  congrArg Protocol.trace (viewWith_startTimers (M := 0) s)

theorem trace_startBackground : (s.startBackground cfg t).trace = s.trace :=
  congrArg Protocol.trace (viewWith_startBackground (M := 0))

/-- A segment logs nothing, or one event of those its frame may log. -/
theorem exec_log {c : Choice} {f : Frame} {r : Resume Outcome}
    (h : exec cfg s t c f r = some (s', n)) :
    s'.trace = s.trace ∨ ∃ e, s'.trace = e :: s.trace ∧ f.Logs r e := by
  cases exec_effect h
  case begins => exact .inl trace_startBackground
  case unjoins | givesUp => exact .inr ⟨_, rfl, by rcases r with _ | _ | _ <;> rfl⟩
  case takes who g a hentry => exact .inr ⟨_, trace_cancel_all _ _, rfl, rfl⟩
  case activates g a o => exact .inr ⟨_, congrArg (List.cons _) (trace_startTimers a s), rfl, rfl⟩
  all_goals
    first
      | exact .inl rfl
      | exact .inr ⟨_, rfl, trivial⟩
      | exact .inr ⟨_, rfl, rfl⟩
      | exact .inr ⟨_, rfl, rfl, rfl⟩
      | exact .inr ⟨_, rfl, rfl, rfl, rfl⟩

/-- What a step logs, the segment of a frame has logged. -/
theorem run_logs {l : Label} (h : step cfg s l = some s') {e : Event}
    (he : s'.trace = e :: s.trace) :
    ∃ t r f rest c s1 n, l = .run c ∧ s.running = some (t, r) ∧ (s.tasks t).stack = f :: rest ∧
      exec cfg s t c f r = some (s1, n) ∧ s' = { s1 with toLoop := s1.toLoop.land t rest n } ∧
      Logged f r e := by
  have hne : e :: s.trace ≠ s.trace := List.cons_ne_self _ _
  by_cases hrun : ∃ c, l = .run c
  · obtain ⟨c, rfl⟩ := hrun
    obtain ⟨t, r, f, rest, s1, n, hr, hs, hx, rfl⟩ := run_cases h
    rcases exec_log hx with hsame | ⟨e', he', hlogs⟩
    · exact (hne (he.symm.trans hsame)).elim
    · obtain rfl : e' = e := (List.cons.inj (he'.symm.trans he)).1
      exact ⟨t, r, f, rest, c, s1, n, rfl, hr, hs, hx, rfl, logged_of_logs hlogs⟩
  · obtain ⟨L, now, isMine, rfl⟩ := step_outside (not_exists.1 hrun) h
    exact (hne he.symm).elim

/-- The same, where the label does not matter. -/
theorem step_logs {l : Label} (h : step cfg s l = some s') {e : Event}
    (he : s'.trace = e :: s.trace) :
    ∃ t r f rest c s1 n, s.running = some (t, r) ∧ (s.tasks t).stack = f :: rest ∧
      exec cfg s t c f r = some (s1, n) ∧ s' = { s1 with toLoop := s1.toLoop.land t rest n } ∧
      Logged f r e := by
  obtain ⟨t, r, f, rest, c, s1, n, -, hlogged⟩ := run_logs h he
  exact ⟨t, r, f, rest, c, s1, n, hlogged⟩

/-! ## Every step of the runtime is a step of the protocol -/

theorem hold_notMem_activity (b : ActId) (f : Frame) : .hold b ∉ f.activity := by
  unfold Frame.activity
  split <;> simp

/-- No frame holds an activation : it is on its way only while it is returned. -/
theorem hold_notMem_work (L : Loop Frame Outcome (Option Time)) (b : ActId) :
    .hold b ∉ L.work Frame.activity := by
  rw [Loop.mem_work]
  rintro ⟨u, -, f, -, hb⟩
  exact hold_notMem_activity b f hb

theorem activity_of_fresh {f : Frame} (h : f.fresh) : f.activity = 0 := by
  unfold Frame.fresh at h
  split at h <;> first | rfl | cases h

theorem activity_of_hosted {f : Frame} (h : f.hosted) : f.activity = 0 := by
  unfold Frame.hosted at h
  split at h <;> first | rfl | cases h

/-- What is given to the next frame is what the segment ended with. -/
theorem held_land {L : Loop Frame Outcome (Option Time)} {rest : List Frame}
    (h : rest = [] → n.held = 0) :
    (((L.land t rest n).running).map fun x => x.2.held).getD 0 = n.held := by
  cases n with
  | done o =>
    cases rest with
    | nil => exact (h rfl).symm
    | cons p rest => rfl
  | _ => rfl

/-- Timers are of activations that have been built. -/
def Ticking (s : State) : Prop :=
  ∀ u a pc, .tick a pc ∈ (s.tasks u).stack → a < s.built

/-- What runs nothing gives no task an activation, or another one. -/
theorem held_other {l : Label} (hl : ∀ c, l ≠ .run c) (h : step cfg s l = some s') :
    ((s'.running.map fun x => x.2.held).getD 0) = ((s.running.map fun x => x.2.held).getD 0) := by
  rcases step_other hl h with ⟨t, r, f, rest, hr, ht, hs, hf, rfl⟩ |
    ⟨t, i, call, saved, hr, hs, hdue, rfl⟩ | hw
  · rw [hr]
    unfold resumption at hf
    split_ifs at hf <;> cases hf <;> rfl
  · simp [State.expireTask, Loop.setTask]
  · rw [hw.keeps.running_eq]

/-- The runtime's step is the protocol's, or the protocol does not see it. -/
theorem step_view {l : Label} (hn : Nested s) (ha : Asserted s) (htick : Ticking s)
    (h : step cfg s l = some s') :
    s'.view = s.view ∨ ∃ e, s.view.Step e s'.view := by
  by_cases hl : ∃ c, l = .run c
  · obtain ⟨c, rfl⟩ := hl
    obtain ⟨t, r, f, rest, s1, n, R, hr, hs, he, rfl, hR, hland⟩ := run_work hn h
      (w := Frame.activity) fun _ => activity_of_fresh
    have hnil : rest = [] → n.held = 0 := by
      rintro rfl
      have hready := exec_ready (ha t r f [] hr hs) he
      have hb := hn.stacked t
      rw [hs] at hb
      cases n with
      | done o =>
        rcases hready with ho | ⟨g, pc, rfl⟩
        · exact ho
        · cases hb.1
      | _ => rfl
    have hp : s.pending = f.activity + r.held + R := by
      unfold State.pending
      rw [hR, hr]
      simp only [Option.map_some, Option.getD_some]
      abel
    have hp' : State.pending { s1 with toLoop := s1.toLoop.land t rest n } =
        n.work Frame.activity + n.held + R := by
      unfold State.pending
      simp only [hland, held_land hnil]
      abel
    have hM : ∀ b, .hold b ∉ R := fun b hb =>
      hold_notMem_work s.toLoop b (hR ▸ Multiset.mem_add.2 (.inr hb))
    unfold State.view
    rw [hp, hp']
    exact exec_moves (ha t r f rest hr hs)
      (fun a pc hf => htick t a pc (by rw [hs, hf]; exact List.mem_cons_self)) he R hM
  · left
    have hl : ∀ c, l ≠ .run c := not_exists.1 hl
    have hp : s'.pending = s.pending := by
      unfold State.pending
      rw [work_other hn hl h (fun _ => activity_of_hosted) fun _ _ => rfl, held_other hl h]
    obtain ⟨hactivations, hheap, hbuilt, htrace⟩ := step_idle hl h
    unfold State.view
    rw [hp]
    unfold State.viewWith State.life
    rw [hactivations, hheap, hbuilt, htrace]

theorem view_init (isMine : Option (GrainId → Bool)) :
    (State.init isMine).view = Protocol.init := by
  have hp : (State.init isMine).pending = 0 := rfl
  unfold State.view
  rw [hp]
  rfl

/-! ## What holds in every reachable state -/

/-- What a frame on some stack does is going on. -/
theorem Nested.mem_pending (hn : Nested s) {u : TaskId} {f : Frame} {x : Activity}
    (hf : f ∈ (s.tasks u).stack) (hx : x ∈ f.activity) : x ∈ s.pending :=
  Multiset.mem_add.2 (.inl (Loop.mem_work.2 ⟨u, hn.lt_of_mem hf, f, hf, hx⟩))

/-- What is going on, some frame does, or it is on its way to a call. -/
theorem exists_frame_of_pending {x : Activity} (h : x ∈ s.pending) (hx : ∀ a, x ≠ .hold a) :
    ∃ u f, f ∈ (s.tasks u).stack ∧ x ∈ f.activity := by
  rcases Multiset.mem_add.1 h with hw | hr
  · obtain ⟨u, -, f, hf, hxf⟩ := Loop.mem_work.1 hw
    exact ⟨u, f, hf, hxf⟩
  · exfalso
    cases hrun : s.running with
    | none => simp [hrun] at hr
    | some run =>
      simp only [hrun, Option.map_some, Option.getD_some] at hr
      unfold Resume.held held at hr
      split at hr
      · simp at hr
      · split at hr <;> simp [hx] at hr

/-- The invariants of every run. -/
structure Reached (s : State) : Prop where
  nested : Nested s
  asserted : Asserted s
  ticking : Ticking s
  sound : s.view.Sound

theorem reached_init (isMine : Option (GrainId → Bool)) : Reached (.init isMine) where
  nested := nested_init _
  asserted := asserted_init _
  ticking _ _ _ h := by cases h
  sound := by
    rw [view_init]
    exact Protocol.sound_init

theorem Reached.step_view {l : Label} (hI : Reached s) (h : step cfg s l = some s') :
    s'.view = s.view ∨ ∃ e, s.view.Step e s'.view :=
  Nigrains.step_view hI.nested hI.asserted hI.ticking h

/-- A step that logs nothing changes nothing that the protocol sees. -/
theorem Reached.view_eq {l : Label} (hI : Reached s) (h : step cfg s l = some s')
    (htrace : s'.trace = s.trace) : s'.view = s.view := by
  rcases hI.step_view h with hv | ⟨e, hv⟩
  · exact hv
  · exact absurd (hv.trace.symm.trans htrace) (List.cons_ne_self _ _)

theorem Reached.built_le {l : Label} (hI : Reached s) (h : step cfg s l = some s') :
    s.built ≤ s'.built := by
  rcases hI.step_view h with hv | ⟨e, hv⟩
  · exact (congrArg Protocol.built hv).ge
  · exact hv.built_le

/-- A segment starts the timers of an activation while it is still being built. -/
theorem Reached.ticking_step {l : Label} (hI : Reached s) (h : step cfg s l = some s') :
    Ticking s' := by
  have hle := hI.built_le h
  intro u a pc hmem
  refine frames_step (Φ := fun _ f => ∀ a pc, f = .tick a pc → a < s.built)
    (Ψ := fun _ f => ∀ a pc, f = .tick a pc → a < s'.built) h ?_ ?_ ?_ ?_ ?_ u _ hmem a pc rfl
  · rintro u f hf a pc rfl
    exact hI.ticking u a pc hf
  · exact fun _ f hf a pc he => (hf a pc he).trans_le hle
  · rintro t r f rest c s1 n hr hs he -
    have htop : f ∈ (s.tasks t).stack := by
      rw [hs]
      exact List.mem_cons_self
    refine ⟨?_, ?_⟩
    · rintro f' hf' a pc rfl
      obtain ⟨pc', rfl⟩ := exec_ticks he hf'
      exact (hI.ticking t a pc' htop).trans_le hle
    · rintro v f' - - ⟨hfresh, hhook⟩ a pc rfl
      cases pc with
      | start =>
        obtain ⟨g, rfl⟩ := (hhook a).1 rfl
        have hb : .build g a ∈ s.view.pending :=
          hI.nested.mem_pending htop (Multiset.mem_singleton_self _)
        exact (hI.sound.about_lt _ hb a rfl).trans_le hle
      | sleeping | working => exact hfresh.elim
  · rintro v f hf a pc rfl
    exact hf.elim
  · exact fun _ call saved _ _ a pc he => by cases he

theorem Reached.step {l : Label} (hI : Reached s) (h : Nigrains.step cfg s l = some s') :
    Reached s' where
  nested := nested_step hI.nested h
  asserted := asserted_step hI.nested hI.asserted h
  ticking := hI.ticking_step h
  sound := by
    rcases hI.step_view h with hv | ⟨e, hv⟩
    · rw [hv]
      exact hI.sound
    · exact hv.sound hI.sound

theorem Run.reached {ok : State → State → Prop} {isMine : Option (GrainId → Bool)}
    (h : Run (step cfg) ok (.init isMine) s) : Reached s :=
  h.invariant (I := Reached) (reached_init _) fun _ _ _ hI hl _ => hI.step hl

/-! ## Every run of the runtime is a run of the protocol -/

/-- A run under a condition on what is logged is a run of the protocol under it. -/
theorem Run.view {cond : State → Event → Prop} {C : Protocol → Event → Prop}
    {isMine : Option (GrainId → Bool)} (hC : ∀ s e, cond s e → C s.view e)
    (h : Run (step cfg) (Logs State.trace cond) (.init isMine) s) :
    Protocol.Runs C Protocol.init s.view := by
  rw [← view_init isMine]
  refine h.simulate (I := Reached) (reached_init _) (fun _ _ _ hI hl _ => hI.step hl)
    fun s l s' hI hl hok => ?_
  rcases hI.step_view hl with he | ⟨e, he⟩
  · exact .inl he
  · exact .inr ⟨e, hC s e (hok e he.trace), he⟩

end

end Nigrains
