import Nigrains.State

/-!
# The coroutines of the runtime

Each coroutine of `runtime.py` is a function from where it stands and what it is given to
the state and the `Next` its segment ends with. Between two awaits the code of the source
is one segment; the head of a loop, and what follows `return await`, are segments of
their own that run on at once. `none` is a frame that is given what it cannot be given.
-/

namespace Nigrains

/-- The end of a segment. -/
abbrev Segment := Option (State × Next Frame Outcome)

/-- A frame that has not started is interrupted. -/
def interrupted (s : State) : Resume Outcome → Segment
  | .got (.error e) => some (s, .done (.error e))
  | _ => none

section

variable (cfg : Config) (s : State) (t : TaskId)

/-! ## Calls and where they go -/

/-- `terminal(...)`. -/
def Terminal.frame (call : Call) : Terminal → Frame
  | .dispatch => .dispatch call
  | .dispatchHere => .dispatchHere call .start

/-- `Runtime.call`, and `_served_here` : the fast path when nothing wraps the call. -/
def callFrame (call : Call) (terminal : Terminal) : Frame :=
  if cfg.filters = 0 ∧ call.deadline = none then terminal.frame call
  else .chain cfg.filters call terminal

/-- `asyncio.timeout.__aexit__` : an interruption becomes a `TimeoutError` if the timeout
has expired and nobody else has asked for one. -/
def timeoutExit (cancelling saved : ℕ) (expired : Bool) : Outcome → Outcome
  | .error .cancelledError =>
    if expired ∧ cancelling ≤ saved then .error .timeoutError else .error .cancelledError
  | o => o

/-- `except TimeoutError as exc: raise DeadlineExceeded(...) from exc`. -/
def toDeadlineExceeded (call : Call) : Outcome → Outcome
  | .error e =>
    if e.isTimeout then .error (.deadlineExceededFrom call.grain.str call.method e)
    else .error e
  | .ok v => .ok v

/-- The chain of `_through_filters`, and the `dispatch` at its end. -/
def chain (rest : ℕ) (call : Call) (terminal : Terminal) : Resume Outcome → Segment
  | .send =>
    match rest with
    | rest + 1 => some (s, .goto (.user (.filter rest call terminal)))
    | 0 =>
      match call.deadline with
      | none => some (s, .goto (terminal.frame call))
      | some deadline =>
        if deadline - s.now ≤ 0 then
          some (s, .done (.error (.deadlineExceeded call.grain.str call.method)))
        else some (s, .await (.timeout call (s.tasks t).cancelling false) (terminal.frame call))
  | r => interrupted s r

/-- The end of `async with asyncio.timeout(left)`. -/
def timeout (call : Call) (saved : ℕ) (expired : Bool) : Resume Outcome → Segment
  | .got o =>
    if expired then
      some (s.uncancel t, .done (toDeadlineExceeded call
        (timeoutExit ((s.tasks t).cancelling - 1) saved true o)))
    else
      some (s, .done (toDeadlineExceeded call
        (timeoutExit (s.tasks t).cancelling saved false o)))
  | .send => none

/-- The pool of an identity : how many activations answer for it, and whose turn it is. -/
def pool (g : GrainId) : Option (ℕ × ℕ) :=
  match cfg.kinds g.type with
  | none => none
  | some kind =>
    if kind.activationsPerKey ≤ 0 then none
    else some (kind.activationsPerKey, (s.nextActivation.get g).getD 0)

/-- What `_route` returns. -/
def route (g : GrainId) : GrainId :=
  match pool cfg s g with
  | none => g
  | some (_, turn) => ⟨g.type, g.key ++ "#" ++ toString turn⟩

/-- What `_route` writes. -/
def State.advance (g : GrainId) : State :=
  match pool cfg s g with
  | none => s
  | some (size, turn) =>
    { s with nextActivation := s.nextActivation.set g ((turn + 1) % size) }

/-- `_dispatch`, with `_forward` : the call is served here or sent to its owner. -/
def dispatch (call : Call) : Resume Outcome → Segment
  | .send =>
    if s.isMine.any fun isMine => !isMine (route cfg s call.grain) then
      some ({ s.advance cfg call.grain with forwarded := s.forwarded + 1 },
        .goto (.user (.transport { call with grain := route cfg s call.grain }
          ((s.tasks t).context.map fun deadline => deadline - s.now))))
    else
      some (s.advance cfg call.grain,
        .goto (.dispatchHere { call with grain := route cfg s call.grain } .start))
  | r => interrupted s r

/-- `deliver`, with `_served_here`. -/
def deliver (call : Call) (timeout : Option Time) : Resume Outcome → Segment
  | .send =>
    match timeout with
    | none =>
      some (s, .goto (callFrame cfg { call with deadline := (s.tasks t).context } .dispatchHere))
    | some seconds =>
      some (s.setDeadline t (narrowed (s.tasks t).context (s.now + seconds)),
        .await (.scope (s.now + seconds) (s.tasks t).context) (callFrame cfg
          { call with deadline := narrowed (s.tasks t).context (s.now + seconds) } .dispatchHere))
  | r => interrupted s r

/-- What a `with deadline` block awaits first. -/
def Inside.frame : Inside → Frame
  | .block => .user .block
  | .next rest call terminal => .chain rest call terminal

/-- `with deadline(seconds)` around other code. -/
def within (seconds : Time) (inside : Inside) : Resume Outcome → Segment
  | .send =>
    some (s.setDeadline t (narrowed (s.tasks t).context (s.now + seconds)),
      .await (.scope (s.now + seconds) (s.tasks t).context) inside.frame)
  | r => interrupted s r

/-- The end of `with deadline(seconds)`. -/
def scope (saved : Option Time) : Resume Outcome → Segment
  | .got o => some (s.setDeadline t saved, .done o)
  | .send => none

/-! ## Serving a call -/

/-- The first half of `_counted`. -/
def State.enter (s : State) (c : CallId) (a : ActId) : State :=
  { s.modify a fun x => { x with inFlight := x.inFlight + 1 } with
    totalInFlight := s.totalInFlight + 1
    calls := s.calls + 1
    trace := .entered c a :: s.trace }

/-- What `_counted` makes of what ended inside it : a bounded runtime moves the grain's
identity to the end of its table, which raises a `KeyError` if it is not there. -/
def countedOutcome (a : ActId) (inside : Outcome) : Outcome :=
  if cfg.maxActivations.isSome ∧ s.activations.get (s.heap a).grain.id = none then
    .error (.keyError (s.heap a).grain.id)
  else inside

/-- The second half of `_counted`. -/
def State.leave (c : CallId) (a : ActId) (inside : Outcome) : State :=
  { s.modify a fun x => { x with inFlight := x.inFlight - 1, lastUsed := s.now } with
    totalInFlight := s.totalInFlight - 1
    activations :=
      if cfg.maxActivations.isSome then s.activations.moveToEnd (s.heap a).grain.id
      else s.activations
    trace := .answered c a inside (countedOutcome cfg s a inside) :: s.trace }

/-- The activation's lock, made on first use. -/
def State.lock (a : ActId) : Lock :=
  (s.heap a).lock.getD ⟨false, 0⟩

/-- Write to the activation's lock. -/
def State.setLock (a : ActId) (f : Lock → Lock) : State :=
  s.modify a fun x => { x with lock := some (f (x.lock.getD ⟨false, 0⟩)) }

/-- Whether `acquire` takes the lock at once : it is free and nobody queues for it. -/
def Lock.free (lock : Lock) : Bool :=
  !lock.locked && lock.waiters == 0

/-- `async with` has the lock. -/
def Lock.acquire (lock : Lock) : Lock :=
  { lock with locked := true }

/-- `async with` gives the lock back. -/
def Lock.release (lock : Lock) : Lock :=
  { lock with locked := false }

/-- A task queues. -/
def Lock.queue (lock : Lock) : Lock :=
  { lock with waiters := lock.waiters + 1 }

/-- A task queues no more. -/
def Lock.unqueue (lock : Lock) : Lock :=
  { lock with waiters := lock.waiters - 1 }

/-- `_dispatch_here`. -/
def dispatchHere (call : Call) : DispatchAt → Resume Outcome → Segment
  | .start, .send =>
    some ({ s with served := s.served + 1 },
      .await (.dispatchHere call (.activating s.served)) (.activated call.grain .lookup))
  | .start, r => interrupted s r
  | .activating c, .got (.ok (.activation a)) =>
    if (s.heap a).grain.answers call.method then
      some (s.enter c a, .goto (.dispatchHere call (.entered c a)))
    else
      some (s.emit (.refused c a),
        .done (.error (.noSuchGrainMethod call.grain.str call.method)))
  | .activating _, .got (.error e) => some (s, .done (.error e))
  | .entered c a, .send =>
    if (s.heap a).grain.reentrant then
      some (s.emit (.started c a),
        .await (.dispatchHere call (.running c a false)) (.user (.body c a)))
    else if (s.lock a).free then
      some ((s.setLock a Lock.acquire).emit (.started c a),
        .await (.dispatchHere call (.running c a true)) (.user (.body c a)))
    else some (s.setLock a Lock.queue, .park (.dispatchHere call (.queued c a)))
  | .queued c a, .send =>
    some ((s.setLock a fun lock => lock.unqueue.acquire).emit (.started c a),
      .await (.dispatchHere call (.running c a true)) (.user (.body c a)))
  | .queued c a, .got (.error e) =>
    some ((s.setLock a Lock.unqueue).leave cfg c a (.error e),
      .done (countedOutcome cfg s a (.error e)))
  | .running c a true, .got o =>
    some ((s.setLock a Lock.release).leave cfg c a o, .done (countedOutcome cfg s a o))
  | .running c a false, .got o => some (s.leave cfg c a o, .done (countedOutcome cfg s a o))
  | _, _ => none

/-! ## Activating -/

/-- `factory(grain_id)`. -/
def build (g : GrainId) : Option (Except Exc Grain) :=
  (cfg.factories g.type).map fun factory => factory g

/-- `_activated` enters a new activation into the table. -/
def State.publish (g : GrainId) (grain : Grain) : State :=
  { s with
    heap := Function.update s.heap s.built (.new grain s.now)
    built := s.built + 1
    activations := s.activations.set g s.built
    activationsTotal := s.activationsTotal + 1
    trace := .published g s.built (s.activations.get g) :: s.trace }

/-- The `except` of `_activated` : the entry goes, and waiters see the failure. -/
def State.fail (g : GrainId) (a : ActId) (e : Exc) : State :=
  { s.modify a fun x => { x with failure := some e, isSet := x.isSet || x.ready } with
    activations := s.activations.pop g
    failedActivations := s.failedActivations + 1
    trace := .failed g a e (s.activations.get g) :: s.trace }

/-- `activation.timers.append(create_task(self._tick(...)))`. -/
def State.startTimer (a : ActId) : State :=
  (s.spawn (.tick a .start) (s.tasks t).context).modify a fun x =>
    { x with timers := x.timers ++ [s.spawned] }

/-- `_start_timers`. -/
def State.startTimers (a : ActId) : State :=
  (s.heap a).schedules.foldl (fun s _ => s.startTimer t a) s

/-- `_activated` after `activate` has returned. -/
def State.activate (g : GrainId) (a : ActId) : State :=
  ((s.startTimers t a).modify a fun x =>
    { x with isSet := x.isSet || x.ready, ready := false }).emit (.activated g a)

/-- `_activated`. -/
def activated (g : GrainId) : ActivatedAt → Resume Outcome → Segment
  | .lookup, .send =>
    match s.activations.get g with
    | some a =>
      if (s.heap a).ready then
        some (s.emit (.joined g a), .park (.activated g (.waiting a)))
      else some (s.emit (.found g a), .done (.ok (.activation a)))
    | none =>
      match cfg.factories g.type with
      | none => some (s, .done (.error (.grainNotRegistered g.type)))
      | some _ => some (s.emit (.missed g), .await (.activated g .room) (.makeRoom .start))
  | .waiting a, .send =>
    match (s.heap a).failure with
    | none => some (s.emit (.woke a), .done (.ok (.activation a)))
    | some e =>
      if e.isCancelled then some (s.emit (.unjoined a), .goto (.activated g .lookup))
      else some (s.emit (.unjoined a), .done (.error e))
  | .waiting a, .got (.error e) => some (s.emit (.unjoined a), .done (.error e))
  | .room, .got (.ok _) =>
    match build cfg g with
    | some (.ok grain) =>
      if grain.persistent ∧ cfg.state then
        some (s.publish g grain,
          .await (.activated g (.reading s.built)) (.user (.read s.built)))
      else
        some (s.publish g grain,
          .await (.activated g (.hook s.built)) (.user (.activate s.built)))
    | some (.error e) => some (s.emit (.gaveUp g), .done (.error e))
    | none => none
  | .room, .got (.error e) => some (s.emit (.gaveUp g), .done (.error e))
  | .reading a, .got (.ok _) => some (s, .await (.activated g (.hook a)) (.user (.activate a)))
  | .reading a, .got (.error e) => some (s.fail g a e, .done (.error e))
  | .hook a, .got (.ok _) => some (s.activate t g a, .done (.ok (.activation a)))
  | .hook a, .got (.error e) => some (s.fail g a e, .done (.error e))
  | _, _ => none

/-- A tick starts. -/
def State.tick (a : ActId) : State :=
  { s.modify a fun x => { x with inFlight := x.inFlight + 1 } with
    totalInFlight := s.totalInFlight + 1
    trace := .ticked a :: s.trace }

/-- A tick ends. -/
def State.tock (a : ActId) : State :=
  { s.modify a fun x => { x with inFlight := x.inFlight - 1 } with
    totalInFlight := s.totalInFlight - 1
    trace := .tocked a :: s.trace }

/-- `_tick`. -/
def tick (a : ActId) : TickAt → Resume Outcome → Segment
  | .start, .send => some (s, .park (.tick a .sleeping))
  | .sleeping, .send =>
    some (s.tick a, .await (.tick a .working) (.user (.work a)))
  | .working, .got (.error e) =>
    if e.isException then some (s.tock a, .park (.tick a .sleeping))
    else some (s.tock a, .done (.error e))
  | .working, .got (.ok _) => some (s.tock a, .park (.tick a .sleeping))
  | .working, .send => none
  | _, r => interrupted s r

/-! ## Taking activations out -/

/-- `_make_room`. -/
def makeRoom : MakeRoomAt → Resume Outcome → Segment
  | .start, .send =>
    if cfg.maxActivations.all fun m => (s.activations.len : ℤ) < m then
      some (s, .done (.ok .none))
    else
      match s.activations.items.find? fun e => s.idle e.2 with
      | some e => some (s, .await (.makeRoom .evicting) (.deactivate .makeRoom e.1 .start))
      | none => some (s, .done (.ok .none))
  | .evicting, .got (.ok _) =>
    some ({ s with evictions := s.evictions + 1 }.emit .evicted, .done (.ok .none))
  | .evicting, .got (.error e) => some (s, .done (.error e))
  | _, _ => none

/-- Whether `await timer` inside `suppress(CancelledError)` raises. -/
def raises : Option Outcome → Option Exc
  | some (.error e) => if e.isCancelled then none else some e
  | _ => none

/-- `_deactivate` takes an activation out of the table. -/
def State.take (who : Remover) (g : GrainId) (a : ActId) : State :=
  { s with activations := s.activations.pop g, trace := .taken who g a :: s.trace }

/-- `_deactivate`. -/
def deactivate (who : Remover) (g : GrainId) : DeactivateAt → Resume Outcome → Segment
  | .start, .send =>
    match s.activations.get g with
    | none => some (s, .done (.ok .none))
    | some a =>
      some ((s.heap a).timers.foldl State.cancel (s.take who g a),
        .goto (.deactivate who g (.timers a (s.heap a).timers)))
  | .timers a [], .send =>
    some ((s.modify a fun x => { x with timers := [] }).emit (.deactivating who a),
      .await (.deactivate who g (.hook a)) (.user (.deactivate a)))
  | .timers a (τ :: rest), .send =>
    if s.ended τ then some (s, .goto (.deactivate who g (.joining a τ rest)))
    else some (s, .park (.deactivate who g (.joining a τ rest)))
  | .joining a τ rest, .send =>
    match raises (s.tasks τ).result with
    | none => some (s, .goto (.deactivate who g (.timers a rest)))
    | some e => some (s.emit (.abandoned who a), .done (.error e))
  | .joining a _ rest, .got (.error _) => some (s, .goto (.deactivate who g (.timers a rest)))
  | .hook a, .got (.ok _) =>
    some ({ s with deactivations := s.deactivations + 1 }.emit (.deactivated who a),
      .done (.ok .none))
  | .hook a, .got (.error e) =>
    if e.isException then
      some ({ s with deactivations := s.deactivations + 1 }.emit (.deactivated who a),
        .done (.ok .none))
    else some (s.emit (.deactivated who a), .done (.error e))
  | _, _ => none

/-- `_SWEEP_CHUNK`. -/
def sweepChunk : ℕ := 1000

/-- What `collect` finds stale, and again at each turn of its walk. -/
def stale (cutoff : Time) (a : ActId) : Bool :=
  s.idle a && decide ((s.heap a).lastUsed ≤ cutoff)

/-- `collect`. -/
def collect : CollectAt → Resume Outcome → Segment
  | .start, .send =>
    some (s, .goto (.collect (.walking (s.now - cfg.idleSeconds)
      ((s.activations.items.filter fun e => stale s (s.now - cfg.idleSeconds) e.2).map Prod.fst)
      0 0)))
  | .walking _ [] _ collected, .send => some (s, .done (.ok (.count collected)))
  | .walking cutoff (g :: rest) index collected, .send =>
    match s.activations.get g with
    | none => some (s, .goto (.collect (.walking cutoff rest (index + 1) collected)))
    | some a =>
      if stale s cutoff a then
        some (s, .await (.collect (.taking cutoff rest index collected))
          (.deactivate .collect g .start))
      else some (s, .goto (.collect (.walking cutoff rest (index + 1) collected)))
  | .walking .., .got (.error e) => some (s, .done (.error e))
  | .taking cutoff rest index collected, .got (.ok _) =>
    if index % sweepChunk = sweepChunk - 1 then
      some (s, .park (.collect (.walking cutoff rest (index + 1) (collected + 1))))
    else some (s, .goto (.collect (.walking cutoff rest (index + 1) (collected + 1))))
  | .taking .., .got (.error e) => some (s, .done (.error e))
  | _, _ => none

/-- `_sweep`. -/
def sweep : SweepAt → Resume Outcome → Segment
  | .start, .send => some (s, .park (.sweep .sleeping))
  | .sleeping, .send => some (s, .await (.sweep .collecting) (.collect .start))
  | .collecting, .got (.error e) =>
    if e.isException then some (s, .park (.sweep .sleeping)) else some (s, .done (.error e))
  | .collecting, .got (.ok _) => some (s, .park (.sweep .sleeping))
  | .collecting, .send => none
  | _, r => interrupted s r

/-! ## Entering and leaving -/

/-- `self._sweeper = create_task(self._sweep())`. -/
def State.startSweeper : State :=
  { s.spawn (.sweep .start) (s.tasks t).context with sweeper := some s.spawned }

/-- `self._reminder_scanner = create_task(self._scan_reminders())`. -/
def State.startScanner : State :=
  { s.spawn (.user .scanner) (s.tasks t).context with reminderScanner := some s.spawned }

/-- `__aenter__` after the membership has started. -/
def State.startBackground : State :=
  if cfg.reminders then (s.startSweeper t).startScanner t else s.startSweeper t

/-- `__aenter__`. -/
def aenter : AenterAt → Resume Outcome → Segment
  | .start, .send =>
    if s.isMine.isSome then some (s, .await (.aenter .starting) (.user .membership))
    else some (s.startBackground cfg t, .done (.ok .none))
  | .starting, .got (.ok _) => some (s.startBackground cfg t, .done (.ok .none))
  | .starting, .got (.error e) => some (s, .done (.error e))
  | _, _ => none

/-- Whether some entry of the table has calls in flight, as `_drain` counts them. -/
def State.busy : Bool :=
  s.activations.items.any fun e => (s.heap e.2).inFlight != 0

/-- `_drain`. -/
def drain : DrainAt → Resume Outcome → Segment
  | .start, .send => some (s, .goto (.drain (.looping (s.now + cfg.drainSeconds))))
  | .looping deadline, .send =>
    if s.now < deadline then
      if s.busy then some (s, .park (.drain (.sleeping deadline)))
      else some (s.emit (.drained false), .done (.ok .none))
    else some (s.emit (.drained true), .done (.ok .none))
  | .sleeping deadline, .send => some (s, .goto (.drain (.looping deadline)))
  | .sleeping _, .got (.error e) => some (s, .done (.error e))
  | _, _ => none

/-- `__aexit__`. -/
def aexit : AexitAt → Resume Outcome → Segment
  | .start, .send =>
    some (s, .goto (.aexit (.stopping ([s.sweeper, s.reminderScanner].filterMap id))))
  | .stopping [], .send =>
    some ({ s with sweeper := none, reminderScanner := none },
      .await (.aexit .draining) (.drain .start))
  | .stopping (τ :: rest), .send =>
    if s.ended τ then some (s, .goto (.aexit (.joining τ rest)))
    else some (s.cancel τ, .park (.aexit (.joining τ rest)))
  | .joining τ rest, .send =>
    match raises (s.tasks τ).result with
    | none => some (s, .goto (.aexit (.stopping rest)))
    | some e => some (s, .done (.error e))
  | .joining _ rest, .got (.error _) => some (s, .goto (.aexit (.stopping rest)))
  | .draining, .got (.ok _) =>
    some (s.emit (.listed s.activations.keyList),
      .goto (.aexit (.deactivating s.activations.keyList)))
  | .draining, .got (.error e) => some (s, .done (.error e))
  | .deactivating (g :: rest), .send =>
    some (s, .await (.aexit (.deactivating rest)) (.deactivate .aexit g .start))
  | .deactivating rest, .got (.ok _) => some (s, .goto (.aexit (.deactivating rest)))
  | .deactivating _, .got (.error e) => some (s, .done (.error e))
  | .deactivating [], .send =>
    if s.isMine.isSome then some (s, .await (.aexit .leaving) (.user .membership))
    else some (s.emit .left, .done (.ok .none))
  | .leaving, .got (.ok _) => some (s.emit .left, .done (.ok .none))
  | .leaving, .got (.error e) => some (s, .done (.error e))
  | _, _ => none

end

end Nigrains
