import Nigrains.EventLoop
import Nigrains.Grain
import Nigrains.OrderedDict

/-!
# The state of a runtime

A `State` is one `Runtime` object, the `_Activation` objects it has built, and the event
loop its coroutines run on. A coroutine of the runtime is a `Frame` : its parameters, the
local variables that are live across its awaits, and where it stands. Code that is not the
runtime's (callers, filters, the hooks and methods of grains, transports) is a `user`
frame, which may do anything a caller of the runtime may do.

The `trace` is not part of the program. Each segment that looks an activation up, builds,
fails, serves or removes one adds one `Event` to it, and the properties are stated of it.
-/

namespace Nigrains

/-- What a registered kind declares. -/
structure Kind where
  activationsPerKey : ℕ
deriving DecidableEq, Repr

/-- What a runtime is built with, and what `register` has taught it. -/
structure Config where
  idleSeconds : Time
  drainSeconds : Time
  maxActivations : Option ℤ
  /-- How many filters there are. What a filter does is its own business. -/
  filters : ℕ
  /-- Whether there is a state store. -/
  state : Bool
  /-- Whether there is a reminder store, and so a scanner. -/
  reminders : Bool
  kinds : String → Option Kind
  factories : String → Option (GrainId → Except Exc Grain)

/-- An `asyncio.Lock`. -/
structure Lock where
  locked : Bool
  /-- Tasks queueing for it. -/
  waiters : ℕ
deriving DecidableEq, Repr

/-- One live grain, and what the runtime needs to know about it. -/
structure Activation where
  grain : Grain
  /-- Whether `ready` still holds its event. It is dropped by a successful activation. -/
  ready : Bool
  /-- Whether that event has been set. -/
  isSet : Bool
  failure : Option Exc
  lock : Option Lock
  inFlight : ℤ
  lastUsed : Time
  timers : List TaskId
  /-- `grain._timers` : the intervals of the schedules the grain has asked for. -/
  schedules : List Time

/-- `_Activation(grain, now=now)`. -/
def Activation.new (grain : Grain) (now : Time) : Activation where
  grain := grain
  ready := true
  isSet := false
  failure := none
  lock := none
  inFlight := 0
  lastUsed := now
  timers := []
  schedules := []

/-- The dispatch at the bottom of a chain. -/
inductive Terminal
  | dispatch
  | dispatchHere
deriving DecidableEq, Repr

/-- What a piece of code outside the runtime is there for. -/
inductive Role
  /-- A caller, or any other task of the host. -/
  | client
  /-- A `with deadline` block. -/
  | block
  /-- A filter, with `rest` filters inside it. -/
  | filter (rest : ℕ) (call : Call) (terminal : Terminal)
  /-- `transport.send`, with the seconds it is told are left. -/
  | transport (call : Call) (timeout : Option Time)
  | membership
  /-- The reminder scanner. -/
  | scanner
  /-- The read of a persistent grain's state. -/
  | read (a : ActId)
  | activate (a : ActId)
  | deactivate (a : ActId)
  /-- The method a call names. -/
  | body (c : CallId) (a : ActId)
  /-- What a timer runs. -/
  | work (a : ActId)
deriving DecidableEq, Repr

/-- Who takes an activation out of the table with `_deactivate`. -/
inductive Remover
  | makeRoom
  | collect
  | aexit
deriving DecidableEq, Repr

/-- Where `_dispatch_here` stands. -/
inductive DispatchAt
  | start
  /-- Awaiting `_activated`. -/
  | activating (c : CallId)
  /-- Inside `_counted`, about to run the method. -/
  | entered (c : CallId) (a : ActId)
  /-- Queueing for the lock. -/
  | queued (c : CallId) (a : ActId)
  /-- Awaiting the method. -/
  | running (c : CallId) (a : ActId) (locked : Bool)
deriving DecidableEq, Repr

/-- Where `_activated` stands. -/
inductive ActivatedAt
  /-- At the head of its loop. -/
  | lookup
  /-- Waiting for an activation in progress. -/
  | waiting (a : ActId)
  /-- Awaiting `_make_room`. -/
  | room
  /-- Awaiting the state of a persistent grain. -/
  | reading (a : ActId)
  /-- Awaiting `activate`. -/
  | hook (a : ActId)
deriving DecidableEq, Repr

/-- Where `_make_room` stands. -/
inductive MakeRoomAt
  | start
  /-- Awaiting `_deactivate`. -/
  | evicting
deriving DecidableEq, Repr

/-- Where `_deactivate` stands. -/
inductive DeactivateAt
  | start
  /-- At the head of the loop that awaits the timers. -/
  | timers (a : ActId) (rest : List TaskId)
  /-- Awaiting the timer `τ`, with `rest` after it. -/
  | joining (a : ActId) (τ : TaskId) (rest : List TaskId)
  /-- Awaiting `deactivate`. -/
  | hook (a : ActId)
deriving DecidableEq, Repr

/-- Where `collect` stands. -/
inductive CollectAt
  | start
  /-- At the head of its walk. -/
  | walking (cutoff : Time) (rest : List GrainId) (index collected : ℕ)
  /-- Awaiting `_deactivate` for the identity at `index`. -/
  | taking (cutoff : Time) (rest : List GrainId) (index collected : ℕ)
deriving DecidableEq, Repr

/-- Where `_sweep` stands. -/
inductive SweepAt
  | start
  | sleeping
  | collecting
deriving DecidableEq, Repr

/-- Where `_tick` stands. -/
inductive TickAt
  | start
  | sleeping
  | working
deriving DecidableEq, Repr

/-- Where `_drain` stands. -/
inductive DrainAt
  | start
  /-- At the head of its loop. -/
  | looping (deadline : Time)
  | sleeping (deadline : Time)
deriving DecidableEq, Repr

/-- Where `__aenter__` stands. -/
inductive AenterAt
  | start
  /-- Awaiting the membership's `start`. -/
  | starting
deriving DecidableEq, Repr

/-- Where `__aexit__` stands. -/
inductive AexitAt
  | start
  /-- At the head of the loop over the background tasks. -/
  | stopping (rest : List TaskId)
  /-- Awaiting the background task `τ`, with `rest` after it. -/
  | joining (τ : TaskId) (rest : List TaskId)
  | draining
  /-- Working through the table, with the identities `rest` to go. -/
  | deactivating (rest : List GrainId)
  /-- Awaiting the membership's `stop`. -/
  | leaving
deriving DecidableEq, Repr

/-- What runs in a `with deadline` block. -/
inductive Inside
  /-- The code of the block. -/
  | block
  /-- The rest of a chain : a filter awaits its `next` there. -/
  | next (rest : ℕ) (call : Call) (terminal : Terminal)
deriving DecidableEq, Repr

/-- A coroutine on a task's stack. -/
inductive Frame
  | user (role : Role)
  /-- Entering `with deadline(seconds)`. -/
  | within (seconds : Time) (inside : Inside)
  /-- Inside it, with the deadline it has asked for and the one to go back to. -/
  | scope (asked : Time) (saved : Option Time)
  | deliver (call : Call) (timeout : Option Time)
  /-- The chain of `_through_filters`, with `rest` filters to go. -/
  | chain (rest : ℕ) (call : Call) (terminal : Terminal)
  /-- The end of that chain, inside `asyncio.timeout`. -/
  | timeout (call : Call) (saved : ℕ) (expired : Bool)
  | dispatch (call : Call)
  | dispatchHere (call : Call) (pc : DispatchAt)
  | activated (g : GrainId) (pc : ActivatedAt)
  | makeRoom (pc : MakeRoomAt)
  | deactivate (who : Remover) (g : GrainId) (pc : DeactivateAt)
  | collect (pc : CollectAt)
  | sweep (pc : SweepAt)
  | tick (a : ActId) (pc : TickAt)
  | drain (pc : DrainAt)
  | aenter (pc : AenterAt)
  | aexit (pc : AexitAt)
deriving DecidableEq, Repr

/-- What has happened to the activations. -/
inductive Event
  /-- A lookup found a live activation. -/
  | found (g : GrainId) (a : ActId)
  /-- A lookup found an activation in progress, and its caller waits. -/
  | joined (g : GrainId) (a : ActId)
  /-- A lookup found nothing, and its caller goes on to build an activation. -/
  | missed (g : GrainId)
  /-- A waiting caller goes on with the activation it waited for. -/
  | woke (a : ActId)
  /-- A waiting caller does not. -/
  | unjoined (a : ActId)
  /-- Making room or the factory raised. -/
  | gaveUp (g : GrainId)
  /-- An activation enters the table, where `old` stood under its identity. -/
  | published (g : GrainId) (a : ActId) (old : Option ActId)
  /-- `activate` has returned. -/
  | activated (g : GrainId) (a : ActId)
  /-- The state read or `activate` has raised, and `popped` has left the table. -/
  | failed (g : GrainId) (a : ActId) (e : Exc) (popped : Option ActId)
  /-- The grain has no such method. -/
  | refused (c : CallId) (a : ActId)
  /-- A call enters `_counted`. -/
  | entered (c : CallId) (a : ActId)
  /-- A call's method body starts. -/
  | started (c : CallId) (a : ActId)
  /-- A call leaves `_counted` : what ended inside, and what its caller gets. -/
  | answered (c : CallId) (a : ActId) (inside outcome : Outcome)
  /-- A tick starts, or ends. -/
  | ticked (a : ActId)
  | tocked (a : ActId)
  /-- `_make_room` has evicted. -/
  | evicted
  /-- `_deactivate` has taken an activation out of the table. -/
  | taken (who : Remover) (g : GrainId) (a : ActId)
  /-- `deactivate` starts. -/
  | deactivating (who : Remover) (a : ActId)
  /-- `deactivate` has ended. -/
  | deactivated (who : Remover) (a : ActId)
  /-- A timer task raised, and `deactivate` is not reached. -/
  | abandoned (who : Remover) (a : ActId)
  /-- `_drain` is over. -/
  | drained (graceRanOut : Bool)
  /-- `__aexit__` has listed what it will deactivate. -/
  | listed (gs : List GrainId)
  /-- `__aexit__` returns. -/
  | left
deriving DecidableEq

/-- A runtime, its activations, and its event loop. -/
structure State extends Loop Frame Outcome (Option Time) where
  activations : OrderedDict GrainId ActId
  nextActivation : OrderedDict GrainId ℕ
  activationsTotal : ℤ
  failedActivations : ℤ
  deactivations : ℤ
  evictions : ℤ
  calls : ℤ
  totalInFlight : ℤ
  forwarded : ℤ
  sweeper : Option TaskId
  reminderScanner : Option TaskId
  /-- The `_Activation` objects. -/
  heap : ActId → Activation
  /-- How many have been built. -/
  built : ℕ
  /-- How many executions of `_dispatch_here` have begun. -/
  served : ℕ
  /-- What the clock reads. -/
  now : Time
  /-- `is_mine` by the membership as it now stands, in a cluster. -/
  isMine : Option (GrainId → Bool)
  /-- What has happened, the latest first. -/
  trace : List Event

/-- An `_Activation` that is not there. -/
def noActivation : Activation :=
  .new ⟨⟨"", ""⟩, false, false, []⟩ 0

/-- A runtime that has just been built, alone or in a cluster. -/
def State.init (isMine : Option (GrainId → Bool)) : State where
  tasks := fun _ => ⟨[], none, 0, false, none⟩
  spawned := 0
  running := none
  activations := ∅
  nextActivation := ∅
  activationsTotal := 0
  failedActivations := 0
  deactivations := 0
  evictions := 0
  calls := 0
  totalInFlight := 0
  forwarded := 0
  sweeper := none
  reminderScanner := none
  heap := fun _ => noActivation
  built := 0
  served := 0
  now := 0
  isMine := isMine
  trace := []

namespace State

/-- Add an event to the trace. -/
def emit (s : State) (e : Event) : State :=
  { s with trace := e :: s.trace }

/-- Write to an activation. -/
def modify (s : State) (a : ActId) (f : Activation → Activation) : State :=
  { s with heap := Function.update s.heap a (f (s.heap a)) }

/-- `create_task`. -/
def spawn (s : State) (frame : Frame) (deadline : Option Time) : State :=
  { s with toLoop := s.toLoop.spawn frame deadline }

/-- `task.cancel()`. -/
def cancel (s : State) (t : TaskId) : State :=
  { s with toLoop := s.toLoop.cancel t }

/-- `_deadline.set(deadline)` in a task's context. -/
def setDeadline (s : State) (t : TaskId) (deadline : Option Time) : State :=
  let task := { s.tasks t with context := deadline }
  { s with toLoop := s.toLoop.setTask t task }

/-- `task.uncancel()`. -/
def uncancel (s : State) (t : TaskId) : State :=
  let task := { s.tasks t with cancelling := (s.tasks t).cancelling - 1 }
  { s with toLoop := s.toLoop.setTask t task }

/-- Whether a task has ended. -/
def ended (s : State) (t : TaskId) : Bool :=
  (s.tasks t).stack.isEmpty

/-- `activation.in_flight == 0 and activation.ready is None`. -/
def idle (s : State) (a : ActId) : Bool :=
  (s.heap a).inFlight == 0 && !(s.heap a).ready

end State

end Nigrains
