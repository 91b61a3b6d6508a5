import Nigrains.Runtime
import Nigrains.Transition

/-!
# The runtime as a transition system

A step resumes a suspended task, or runs one segment of the task that is running, or is
something the world does : time passes, the host starts a task, a call arrives from
another node, a task is cancelled, a timeout expires, the membership changes. A task is
resumed only while no task runs, which is what one event loop means.

Code that is not the runtime's decides at each of its segments what to do next
(`Choice`). That choice is the only nondeterminism of a segment.
-/

namespace Nigrains

/-- What code that is not the runtime's does next. -/
inductive Choice
  /-- Nothing to choose : the runtime's own code runs. -/
  | go
  /-- Await something of its own. -/
  | suspend
  /-- Return, or raise. -/
  | finish (o : Except Exc Obj)
  /-- Call a grain. -/
  | call (g : GrainId) (method : String) (args kwargs : Obj)
  /-- A filter awaits its `next`. -/
  | next (call : Call)
  /-- Enter a `with deadline` block. -/
  | within (seconds : Time)
  /-- A filter awaits its `next` in such a block. Where the block does more than that, it is
  entered again, with the seconds that are left of it. -/
  | nextWithin (seconds : Time) (call : Call)
  /-- `Grain.every`, in `activate`. -/
  | every (seconds : Time)
  | createTask
  | collect
  | enter
  | leave
deriving DecidableEq, Repr

/-- The call that a filter hands on, in a block or not. -/
def Choice.handed : Choice → Option Call
  | .next call' => some call'
  | .nextWithin _ call' => some call'
  | _ => none

/-- One segment of code that is not the runtime's. -/
def user (cfg : Config) (s : State) (t : TaskId) (role : Role) : Choice → Segment
  | .go => none
  | .suspend => some (s, .park (.user role))
  | .finish o => some (s, .done (o.map .obj))
  | .call g method args kwargs =>
    some (s, .await (.user role)
      (callFrame cfg ⟨g, method, args, kwargs, (s.tasks t).context⟩ .dispatch))
  | .next call =>
    match role with
    | .filter rest _ terminal => some (s, .await (.user role) (.chain rest call terminal))
    | _ => none
  | .within seconds => some (s, .await (.user role) (.within seconds .block))
  | .nextWithin seconds call =>
    match role with
    | .filter rest _ terminal =>
      some (s, .await (.user role) (.within seconds (.next rest call terminal)))
    | _ => none
  | .every seconds =>
    match role with
    | .activate a =>
      some (s.modify a fun x => { x with schedules := x.schedules ++ [seconds] },
        .goto (.user role))
    | _ => none
  | .createTask => some (s.spawn (.user .client) (s.tasks t).context, .goto (.user role))
  | .collect => some (s, .await (.user role) (.collect .start))
  | .enter => some (s, .await (.user role) (.aenter .start))
  | .leave => some (s, .await (.user role) (.aexit .start))

/-- One segment of a frame. -/
def exec (cfg : Config) (s : State) (t : TaskId) (c : Choice) :
    Frame → Resume Outcome → Segment
  | .user role, _ => user cfg s t role c
  | .within seconds inside, r => within s t seconds inside r
  | .scope _ saved, r => scope s t saved r
  | .deliver call left, r => deliver cfg s t call left r
  | .chain rest call terminal, r => chain s t rest call terminal r
  | .timeout call saved expired, r => timeout s t call saved expired r
  | .dispatch call, r => dispatch cfg s t call r
  | .dispatchHere call pc, r => dispatchHere cfg s call pc r
  | .activated g pc, r => activated cfg s t g pc r
  | .makeRoom pc, r => makeRoom cfg s pc r
  | .deactivate who g pc, r => deactivate s who g pc r
  | .collect pc, r => collect cfg s pc r
  | .sweep pc, r => sweep s pc r
  | .tick a pc, r => tick s a pc r
  | .drain pc, r => drain cfg s pc r
  | .aenter pc, r => aenter cfg s t pc r
  | .aexit pc, r => aexit s pc r

/-- Whether what a suspended frame awaits has come. -/
def wakes (s : State) : Frame → Bool
  | .activated _ (.waiting a) => (s.heap a).isSet
  | .dispatchHere _ (.queued _ a) => (s.heap a).lock.all fun lock => !lock.locked
  | .deactivate _ _ (.joining _ τ _) => s.ended τ
  | .aexit (.joining τ _) => s.ended τ
  | _ => true

/-- Whether a suspended frame goes on when it is interrupted : one that awaits a task
does so only when that task has ended. -/
def interrupts (s : State) : Frame → Bool
  | .deactivate _ _ (.joining _ τ _) => s.ended τ
  | .aexit (.joining τ _) => s.ended τ
  | _ => true

/-- What a suspended frame is given when the loop resumes it. -/
def resumption (s : State) (t : TaskId) (f : Frame) : Option (Resume Outcome) :=
  if (s.tasks t).mustCancel then
    if interrupts s f then some (.got (.error .cancelledError)) else none
  else if wakes s f then some .send
  else none

/-- Task `t` runs, and has been interrupted if it was to be. -/
def State.runTask (s : State) (t : TaskId) (r : Resume Outcome) : State :=
  let task := { s.tasks t with mustCancel := false }
  { s with toLoop := { s.toLoop.setTask t task with running := some (t, r) } }

/-- The loop resumes task `t`. -/
def resume (s : State) (t : TaskId) : Option State :=
  if s.running = none ∧ t < s.spawned then
    match (s.tasks t).stack with
    | [] => none
    | f :: _ => (resumption s t f).map (s.runTask t)
  else none

/-- The running task runs one segment of its innermost frame. -/
def run (cfg : Config) (s : State) (c : Choice) : Option State :=
  match s.running with
  | none => none
  | some (t, r) =>
    match (s.tasks t).stack with
    | [] => none
    | f :: rest =>
      match exec cfg s t c f r with
      | none => none
      | some (s', n) => some { s' with toLoop := s'.toLoop.land t rest n }

/-- The `i`-th frame of task `t` finds its timeout expired, which interrupts the task. -/
def State.expireTask (s : State) (t : TaskId) (i : ℕ) (call : Call) (saved : ℕ) : State :=
  let task := { s.tasks t with stack := (s.tasks t).stack.set i (.timeout call saved true) }
  { s with toLoop := (s.toLoop.setTask t task).cancel t }

/-- A timeout of task `t` expires, in its `i`-th frame. -/
def expire (s : State) (t : TaskId) (i : ℕ) : Option State :=
  match s.running, (s.tasks t).stack[i]? with
  | none, some (.timeout call saved false) =>
    if call.deadline.any fun deadline => decide (deadline ≤ s.now) then
      some (s.expireTask t i call saved)
    else none
  | _, _ => none

/-- What happens next. -/
inductive Label
  | resume (t : TaskId)
  | run (c : Choice)
  | clock (seconds : Time)
  /-- The host starts a task. -/
  | arrive
  /-- A call arrives from another node. -/
  | deliver (g : GrainId) (method : String) (args kwargs : Obj) (timeout : Option Time)
  | cancel (t : TaskId)
  | expire (t : TaskId) (i : ℕ)
  | membership (isMine : GrainId → Bool)

/-- One step of a runtime. -/
def step (cfg : Config) (s : State) : Label → Option State
  | .resume t => resume s t
  | .run c => run cfg s c
  | .clock seconds => if 0 ≤ seconds then some { s with now := s.now + seconds } else none
  | .arrive => if s.running = none then some (s.spawn (.user .client) none) else none
  | .deliver g method args kwargs timeout =>
    if s.running = none then
      some (s.spawn (.deliver ⟨g, method, args, kwargs, none⟩ timeout) none)
    else none
  | .cancel t => if t < s.spawned then some (s.cancel t) else none
  | .expire t i => expire s t i
  | .membership isMine =>
    if s.isMine.isSome then some { s with isMine := some isMine } else none

/-! ## A small runtime

For runs on fixed inputs : one kind of grain, whose grains carry the identity they are
built for and answer `get`. -/

/-- A runtime alone, with no filters and no stores, bounded or not. -/
def Config.small (maxActivations : Option ℤ) : Config where
  idleSeconds := 300
  drainSeconds := 30
  maxActivations := maxActivations
  filters := 0
  state := false
  reminders := false
  kinds := fun _ => some ⟨0⟩
  factories := fun _ => some fun g => .ok ⟨g, false, false, ["get"]⟩

namespace Label

/-- The runtime's own code runs `n` segments. -/
def gos (n : ℕ) : List Label :=
  List.replicate n (.run .go)

/-- The code outside calls `get`, up to the end of the lookup in `_activated`. -/
def invoke (g : GrainId) : List Label :=
  .run (.call g "get" 0 0) :: gos 3

/-- The code outside returns. -/
def returns : Label :=
  .run (.finish (.ok 0))

/-- Room is there : an activation is built, activated, and serves the call it was built
for. -/
def serve : List Label :=
  gos 2 ++ [returns] ++ gos 3 ++ [returns] ++ gos 1

end Label

/-- A run on fixed labels, each of whose steps meets a condition on what it logs. -/
theorem exists_logged_run (cfg : Config) (isMine : Option (GrainId → Bool))
    (cond : State → Event → Prop) [∀ s e, Decidable (cond s e)] (ls : List Label)
    (p : State → Bool)
    (h : (execute (step cfg) (logsCheck State.trace cond) (.init isMine) ls).any p = true) :
    ∃ s, Run (step cfg) (Logs State.trace cond) (.init isMine) s ∧ p s = true :=
  exists_run _ _ (logs_of_check _ _) _ ls p h

/-- A run on fixed labels. -/
theorem exists_free_run (cfg : Config) (isMine : Option (GrainId → Bool)) (ls : List Label)
    (p : State → Bool)
    (h : (execute (step cfg) (fun _ _ => true) (.init isMine) ls).any p = true) :
    ∃ s, Run (step cfg) (fun _ _ => True) (.init isMine) s ∧ p s = true :=
  exists_run_free _ _ ls p h

end Nigrains
