import Nigrains.Reminders
import Nigrains.Transition

/-!
# Scanning for due reminders

Runtimes that share one reminder store. A `Scan` is one execution of `fire_due_reminders`,
the background scanner's or somebody else's, and there may be any number of them on one node.
A scan reads the rows that are due, and walks them : it moves each row of its own node on, or
drops it, and awaits a call of the grain before it goes to the next. Meanwhile grains ask for
reminders and cancel them, clocks advance, and the membership changes. What a call does between
the scan's `call` and the start of `on_reminder` is not modelled, only that it takes its time
and may raise.
-/

namespace Nigrains

/-- A scan, by the order in which they began. -/
abbrev ScanId := ℕ

/-- Where `fire_due_reminders` stands. -/
inductive ScanAt
  /-- At the head of its loop, with the rows it has read and not come to. -/
  | walking (rest : List Row)
  /-- Awaiting a call whose handler has not started. -/
  | calling (row : Row) (rest : List Row)
  /-- Awaiting a call whose handler has. -/
  | handling (row : Row) (rest : List Row)
  | ended
deriving DecidableEq

namespace ScanAt

/-- The rows a scan has not come to. -/
def pending : ScanAt → List Row
  | walking rest => rest
  | calling _ rest => rest
  | handling _ rest => rest
  | ended => []

/-- The rows a scan has read and not started the handler of. -/
def unstarted : ScanAt → List Row
  | calling row rest => row :: rest
  | pc => pc.pending

end ScanAt

/-- One execution of `fire_due_reminders`. -/
structure Scan where
  node : NodeId
  pc : ScanAt
  fired : ℕ

/-- What has happened to the reminders. -/
inductive ReminderEvent
  /-- A reminder was asked for, with its interval. -/
  | asked (key : ReminderKey) (interval : Option Time)
  | cancelled (key : ReminderKey)
  /-- A scan has read the rows that are due. -/
  | read (node : NodeId) (rows : List Row)
  /-- A scan has moved a row on, or dropped it, and calls its grain. -/
  | called (row : Row)
  /-- The handler starts. -/
  | started (row : Row)
  /-- Some node sees another membership. -/
  | regrouped
deriving DecidableEq

/-- Runtimes that share one reminder store. -/
structure Fleet where
  reminders : InMemoryReminderStore
  /-- What each node's clock reads. -/
  clock : NodeId → Time
  /-- What `is_mine` answers by the membership as a node now sees it, or none if that is empty
  and it raises. -/
  isMine : NodeId → GrainId → Option Bool
  scans : ScanId → Scan
  /-- How many scans have begun. -/
  begun : ℕ
  /-- What has happened, the latest first. -/
  log : List ReminderEvent

namespace Fleet

/-- A fleet with an empty store, before any scan. -/
def init (isMine : NodeId → GrainId → Option Bool) : Fleet where
  reminders := .init
  clock := fun _ => 0
  isMine := isMine
  scans := fun _ => ⟨"", .ended, 0⟩
  begun := 0
  log := []

/-- Write to one scan. -/
def setScan (s : Fleet) (i : ScanId) (scan : Scan) : Fleet :=
  { s with scans := Function.update s.scans i scan }

/-- A scan goes to `pc`. -/
def setPc (s : Fleet) (i : ScanId) (pc : ScanAt) : Fleet :=
  s.setScan i { s.scans i with pc := pc }

/-- A reminder is written for its grain. -/
def ask (s : Fleet) (reminder : Reminder) : Fleet :=
  { s with
    reminders := s.reminders.put reminder
    log := .asked reminder.key reminder.interval :: s.log }

/-- A reminder is cancelled. -/
def cancel (s : Fleet) (grain : GrainId) (name : String) : Fleet :=
  { s with
    reminders := s.reminders.drop grain name
    log := .cancelled (grain, name) :: s.log }

/-- `self._reminders.due(self._clock())`, in a new scan. -/
def read (s : Fleet) (node : NodeId) : Fleet :=
  let rows := s.reminders.due (s.clock node)
  { s.setScan s.begun ⟨node, .walking rows, 0⟩ with
    begun := s.begun + 1
    log := .read node rows :: s.log }

end Fleet

/-- What a scan does to the store before it fires a row. -/
def InMemoryReminderStore.reschedule (store : InMemoryReminderStore) (now : Time) (row : Row) :
    InMemoryReminderStore :=
  match row.interval with
  | none => store.drop row.grain row.name
  | some interval => store.put { row.toReminder with due := Double.add now interval }

/-- A reschedule writes nothing but what its row says, under the key of the row. -/
theorem get_reschedule {store : InMemoryReminderStore} {now : Time} {row row' : Row}
    {key : ReminderKey} (h : (store.reschedule now row).rows.get key = some row') :
    (key = row.key ∧ row'.key = key ∧ row'.interval = row.interval ∧ row'.stamp = store.written ∧
      store.written < (store.reschedule now row).written) ∨
    (key ≠ row.key ∧ store.rows.get key = some row') := by
  unfold InMemoryReminderStore.reschedule at h
  split at h
  · rw [InMemoryReminderStore.get_drop] at h
    split_ifs at h with hkey
    exact .inr ⟨hkey, h⟩
  · next interval hinterval =>
    rw [InMemoryReminderStore.get_put] at h
    split_ifs at h with hkey
    · obtain rfl := Option.some.inj h
      refine .inl ⟨hkey, hkey.symm, rfl, rfl, ?_⟩
      simp [InMemoryReminderStore.reschedule, hinterval, InMemoryReminderStore.put]
    · exact .inr ⟨hkey, h⟩

/-- No write is forgotten. -/
theorem written_le_reschedule (store : InMemoryReminderStore) (now : Time) (row : Row) :
    store.written ≤ (store.reschedule now row).written := by
  unfold InMemoryReminderStore.reschedule
  split
  · exact le_rfl
  · exact Nat.le_succ _

namespace Fleet

/-- A scan fires a row : it reschedules the row and calls its grain. -/
def fire (s : Fleet) (i : ScanId) (row : Row) (rest : List Row) : Fleet :=
  { s.setPc i (.calling row rest) with
    reminders := s.reminders.reschedule (s.clock (s.scans i).node) row
    log := .called row :: s.log }

/-- The loop of `fire_due_reminders`, up to the next await. -/
def walk (s : Fleet) (i : ScanId) : Option Fleet :=
  match (s.scans i).pc with
  | .walking [] => some (s.setPc i .ended)
  | .walking (row :: rest) =>
    match s.isMine (s.scans i).node row.grain with
    | none => some (s.setPc i .ended)
    | some false => some (s.setPc i (.walking rest))
    | some true => some (s.fire i row rest)
  | _ => none

/-- `on_reminder` starts. -/
def start (s : Fleet) (i : ScanId) : Option Fleet :=
  match (s.scans i).pc with
  | .calling row rest => some { s.setPc i (.handling row rest) with log := .started row :: s.log }
  | _ => none

/-- The call a scan awaits has returned, or raised. -/
def finish (s : Fleet) (i : ScanId) (raised : Option Exc) : Option Fleet :=
  match (s.scans i).pc with
  | .calling _ rest | .handling _ rest =>
    if raised.all Exc.isException then
      some (s.setScan i { s.scans i with pc := .walking rest, fired := (s.scans i).fired + 1 })
    else some (s.setPc i .ended)
  | _ => none

end Fleet

/-- What happens next in a fleet. -/
inductive FleetLabel
  | every (node : NodeId) (grain : GrainId) (name : String) (seconds : Time)
  | once (node : NodeId) (grain : GrainId) (name : String) (seconds : Time)
  | cancel (grain : GrainId) (name : String)
  /-- Code that holds the store writes to it. -/
  | put (reminder : Reminder)
  /-- A scan begins. -/
  | scan (node : NodeId)
  | walk (i : ScanId)
  | start (i : ScanId)
  | finish (i : ScanId) (raised : Option Exc)
  | clock (node : NodeId) (seconds : Time)
  | membership (isMine : NodeId → GrainId → Option Bool)

/-- One step of a fleet. -/
def fleetStep (s : Fleet) : FleetLabel → Option Fleet
  | .every node grain name seconds =>
    match GrainReminders.every ⟨grain, s.clock node⟩ s.reminders name seconds with
    | .ok store =>
      some { s with reminders := store, log := .asked (grain, name) (some seconds) :: s.log }
    | .error _ => some s
  | .once node grain name seconds =>
    match GrainReminders.once ⟨grain, s.clock node⟩ s.reminders name seconds with
    | .ok store => some { s with reminders := store, log := .asked (grain, name) none :: s.log }
    | .error _ => some s
  | .cancel grain name => some (s.cancel grain name)
  | .put reminder => some (s.ask reminder)
  | .scan node => some (s.read node)
  | .walk i => if i < s.begun then s.walk i else none
  | .start i => if i < s.begun then s.start i else none
  | .finish i raised => if i < s.begun then s.finish i raised else none
  | .clock node seconds =>
    if 0 ≤ seconds then
      some { s with clock := Function.update s.clock node (s.clock node + seconds) }
    else none
  | .membership isMine => some { s with isMine := isMine, log := .regrouped :: s.log }

/-! ## The kinds of step -/

/-- What a step of a fleet does to its reminders and its scans. -/
inductive FleetStep : Fleet → Fleet → Prop
  | asks {s : Fleet} (reminder : Reminder) : FleetStep s (s.ask reminder)
  | cancels {s : Fleet} (grain : GrainId) (name : String) : FleetStep s (s.cancel grain name)
  | reads {s : Fleet} (node : NodeId) : FleetStep s (s.read node)
  | fires {s : Fleet} (i : ScanId) (row : Row) (rest : List Row) (hi : i < s.begun)
    (hpc : (s.scans i).pc = .walking (row :: rest))
    (hmine : s.isMine (s.scans i).node row.grain = some true) : FleetStep s (s.fire i row rest)
  | starts {s : Fleet} (i : ScanId) (row : Row) (rest : List Row) (hi : i < s.begun)
    (hpc : (s.scans i).pc = .calling row rest) :
    FleetStep s { s.setPc i (.handling row rest) with log := .started row :: s.log }
  /-- A scan goes on, and has read nothing it had not read before. -/
  | moves {s : Fleet} (i : ScanId) (scan : Scan) (hi : i < s.begun)
    (hnode : scan.node = (s.scans i).node)
    (hpending : scan.pc.pending <:+ (s.scans i).pc.pending)
    (hunstarted : scan.pc.unstarted <:+ (s.scans i).pc.unstarted) :
    FleetStep s (s.setScan i scan)
  | regroups {s : Fleet} (isMine : NodeId → GrainId → Option Bool) :
    FleetStep s { s with isMine := isMine, log := .regrouped :: s.log }
  /-- Clocks advance, or nothing changes. -/
  | turns {s : Fleet} (clock : NodeId → Time) : FleetStep s { s with clock := clock }

variable {s s' : Fleet}

theorem fleetStep_cases {l : FleetLabel} (h : fleetStep s l = some s') : FleetStep s s' := by
  cases l with
  | every node grain name seconds =>
    simp only [fleetStep, GrainReminders.every] at h
    split_ifs at h <;> cases h
    · exact .turns s.clock
    · exact .asks ⟨grain, name, Double.add (s.clock node) seconds, some seconds⟩
  | once node grain name seconds =>
    simp only [fleetStep, GrainReminders.once] at h
    split_ifs at h <;> cases h
    · exact .turns s.clock
    · exact .asks ⟨grain, name, Double.add (s.clock node) seconds, none⟩
  | cancel grain name =>
    cases h
    exact .cancels grain name
  | put reminder =>
    cases h
    exact .asks reminder
  | scan node =>
    cases h
    exact .reads node
  | walk i =>
    simp only [fleetStep, Fleet.walk] at h
    split_ifs at h with hi
    split at h
    · next hpc =>
      cases h
      exact .moves i _ hi rfl (List.nil_suffix) (List.nil_suffix)
    · next row rest hpc =>
      split at h <;> cases h
      · exact .moves i _ hi rfl List.nil_suffix List.nil_suffix
      · refine .moves i _ hi rfl ?_ ?_ <;> simp only [hpc] <;> exact List.suffix_cons row rest
      · next hmine => exact .fires i row rest hi hpc hmine
    · cases h
  | start i =>
    simp only [fleetStep, Fleet.start] at h
    split_ifs at h with hi
    split at h <;> cases h
    next row rest hpc => exact .starts i row rest hi hpc
  | finish i raised =>
    simp only [fleetStep, Fleet.finish] at h
    split_ifs at h with hi hraised
    · split at h
      · next row rest hpc =>
        cases h
        refine .moves i _ hi rfl ?_ ?_ <;> simp only [hpc]
        · exact List.suffix_refl rest
        · exact List.suffix_cons row rest
      · next row rest hpc =>
        cases h
        refine .moves i _ hi rfl ?_ ?_ <;> simp only [hpc] <;> exact List.suffix_refl rest
      · cases h
    · split at h <;> cases h
      all_goals exact .moves i _ hi rfl List.nil_suffix List.nil_suffix
  | clock node seconds =>
    simp only [fleetStep] at h
    split_ifs at h
    cases h
    exact .turns _
  | membership isMine =>
    cases h
    exact .regroups isMine

end Nigrains
