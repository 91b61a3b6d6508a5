import Nigrains.Doubles
import Nigrains.Grain
import Nigrains.OrderedDict

/-!
# Reminders and where they are kept

A reminder is written by the grain that asks for it, and read by the scans of every runtime
that shares the store. `InMemoryReminderStore` is a dictionary of rows, keyed by grain and
name. What `due` returns are the rows themselves, not copies, so a row has an identity that
outlives its place in the store : `Row.stamp`, the number of the write that put it there.
Nothing in the program reads it. When a reminder is due next is a sum of floats, and rounded as
floats are.
-/

namespace Nigrains

/-- One thing a grain asked to be woken for. -/
structure Reminder where
  grain : GrainId
  name : String
  due : Time
  /-- The seconds until the next one, or none for a reminder that fires once. -/
  interval : Option Time
deriving DecidableEq, Repr

/-- The key that makes scheduling idempotent. -/
abbrev ReminderKey := GrainId × String

/-- The key of a reminder. -/
def Reminder.key (reminder : Reminder) : ReminderKey :=
  (reminder.grain, reminder.name)

/-- A reminder as it was written. -/
structure Row extends Reminder where
  stamp : ℕ
deriving DecidableEq, Repr

/-- Reminders in a dictionary. -/
structure InMemoryReminderStore where
  rows : OrderedDict ReminderKey Row
  /-- How many writes there have been. -/
  written : ℕ

namespace InMemoryReminderStore

/-- `__init__`. -/
def init : InMemoryReminderStore :=
  ⟨∅, 0⟩

/-- Writes a reminder, replacing one of the same name. -/
def put (store : InMemoryReminderStore) (reminder : Reminder) : InMemoryReminderStore where
  rows := store.rows.set reminder.key ⟨reminder, store.written⟩
  written := store.written + 1

/-- Removes a reminder. -/
def drop (store : InMemoryReminderStore) (grain : GrainId) (name : String) :
    InMemoryReminderStore :=
  { store with rows := store.rows.pop (grain, name) }

/-- Every row. -/
def values (store : InMemoryReminderStore) : List Row :=
  store.rows.items.map Prod.snd

/-- Returns everything due at or before a moment. -/
def due (store : InMemoryReminderStore) (before : Time) : List Row :=
  store.values.filter fun row => row.due ≤ before

/-- Returns one grain's reminders. -/
def listed (store : InMemoryReminderStore) (grain : GrainId) : List Row :=
  store.values.filter fun row => row.grain = grain

variable {store : InMemoryReminderStore} {key : ReminderKey} {reminder : Reminder} {row : Row}

/-- What a key holds after a write. -/
theorem get_put : (store.put reminder).rows.get key =
    if key = reminder.key then some ⟨reminder, store.written⟩ else store.rows.get key :=
  OrderedDict.get_set

/-- What a key holds after a removal. -/
theorem get_drop {grain : GrainId} {name : String} : (store.drop grain name).rows.get key =
    if key = (grain, name) then none else store.rows.get key :=
  OrderedDict.get_pop

theorem mem_values : row ∈ store.values ↔ ∃ key, store.rows.get key = some row := by
  unfold values
  constructor
  · intro h
    obtain ⟨e, he, rfl⟩ := List.mem_map.1 h
    exact ⟨e.1, OrderedDict.mem_items.1 he⟩
  · rintro ⟨key, h⟩
    exact List.mem_map.2 ⟨(key, row), OrderedDict.mem_items.2 h, rfl⟩

/-- What is due is in the store. -/
theorem exists_get_of_due {before : Time} (h : row ∈ store.due before) :
    ∃ key, store.rows.get key = some row :=
  mem_values.1 (List.mem_filter.1 h).1

end InMemoryReminderStore

/-- What a grain's handle on its schedule refuses. -/
inductive ScheduleError
  /-- `every`, with an interval that is not positive. -/
  | neverStops (seconds : Time)
  /-- `once`, with a delay that is not positive. -/
  | alreadyLate (seconds : Time)
deriving DecidableEq, Repr

/-- The message of the `ValueError`, given how a number of seconds is written. -/
def ScheduleError.message (write : Time → String) : ScheduleError → String
  | neverStops seconds => "a reminder every " ++ write seconds ++ "s would never stop firing"
  | alreadyLate seconds => "a reminder in " ++ write seconds ++ "s is already late"

/-- One grain's handle on its own schedule, with what its clock reads. -/
structure GrainReminders where
  grainId : GrainId
  now : Time

namespace GrainReminders

variable (self : GrainReminders) (store : InMemoryReminderStore)

/-- Asks to be woken every so often, from now. -/
def every (name : String) (seconds : Time) : Except ScheduleError InMemoryReminderStore :=
  if seconds ≤ 0 then .error (.neverStops seconds)
  else .ok (store.put ⟨self.grainId, name, Double.add self.now seconds, some seconds⟩)

/-- Asks to be woken once, and then forgotten. -/
def once (name : String) (seconds : Time) : Except ScheduleError InMemoryReminderStore :=
  if seconds ≤ 0 then .error (.alreadyLate seconds)
  else .ok (store.put ⟨self.grainId, name, Double.add self.now seconds, none⟩)

/-- Forgets a reminder. -/
def cancel (name : String) : InMemoryReminderStore :=
  store.drop self.grainId name

/-- Returns this grain's reminders. -/
def listed : List Row :=
  store.listed self.grainId

end GrainReminders

end Nigrains
