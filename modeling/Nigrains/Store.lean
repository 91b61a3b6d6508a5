import Mathlib
import Nigrains.Grain
import Nigrains.OrderedDict

/-!
# State a grain keeps somewhere else

`InMemoryStateStore` is a dictionary of rows with a counter, and a row's version is the
counter written out, so no two writes of one store give the same version. `GrainState` is
the handle an activation holds : what it last read or saved, and the version of that.

`Any` is `Option δ` : Python's `None`, or an object of the grain's own.
-/

namespace Nigrains

/-- An opaque token naming one version of one grain's state. -/
abbrev Version := String

/-- What a store hands back. -/
structure Stored (δ : Type*) where
  data : Option δ
  version : Version
deriving DecidableEq, Repr

/-- Somebody else wrote this state since it was read. -/
structure ConcurrentChange where
  grain : String
  expected : Option Version
  found : Option Version
deriving DecidableEq, Repr

/-- The message of a `ConcurrentChange`, given how Python writes a version or `None`. -/
def ConcurrentChange.message (write : Option Version → String) (e : ConcurrentChange) : String :=
  "state of " ++ e.grain ++ " changed under a write: expected " ++ write e.expected ++
    ", found " ++ write e.found

/-- A store in a dictionary. -/
structure InMemoryStateStore (δ : Type*) where
  rows : OrderedDict GrainId (Stored δ)
  next : ℕ

namespace InMemoryStateStore

variable {δ : Type*}

/-- `__init__`. -/
def init : InMemoryStateStore δ :=
  ⟨∅, 0⟩

/-- Reads a grain's state. -/
def read (store : InMemoryStateStore δ) (grainId : GrainId) : Option (Stored δ) :=
  store.rows.get grainId

/-- The version that is there, or `None`. -/
def found (store : InMemoryStateStore δ) (grainId : GrainId) : Option Version :=
  (store.rows.get grainId).map Stored.version

/-- Writes a grain's state, if the version still matches. -/
def write (store : InMemoryStateStore δ) (grainId : GrainId) (data : Option δ)
    (expected : Option Version) : Except ConcurrentChange (Version × InMemoryStateStore δ) :=
  if store.found grainId ≠ expected then
    .error ⟨grainId.str, expected, store.found grainId⟩
  else
    let stored : Stored δ := ⟨data, toString (store.next + 1)⟩
    .ok (stored.version, ⟨store.rows.set grainId stored, store.next + 1⟩)

/-- Removes a grain's state, if the version still matches. -/
def delete (store : InMemoryStateStore δ) (grainId : GrainId) (expected : Option Version) :
    Except ConcurrentChange (InMemoryStateStore δ) :=
  if store.found grainId ≠ expected then
    .error ⟨grainId.str, expected, store.found grainId⟩
  else
    .ok { store with rows := store.rows.pop grainId }

variable {store store' : InMemoryStateStore δ} {g g' : GrainId} {data : Option δ}
  {expected : Option Version} {v : Version}

theorem found_eq : store.found g = (store.read g).map Stored.version := rfl

/-- A write that succeeds found the version it expected, and leaves a row of a new one. -/
theorem write_ok (h : store.write g data expected = .ok (v, store')) :
    store.found g = expected ∧ v = toString (store.next + 1) ∧ store'.next = store.next + 1 ∧
      ∀ g', store'.read g' = if g' = g then some ⟨data, v⟩ else store.read g' := by
  unfold write at h
  split at h
  · cases h
  · next hf =>
    obtain ⟨rfl, rfl⟩ := Prod.mk.inj (Except.ok.inj h)
    exact ⟨not_not.1 hf, rfl, rfl, fun g' => OrderedDict.get_set⟩

/-- A removal that succeeds found the version it expected, and leaves no row. -/
theorem delete_ok (h : store.delete g expected = .ok store') :
    store.found g = expected ∧ store'.next = store.next ∧
      ∀ g', store'.read g' = if g' = g then none else store.read g' := by
  unfold delete at h
  split at h
  · cases h
  · next hf =>
    obtain rfl := Except.ok.inj h
    exact ⟨not_not.1 hf, rfl, fun g' => OrderedDict.get_pop⟩

/-- Two counts are written differently. -/
theorem version_injective {m n : ℕ} (h : (toString m : Version) = toString n) : m = n :=
  Nat.repr_injective h

/-- Every version in the store has been given out by one of its writes. -/
def Numbered (store : InMemoryStateStore δ) (version : Option Version) : Prop :=
  ∀ v ∈ version, ∃ n ≤ store.next, v = toString n

theorem Numbered.ne_next {version : Option Version} (h : store.Numbered version) :
    version ≠ some (toString (store.next + 1)) := by
  rintro rfl
  obtain ⟨n, hn, hv⟩ := h _ rfl
  exact absurd (version_injective hv) (by omega)

theorem Numbered.mono {version : Option Version} (h : store.Numbered version)
    (hn : store.next ≤ store'.next) : store'.Numbered version := by
  intro v hv
  obtain ⟨n, hle, rfl⟩ := h v hv
  exact ⟨n, hle.trans hn, rfl⟩

end InMemoryStateStore

/-- One grain's handle on its own state. -/
structure GrainState (δ : Type*) where
  grainId : GrainId
  /-- What was read or saved last, or `None`. -/
  data : Option δ
  /-- The version a save will offer as its expectation. -/
  version : Option Version
deriving DecidableEq, Repr

namespace GrainState

variable {δ : Type*}

/-- `__init__`. -/
def init (grainId : GrainId) (stored : Option (Stored δ)) : GrainState δ where
  grainId := grainId
  data := stored.bind Stored.data
  version := stored.map Stored.version

/-- Writes, if nobody else has written since this was read. -/
def save (self : GrainState δ) (store : InMemoryStateStore δ) (data : Option δ) :
    Except ConcurrentChange (GrainState δ × InMemoryStateStore δ) :=
  match store.write self.grainId data self.version with
  | .error e => .error e
  | .ok (version, store') => .ok ({ self with data := data, version := some version }, store')

/-- Reads again, taking whatever is there now. -/
def reload (self : GrainState δ) (store : InMemoryStateStore δ) : GrainState δ :=
  let stored := store.read self.grainId
  { self with data := stored.bind Stored.data, version := stored.map Stored.version }

/-- Removes the state, if nobody else has changed it. -/
def clear (self : GrainState δ) (store : InMemoryStateStore δ) :
    Except ConcurrentChange (GrainState δ × InMemoryStateStore δ) :=
  match store.delete self.grainId self.version with
  | .error e => .error e
  | .ok store' => .ok ({ self with data := none, version := none }, store')

end GrainState

end Nigrains
