import Nigrains.Conformance

/-!
# What a runtime has been taught

`register` is called any number of times, by a host that may go on when it has raised. It refuses a
class that the runtime cannot hold, and a name that has been registered before, and writes nothing
then. So each name answers for ever with the first class that was registered under it and that the
runtime can hold, and with the factory that came with that class (`registered_first`).
-/

set_option linter.unusedSectionVars false

namespace Nigrains

variable {α : Type*} [DecidableEq α]

/-- A call of `register`. -/
structure Registration (α : Type*) where
  grain : GrainClass α
  factory : Option (GrainId → Except Exc Grain)

/-- What `register` writes, and what it looks at of the runtime. -/
structure Registry (α : Type*) where
  factories : OrderedDict String (GrainId → Except Exc Grain)
  kinds : OrderedDict String (GrainClass α)
  /-- Whether there is a state store. -/
  state : Bool
  /-- Whether there is a cluster. -/
  cluster : Bool

/-- A class that a runtime can hold. -/
def GrainClass.Admissible (cls : GrainClass α) (state cluster : Bool) : Prop :=
  cls.grainType ≠ "" ∧ 0 ≤ cls.activationsPerKey ∧ (cls.persistent = true → state = true) ∧
    (cluster = true → cls.toleratesDoubleActivation = true)

instance {cls : GrainClass α} {state cluster : Bool} :
    Decidable (cls.Admissible state cluster) :=
  inferInstanceAs (Decidable (_ ∧ _))

variable (reprStr : String → String) (construct : GrainClass α → GrainId → Except Exc Grain)

namespace Registry

/-- A runtime that has been taught nothing. -/
def init (state cluster : Bool) : Registry α :=
  ⟨∅, ∅, state, cluster⟩

/-- `register`. The class itself is the factory if there is none, and calling it is `construct`. -/
def register (r : Registry α) (x : Registration α) : Except Raised (Registry α) :=
  match Nigrains.register reprStr x.grain r.factories.keyList r.state r.cluster with
  | .error e => .error e
  | .ok () => .ok { r with
      factories := r.factories.set x.grain.grainType (x.factory.getD (construct x.grain))
      kinds := r.kinds.set x.grain.grainType x.grain }

/-- The runtime after a call of `register`, whether it has raised or not. -/
def attempt (r : Registry α) (x : Registration α) : Registry α :=
  match r.register reprStr construct x with
  | .error _ => r
  | .ok r' => r'

/-- The runtime after any number of them. -/
def after (r : Registry α) (xs : List (Registration α)) : Registry α :=
  xs.foldl (attempt reprStr construct) r

/-- What the runtime goes by when it is called. -/
def config (r : Registry α) (cfg : Config) : Config :=
  { cfg with
    state := r.state
    kinds := fun name => (r.kinds.get name).map fun cls => ⟨cls.activationsPerKey.toNat⟩
    factories := r.factories.get }

end Registry

/-- Whether a call of `register` is for a name and a class that a runtime can hold. -/
def Registration.names (name : String) (state cluster : Bool) (x : Registration α) : Bool :=
  decide (x.grain.grainType = name ∧ x.grain.Admissible state cluster)

section

variable {reprStr : String → String} {construct : GrainClass α → GrainId → Except Exc Grain}
  {r : Registry α} {x : Registration α} {name : String}

theorem register_eq_ok {cls : GrainClass α} {registered : List String} {state cluster : Bool} :
    register reprStr cls registered state cluster = .ok () ↔
      cls.Admissible state cluster ∧ cls.grainType ∉ registered := by
  unfold register GrainClass.Admissible
  split_ifs <;> simp_all [not_lt]

/-- A name that has a factory has a kind. -/
def Registry.Paired (r : Registry α) : Prop :=
  ∀ name, r.kinds.get name = none ↔ r.factories.get name = none

/-- A call of `register` that is refused writes nothing, and another one adds its name. -/
theorem attempt_eq : r.attempt reprStr construct x =
    if x.grain.Admissible r.state r.cluster ∧ r.factories.get x.grain.grainType = none then
      { r with
        factories := r.factories.set x.grain.grainType (x.factory.getD (construct x.grain))
        kinds := r.kinds.set x.grain.grainType x.grain }
    else r := by
  have hkeys : x.grain.grainType ∉ r.factories.keyList ↔
      r.factories.get x.grain.grainType = none := by
    rw [OrderedDict.mem_keyList, ← Option.isSome_iff_exists, Bool.not_eq_true,
      Option.isSome_eq_false_iff, Option.isNone_iff_eq_none]
  have hok : Nigrains.register reprStr x.grain r.factories.keyList r.state r.cluster = .ok () ↔
      x.grain.Admissible r.state r.cluster ∧ r.factories.get x.grain.grainType = none :=
    register_eq_ok.trans (and_congr_right fun _ => hkeys)
  unfold Registry.attempt Registry.register
  cases hregister : Nigrains.register reprStr x.grain r.factories.keyList r.state r.cluster with
  | error e =>
    rw [hregister] at hok
    rw [if_neg fun h => by cases hok.2 h]
  | ok u => rw [if_pos (hok.1 hregister)]

theorem Registry.Paired.attempt (hr : r.Paired) : (r.attempt reprStr construct x).Paired := by
  intro name
  rw [attempt_eq]
  split_ifs
  · simp only [OrderedDict.get_set]
    split_ifs
    · simp
    · exact hr name
  · exact hr name

/-- What a name answers with after a call of `register` : what it did, or what comes with the
call. -/
theorem get_attempt (hr : r.Paired) (x : Registration α) (name : String) :
    (r.attempt reprStr construct x).kinds.get name = (r.kinds.get name).or
      (if x.names name r.state r.cluster then some x.grain else none) ∧
    (r.attempt reprStr construct x).factories.get name = (r.factories.get name).or
      (if x.names name r.state r.cluster then some (x.factory.getD (construct x.grain))
        else none) := by
  rw [attempt_eq]
  by_cases hname : x.grain.grainType = name
  · subst hname
    cases hget : r.factories.get x.grain.grainType with
    | none =>
      rw [(hr _).2 hget]
      by_cases hcls : x.grain.Admissible r.state r.cluster
      · simp [Registration.names, hcls, OrderedDict.get_set]
      · simp [Registration.names, hcls, hget, (hr _).2 hget]
    | some factory =>
      obtain ⟨cls, hkind⟩ : ∃ cls, r.kinds.get x.grain.grainType = some cls :=
        Option.ne_none_iff_exists'.1 fun h => by simp [(hr _).1 h] at hget
      simp [hget, hkind]
  · have hnames : x.names name r.state r.cluster = false := by
      simp [Registration.names, hname]
    simp only [hnames, Bool.false_eq_true, if_false, Option.or_none]
    split_ifs <;> simp [OrderedDict.get_set, Ne.symm hname]

theorem after_eq (xs : List (Registration α)) (hr : r.Paired) :
    (r.after reprStr construct xs).kinds.get name = (r.kinds.get name).or
      ((xs.find? (Registration.names name r.state r.cluster)).map (·.grain)) ∧
    (r.after reprStr construct xs).factories.get name = (r.factories.get name).or
      ((xs.find? (Registration.names name r.state r.cluster)).map fun x =>
        x.factory.getD (construct x.grain)) := by
  induction xs generalizing r with
  | nil => simp [Registry.after]
  | cons x xs ih =>
    have hsame : (r.attempt reprStr construct x).state = r.state ∧
        (r.attempt reprStr construct x).cluster = r.cluster := by
      rw [attempt_eq]
      split_ifs <;> exact ⟨rfl, rfl⟩
    obtain ⟨hkinds, hfactories⟩ := ih hr.attempt
    obtain ⟨hkind, hfactory⟩ := get_attempt hr x name
    rw [hsame.1, hsame.2] at hkinds hfactories
    rw [List.find?_cons]
    show ((r.attempt reprStr construct x).after reprStr construct xs).kinds.get name = _ ∧
      ((r.attempt reprStr construct x).after reprStr construct xs).factories.get name = _
    rw [hkinds, hfactories, hkind, hfactory]
    cases x.names name r.state r.cluster <;> simp

theorem get_after_init (state cluster : Bool) (xs : List (Registration α)) :
    ((Registry.init state cluster).after reprStr construct xs).kinds.get name =
      (xs.find? (Registration.names name state cluster)).map (·.grain) ∧
    ((Registry.init state cluster).after reprStr construct xs).factories.get name =
      (xs.find? (Registration.names name state cluster)).map fun x =>
        x.factory.getD (construct x.grain) :=
  after_eq xs fun _ => iff_of_true rfl rfl

/-- After any number of registrations each name answers with the first one of it whose class the
runtime can hold, and with nothing if there was none. -/
theorem registered_first (reprStr : String → String)
    (construct : GrainClass α → GrainId → Except Exc Grain) (state cluster : Bool)
    (xs : List (Registration α)) (name : String) :
    let r := (Registry.init state cluster).after reprStr construct xs
    let first := xs.find? fun x => decide (x.grain.grainType = name ∧
      x.grain.Admissible state cluster)
    r.kinds.get name = first.map (·.grain) ∧
      r.factories.get name = first.map fun x => x.factory.getD (construct x.grain) :=
  get_after_init state cluster xs

end

end Nigrains
