import Nigrains.Wire
import Mathlib.Logic.Function.Iterate

/-!
# What an exception has become when it arrives

`Thrown` is an exception object, and `crossed` the one a caller gets when it has crossed from one
node to another. What crosses is a name and a text. An exception whose class has one of the names
of `_REBUILDABLE` arrives as of that class, whatever class it was, without the attributes that
the constructor of that class would have set (`crosses_iff`); any other arrives as a `RemoteError`.

A `RemoteError` is of no such class itself. One that crosses again arrives as a `RemoteError`
about a `RemoteError`, whose text is longer by one more name each time (`hops_iff`).
-/

set_option linter.unusedSectionVars false

namespace Nigrains

/-- The exceptions that both ends know. -/
inductive PackageError
  | deadlineExceeded
  | concurrentChange
  | noSuchGrainMethodError
  | grainNotRegisteredError
deriving DecidableEq, Repr

namespace PackageError

def name : PackageError → Str
  | deadlineExceeded => "DeadlineExceeded"
  | concurrentChange => "ConcurrentChange"
  | noSuchGrainMethodError => "NoSuchGrainMethodError"
  | grainNotRegisteredError => "GrainNotRegisteredError"

/-- `_REBUILDABLE.get(name)`. -/
def ofName (name : Str) : Option PackageError :=
  [deadlineExceeded, concurrentChange, noSuchGrainMethodError, grainNotRegisteredError].find?
    fun c => c.name = name

/-- The attributes that the class documents, or sets. -/
def attributes : PackageError → List String
  | deadlineExceeded => ["grain", "method"]
  | concurrentChange => ["grain", "expected", "found"]
  | noSuchGrainMethodError => ["grain", "method"]
  | grainNotRegisteredError => ["grain_type"]

end PackageError

/-- A class of exceptions. -/
inductive ErrorClass
  | package (c : PackageError)
  | remoteError
  /-- A class of that name which is none of these. -/
  | other (name : Str)
deriving DecidableEq, Repr

/-- `cls.__name__`. -/
def ErrorClass.name : ErrorClass → Str
  | package c => c.name
  | remoteError => "RemoteError"
  | other name => name

/-- An exception object. -/
structure Thrown (φ : Type*) where
  cls : ErrorClass
  /-- `str` of it. -/
  text : Str
  /-- What its constructor, or anybody else, has set on it. -/
  attributes : List (String × Value φ)

namespace Thrown

variable {φ : Type*} [DecidableEq φ]

/-- `getattr`, or nothing if that raises. -/
def getattr (e : Thrown φ) (name : String) : Option (Value φ) :=
  e.attributes.lookup name

/-- What `failure_to_wire` reads off it. -/
def failure (e : Thrown φ) : Failure :=
  ⟨e.cls.name, e.text⟩

/-- `RemoteError(type_name, message)`. -/
def remoteError (typeName message : Str) : Thrown φ where
  cls := .remoteError
  text := typeName ++ ": " ++ message
  attributes := [("type_name", .str typeName), ("message", .str message)]

/-- `known.__new__(known)`, given its message by `BaseException`. -/
def rebuilt (c : PackageError) (message : Str) : Thrown φ where
  cls := .package c
  text := message
  attributes := []

end Thrown

variable {φ : Type*} [DecidableEq φ]

/-- The exception that `failure_from_wire` returns. -/
def Rebuilt.thrown : Rebuilt → Thrown φ
  | known name message =>
    match PackageError.ofName name with
    | some c => .rebuilt c message
    -- a name that is known is one of the four
    | none => .remoteError name message
  | remoteError typeName message => .remoteError typeName message

/-- What arrives where an exception has crossed to. -/
def Thrown.crossed (e : Thrown φ) : Thrown φ :=
  (failureFromWire (failureToWire e.failure : Value φ)).thrown

theorem PackageError.ofName_eq_some {name : Str} {c : PackageError} :
    ofName name = some c ↔ c.name = name := by
  constructor
  · intro h
    unfold ofName at h
    simpa using List.find?_some h
  · rintro rfl
    cases c <;> rfl

theorem mem_rebuildable {name : Str} :
    name ∈ rebuildable ↔ ∃ c : PackageError, c.name = name := by
  constructor
  · intro h
    simp only [rebuildable, List.mem_cons, List.not_mem_nil, or_false] at h
    rcases h with rfl | rfl | rfl | rfl
    · exact ⟨.deadlineExceeded, rfl⟩
    · exact ⟨.concurrentChange, rfl⟩
    · exact ⟨.noSuchGrainMethodError, rfl⟩
    · exact ⟨.grainNotRegisteredError, rfl⟩
  · rintro ⟨c, rfl⟩
    cases c <;> simp [rebuildable, PackageError.name]

namespace Thrown

/-- An exception whose class has the name of one of the package's arrives as of that one. -/
theorem crossed_of_name {e : Thrown φ} {c : PackageError} (h : c.name = e.cls.name) :
    e.crossed = rebuilt c e.text := by
  unfold crossed
  rw [failureFromWire_failureToWire,
    if_pos (show e.failure.type ∈ rebuildable from mem_rebuildable.2 ⟨c, h⟩)]
  simp only [failure, Rebuilt.thrown, PackageError.ofName_eq_some.2 h]

/-- Any other arrives wrapped. -/
theorem crossed_of_notMem {e : Thrown φ} (h : e.cls.name ∉ rebuildable) :
    e.crossed = remoteError e.cls.name e.text := by
  unfold crossed
  rw [failureFromWire_failureToWire, if_neg (show e.failure.type ∉ rebuildable from h)]
  rfl

/-! ## As itself, or wrapped -/

/-- A package's own exception arrives with its class, its text and the attributes of that class,
and any other in a `RemoteError` that says what it was. -/
def Crosses (e : Thrown φ) : Prop :=
  match e.cls with
  | .package c => e.crossed.cls = .package c ∧ e.crossed.text = e.text ∧
      ∀ a ∈ c.attributes, e.crossed.getattr a = e.getattr a
  | cls => e.crossed = remoteError cls.name e.text

/-- It has the class of one of the package's exceptions, and none of its attributes, as one that
has crossed before; or it has a name that none of these has. -/
def Bare (e : Thrown φ) : Prop :=
  match e.cls with
  | .package c => ∀ a ∈ c.attributes, e.getattr a = none
  | cls => cls.name ∉ rebuildable

theorem rebuilt_ne_remoteError (c : PackageError) (text typeName message : Str) :
    (rebuilt c text : Thrown φ) ≠ remoteError typeName message := by
  intro h
  cases congrArg Thrown.cls h

/-- A class that is not the package's is wrapped exactly if it has a name of its own. -/
theorem crossed_eq_remoteError_iff {e : Thrown φ} :
    e.crossed = remoteError e.cls.name e.text ↔ e.cls.name ∉ rebuildable := by
  constructor
  · intro h hmem
    obtain ⟨c, hc⟩ := mem_rebuildable.1 hmem
    rw [crossed_of_name hc] at h
    exact rebuilt_ne_remoteError _ _ _ _ h
  · exact crossed_of_notMem

/-- For every exception : a package's own arrives as it was, and any other wrapped, exactly if it
has no attribute to lose, or no name of the package's. -/
theorem crosses_iff (e : Thrown φ) : e.Crosses ↔ e.Bare := by
  obtain ⟨cls, text, attributes⟩ := e
  cases cls with
  | package c =>
    have hcrossed := crossed_of_name (e := ⟨.package c, text, attributes⟩) (c := c) rfl
    unfold Crosses Bare
    rw [hcrossed]
    constructor
    · rintro ⟨-, -, h⟩ a ha
      exact (h a ha).symm
    · exact fun h => ⟨rfl, rfl, fun a ha => (h a ha).symm⟩
  | remoteError | other name => exact crossed_eq_remoteError_iff

/-- What the constructors of the package make. `r` is `repr` of a string. -/
inductive Made (r : Str → Str) : PackageError → Thrown φ → Prop
  | deadlineExceeded (grain method : Str) :
    Made r .deadlineExceeded ⟨.package .deadlineExceeded,
      "deadline exceeded calling " ++ r method ++ " on " ++ grain,
      [("grain", .str grain), ("method", .str method)]⟩
  | concurrentChange (grain : Str) (expected found : Option Str) :
    Made r .concurrentChange ⟨.package .concurrentChange,
      "state of " ++ grain ++ " changed under a write: expected " ++ (expected.map r).getD "None" ++
        ", found " ++ (found.map r).getD "None",
      [("grain", .str grain), ("expected", (expected.map .str).getD .none),
        ("found", (found.map .str).getD .none)]⟩
  | noSuchGrainMethodError (grain method : Str) :
    Made r .noSuchGrainMethodError ⟨.package .noSuchGrainMethodError,
      grain ++ " has no callable method " ++ r method,
      [("grain", .str grain), ("method", .str method)]⟩
  | grainNotRegisteredError (grainType : Str) :
    Made r .grainNotRegisteredError ⟨.package .grainNotRegisteredError,
      "no grain type registered as " ++ r grainType, [("grain_type", .str grainType)]⟩

/-- Every exception that a constructor of the package has made loses all it was made with. -/
theorem Made.not_crosses {r : Str → Str} {c : PackageError} {e : Thrown φ}
    (h : Made r c e) : ¬ e.Crosses := by
  rw [crosses_iff]
  unfold Bare
  cases h <;> simp [PackageError.attributes, getattr]

/-- A write that lost a race, and an application's class of the same name. -/
theorem not_crosses_concurrentChange :
    ¬ (⟨.package .concurrentChange,
      "state of adder/k0 changed under a write: expected '1', found '2'",
      [("grain", .str "adder/k0"), ("expected", .str "1"), ("found", .str "2")]⟩ :
        Thrown ℚ).Crosses ∧
    ¬ (⟨.other "ConcurrentChange", "mine", []⟩ : Thrown ℚ).Crosses := by
  constructor
  · rintro ⟨-, -, h⟩
    cases h "grain" (by simp [PackageError.attributes])
  · intro h
    cases congrArg Thrown.cls h

/-! ## Over any number of hops -/

/-- They have the same class, the same name and the same message. -/
def Alike (e e' : Thrown φ) : Prop :=
  e.cls = e'.cls ∧ e.text = e'.text ∧ e.getattr "type_name" = e'.getattr "type_name" ∧
    e.getattr "message" = e'.getattr "message"

theorem crossed_rebuilt (c : PackageError) (text : Str) :
    (rebuilt c text : Thrown φ).crossed = rebuilt c text :=
  crossed_of_name rfl

theorem crossed_remoteError (typeName message : Str) :
    (remoteError typeName message : Thrown φ).crossed =
      remoteError "RemoteError" (typeName ++ ": " ++ message) :=
  crossed_of_notMem (by simp [remoteError, ErrorClass.name, rebuildable])

/-- The text of a `RemoteError` grows by a name each time it crosses. -/
theorem length_iterate_crossed (n : ℕ) : ∀ typeName message : Str,
    (crossed^[n] (remoteError typeName message : Thrown φ)).text.length =
      (remoteError typeName message : Thrown φ).text.length + 13 * n := by
  induction n with
  | zero => exact fun _ _ => rfl
  | succ n ih =>
    intro typeName message
    have hname : Str.length "RemoteError" = 11 := rfl
    have hcolon : Str.length ": " = 2 := rfl
    rw [Function.iterate_succ_apply, crossed_remoteError, ih]
    simp only [remoteError, Str.length_append, hname, hcolon]
    omega

/-- For every exception and any number of hops : who is `n + 1` hops away gets what a caller one
hop away would exactly if there is one hop, or the class has the name of one of the package's. -/
theorem hops_iff (n : ℕ) (e : Thrown φ) :
    Alike (crossed^[n + 1] e) e.crossed ↔ n = 0 ∨ e.cls.name ∈ rebuildable := by
  rw [Function.iterate_succ_apply]
  by_cases hmem : e.cls.name ∈ rebuildable
  · obtain ⟨c, hc⟩ := mem_rebuildable.1 hmem
    rw [crossed_of_name hc, Function.iterate_fixed (crossed_rebuilt c e.text)]
    exact iff_of_true ⟨rfl, rfl, rfl, rfl⟩ (.inr hmem)
  · rw [crossed_of_notMem hmem]
    constructor
    · rintro ⟨-, htext, -⟩
      have hlength : (crossed^[n] (remoteError e.cls.name e.text : Thrown φ)).text.length = _ :=
        length_iterate_crossed n e.cls.name e.text
      rw [htext] at hlength
      left
      omega
    · rintro (rfl | h)
      · exact ⟨rfl, rfl, rfl, rfl⟩
      · exact (hmem h).elim

/-- A `ValueError` two hops away : the name is the wrapper's, and the message has its own name
in it. -/
theorem not_alike_two : ¬ Alike
    (crossed^[2] (⟨.other "ValueError", "something of my own", []⟩ : Thrown ℚ))
    (crossed ⟨.other "ValueError", "something of my own", []⟩) ∧
    (crossed^[2] (⟨.other "ValueError", "something of my own", []⟩ : Thrown ℚ)).getattr
      "type_name" =
      some (.str "RemoteError") ∧
    (crossed^[2] (⟨.other "ValueError", "something of my own", []⟩ : Thrown ℚ)).getattr "message" =
      some (.str "ValueError: something of my own") := by
  have hfirst : crossed (⟨.other "ValueError", "something of my own", []⟩ : Thrown ℚ) =
      remoteError "ValueError" "something of my own" :=
    crossed_of_notMem (by simp [ErrorClass.name, rebuildable])
  have hsecond : crossed^[2] (⟨.other "ValueError", "something of my own", []⟩ : Thrown ℚ) =
      remoteError "RemoteError" "ValueError: something of my own" := by
    rw [Function.iterate_succ_apply, hfirst]
    exact crossed_remoteError _ _
  rw [hfirst, hsecond]
  refine ⟨?_, rfl, rfl⟩
  rintro ⟨-, h, -⟩
  exact absurd h (by decide)

end Thrown

end Nigrains
