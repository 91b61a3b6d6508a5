import Mathlib.Data.Finset.Dedup
import Mathlib.Tactic.Linarith
import Nigrains.Machine
import Nigrains.Overlap

/-!
# The conformance kit

`checkConformance` runs five scenarios against a class of grains, each on runtimes of its own, and
raises unless all of them pass. What it gets to see of those runtimes is a `Seen` : how many
activations a herd built, answers, entries into the grain's methods, what came of a call without
time. `Documented` is what a runtime that behaves as documented may show.

A class that answers by its identity alone can still fail (`no_false_alarm_iff`). The kit's
runtimes have no state store, a herd on a pool builds more than one activation, and the entries
that the kit counts are those of the grain's own calls to itself as well as its callers'.
-/

set_option linter.unusedSectionVars false

namespace Nigrains

variable {α : Type*} [DecidableEq α]

/-! ## Classes of grains -/

/-- A class of grains that asks for no timers, and the one method of it that the kit is given to
exercise. -/
structure GrainClass (α : Type*) where
  /-- `__name__`. -/
  name : String
  grainType : String
  reentrant : Bool
  toleratesDoubleActivation : Bool
  activationsPerKey : ℤ
  persistent : Bool
  /-- The names under which `inspect` finds a coroutine function. -/
  coroutines : List String
  exercised : String
  /-- A reference to the class has it. -/
  reachable : coroutines.contains exercised = true ∧ exercised.startsWith "_" = false
  /-- What `activate` calls of the grain's own methods. -/
  hook : GrainId → Calls
  /-- What the exercised method calls of them, the `n`-th time it runs on an activation. -/
  body : GrainId → ℕ → Calls
  /-- What it answers : who is asked, which activation of it, and for which time. -/
  answer : GrainId → ℕ → ℕ → α

namespace GrainClass

variable (cls : GrainClass α)

/-- Whether `observe` wraps a method. -/
def counted (method : String) : Bool :=
  cls.coroutines.contains method && !method.startsWith "_" && method != "activate" &&
    method != "deactivate"

/-- The subclass that `observe` returns. -/
def observed : GrainClass α :=
  { cls with name := "Observed" ++ cls.name }

/-- The identity a key names. -/
def id (key : String) : GrainId :=
  ⟨cls.grainType, key⟩

/-- What `_runtime` builds : a runtime that holds this class and nothing else. -/
def config : Config where
  idleSeconds := 10 ^ 9
  drainSeconds := 30
  maxActivations := none
  filters := 0
  state := false
  reminders := false
  kinds grainType := if grainType = cls.grainType then some ⟨cls.activationsPerKey.toNat⟩ else none
  factories grainType :=
    if grainType = cls.grainType then
      some fun g => .ok ⟨g, cls.reentrant, cls.persistent, cls.coroutines⟩
    else none

end GrainClass

/-! ## The battery -/

/-- What the kit raises. -/
inductive Raised
  | valueError (text : String)
  | conformanceFailure (scenario detail : String)
  /-- An exception of the exercised call. -/
  | exercise (exc : Exc)
deriving DecidableEq

/-- `Outcome` : what one scenario found. -/
structure Finding where
  scenario : String
  passed : Bool
  note : String
deriving DecidableEq

/-- Everything the battery found. -/
structure Report where
  grain : String
  outcomes : List Finding
deriving DecidableEq

/-- The scenarios that did not hold. -/
def Report.failures (report : Report) : List Finding :=
  report.outcomes.filter fun outcome => !outcome.passed

/-- `__str__`. -/
def Report.str (report : Report) : String :=
  "\n".intercalate (("conformance of " ++ report.grain) :: report.outcomes.map fun outcome =>
    "  " ++ (if outcome.passed then "ok  " else "FAIL") ++ " " ++ outcome.scenario ++ ": " ++
      outcome.note)

/-- What the kit gets to see of its runtimes. -/
structure Seen (α : Type*) where
  /-- `stats.activations` after the herd. -/
  built : ℤ
  /-- The answers before and after a collection, and how many it collected. -/
  before : α
  collected : ℕ
  after : α
  /-- What the wrapped methods of the observed subclass do, in order. -/
  marks : List Mark
  /-- What came of the call without time, and `stats.activations` after it. -/
  spent : Outcome
  activated : ℤ
  /-- The answers of two activations in two runtimes. -/
  first : α
  second : α

section

variable (repr : α → String) (reprStr : String → String) (cls : GrainClass α) (factory : Bool)
  (callers : ℕ) (seen : Seen α)

/-- `register`, of a runtime that knows the types `registered`. -/
def register (registered : List String) (state cluster : Bool) : Except Raised Unit :=
  if cls.grainType = "" then
    .error (.valueError (cls.name ++ " declares no grain_type, so it has no address"))
  else if cls.grainType ∈ registered then
    .error (.valueError ("grain type " ++ reprStr cls.grainType ++ " is already registered"))
  else if cls.activationsPerKey < 0 then
    .error (.valueError (cls.name ++ " asks for a negative number of activations per key"))
  else if cls.persistent = true ∧ state = false then
    .error (.valueError (cls.name ++ " declares persistent and this runtime has no state store"))
  else if cluster = true ∧ cls.toleratesDoubleActivation = false then
    .error (.valueError (cls.name ++ " does not tolerate double activation and this runtime is " ++
      "clustered; set tolerates_double_activation if two of it are harmless, or keep its state " ++
      "where a conflict is detected"))
  else .ok ()

/-- `_runtime`, as far as it can raise. -/
def runtime : Except Raised Unit :=
  register reprStr cls [] false false

/-- `_one_activation_under_a_herd`. -/
def oneActivationUnderAHerd : Except Raised Finding := do
  runtime reprStr cls
  return {
    scenario := "one activation under a herd"
    passed := seen.built == 1
    note := toString callers ++ " callers built " ++ toString seen.built ++ " activation(s)" }

/-- `_the_answer_survives_being_rebuilt`. -/
def theAnswerSurvivesBeingRebuilt : Except Raised Finding := do
  runtime reprStr cls
  if seen.collected = 0 then
    return {
      scenario := "the answer survives being rebuilt"
      passed := true
      note := "nothing was deactivated, so nothing was rebuilt - not checked" }
  else
    return {
      scenario := "the answer survives being rebuilt"
      passed := seen.before == seen.after
      note := "before " ++ repr seen.before ++ ", after " ++ repr seen.after }

/-- `_reentrancy_is_what_the_class_says`. -/
def reentrancyIsWhatTheClassSays : Except Raised Finding := do
  if factory then
    return {
      scenario := "reentrancy is what the class says"
      passed := true
      note := "a factory builds the grain, so this kit cannot watch inside it - not checked" }
  else
    runtime reprStr cls.observed
    let watcher := Overlap.init.watch seen.marks
    if cls.reentrant then
      return {
        scenario := "reentrancy is what the class says"
        passed := true
        note := "declared reentrant; " ++ toString watcher.peak ++
          " caller(s) seen inside at once" ++
          if watcher.peak > 1 then "" else " - too fast to overlap, which proves nothing" }
    else
      return {
        scenario := "reentrancy is what the class says"
        passed := decide (watcher.peak ≤ 1)
        note := "declared serialised; " ++ toString watcher.peak ++
          " caller(s) seen inside at once" }

/-- `_a_spent_deadline_builds_nothing`. -/
def aSpentDeadlineBuildsNothing : Except Raised Finding := do
  runtime reprStr cls
  let refused ← match seen.spent with
    | .error e => if e.isTimeout then .ok true else .error (.exercise e)
    | .ok _ => .ok false
  return {
    scenario := "a spent deadline builds nothing"
    passed := refused && seen.activated == 0
    note := (if refused then "refused" else "ran anyway") ++ ", " ++ toString seen.activated ++
      " activation(s)" }

/-- `_two_activations_agree`. -/
def twoActivationsAgree : Except Raised Finding := do
  if cls.toleratesDoubleActivation then
    runtime reprStr cls
    runtime reprStr cls
    return {
      scenario := "two activations agree"
      passed := seen.first == seen.second
      note := repr seen.first ++ " against " ++ repr seen.second }
  else
    return {
      scenario := "two activations agree"
      passed := true
      note := "the class does not claim to tolerate two, so this is not checked" }

/-- `check_conformance`. -/
def checkConformance : Except Raised Report := do
  let herd ← oneActivationUnderAHerd reprStr cls callers seen
  let rebuilt ← theAnswerSurvivesBeingRebuilt repr reprStr cls seen
  let overlap ← reentrancyIsWhatTheClassSays reprStr cls factory seen
  let spent ← aSpentDeadlineBuildsNothing reprStr cls seen
  let two ← twoActivationsAgree repr reprStr cls seen
  let report : Report := ⟨cls.name, [herd, rebuilt, overlap, spent, two]⟩
  match report.failures with
  | first :: _ =>
    .error (.conformanceFailure first.scenario (first.note ++ "\n\n" ++ report.str))
  | [] => .ok report

/-- Every scenario ends, with a passed outcome. -/
def NoAlarm : Prop :=
  ∃ report, checkConformance repr reprStr cls factory callers seen = .ok report ∧
    report.outcomes.length = 5 ∧ ∀ outcome ∈ report.outcomes, outcome.passed = true

end

/-! ## A runtime that behaves as documented -/

/-- Whom `n` calls in a row are routed to. -/
def routedTo (cfg : Config) (g : GrainId) : ℕ → State → List GrainId
  | 0, _ => []
  | n + 1, s => route cfg s g :: routedTo cfg g n (s.advance cfg g)

/-- A new runtime. -/
def State.fresh (now : Time) : State :=
  { State.init none with now := now }

namespace GrainClass

variable (cls : GrainClass α) (key : String)

/-- Whom `n` calls of the kit reach. -/
def targets (n : ℕ) : List GrainId :=
  routedTo cls.config (cls.id key) n (.init none)

/-- An answer of the class. -/
def Gives (v : α) : Prop :=
  ∃ n, ∃ g ∈ cls.targets key n, ∃ a m, cls.answer g a m = v

/-- The exercised call, when `with deadline(-1.0)` is entered at `asked`. -/
def late (asked : Time) (args kwargs : Obj) : Call :=
  ⟨cls.id key, cls.exercised, args, kwargs, narrowed none (asked + -1)⟩

/-- What the exercised method does. -/
def run (g : GrainId) (n : ℕ) : Calls :=
  .call cls.exercised (cls.body g n) .none

/-- What an activation that serves `n` calls lets the kit count : first `activate`, then the
calls, which overlap only in a reentrant grain. -/
def Shows (g : GrainId) (n : ℕ) (marks : List Mark) : Prop :=
  if cls.reentrant then
    ∃ w, InterleavedAll ((List.range n).map fun k => (cls.run g k).marks cls.counted) w ∧
      marks = (cls.hook g).marks cls.counted ++ w
  else marks = (cls.hook g :: (List.range n).map (cls.run g)).flatMap (Calls.marks cls.counted)

/-- What the kit may see of a runtime that behaves as documented. -/
structure Documented (callers : ℕ) (seen : Seen α) : Prop where
  /-- A herd activates each identity it is routed to, once. -/
  built : seen.built = (cls.targets key callers).dedup.length
  before : cls.Gives key seen.before
  after : cls.Gives key seen.after
  /-- The activations of a herd run side by side. -/
  marks : ∃ ws, List.Forall₂ (fun g w => cls.Shows g ((cls.targets key callers).count g) w)
    (cls.targets key callers).dedup ws ∧ InterleavedAll ws seen.marks
  /-- The late call comes to the runtime, which ends it there and then. -/
  spent : ∃ (asked now : Time) (t : TaskId) (c : Choice) (args kwargs : Obj) (s' : State),
    asked ≤ now ∧ seen.activated = s'.activationsTotal ∧
    exec cls.config (.fresh now) t c
      (callFrame cls.config (cls.late key asked args kwargs) .dispatch) .send =
        some (s', .done seen.spent)
  first : cls.Gives key seen.first
  second : cls.Gives key seen.second

/-- The exercised answer is a function of the identity alone. -/
structure IsPureRead : Prop where
  addressed : cls.grainType ≠ ""
  pool : 0 ≤ cls.activationsPerKey
  same : ∀ v v', cls.Gives key v → cls.Gives key v' → v = v'

/-- Who answers the first call. -/
def answerer : GrainId :=
  route cls.config (.init none) (cls.id key)

/-- What the kit can check of a class without crying wolf : it keeps no state, its herd meets one
activation, and no counted method of a serialised grain that the kit watches calls another. -/
structure Observable (factory : Bool) (callers : ℕ) : Prop where
  stateless : cls.persistent = false
  single : 0 < callers ∧ (callers = 1 ∨ cls.activationsPerKey ≤ 1)
  flat : factory = true ∨ cls.reentrant = true ∨
    (cls.hook (cls.answerer key)).flat cls.counted = true ∧
      ∀ n < callers, (cls.run (cls.answerer key) n).flat cls.counted = true

end GrainClass

/-! ## What passes -/

section

variable {repr : α → String} {reprStr : String → String} {cls : GrainClass α} {factory : Bool}
  {key : String} {callers : ℕ} {seen : Seen α}

theorem runtime_eq (h : cls.IsPureRead key) (hs : cls.persistent = false) :
    runtime reprStr cls = .ok () := by
  simp [runtime, register, h.addressed, not_lt.2 h.pool, hs]

theorem runtime_error (h : cls.IsPureRead key) (hs : cls.persistent = true) :
    runtime reprStr cls = .error (.valueError (cls.name ++
      " declares persistent and this runtime has no state store")) := by
  simp [runtime, register, h.addressed, not_lt.2 h.pool, hs]

/-- A report without failures is returned, another is raised. -/
theorem noAlarm_iff {herd rebuilt overlap spent two : Finding}
    (h₁ : oneActivationUnderAHerd reprStr cls callers seen = .ok herd)
    (h₂ : theAnswerSurvivesBeingRebuilt repr reprStr cls seen = .ok rebuilt)
    (h₃ : reentrancyIsWhatTheClassSays reprStr cls factory seen = .ok overlap)
    (h₄ : aSpentDeadlineBuildsNothing reprStr cls seen = .ok spent)
    (h₅ : twoActivationsAgree repr reprStr cls seen = .ok two) :
    NoAlarm repr reprStr cls factory callers seen ↔ herd.passed = true ∧ rebuilt.passed = true ∧
      overlap.passed = true ∧ spent.passed = true ∧ two.passed = true := by
  have hcheck : checkConformance repr reprStr cls factory callers seen =
      match (Report.mk cls.name [herd, rebuilt, overlap, spent, two]).failures with
      | first :: _ => .error (.conformanceFailure first.scenario (first.note ++ "\n\n" ++
          (Report.mk cls.name [herd, rebuilt, overlap, spent, two]).str))
      | [] => .ok ⟨cls.name, [herd, rebuilt, overlap, spent, two]⟩ := by
    simp only [checkConformance, h₁, h₂, h₃, h₄, h₅]
    rfl
  have hfail : (Report.mk cls.name [herd, rebuilt, overlap, spent, two]).failures = [] ↔
      ∀ outcome ∈ [herd, rebuilt, overlap, spent, two], outcome.passed = true := by
    simp only [Report.failures, List.filter_eq_nil_iff, Bool.not_eq_true', Bool.not_eq_false]
  constructor
  · rintro ⟨report, hreport, -, hall⟩
    rw [hcheck] at hreport
    split at hreport
    · cases hreport
    · cases hreport
      simpa using hall
  · intro hall
    have hpassed : ∀ outcome ∈ [herd, rebuilt, overlap, spent, two], outcome.passed = true := by
      simpa using hall
    refine ⟨⟨cls.name, [herd, rebuilt, overlap, spent, two]⟩, ?_, rfl, hpassed⟩
    rw [hcheck, hfail.2 hpassed]

theorem herd_passes (callers : ℕ) (seen : Seen α) (hr : runtime reprStr cls = .ok ()) :
    ∃ f, oneActivationUnderAHerd reprStr cls callers seen = .ok f ∧
      (f.passed = true ↔ seen.built = 1) := by
  unfold oneActivationUnderAHerd
  rw [hr]
  exact ⟨_, rfl, beq_iff_eq⟩

/-- Equal answers survive. -/
theorem rebuilt_passes (repr : α → String) (hr : runtime reprStr cls = .ok ())
    (h : seen.before = seen.after) :
    ∃ f, theAnswerSurvivesBeingRebuilt repr reprStr cls seen = .ok f ∧ f.passed = true := by
  unfold theAnswerSurvivesBeingRebuilt
  rw [hr]
  by_cases hc : seen.collected = 0
  · rw [if_pos hc]
    exact ⟨_, rfl, rfl⟩
  · rw [if_neg hc]
    exact ⟨_, rfl, beq_iff_eq.2 h⟩

theorem overlap_passes (factory : Bool) (seen : Seen α)
    (hr : runtime reprStr cls.observed = .ok ()) :
    ∃ f, reentrancyIsWhatTheClassSays reprStr cls factory seen = .ok f ∧ (f.passed = true ↔
      factory = true ∨ cls.reentrant = true ∨ (Overlap.init.watch seen.marks).peak ≤ 1) := by
  unfold reentrancyIsWhatTheClassSays
  rw [hr]
  cases hf : factory with
  | true => exact ⟨_, rfl, by simp⟩
  | false =>
    cases hre : cls.reentrant with
    | true => exact ⟨_, rfl, by simp⟩
    | false => exact ⟨_, rfl, by simp⟩

/-- The runtime refuses a late call before it does anything. -/
theorem exec_late {asked now : Time} (hle : asked ≤ now) (t : TaskId) (c : Choice)
    (args kwargs : Obj) :
    exec cls.config (.fresh now) t c
      (callFrame cls.config (cls.late key asked args kwargs) .dispatch) .send =
        some (.fresh now, .done (.error (.deadlineExceeded (cls.id key).str cls.exercised))) := by
  have hlate : asked + -1 - now ≤ 0 := by linarith
  simp [callFrame, GrainClass.late, narrowed, GrainClass.config, exec, chain, State.fresh, hlate]

theorem spent_passes (hr : runtime reprStr cls = .ok ()) (hd : cls.Documented key callers seen) :
    ∃ f, aSpentDeadlineBuildsNothing reprStr cls seen = .ok f ∧ f.passed = true := by
  obtain ⟨asked, now, t, c, args, kwargs, s', hle, hactivated, hexec⟩ := hd.spent
  rw [exec_late hle] at hexec
  obtain ⟨hstate, hspent⟩ := Prod.mk.inj (Option.some.inj hexec)
  have hzero : seen.activated = 0 := by rw [hactivated, ← hstate]; rfl
  unfold aSpentDeadlineBuildsNothing
  rw [hr, ← Next.done.inj hspent]
  exact ⟨_, rfl, by simp [hzero]⟩

/-- Two equal answers agree. -/
theorem two_pass (repr : α → String) (hr : runtime reprStr cls = .ok ())
    (h : seen.first = seen.second) :
    ∃ f, twoActivationsAgree repr reprStr cls seen = .ok f ∧ f.passed = true := by
  unfold twoActivationsAgree
  rw [hr]
  cases cls.toleratesDoubleActivation with
  | true => exact ⟨_, rfl, beq_iff_eq.2 h⟩
  | false => exact ⟨_, rfl, rfl⟩

/-- Of a class without state that answers by its identity, the kit finds fault with nothing but
how many activations a herd meets, and how many calls are inside at once. -/
theorem noAlarm_iff_seen (h : cls.IsPureRead key) (hs : cls.persistent = false)
    (hd : cls.Documented key callers seen) :
    NoAlarm repr reprStr cls factory callers seen ↔ seen.built = 1 ∧
      (factory = true ∨ cls.reentrant = true ∨ (Overlap.init.watch seen.marks).peak ≤ 1) := by
  have hr : runtime reprStr cls = .ok () := runtime_eq h hs
  have hobserved : runtime reprStr cls.observed = .ok () := by
    simp [runtime, register, GrainClass.observed, h.addressed, not_lt.2 h.pool, hs]
  obtain ⟨herd, hherd, hbuilt⟩ := herd_passes callers seen hr
  obtain ⟨rebuilt, hrebuilt, hsame⟩ := rebuilt_passes repr hr
    (h.same _ _ hd.before hd.after)
  obtain ⟨overlap, hoverlap, hpeak⟩ := overlap_passes factory seen hobserved
  obtain ⟨spent, hspent, hrefused⟩ := spent_passes hr hd
  obtain ⟨two, htwo, hagree⟩ := two_pass repr hr (h.same _ _ hd.first hd.second)
  rw [noAlarm_iff hherd hrebuilt hoverlap hspent htwo, hbuilt, hpeak]
  simp [hsame, hrefused, hagree]

/-! ## Whom a herd meets -/

theorem pool_config (s : State) : pool cls.config s (cls.id key) =
    if cls.activationsPerKey.toNat = 0 then none
    else some (cls.activationsPerKey.toNat, (s.nextActivation.get (cls.id key)).getD 0) := by
  simp [pool, GrainClass.config, GrainClass.id]

/-- Without a pool, or in a pool of one, every call goes to the first activation. -/
theorem routedTo_eq_replicate (hp : cls.activationsPerKey ≤ 1) (n : ℕ) {s : State}
    (hs : (s.nextActivation.get (cls.id key)).getD 0 = 0) :
    routedTo cls.config (cls.id key) n s = List.replicate n (cls.answerer key) := by
  induction n generalizing s with
  | zero => rfl
  | succ n ih =>
    have hroute : route cls.config s (cls.id key) = cls.answerer key := by
      unfold GrainClass.answerer route
      rw [pool_config, pool_config, hs]
      rfl
    have hturn : ((s.advance cls.config (cls.id key)).nextActivation.get (cls.id key)).getD 0 =
        0 := by
      unfold State.advance
      rw [pool_config]
      split_ifs with hsize
      · exact hs
      · have hone : cls.activationsPerKey.toNat = 1 := by omega
        simp [OrderedDict.get_set, hone, Nat.mod_one]
    rw [routedTo, hroute, ih hturn, List.replicate_succ]

/-- Who answers in a pool. -/
theorem route_pool (hp : 0 < cls.activationsPerKey) (s : State) :
    route cls.config s (cls.id key) = ⟨cls.grainType,
      key ++ "#" ++ toString ((s.nextActivation.get (cls.id key)).getD 0)⟩ := by
  unfold route
  rw [pool_config, if_neg (by omega)]
  rfl

/-- In a larger pool the second call goes elsewhere. -/
theorem route_advance_ne (key : String) (hp : 1 < cls.activationsPerKey) :
    route cls.config (State.advance cls.config (.init none) (cls.id key)) (cls.id key) ≠
      cls.answerer key := by
  have hzero : ((State.init none).nextActivation.get (cls.id key)).getD 0 = 0 := rfl
  have hturn : ((State.advance cls.config (.init none) (cls.id key)).nextActivation.get
      (cls.id key)).getD 0 = 1 := by
    unfold State.advance
    rw [pool_config, if_neg (by omega), hzero]
    simp only [OrderedDict.get_set, if_true, Option.getD_some]
    exact Nat.mod_eq_of_lt (by omega)
  intro h
  rw [GrainClass.answerer, route_pool (by omega), route_pool (by omega), hturn, hzero] at h
  have hrepr : Nat.repr 1 = Nat.repr 0 := by simpa using congrArg GrainId.key h
  exact absurd hrepr (by decide)

/-- A herd builds one activation if it is one caller, or the class has no pool of two. -/
theorem targets_eq_replicate (h : callers = 1 ∨ cls.activationsPerKey ≤ 1) :
    cls.targets key callers = List.replicate callers (cls.answerer key) := by
  rcases h with rfl | hp
  · rfl
  · exact routedTo_eq_replicate hp callers rfl

theorem length_dedup_targets : (cls.targets key callers).dedup.length = 1 ↔
    0 < callers ∧ (callers = 1 ∨ cls.activationsPerKey ≤ 1) := by
  constructor
  · intro h
    match callers, h with
    | 1, _ => exact ⟨Nat.one_pos, .inl rfl⟩
    | n + 2, h =>
      refine ⟨by omega, .inr (le_of_not_gt fun hp => ?_)⟩
      -- a second target beside the first
      obtain ⟨g, hg⟩ := List.length_eq_one_iff.1 h
      have hmem : ∀ g' ∈ cls.targets key (n + 2), g' = g := fun g' hg' => by
        simpa [hg] using List.mem_dedup.2 hg'
      have hfirst := hmem (cls.answerer key) (List.mem_cons_self)
      have hsecond := hmem _ (List.mem_cons_of_mem _ List.mem_cons_self)
      exact route_advance_ne key hp (hsecond.trans hfirst.symm)
  · rintro ⟨hpos, h⟩
    rw [targets_eq_replicate h, List.replicate_dedup hpos.ne']
    rfl

/-! ## What a herd shows -/

/-- One serialised activation shows as many inside at once as its calls go deep. -/
theorem peak_le_iff (h : callers = 1 ∨ cls.activationsPerKey ≤ 1) (hpos : 0 < callers)
    (hser : cls.reentrant = false) (hd : cls.Documented key callers seen) :
    (Overlap.init.watch seen.marks).peak ≤ 1 ↔
      (cls.hook (cls.answerer key)).flat cls.counted = true ∧
        ∀ n < callers, (cls.run (cls.answerer key) n).flat cls.counted = true := by
  obtain ⟨ws, hws, hall⟩ := hd.marks
  rw [targets_eq_replicate h, List.replicate_dedup hpos.ne'] at hws
  obtain ⟨w, hw, rfl⟩ : ∃ w, cls.Shows (cls.answerer key) callers w ∧ ws = [w] := by
    cases hws with
    | cons hw hnil =>
      cases hnil
      exact ⟨_, by simpa using hw, rfl⟩
  rw [interleavedAll_singleton hall]
  rw [GrainClass.Shows, hser, if_neg (by decide)] at hw
  rw [hw, Overlap.init, Overlap.peak_watch_le_iff _ _ le_rfl]
  simp [Calls.flat_iff]

/-- Every class has something to show. -/
theorem exists_documented (cls : GrainClass α) (key : String) (callers : ℕ) :
    ∃ seen, cls.Documented key callers seen := by
  have hshows : ∀ g n, ∃ w, cls.Shows g n w := by
    intro g n
    unfold GrainClass.Shows
    split_ifs
    · exact ⟨_, _, interleavedAll_flatten _, rfl⟩
    · exact ⟨_, rfl⟩
  choose w hw using hshows
  have hgives : cls.Gives key (cls.answer (cls.answerer key) 0 0) :=
    ⟨1, cls.answerer key, List.mem_cons_self, 0, 0, rfl⟩
  refine ⟨{
    built := (cls.targets key callers).dedup.length
    before := cls.answer (cls.answerer key) 0 0
    collected := 1
    after := cls.answer (cls.answerer key) 0 0
    marks := ((cls.targets key callers).dedup.map fun g =>
      w g ((cls.targets key callers).count g)).flatten
    spent := .error (.deadlineExceeded (cls.id key).str cls.exercised)
    activated := 0
    first := cls.answer (cls.answerer key) 0 0
    second := cls.answer (cls.answerer key) 0 0 }, ?_⟩
  exact {
    built := rfl
    before := hgives
    after := hgives
    marks := ⟨_, List.forall₂_map_right_iff.2 (List.forall₂_same.2 fun g _ => hw g _),
      interleavedAll_flatten _⟩
    spent := ⟨0, 0, 0, .go, 0, 0, _, le_rfl, rfl, exec_late le_rfl 0 .go 0 0⟩
    first := hgives
    second := hgives }

/-- A serialised grain that looks a price up, by `inner`. -/
def priceGrain (inner : String) : GrainClass String where
  name := "PriceGrain"
  grainType := "price"
  reentrant := false
  toleratesDoubleActivation := true
  activationsPerKey := 0
  persistent := false
  coroutines := ["activate", "deactivate", "on_reminder", "price_of", "load", "_load"]
  exercised := "price_of"
  reachable := by decide +kernel
  hook _ := .none
  body _ _ := .call inner .none .none
  answer _ _ _ := "12.50"

theorem isPureRead_priceGrain (inner : String) :
    (priceGrain inner).IsPureRead "conformance" where
  addressed := by simp [priceGrain]
  pool := le_rfl
  same := by
    rintro v v' ⟨_, _, _, _, _, rfl⟩ ⟨_, _, _, _, _, rfl⟩
    rfl

end

end Nigrains
