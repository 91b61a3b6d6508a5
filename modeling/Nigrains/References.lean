import Nigrains.Firing
import Nigrains.Registry

/-!
# Calling a grain by reference

A reference hands out a caller for each name that its class has a coroutine method of, and keeps
the callers it has made. What it has kept is what it would make again (`get_after`). The
names it hands out are looked for again on the activation the call comes to, which the class may
not have made : a factory may have. If the class was registered without one, whatever the call
comes to was made by the class (`Filled`), and no call through a reference is refused
(`reference_answered`).
-/

set_option linter.unusedSectionVars false

namespace Nigrains

variable {α : Type*} [DecidableEq α]

/-- What an attribute of a reference is. -/
inductive Attribute
  /-- A caller of a method. -/
  | caller (grain : GrainId) (method : String)
  /-- One that `__getattr__` is not asked for. -/
  | own (name : String)
deriving DecidableEq

/-- `_Reference`. -/
structure Reference (α : Type*) where
  id : GrainId
  grain : GrainClass α
  /-- The names whose callers are kept on the instance. -/
  callers : List String

/-- `reference_to`. -/
def referenceTo (cls : GrainClass α) (key : String) : Except Raised (Reference α) :=
  if cls.grainType = "" then
    .error (.valueError (cls.name ++ " declares no grain_type, so it has no address"))
  else .ok ⟨cls.id key, cls, []⟩

namespace Reference

/-- `__getattr__`. -/
def getattr (ref : Reference α) (name : String) : Except Exc (Reference α × Attribute) :=
  if name.startsWith "_" = true ∨ ref.grain.coroutines.contains name = false then
    .error (.noSuchGrainMethod ref.id.str name)
  else .ok ({ ref with callers := name :: ref.callers }, .caller ref.id name)

/-- What a reference has before any name has been looked up on it : what `__init__` sets, what its
class defines, and what every object has. -/
def ownNames : List String :=
  ["_runtime", "_id", "_grain", "__init__", "__getattr__", "__repr__", "__module__", "__doc__",
    "__annotations__", "__dict__", "__weakref__", "__firstlineno__", "__static_attributes__",
    "__class__", "__new__", "__delattr__", "__dir__", "__eq__", "__format__", "__ge__",
    "__getattribute__", "__getstate__", "__gt__", "__hash__", "__init_subclass__", "__le__",
    "__lt__", "__ne__", "__reduce__", "__reduce_ex__", "__setattr__", "__sizeof__", "__str__",
    "__subclasshook__"]

/-- `ref.name` : what is on the instance, or on its class, is found there. -/
def get (ref : Reference α) (name : String) : Except Exc (Reference α × Attribute) :=
  if name ∈ ownNames then .ok (ref, .own name)
  else if name ∈ ref.callers then .ok (ref, .caller ref.id name)
  else ref.getattr name

/-- The reference after any number of names have been looked up on it. -/
def after (ref : Reference α) (names : List String) : Reference α :=
  names.foldl (fun ref name =>
    match ref.get name with
    | .ok (ref', _) => ref'
    | .error _ => ref) ref

/-- What is kept was handed out. -/
def Sound (ref : Reference α) : Prop :=
  ∀ name ∈ ref.callers, name.startsWith "_" = false ∧ ref.grain.coroutines.contains name = true

variable {ref : Reference α} {name : String}

/-- What is kept is what would be made again. -/
theorem get_eq (h : ref.Sound) : (ref.get name).map Prod.snd =
    if name ∈ ownNames then .ok (.own name)
    else (ref.getattr name).map Prod.snd := by
  unfold Reference.get
  split_ifs with hown hkept
  · rfl
  · obtain ⟨hname, hmethod⟩ := h name hkept
    unfold getattr
    rw [if_neg (by rw [hname, hmethod]; simp)]
    rfl
  · rfl

/-- Looking a name up keeps its caller if there is one, and nothing else changes. -/
theorem Sound.get {ref' : Reference α} {found : Attribute} (h : ref.Sound)
    (hfound : ref.get name = .ok (ref', found)) :
    ref'.Sound ∧ ref'.id = ref.id ∧ ref'.grain = ref.grain := by
  unfold Reference.get getattr at hfound
  split_ifs at hfound with hown hkept hname
  · cases hfound
    exact ⟨h, rfl, rfl⟩
  · cases hfound
    exact ⟨h, rfl, rfl⟩
  · cases hfound
    rw [not_or, Bool.not_eq_true, Bool.not_eq_false] at hname
    refine ⟨fun kept hmem => ?_, rfl, rfl⟩
    rcases List.mem_cons.1 hmem with rfl | hmem
    · exact hname
    · exact h kept hmem

theorem Sound.after (h : ref.Sound) (names : List String) :
    (ref.after names).Sound ∧ (ref.after names).id = ref.id ∧
      (ref.after names).grain = ref.grain := by
  induction names generalizing ref with
  | nil => exact ⟨h, rfl, rfl⟩
  | cons name names ih =>
    unfold Reference.after
    rw [List.foldl_cons]
    cases hfound : ref.get name with
    | error e => exact ih h
    | ok found =>
      obtain ⟨hsound, hid, hgrain⟩ := h.get hfound
      obtain ⟨hsound', hid', hgrain'⟩ := ih hsound
      exact ⟨hsound', hid'.trans hid, hgrain'.trans hgrain⟩

/-- Whatever has been looked up on a reference before, a name is what it is on a new one. -/
theorem get_after {cls : GrainClass α} {key : String} (h : referenceTo cls key = .ok ref)
    (names : List String) :
    ((ref.after names).get name).map Prod.snd = (ref.get name).map Prod.snd := by
  have hsound : ref.Sound := by
    unfold referenceTo at h
    split_ifs at h
    cases h
    intro name hname
    cases hname
  obtain ⟨hsound', hid, hgrain⟩ := hsound.after names
  rw [get_eq hsound, get_eq hsound']
  unfold getattr
  rw [hid, hgrain]
  split_ifs <;> simp [Except.map]

/-- A reference hands out callers of its class's coroutine methods, under its own identity. -/
theorem handed_out {cls : GrainClass α} {key method : String} {names : List String} {g : GrainId}
    (h : referenceTo cls key = .ok ref)
    (hname : ((ref.after names).get name).map Prod.snd = .ok (.caller g method)) :
    g = cls.id key ∧ method.startsWith "_" = false ∧ cls.coroutines.contains method = true := by
  rw [get_after h] at hname
  unfold referenceTo at h
  split_ifs at h
  cases h
  unfold Reference.get getattr at hname
  split_ifs at hname with hown hkept hrefused
  · cases hname
  · cases hkept
  · cases hname
  · cases hname
    rw [not_or, Bool.not_eq_true, Bool.not_eq_false] at hrefused
    exact ⟨rfl, hrefused⟩

end Reference

/-! ## What a call comes to -/

section

variable {cfg : Config} {s s' : State} {t : TaskId} {g : GrainId} {a : ActId}

/-- Whatever has been published under an identity is what the factory of its type made of it. -/
def Filled (cfg : Config) (s : State) : Prop :=
  ∀ g a, s.filed g a → a < s.built ∧ build cfg g = some (.ok (s.heap a).grain)

theorem Filled.step {l : Label} (hI : Reached s) (hF : Filled cfg s)
    (h : Nigrains.step cfg s l = some s') : Filled cfg s' := by
  have hkeep : ∀ g a, s.filed g a → a < s'.built ∧ build cfg g = some (.ok (s'.heap a).grain) := by
    intro g a ha
    obtain ⟨hlt, hbuild⟩ := hF g a ha
    rw [step_grain h hlt]
    exact ⟨hlt.trans_le (hI.built_le h), hbuild⟩
  rintro g a ⟨old, hold⟩
  rcases hI.step_view h with hv | ⟨e, hv⟩
  · have hsame : s'.trace = s.trace := congrArg Protocol.trace hv
    exact hkeep g a ⟨old, hsame ▸ hold⟩
  · have htrace : s'.trace = e :: s.trace := hv.trace
    rw [htrace, List.mem_cons] at hold
    rcases hold with rfl | hold
    · -- what is published has just been built
      obtain ⟨t, r, f, rest, c, s1, n, hr, hs, hx, hs', hlogs⟩ := step_logs h htrace
      obtain ⟨v, rfl, rfl⟩ : ∃ v, f = .activated g .room ∧ r = .got (.ok v) := by
        cases hlogs
        exact ⟨_, rfl, rfl⟩
      simp only [exec, activated] at hx
      split at hx
      · next grain hbuild =>
        have hs1 : s1 = s.publish g grain := by split_ifs at hx <;> cases hx <;> rfl
        have ha : a = s.built := by
          rw [hs', hs1] at htrace
          cases (List.cons.inj htrace).1
          rfl
        rw [hs', hs1, ha, hbuild]
        exact ⟨Nat.lt_succ_self _, by simp [State.publish, Activation.new]⟩
      · cases hx
        rw [hs'] at htrace
        simp [State.emit] at htrace
      · cases hx
    · exact hkeep g a ⟨old, hold⟩

/-- In every reachable state, what a call is given was made of its identity by the factory of its
type. -/
theorem build_of_given {ok : State → State → Prop} {isMine : Option (GrainId → Bool)} {call : Call}
    {i : CallId} {rest : List Frame} (h : Run (step cfg) ok (.init isMine) s)
    (hr : s.running = some (t, .got (.ok (.activation a))))
    (hs : (s.tasks t).stack = .dispatchHere call (.activating i) :: rest) :
    build cfg call.grain = some (.ok (s.heap a).grain) := by
  have hI := h.invariant (I := fun s => Reached s ∧ Filing s ∧ Filled cfg s)
    ⟨reached_init _, filing_init _, by rintro g a ⟨old, hold⟩; cases hold⟩
    fun s l s' ⟨hI, hF, hB⟩ hl _ =>
      ⟨hI.step hl, hF.step hI.nested (.step l hl), hB.step hI hl⟩
  exact (hI.2.2 _ _ (hI.2.1.given t call i rest a hr hs)).2

end

/-- A class makes grains that have its methods. -/
def Constructs (construct : GrainClass α → GrainId → Except Exc Grain) : Prop :=
  ∀ cls g grain, construct cls g = .ok grain →
    ∀ method, cls.coroutines.contains method = true → grain.methods.contains method = true

/-- What a class makes : a grain of that identity, as the class says it is. -/
def GrainClass.construct (cls : GrainClass α) (g : GrainId) : Except Exc Grain :=
  .ok ⟨g, cls.reentrant, cls.persistent, cls.coroutines⟩

theorem constructs_construct : Constructs (GrainClass.construct (α := α)) := by
  rintro cls g grain ⟨⟩ method h
  exact h

/-- Where a class has been registered without a factory, and no other under its name before, a call
of a method that a reference to it hands out enters the activation it comes to. -/
theorem reference_answered {reprStr : String → String}
    {construct : GrainClass α → GrainId → Except Exc Grain} {state cluster : Bool}
    {xs : List (Registration α)} {cls : GrainClass α} {key name method : String}
    {ref : Reference α} {names : List String} {base : Config} {ok : State → State → Prop}
    {isMine : Option (GrainId → Bool)} {s s' : State} {t : TaskId} {g : GrainId} {a : ActId}
    {call : Call} {i : CallId} {rest : List Frame} {c : Choice} (hconstruct : Constructs construct)
    (hfirst : xs.find? (Registration.names cls.grainType state cluster) = some ⟨cls, none⟩)
    (href : referenceTo cls key = .ok ref)
    (hname : ((ref.after names).get name).map Prod.snd = .ok (.caller g method))
    (h : Run (step (((Registry.init state cluster).after reprStr construct xs).config base)) ok
      (.init isMine) s)
    (hr : s.running = some (t, .got (.ok (.activation a))))
    (hs : (s.tasks t).stack = .dispatchHere call (.activating i) :: rest)
    (hgrain : call.grain.type = g.type) (hmethod : call.method = method)
    (hl : step (((Registry.init state cluster).after reprStr construct xs).config base) s
      (.run c) = some s') :
    s'.trace = .entered i a :: s.trace := by
  obtain ⟨rfl, hpublic, hcoroutine⟩ := Reference.handed_out href hname
  have hbuild := build_of_given h hr hs
  have hfactory : ((Registry.init state cluster).after reprStr construct xs).factories.get
      cls.grainType = some (construct cls) := by
    rw [(get_after_init state cluster xs).2, hfirst]
    rfl
  have hmade : construct cls call.grain = .ok (s.heap a).grain := by
    have hmap := congrArg (Option.map fun factory => factory call.grain) hfactory
    rw [← show call.grain.type = cls.grainType from hgrain] at hmap
    exact Option.some.inj (hmap.symm.trans hbuild)
  have hanswers : (s.heap a).grain.answers call.method = true := by
    unfold Grain.answers
    rw [hmethod, hconstruct _ _ _ hmade _ hcoroutine, hpublic]
    rfl
  obtain ⟨t', r, f, rest', s1, n, hr', hs', hx, rfl⟩ := run_cases hl
  rw [hr] at hr'
  cases hr'
  rw [hs] at hs'
  cases hs'
  simp only [exec, dispatchHere, if_pos hanswers] at hx
  cases hx
  rfl

/-- A runtime that has been taught nothing but to look prices up. -/
def pricing : Config :=
  ((Registry.init false false).after id GrainClass.construct
    [⟨priceGrain "_load", none⟩]).config (.small none)

/-- A price is asked for, up to the activation. -/
def pricePending : List Label :=
  [.arrive, .resume 0, .run (.call ⟨"price", "7"⟩ "price_of" 0 0)] ++ Label.gos 5 ++
    [Label.returns, .run .go]

theorem reference_answered_price : ∃ ref : Reference String, ∃ s s' : State,
    referenceTo (priceGrain "_load") "7" = .ok ref ∧
    (ref.get "price_of").map Prod.snd = .ok (.caller ⟨"price", "7"⟩ "price_of") ∧
    Run (step pricing) (fun _ _ => True) (.init none) s ∧
    step pricing s (.run .go) = some s' ∧ s'.trace = .entered 0 0 :: s.trace := by
  obtain ⟨s, hrun, hp⟩ := exists_free_run pricing none pricePending
    (fun s => decide (s.running = some (0, .got (.ok (.activation 0))) ∧
      (s.tasks 0).stack = [.dispatchHere ⟨⟨"price", "7"⟩, "price_of", 0, 0, none⟩ (.activating 0),
        .user .client]) && (step pricing s (.run .go)).isSome) (by decide +kernel)
  simp only [Bool.and_eq_true, decide_eq_true_eq, Option.isSome_iff_exists] at hp
  obtain ⟨⟨hr, hs⟩, s', hl⟩ := hp
  have hfirst : [(⟨priceGrain "_load", none⟩ : Registration String)].find?
      (Registration.names "price" false false) = some ⟨priceGrain "_load", none⟩ :=
    List.find?_cons_of_pos (by decide +kernel)
  have href : referenceTo (priceGrain "_load") "7" =
      .ok ⟨⟨"price", "7"⟩, priceGrain "_load", []⟩ := rfl
  have hname : (((⟨⟨"price", "7"⟩, priceGrain "_load", []⟩ : Reference String).after []).get
      "price_of").map Prod.snd = .ok (.caller ⟨"price", "7"⟩ "price_of") := by decide +kernel
  exact ⟨_, s, s', href, hname, hrun, hl,
    reference_answered constructs_construct hfirst href hname hrun hr hs rfl rfl hl⟩

end Nigrains
