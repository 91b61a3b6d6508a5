import Nigrains.State
import Mathlib.Data.Multiset.Count
import Mathlib.Logic.Relation

/-!
# The life of an activation

What the runtime is for, apart from how its coroutines are written. An identity has at
most one entry in the table; an activation is built by one caller and waited for by the
others; a call uses an activation it has looked up; `_deactivate` takes an entry out. The
state is the table, what each activation's record says of it, and the multiset of things
that are going on (`Activity`), each of which is some frame of some task.

`Protocol.Step` has one rule for each `Event`, with what must hold for it to happen and
what it changes. No rule mentions a task or a frame. That every step of the runtime is a
step of the protocol, or changes nothing the protocol sees, is `Refinement`.
-/

namespace Nigrains

/-- Something going on that concerns one identity or one activation. -/
inductive Activity
  /-- A caller that found no entry is making room. -/
  | room (g : GrainId)
  /-- A caller is building an activation. -/
  | build (g : GrainId) (a : ActId)
  /-- A caller waits for an activation, or has been woken and not yet resumed. -/
  | wait (a : ActId)
  /-- A caller has been given an activation and has not yet entered it. -/
  | hold (a : ActId)
  /-- A call has entered `_counted` and not left it. -/
  | use (a : ActId)
  /-- A tick is running. -/
  | tick (a : ActId)
  /-- An activation taken out waits for its timers. -/
  | down (who : Remover) (a : ActId)
  /-- Its `deactivate` is running. -/
  | closing (who : Remover) (a : ActId)
deriving DecidableEq, Repr

/-- What an activation's record says of it. -/
structure Life where
  ready : Bool
  isSet : Bool
  failed : Bool
  inFlight : ℤ

/-- The record of an activation that has just been built. -/
def Life.new : Life :=
  ⟨true, false, false, 0⟩

/-- The table, the records, and what is going on. -/
structure Protocol where
  entry : GrainId → Option ActId
  life : ActId → Life
  built : ℕ
  pending : Multiset Activity
  trace : List Event

namespace Protocol

open Activity

/-- The record of `a` changes. -/
def modify (P : Protocol) (a : ActId) (f : Life → Life) : Protocol :=
  { P with life := Function.update P.life a (f (P.life a)) }

/-- What is going on changes, and an event is logged. -/
def log (P : Protocol) (e : Event) (pending : Multiset Activity) : Protocol :=
  { P with pending := pending, trace := e :: P.trace }

/-- The table changes. -/
def setEntry (P : Protocol) (g : GrainId) (a : Option ActId) : Protocol :=
  { P with entry := Function.update P.entry g a }

/-- One event in the life of the activations. -/
inductive Step : Protocol → Event → Protocol → Prop
  | found {P g a} (he : P.entry g = some a) (hr : (P.life a).ready = false) :
    Step P (.found g a) (P.log (.found g a) (hold a ::ₘ P.pending))
  | joined {P g a} (he : P.entry g = some a) (hr : (P.life a).ready = true) :
    Step P (.joined g a) (P.log (.joined g a) (wait a ::ₘ P.pending))
  | missed {P g} (he : P.entry g = none) :
    Step P (.missed g) (P.log (.missed g) (room g ::ₘ P.pending))
  | woke {P M a} (hp : P.pending = wait a ::ₘ M) (hs : (P.life a).isSet = true)
      (hf : (P.life a).failed = false) :
    Step P (.woke a) (P.log (.woke a) (hold a ::ₘ M))
  | unjoined {P M a} (hp : P.pending = wait a ::ₘ M) :
    Step P (.unjoined a) (P.log (.unjoined a) M)
  | gaveUp {P M g} (hp : P.pending = room g ::ₘ M) :
    Step P (.gaveUp g) (P.log (.gaveUp g) M)
  | published {P M g} (hp : P.pending = room g ::ₘ M) :
    Step P (.published g P.built (P.entry g))
      ({ (P.setEntry g (some P.built)).modify P.built (fun _ => .new) with
          built := P.built + 1 }.log (.published g P.built (P.entry g)) (build g P.built ::ₘ M))
  | activated {P M g a} (hp : P.pending = build g a ::ₘ M) :
    Step P (.activated g a)
      ((P.modify a fun x => { x with isSet := x.isSet || x.ready, ready := false }).log
        (.activated g a) (hold a ::ₘ M))
  | failed {P M g a} (e : Exc) (hp : P.pending = build g a ::ₘ M) :
    Step P (.failed g a e (P.entry g))
      (((P.setEntry g none).modify a fun x =>
          { x with failed := true, isSet := x.isSet || x.ready }).log
        (.failed g a e (P.entry g)) M)
  | refused {P M c a} (hp : P.pending = hold a ::ₘ M) :
    Step P (.refused c a) (P.log (.refused c a) M)
  | entered {P M c a} (hp : P.pending = hold a ::ₘ M) :
    Step P (.entered c a)
      ((P.modify a fun x => { x with inFlight := x.inFlight + 1 }).log
        (.entered c a) (use a ::ₘ M))
  | started {P c a} (hp : use a ∈ P.pending) :
    Step P (.started c a) (P.log (.started c a) P.pending)
  | answered {P M c a inside outcome} (hp : P.pending = use a ::ₘ M) :
    Step P (.answered c a inside outcome)
      ((P.modify a fun x => { x with inFlight := x.inFlight - 1 }).log
        (.answered c a inside outcome) M)
  | ticked {P a} (ha : a < P.built) :
    Step P (.ticked a)
      ((P.modify a fun x => { x with inFlight := x.inFlight + 1 }).log
        (.ticked a) (tick a ::ₘ P.pending))
  | tocked {P M a} (hp : P.pending = tick a ::ₘ M) :
    Step P (.tocked a)
      ((P.modify a fun x => { x with inFlight := x.inFlight - 1 }).log (.tocked a) M)
  | taken {P g a} (who : Remover) (he : P.entry g = some a)
      (hidle : who ≠ .aexit → (P.life a).inFlight = 0 ∧ (P.life a).ready = false)
      (hhold : ∀ b, hold b ∉ P.pending) :
    Step P (.taken who g a) ((P.setEntry g none).log (.taken who g a) (down who a ::ₘ P.pending))
  | deactivating {P M who a} (hp : P.pending = down who a ::ₘ M) :
    Step P (.deactivating who a) (P.log (.deactivating who a) (closing who a ::ₘ M))
  | abandoned {P M who a} (hp : P.pending = down who a ::ₘ M) :
    Step P (.abandoned who a) (P.log (.abandoned who a) M)
  | deactivated {P M who a} (hp : P.pending = closing who a ::ₘ M) :
    Step P (.deactivated who a) (P.log (.deactivated who a) M)
  | evicted {P} : Step P .evicted (P.log .evicted P.pending)
  | drained {P} (b : Bool) : Step P (.drained b) (P.log (.drained b) P.pending)
  | listed {P} (gs : List GrainId) : Step P (.listed gs) (P.log (.listed gs) P.pending)
  | left {P} : Step P .left (P.log .left P.pending)

/-- Nothing has happened. -/
def init : Protocol :=
  ⟨fun _ => none, fun _ => .new, 0, 0, []⟩

/-- A run each of whose events meets the condition `C` in the state before it. -/
def Runs (C : Protocol → Event → Prop) : Protocol → Protocol → Prop :=
  Relation.ReflTransGen fun P P' => ∃ e, C P e ∧ Step P e P'

/-- What holds at first and is kept by every event of a run holds at its end. -/
theorem Runs.invariant {C : Protocol → Event → Prop} {I : Protocol → Prop} {P P' : Protocol}
    (h : Runs C P P') (h0 : I P) (hstep : ∀ P e P', I P → C P e → Step P e P' → I P') : I P' := by
  induction h with
  | refl => exact h0
  | tail _ ht ih =>
    obtain ⟨e, hC, he⟩ := ht
    exact hstep _ e _ ih hC he

theorem Step.trace {P P' : Protocol} {e : Event} (h : Step P e P') :
    P'.trace = e :: P.trace := by
  cases h <;> rfl

end Protocol

end Nigrains
