import Mathlib.Logic.Relation
import Mathlib.Data.List.Basic

/-!
# Runs of an executable transition system

A system is a partial function `step` from a state and a label to the next state. A run
takes steps one after another, and `ok` says which steps it may take, so that a property
can be stated of the runs within a scope, or of those that keep to a condition.

An invariant is an induction over the run (`Run.invariant`). A system may keep a log of
itself, and `Logs` is a condition on what a step adds to it, in the state before the step.
`Run.simulate` is the transfer of a run along an abstraction whose steps are matched or
skipped. `execute` runs a list of labels, checking each step, and `run_of_execute` makes a
run of it.
-/

namespace Nigrains

variable {σ τ ℓ ε : Type*}

/-- One step allowed by `ok`. -/
def Taken (step : σ → ℓ → Option σ) (ok : σ → σ → Prop) (s s' : σ) : Prop :=
  (∃ l, step s l = some s') ∧ ok s s'

/-- Finitely many steps, all allowed by `ok`. -/
def Run (step : σ → ℓ → Option σ) (ok : σ → σ → Prop) : σ → σ → Prop :=
  Relation.ReflTransGen (Taken step ok)

namespace Run

variable {step : σ → ℓ → Option σ} {ok : σ → σ → Prop} {s s' : σ}

/-- What holds at first and is kept by every allowed step holds at the end of a run. -/
theorem invariant {I : σ → Prop} (h : Run step ok s s') (h0 : I s)
    (hstep : ∀ s l s', I s → step s l = some s' → ok s s' → I s') : I s' := by
  induction h with
  | refl => exact h0
  | tail _ ht ih =>
    obtain ⟨⟨l, hl⟩, hok⟩ := ht
    exact hstep _ l _ ih hl hok

/-- If each step of a run is a step of `R` on an abstraction of the states, or leaves the
abstraction as it is, the abstraction of the run is a run of `R`. -/
theorem simulate {I : σ → Prop} {R : τ → τ → Prop} {f : σ → τ} (h : Run step ok s s')
    (h0 : I s) (hI : ∀ s l s', I s → step s l = some s' → ok s s' → I s')
    (hstep : ∀ s l s', I s → step s l = some s' → ok s s' → f s' = f s ∨ R (f s) (f s')) :
    Relation.ReflTransGen R (f s) (f s') := by
  have hrun : I s' ∧ Relation.ReflTransGen R (f s) (f s') := by
    induction h with
    | refl => exact ⟨h0, .refl⟩
    | tail _ ht ih =>
      obtain ⟨⟨l, hl⟩, hok⟩ := ht
      refine ⟨hI _ l _ ih.1 hl hok, ?_⟩
      rcases hstep _ l _ ih.1 hl hok with he | hR
      · exact he ▸ ih.2
      · exact .tail ih.2 hR
  exact hrun.2

end Run

/-! ## Conditions on what a step logs -/

/-- The step logs only entries that `cond` allows in the state before it. -/
def Logs (log : σ → List ε) (cond : σ → ε → Prop) (s s' : σ) : Prop :=
  ∀ e, log s' = e :: log s → cond s e

theorem logs_of_eq {log : σ → List ε} {cond : σ → ε → Prop} {s s' : σ} (h : log s' = log s) :
    Logs log cond s s' := by
  intro e he
  rw [h] at he
  exact absurd he.symm (List.cons_ne_self e _)

theorem logs_iff {log : σ → List ε} {cond : σ → ε → Prop} {s s' : σ} {e : ε}
    (h : log s' = e :: log s) : Logs log cond s s' ↔ cond s e := by
  refine ⟨fun hlogs => hlogs e h, fun hc e' he' => ?_⟩
  obtain rfl := (List.cons.inj (h.symm.trans he')).1
  exact hc

/-- A condition on some entries only : what no case decides holds. -/
@[reducible] def decidableOr {p : Prop} : (d : Option (Decidable p)) → (d = none → p) → Decidable p
  | some d, _ => d
  | none, h => isTrue (h rfl)

/-! ## Executing a list of labels -/

/-- The state after the labels `ls`, if every step is enabled and passes `check`. -/
def execute (step : σ → ℓ → Option σ) (check : σ → σ → Bool) : σ → List ℓ → Option σ
  | s, [] => some s
  | s, l :: ls =>
    match step s l with
    | some s' => if check s s' then execute step check s' ls else none
    | none => none

/-- What executes is a run. -/
theorem run_of_execute {step : σ → ℓ → Option σ} {ok : σ → σ → Prop} {check : σ → σ → Bool}
    (hcheck : ∀ s s', check s s' = true → ok s s') :
    ∀ {s s' : σ} {ls : List ℓ}, execute step check s ls = some s' → Run step ok s s'
  | s, s', [], h => by
    obtain rfl := Option.some.inj h
    exact .refl
  | s, s', l :: ls, h => by
    simp only [execute] at h
    split at h
    · next s1 hs1 =>
      split at h
      · next hc =>
        exact .head ⟨⟨l, hs1⟩, hcheck _ _ hc⟩ (run_of_execute hcheck h)
      · cases h
    · cases h

/-- A list of labels that executes to a state with a property is a run to such a state. -/
theorem exists_run {ok : σ → σ → Prop} (step : σ → ℓ → Option σ) (check : σ → σ → Bool)
    (hcheck : ∀ s s', check s s' = true → ok s s') (s : σ) (ls : List ℓ) (p : σ → Bool)
    (h : (execute step check s ls).any p = true) : ∃ s', Run step ok s s' ∧ p s' = true := by
  obtain ⟨s', hs', hp⟩ := (Option.any_eq_true ..).1 h
  exact ⟨s', run_of_execute hcheck hs', hp⟩

/-- A list of labels that executes is a run, whatever its steps. -/
theorem exists_run_free (step : σ → ℓ → Option σ) (s : σ) (ls : List ℓ) (p : σ → Bool)
    (h : (execute step (fun _ _ => true) s ls).any p = true) :
    ∃ s', Run step (fun _ _ => True) s s' ∧ p s' = true :=
  exists_run step _ (fun _ _ _ => trivial) s ls p h

/-- Check a condition on what a step logs. -/
def logsCheck [DecidableEq ε] (log : σ → List ε) (cond : σ → ε → Prop)
    [∀ s e, Decidable (cond s e)] (s s' : σ) : Bool :=
  match log s' with
  | [] => true
  | e :: l => decide (l = log s → cond s e)

theorem logs_of_check [DecidableEq ε] (log : σ → List ε) (cond : σ → ε → Prop)
    [∀ s e, Decidable (cond s e)] (s s' : σ) (h : logsCheck log cond s s' = true) :
    Logs log cond s s' := by
  intro e he
  unfold logsCheck at h
  rw [he] at h
  exact of_decide_eq_true h rfl

end Nigrains
