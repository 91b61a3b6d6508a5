import Mathlib.Data.Prod.Lex
import Mathlib.Data.List.Sort
import Mathlib.Data.Set.Basic

/-!
# Going round a circle of points

A point has a position and a name, and points of one position are ordered by their names.
Whoever sets out just after a position `x` and goes round once meets the points after `x` in
order, then those up to `x` : in the order of `turn x`. The first point met of a set is the
least one in that order (`FirstMet`), so it is unique, and of a union it is the first one met
of either part (`FirstMet.union`).

In a sorted list it is the one a search after `x` finds, where a search past the end goes on
at the start (`firstMet_getElem`).
-/

set_option linter.unusedSectionVars false

namespace Nigrains

variable {α β : Type*} [LinearOrder α] [LinearOrder β]

/-- When a point is met, by who sets out just after `x`. -/
def turn (x : α) (p : α ×ₗ β) : Bool ×ₗ (α ×ₗ β) :=
  toLex (decide ((ofLex p).1 ≤ x), p)

theorem turn_injective (x : α) : Function.Injective (turn x : α ×ₗ β → _) := by
  intro p q h
  exact congrArg (fun t => (ofLex t).2) h

/-- Two points that are both after `x`, or both not, are met in their order. -/
theorem turn_le_turn {x : α} {p q : α ×ₗ β} (hpq : p ≤ q)
    (h : (ofLex p).1 ≤ x → (ofLex q).1 ≤ x) : turn x p ≤ turn x q := by
  refine Prod.Lex.toLex_le_toLex.2 ?_
  by_cases hp : (ofLex p).1 ≤ x
  · exact .inr ⟨by simp [hp, h hp], hpq⟩
  · by_cases hq : (ofLex q).1 ≤ x
    · exact .inl (by simp [hp, hq])
    · exact .inr ⟨by simp [hp, hq], hpq⟩

/-- A point after `x` is met before one that is not. -/
theorem turn_le_of_lt {x : α} {p q : α ×ₗ β} (hp : x < (ofLex p).1) (hq : (ofLex q).1 ≤ x) :
    turn x p ≤ turn x q :=
  Prod.Lex.toLex_le_toLex.2 (.inl (by simp [not_le.2 hp, hq]))

/-- The first point of `P` met by who sets out just after `x`. -/
def FirstMet (P : Set (α ×ₗ β)) (x : α) (p : α ×ₗ β) : Prop :=
  p ∈ P ∧ ∀ q ∈ P, turn x p ≤ turn x q

namespace FirstMet

variable {P Q : Set (α ×ₗ β)} {x : α} {p q : α ×ₗ β}

theorem unique (hp : FirstMet P x p) (hq : FirstMet P x q) : p = q :=
  turn_injective x (le_antisymm (hp.2 q hq.1) (hq.2 p hp.1))

/-- It is met first of any part it is in. -/
theorem subset (h : FirstMet P x p) (hQ : Q ⊆ P) (hp : p ∈ Q) : FirstMet Q x p :=
  ⟨hp, fun q hq => h.2 q (hQ hq)⟩

/-- The first of one set and the first of another are one if each is in both. -/
theorem eq_of_mem (hp : FirstMet P x p) (hq : FirstMet Q x q) (hpQ : p ∈ Q) (hqP : q ∈ P) :
    p = q :=
  turn_injective x (le_antisymm (hp.2 q hqP) (hq.2 p hpQ))

/-- What is met first of a union is met first of either part. -/
theorem union (h : FirstMet (P ∪ Q) x p) : FirstMet P x p ∨ FirstMet Q x p := by
  rcases h.1 with hp | hp
  · exact .inl (h.subset Set.subset_union_left hp)
  · exact .inr (h.subset Set.subset_union_right hp)

end FirstMet

/-! ## In a sorted list -/

/-- How many points a search in a sorted list leaves behind, that stops after `x`. -/
def passed (l : List (α ×ₗ β)) (x : α) : ℕ :=
  (l.takeWhile fun p => (ofLex p).1 ≤ x).length

variable {x : α}

/-- It stops at a point after `x`, if there is one. -/
theorem lt_of_passed : ∀ {l : List (α ×ₗ β)} (h : passed l x < l.length),
    x < (ofLex l[passed l x]).1
  | [], h => absurd h (by simp)
  | p :: l, h => by
    by_cases hp : (ofLex p).1 ≤ x
    · have hcons : passed (p :: l) x = passed l x + 1 := by simp [passed, hp]
      have hl : passed l x < l.length := by simpa [hcons] using h
      simpa [hcons] using lt_of_passed hl
    · have hcons : passed (p :: l) x = 0 := by simp [passed, not_le.1 hp]
      simpa [hcons] using hp

/-- What it leaves behind is up to `x`. -/
theorem le_of_lt_passed : ∀ {l : List (α ×ₗ β)} {i : ℕ} (hi : i < l.length),
    i < passed l x → (ofLex l[i]).1 ≤ x
  | [], i, hi, _ => absurd hi (by simp)
  | p :: l, i, hi, h => by
    by_cases hp : (ofLex p).1 ≤ x
    · have hcons : passed (p :: l) x = passed l x + 1 := by simp [passed, hp]
      cases i with
      | zero => simpa using hp
      | succ i => simpa using le_of_lt_passed (by simpa using hi) (by omega : i < passed l x)
    · have hcons : passed (p :: l) x = 0 := by simp [passed, not_le.1 hp]
      omega

/-- A search that goes on at the start when it is past the end finds the first point met. -/
theorem firstMet_getElem {l : List (α ×ₗ β)} (hl : l.Pairwise (· ≤ ·))
    (h : passed l x % l.length < l.length) : FirstMet {p | p ∈ l} x l[passed l x % l.length] := by
  refine ⟨List.getElem_mem h, fun q hq => ?_⟩
  obtain ⟨i, hi, rfl⟩ := List.mem_iff_getElem.1 hq
  have hsorted : ∀ {i j} (hi : i < l.length) (hj : j < l.length), i ≤ j → l[i] ≤ l[j] :=
    fun hi hj hij => hl.sortedLE.getElem_le_getElem_of_le hij
  have hlen : passed l x ≤ l.length := (List.takeWhile_prefix _).length_le
  rcases hlen.lt_or_eq with hlt | heq
  · -- there is a point after `x`, and the search stops there
    simp only [Nat.mod_eq_of_lt hlt]
    rcases lt_or_ge i (passed l x) with hi' | hi'
    · exact turn_le_of_lt (lt_of_passed hlt) (le_of_lt_passed hi hi')
    · refine turn_le_turn (hsorted hlt hi hi') fun hle => ?_
      exact absurd (lt_of_passed hlt) (not_lt.2 hle)
  · -- every point is up to `x`, and the first one is met first
    have hall : ∀ {i} (hi : i < l.length), (ofLex l[i]).1 ≤ x :=
      fun hi => le_of_lt_passed hi (by omega)
    exact turn_le_turn (hsorted h hi (by simp [heq])) fun _ => hall hi

end Nigrains
