import Mathlib.Data.List.Flatten
import Mathlib.Order.MinMax

/-!
# Counting who is inside

A coroutine method calls others of its own object, each awaited before the next, and these may
call more : a tree, `Calls`. Some methods are counted, each on its way in and on its way out, and
an `Overlap` remembers the most that were inside at once.

What is counted of one tree is its depth in counted methods (`watch_marks`), whoever else is
inside. Trees that run one after another, from nobody inside, reach the depth of the deepest
(`peak_watch_le_iff`), so that one at a time is seen exactly if no counted method calls another
(`Calls.flat`).
-/

namespace Nigrains

/-! ## Interleavings -/

section

variable {α : Type*}

/-- `w` is made of `u` and `v`, each in its order. -/
inductive Interleaved : List α → List α → List α → Prop
  | nil : Interleaved [] [] []
  | fst (x : α) {u v w : List α} : Interleaved u v w → Interleaved (x :: u) v (x :: w)
  | snd (x : α) {u v w : List α} : Interleaved u v w → Interleaved u (x :: v) (x :: w)

/-- `w` is made of all of `us`, each in its order. -/
def InterleavedAll : List (List α) → List α → Prop
  | [], w => w = []
  | u :: us, w => ∃ v, InterleavedAll us v ∧ Interleaved u v w

theorem interleaved_nil {u w : List α} (h : Interleaved u [] w) : w = u := by
  generalize hv : ([] : List α) = v at h
  induction h with
  | nil => rfl
  | fst x _ ih => rw [ih hv]
  | snd x _ _ => cases hv

theorem interleaved_append (u v : List α) : Interleaved u v (u ++ v) := by
  induction u with
  | nil =>
    induction v with
    | nil => exact .nil
    | cons x v ih => exact .snd x ih
  | cons x u ih => exact .fst x ih

/-- Nothing is interleaved with one. -/
theorem interleavedAll_singleton {u w : List α} (h : InterleavedAll [u] w) : w = u := by
  obtain ⟨v, rfl, h⟩ := h
  exact interleaved_nil h

/-- One after another is an interleaving. -/
theorem interleavedAll_flatten (us : List (List α)) : InterleavedAll us us.flatten := by
  induction us with
  | nil => rfl
  | cons u us ih => exact ⟨us.flatten, ih, interleaved_append u us.flatten⟩

end

/-! ## Calls inside calls -/

/-- The calls that a coroutine makes of its own object's methods : the first, what that one
calls, and the rest. -/
inductive Calls
  | none
  | call (method : String) (inner next : Calls)
deriving DecidableEq, Repr

/-- A counted method is entered, or left. -/
inductive Mark
  | enter
  | leave
deriving DecidableEq, Repr

namespace Calls

variable (counted : String → Bool)

/-- What is counted of a run. -/
def marks : Calls → List Mark
  | none => []
  | call method inner next =>
    if counted method then .enter :: (inner.marks ++ .leave :: next.marks)
    else inner.marks ++ next.marks

/-- How many counted methods are inside each other. -/
def depth : Calls → ℕ
  | none => 0
  | call method inner next => max (inner.depth + if counted method then 1 else 0) next.depth

/-- No counted method is called. -/
def quiet : Calls → Bool
  | none => true
  | call method inner next => !counted method && inner.quiet && next.quiet

/-- No counted method is called inside another. -/
def flat : Calls → Bool
  | none => true
  | call method inner next =>
    (if counted method then inner.quiet counted else inner.flat) && next.flat

variable {counted}

theorem quiet_iff {calls : Calls} : calls.quiet counted = true ↔ calls.depth counted = 0 := by
  induction calls with
  | none => simp [quiet, depth]
  | call method inner next hinner hnext =>
    cases h : counted method <;> simp [quiet, depth, h, hinner, hnext]

theorem flat_iff {calls : Calls} : calls.flat counted = true ↔ calls.depth counted ≤ 1 := by
  induction calls with
  | none => simp [flat, depth]
  | call method inner next hinner hnext =>
    cases h : counted method with
    | false => simp [flat, depth, h, hinner, hnext]
    | true => simp [flat, depth, h, quiet_iff, hnext]

end Calls

/-! ## The counter -/

/-- `_Overlap`. -/
structure Overlap where
  inside : ℤ
  peak : ℤ
deriving DecidableEq, Repr

namespace Overlap

/-- `__init__`. -/
def init : Overlap :=
  ⟨0, 0⟩

/-- `counted`, before it awaits the method and after. -/
def count (o : Overlap) : Mark → Overlap
  | .enter => ⟨o.inside + 1, max o.peak (o.inside + 1)⟩
  | .leave => { o with inside := o.inside - 1 }

/-- What it comes to. -/
def watch (o : Overlap) (marks : List Mark) : Overlap :=
  marks.foldl count o

variable {counted : String → Bool} {o : Overlap} {i p : ℤ}

theorem watch_append (l l' : List Mark) : o.watch (l ++ l') = (o.watch l).watch l' :=
  List.foldl_append

theorem watch_enter (l : List Mark) :
    watch ⟨i, p⟩ (.enter :: l) = watch ⟨i + 1, max p (i + 1)⟩ l :=
  rfl

theorem watch_leave (l : List Mark) : watch ⟨i, p⟩ (.leave :: l) = watch ⟨i - 1, p⟩ l :=
  rfl

/-- Watching one tree leaves as many inside as there were, and has seen as many more at once
as it is deep. -/
theorem watch_marks (calls : Calls) (h : i ≤ p) :
    watch ⟨i, p⟩ (calls.marks counted) = ⟨i, max p (i + calls.depth counted)⟩ := by
  induction calls generalizing i p with
  | none => simp [Calls.marks, Calls.depth, watch, h]
  | call method inner next hinner hnext =>
    cases hm : counted method with
    | false =>
      have hmarks : (Calls.call method inner next).marks counted =
          inner.marks counted ++ next.marks counted := by simp [Calls.marks, hm]
      rw [hmarks, watch_append, hinner h, hnext (h.trans (le_max_left _ _))]
      simp only [Calls.depth, hm, Bool.false_eq_true, if_false, mk.injEq, true_and]
      omega
    | true =>
      have hmarks : (Calls.call method inner next).marks counted =
          .enter :: (inner.marks counted ++ .leave :: next.marks counted) := by
        simp [Calls.marks, hm]
      rw [hmarks, watch_enter, watch_append, hinner (le_max_right _ _), watch_leave,
        hnext (by omega)]
      simp only [Calls.depth, hm, if_true, mk.injEq]
      omega

/-- Trees that run one after another. -/
theorem peak_watch_le_iff (trees : List Calls) (n : ℤ) (hp : 0 ≤ p) :
    (watch ⟨0, p⟩ (trees.flatMap (Calls.marks counted))).peak ≤ n ↔
      p ≤ n ∧ ∀ calls ∈ trees, (calls.depth counted : ℤ) ≤ n := by
  induction trees generalizing p with
  | nil => simp [watch]
  | cons calls trees ih =>
    rw [List.flatMap_cons, watch_append, watch_marks calls hp,
      ih (hp.trans (le_max_left _ _)), max_le_iff, Int.zero_add, List.forall_mem_cons, and_assoc]

end Overlap

end Nigrains
