import Mathlib.Data.List.Dedup
import Mathlib.Data.List.DropRight
import Mathlib.Data.List.Infix

/-!
# Least recently used

What a cache of bounded size holds if it makes room by giving up the key that was last used
longest ago. A history lists the keys that were used, the latest first, and what is kept is read
off it : the distinct keys, in the order of their last use (`recent`), up to the bound (`kept`).
`kept_hit`, `kept_room` and `kept_full` say what one more use changes.
-/

namespace Nigrains.Lru

open List

variable {κ : Type*} [DecidableEq κ] {k : κ} {m : ℕ} {history : List κ}

/-- The distinct keys of a history, the latest used first. -/
def recent : List κ → List κ
  | [] => []
  | k :: history => k :: (recent history).erase k

/-- What a cache of `m` keys holds, the latest used first. -/
def kept (m : ℕ) (history : List κ) : List κ :=
  (recent history).take m

/-- The uses that found no entry, the latest first. -/
def misses (m : ℕ) : List κ → List κ
  | [] => []
  | k :: history => if k ∈ kept m history then misses m history else k :: misses m history

/-- How many of them found the cache full. -/
def evictions (m : ℕ) : List κ → ℕ
  | [] => 0
  | k :: history =>
    if k ∉ kept m history ∧ (kept m history).length = m then evictions m history + 1
    else evictions m history

example : kept 2 [3, 1, 2, 1] = [3, 1] ∧ misses 2 [3, 1, 2, 1] = [3, 2, 1] ∧
    evictions 2 [3, 1, 2, 1] = 1 := by decide

/-! ## Keys in the order of their last use -/

theorem nodup_recent : (recent history).Nodup := by
  induction history with
  | nil => exact nodup_nil
  | cons k history ih => exact nodup_cons.2 ⟨ih.not_mem_erase, ih.erase k⟩

/-- One more use at the end of a history. -/
theorem dedup_concat (l : List κ) : (l ++ [k]).dedup = l.dedup.erase k ++ [k] := by
  induction l with
  | nil => rfl
  | cons k' l ih =>
    rw [cons_append]
    by_cases hmem : k' ∈ l
    · rw [dedup_cons_of_mem hmem, dedup_cons_of_mem (mem_append_left _ hmem), ih]
    · rw [dedup_cons_of_notMem hmem]
      by_cases hk : k' = k
      · subst hk
        rw [dedup_cons_of_mem (mem_append_right _ (mem_singleton_self _)), ih, erase_cons_head,
          erase_of_not_mem fun h => hmem (mem_dedup.1 h)]
      · rw [dedup_cons_of_notMem (by simp [hmem, hk]), ih, erase_cons_tail (by simpa using hk),
          cons_append]

/-- The distinct keys of a history, oldest first, where a key stands at its last use. -/
theorem reverse_recent : (recent history).reverse = history.reverse.dedup := by
  induction history with
  | nil => rfl
  | cons k history ih =>
    rw [recent, reverse_cons, reverse_cons, dedup_concat, ← ih, nodup_recent.erase_eq_filter,
      (nodup_reverse.2 nodup_recent).erase_eq_filter, filter_reverse]

/-- What is kept are the last `m` of them. -/
theorem reverse_kept : (kept m history).reverse = history.reverse.dedup.rtake m := by
  rw [rtake_eq_reverse_take_reverse, ← reverse_recent, reverse_reverse]
  rfl

/-! ## One more use -/

theorem nodup_kept : (kept m history).Nodup :=
  nodup_recent.sublist (take_sublist m _)

theorem length_kept_le : (kept m history).length ≤ m :=
  length_take_le ..

/-- What is taken of a list without a key that stands among the first. -/
theorem take_erase_of_mem : ∀ {n : ℕ} {l : List κ}, k ∈ l.take (n + 1) →
    (l.erase k).take n = (l.take (n + 1)).erase k
  | _, [], h => by cases h
  | n, k' :: l, h => by
    by_cases hk : k' = k
    · subst hk
      rw [take_succ_cons, erase_cons_head, erase_cons_head]
    · cases n with
      | zero =>
        rw [take_succ_cons, mem_cons] at h
        rcases h with h | h
        · exact (hk h.symm).elim
        · cases h
      | succ n =>
        rw [take_succ_cons, mem_cons] at h
        have hmem := h.resolve_left fun h => hk h.symm
        rw [erase_cons_tail (by simpa using hk), take_succ_cons, take_succ_cons,
          erase_cons_tail (by simpa using hk), take_erase_of_mem hmem]

/-- And of a list without a key that does not. -/
theorem take_erase_of_notMem : ∀ {n : ℕ} {l : List κ}, k ∉ l.take n → (l.erase k).take n = l.take n
  | _, [], _ => rfl
  | 0, _ :: _, _ => rfl
  | n + 1, k' :: l, h => by
    rw [take_succ_cons, mem_cons, not_or] at h
    rw [erase_cons_tail (by simpa using Ne.symm h.1), take_succ_cons, take_succ_cons,
      take_erase_of_notMem h.2]

/-- A key that is kept moves to the recent end. -/
theorem kept_hit (h : k ∈ kept m history) :
    kept m (k :: history) = k :: (kept m history).erase k := by
  cases m with
  | zero => cases h
  | succ m =>
    show k :: ((recent history).erase k).take m = _
    rw [take_erase_of_mem h]
    rfl

theorem kept_miss {n : ℕ} (h : k ∉ kept (n + 1) history) :
    kept (n + 1) (k :: history) = k :: (recent history).take n := by
  show k :: ((recent history).erase k).take n = _
  rw [take_erase_of_notMem fun hmem => h (take_subset_take_left _ (Nat.le_succ n) hmem)]

/-- While there is room, one more key is kept. -/
theorem kept_room (h : k ∉ kept m history) (hroom : (kept m history).length < m) :
    kept m (k :: history) = k :: kept m history := by
  cases m with
  | zero => cases hroom
  | succ n =>
    rw [kept_miss h]
    unfold kept at hroom ⊢
    rw [length_take] at hroom
    rw [take_of_length_le (by omega), take_of_length_le (by omega)]

/-- Where there is none, it is kept in place of the one last used longest ago. -/
theorem kept_full (hm : 1 ≤ m) (h : k ∉ kept m history) (hfull : (kept m history).length = m) :
    kept m (k :: history) = k :: (kept m history).dropLast := by
  obtain ⟨n, rfl⟩ := Nat.exists_eq_add_of_le' hm
  rw [kept_miss h]
  unfold kept at hfull ⊢
  rw [dropLast_eq_take, hfull, take_take]
  simp

theorem misses_hit (h : k ∈ kept m history) : misses m (k :: history) = misses m history :=
  if_pos h

theorem misses_miss (h : k ∉ kept m history) :
    misses m (k :: history) = k :: misses m history :=
  if_neg h

theorem evictions_full (h : k ∉ kept m history) (hfull : (kept m history).length = m) :
    evictions m (k :: history) = evictions m history + 1 :=
  if_pos ⟨h, hfull⟩

theorem evictions_else (h : k ∈ kept m history ∨ (kept m history).length ≠ m) :
    evictions m (k :: history) = evictions m history :=
  if_neg fun hx => h.elim hx.1 fun hne => hne hx.2

/-! ## Keys by how long ago they were used -/

/-- Keys in the order of their last use, the latest first. -/
def Ordered (history l : List κ) : Prop :=
  l.Pairwise fun k k' => history.idxOf k < history.idxOf k'

theorem idxOf_cons_lt {k₁ k₂ : κ} (h₁ : k₁ ≠ k) (h₂ : k₂ ≠ k)
    (h : history.idxOf k₁ < history.idxOf k₂) :
    (k :: history).idxOf k₁ < (k :: history).idxOf k₂ := by
  rw [idxOf_cons_ne _ h₁.symm, idxOf_cons_ne _ h₂.symm]
  exact Nat.succ_lt_succ h

/-- A use of a key that is not among them. -/
theorem Ordered.use_other {l : List κ} (h : Ordered history l) (hk : k ∉ l) :
    Ordered (k :: history) l :=
  h.imp_of_mem fun h₁ h₂ hlt =>
    idxOf_cons_lt (fun he => hk (he ▸ h₁)) (fun he => hk (he ▸ h₂)) hlt

/-- A key that is used goes to the recent end. -/
theorem Ordered.use {l : List κ} (h : Ordered history l) (hk : k ∉ l) :
    Ordered (k :: history) (k :: l) := by
  refine pairwise_cons.2 ⟨fun k' hk' => ?_, h.use_other hk⟩
  have hne : k ≠ k' := fun he => hk (he ▸ hk')
  rw [idxOf_cons_self, idxOf_cons_ne _ hne]
  exact Nat.succ_pos _

theorem Ordered.erase {l : List κ} (h : Ordered history l) (k : κ) :
    Ordered history (l.erase k) :=
  h.sublist (erase_sublist ..)

end Nigrains.Lru
