import Mathlib.Data.List.Chain
import Mathlib.Data.List.Infix

/-!
# Strings of code points

A Python string is a sequence of code points, and some of them may be surrogates, which no
character is. A text that spells a string in escapes of sixteen bits spells a pair of surrogates
like the one character that they encode : what is read is the string with its pairs joined. A
string is `Whole` if it has none to join, and those are the strings that are read as they were
(`Str.joined_eq_iff`). Every string of characters is.
-/

namespace Nigrains

/-- A string, by its code points. -/
structure Str where
  points : List ℕ
deriving DecidableEq, Repr

/-- A high, or leading, surrogate. -/
def isHigh (p : ℕ) : Prop :=
  0xD800 ≤ p ∧ p < 0xDC00

/-- A low, or trailing, surrogate. -/
def isLow (p : ℕ) : Prop :=
  0xDC00 ≤ p ∧ p < 0xE000

instance : DecidablePred isHigh := fun _ => inferInstanceAs (Decidable (_ ∧ _))

instance : DecidablePred isLow := fun _ => inferInstanceAs (Decidable (_ ∧ _))

/-- Pairs of surrogates become the characters that they encode. -/
def joinPairs : List ℕ → List ℕ
  | high :: low :: rest =>
    if isHigh high ∧ isLow low then
      (0x10000 + (high - 0xD800) * 0x400 + (low - 0xDC00)) :: joinPairs rest
    else high :: joinPairs (low :: rest)
  | rest => rest

namespace Str

/-- A string of characters. -/
def ofString (s : String) : Str :=
  ⟨s.toList.map Char.toNat⟩

instance : Coe String Str := ⟨ofString⟩

instance : Append Str := ⟨fun s t => ⟨s.points ++ t.points⟩⟩

/-- `len`. -/
def length (s : Str) : ℕ :=
  s.points.length

/-- As it is read where it is spelled in escapes. -/
def joined (s : Str) : Str :=
  ⟨joinPairs s.points⟩

/-- No high surrogate is directly followed by a low one. -/
def Whole (s : Str) : Prop :=
  s.points.IsChain fun p q => ¬ (isHigh p ∧ isLow q)

instance {s : Str} : Decidable s.Whole :=
  inferInstanceAs (Decidable (List.IsChain _ _))

@[simp] theorem ofString_inj {s t : String} : ofString s = ofString t ↔ s = t := by
  unfold ofString
  rw [Str.mk.injEq, List.map_inj_right fun a b h => Char.toNat_inj.1 h]
  exact String.toList_inj

@[simp] theorem length_append (s t : Str) : (s ++ t).length = s.length + t.length :=
  List.length_append

end Str

/-! ## What joining leaves -/

theorem length_joinPairs_le : ∀ l : List ℕ, (joinPairs l).length ≤ l.length
  | [] => le_rfl
  | [_] => le_rfl
  | high :: low :: rest => by
    rw [joinPairs]
    split_ifs
    · have hrest := length_joinPairs_le rest
      simp only [List.length_cons]
      omega
    · exact Nat.succ_le_succ (length_joinPairs_le (low :: rest))

/-- What joins nothing changes nothing. -/
theorem joinPairs_eq_self_iff : ∀ {l : List ℕ},
    joinPairs l = l ↔ l.IsChain fun p q => ¬ (isHigh p ∧ isLow q)
  | [] => iff_of_true rfl .nil
  | [p] => iff_of_true rfl (.singleton p)
  | high :: low :: rest => by
    rw [joinPairs, List.isChain_cons_cons]
    split_ifs with hpair
    · refine iff_of_false (fun h => ?_) fun h => h.1 hpair
      have hlength := congrArg List.length h
      have hrest := length_joinPairs_le rest
      simp only [List.length_cons] at hlength
      omega
    · rw [and_iff_right hpair, ← joinPairs_eq_self_iff, List.cons.injEq, and_iff_right rfl]

/-- What is joined begins with what it began with, or with a character that is no surrogate. -/
theorem head_joinPairs (p : ℕ) (l : List ℕ) :
    ∃ q rest, joinPairs (p :: l) = q :: rest ∧ (q = p ∨ ¬ isLow q) := by
  cases l with
  | nil => exact ⟨p, [], rfl, .inl rfl⟩
  | cons low rest =>
    rw [joinPairs]
    split_ifs
    · refine ⟨_, _, rfl, .inr fun h => ?_⟩
      unfold isLow at h
      omega
    · exact ⟨_, _, rfl, .inl rfl⟩

/-- Where pairs have been joined there are no more. -/
theorem isChain_joinPairs : ∀ l : List ℕ,
    (joinPairs l).IsChain fun p q => ¬ (isHigh p ∧ isLow q)
  | [] => .nil
  | [p] => .singleton p
  | high :: low :: rest => by
    rw [joinPairs]
    split_ifs with hpair
    · have hrest := isChain_joinPairs rest
      refine hrest.cons fun q _ h => ?_
      have hhigh := h.1.2
      omega
    · obtain ⟨q, rest', hjoined, hq⟩ := head_joinPairs low rest
      have htail := isChain_joinPairs (low :: rest)
      rw [hjoined] at htail ⊢
      refine List.isChain_cons_cons.2 ⟨fun h => ?_, htail⟩
      rcases hq with rfl | hq
      · exact hpair h
      · exact hq h.2

namespace Str

/-- A string is read as it was exactly if it is whole. -/
theorem joined_eq_iff {s : Str} : s.joined = s ↔ s.Whole := by
  rw [Whole, ← joinPairs_eq_self_iff, joined]
  exact ⟨congrArg points, congrArg mk⟩

theorem Whole.joined_eq {s : Str} (h : s.Whole) : s.joined = s :=
  joined_eq_iff.2 h

/-- What is read is whole. -/
theorem whole_joined (s : Str) : s.joined.Whole :=
  isChain_joinPairs s.points

/-- No character is a surrogate. -/
theorem not_isHigh (c : Char) : ¬ isHigh c.toNat := by
  have hvalid : c.toNat.isValidChar := c.valid
  unfold Nat.isValidChar at hvalid
  unfold isHigh
  omega

@[simp] theorem whole_ofString (s : String) : (ofString s).Whole :=
  (List.isChain_map _).2 (List.pairwise_of_forall fun c _ h => not_isHigh c h.1).isChain

end Str

end Nigrains
