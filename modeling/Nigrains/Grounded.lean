import Nigrains.EventLoop

/-!
# Frames and all that is under them

What a frame needs of the frames under it may reach further down than the one that awaits it.
`Grounded W` says that every frame of a stack has `W` of all that is under it. Landing a segment
keeps that if the segment leaves frames that have it wherever its own frame had
(`Grounded.land`).
-/

namespace Nigrains

variable {φ ω κ : Type*}

/-- Every frame of a stack has `W` of what is under it. -/
def Grounded (W : φ → List φ → Prop) : List φ → Prop
  | [] => True
  | f :: rest => W f rest ∧ Grounded W rest

/-- A segment of `f` leaves frames that stand wherever `f` did. -/
def Next.Stands (W : φ → List φ → Prop) (f : φ) : Next φ ω → Prop
  | .await self callee => ∀ rest, W f rest → W self rest ∧ W callee (self :: rest)
  | .goto frame => ∀ rest, W f rest → W frame rest
  | .park self => ∀ rest, W f rest → W self rest
  | .done _ => True

variable {W : φ → List φ → Prop} {L : Loop φ ω κ} {t : ℕ}

theorem Grounded.of_append {f : φ} {rest : List φ} :
    ∀ {above : List φ}, Grounded W (above ++ f :: rest) → W f rest
  | [], h => h.1
  | _ :: above, h => (of_append : Grounded W (above ++ f :: rest) → W f rest) h.2

/-- A frame may change to one that stands as well, and that the frames above do not tell
apart. -/
theorem Grounded.set {f f' : φ} (hself : ∀ rest, W f rest → W f' rest)
    (habove : ∀ g above rest, W g (above ++ f :: rest) → W g (above ++ f' :: rest)) :
    ∀ {l : List φ} {i : ℕ}, l[i]? = some f → Grounded W l → Grounded W (l.set i f')
  | [], _, h, _ => by cases h
  | g :: rest, 0, h, hs => by
    obtain rfl : g = f := by simpa using h
    exact ⟨hself rest hs.1, hs.2⟩
  | g :: rest, i + 1, h, hs => by
    have h' : rest[i]? = some f := by simpa using h
    refine ⟨?_, set hself habove h' hs.2⟩
    obtain ⟨hi, rfl⟩ := List.getElem?_eq_some_iff.1 h'
    obtain ⟨above, under, hsplit, -, hset⟩ :
        ∃ above under, rest = above ++ rest[i] :: under ∧ above.length = i ∧
          rest.set i f' = above ++ f' :: under := List.exists_of_set hi
    have hg := hs.1
    rw [hsplit] at hg
    rw [hset]
    exact habove g _ _ hg

theorem Grounded.land {f : φ} {rest : List φ} (hs : (L.tasks t).stack = f :: rest)
    (h : ∀ u, Grounded W (L.tasks u).stack) {n : Next φ ω} (hn : n.Stands W f) (u : ℕ) :
    Grounded W ((L.land t rest n).tasks u).stack := by
  have ht := h t
  rw [hs] at ht
  obtain ⟨hf, hrest⟩ := ht
  by_cases hu : u = t
  · subst hu
    rw [Loop.stack_land_self]
    cases n with
    | await self callee => exact ⟨(hn rest hf).2, (hn rest hf).1, hrest⟩
    | goto frame => exact ⟨hn rest hf, hrest⟩
    | park self => exact ⟨hn rest hf, hrest⟩
    | done o => exact hrest
  · rw [Loop.stack_land L hu]
    exact h u

/-- What a segment does to the other tasks leaves every frame standing, if the frames it starts
stand on nothing. -/
theorem Grounded.keeps {fresh : φ → Prop} {L' : Loop φ ω κ} (hk : Loop.Keeps fresh L L')
    (h : ∀ u, Grounded W (L.tasks u).stack) (hfresh : ∀ f, fresh f → W f []) (u : ℕ) :
    Grounded W (L'.tasks u).stack := by
  rcases hk.stack_cases u with hs | ⟨f, hf, -, -, hs⟩
  · rw [hs]
    exact h u
  · rw [hs]
    exact ⟨hfresh f hf, trivial⟩

end Nigrains
