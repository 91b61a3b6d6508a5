import Nigrains.Protocol

/-!
# What holds in every run of the protocol

An event takes at most one activity from what is going on and adds at most one
(`Step.count_pending`), writes at most one entry and one record. From this the invariants
that no schedule can break (`Sound`) : an activation is entered under one identity only,
it is being built by at most one caller and as long as its record says so, and its
`in_flight` counts the calls and ticks that are running on it.
-/

namespace Nigrains

open Activity

/-- The activation an activity is about. -/
def Activity.about : Activity → Option ActId
  | room _ => none
  | build _ a => some a
  | wait a => some a
  | hold a => some a
  | use a => some a
  | tick a => some a
  | down _ a => some a
  | closing _ a => some a

/-- What an event ends. -/
def Event.takes : Event → Option Activity
  | .woke a => some (wait a)
  | .unjoined a => some (wait a)
  | .gaveUp g => some (room g)
  | .published g _ _ => some (room g)
  | .activated g a => some (build g a)
  | .failed g a _ _ => some (build g a)
  | .refused _ a => some (hold a)
  | .entered _ a => some (hold a)
  | .answered _ a _ _ => some (use a)
  | .tocked a => some (tick a)
  | .deactivating who a => some (down who a)
  | .abandoned who a => some (down who a)
  | .deactivated who a => some (closing who a)
  | _ => none

/-- What an event begins. -/
def Event.gives : Event → Option Activity
  | .found _ a => some (hold a)
  | .joined _ a => some (wait a)
  | .missed g => some (room g)
  | .woke a => some (hold a)
  | .published g a _ => some (build g a)
  | .activated _ a => some (hold a)
  | .entered _ a => some (use a)
  | .ticked a => some (tick a)
  | .taken who _ a => some (down who a)
  | .deactivating who a => some (closing who a)
  | _ => none

/-- The entry of an identity changes by an activation entered or taken out under it. -/
def Event.entry (entry : GrainId → Option ActId) (g : GrainId) : Event → Option ActId
  | .published g' a _ => if g = g' then some a else entry g
  | .failed g' _ _ _ => if g = g' then none else entry g
  | .taken _ g' _ => if g = g' then none else entry g
  | _ => entry g

def Event.built (built : ℕ) : Event → ℕ
  | .published .. => built + 1
  | _ => built

/-- The record of the activation `a` changes as its own events say. -/
def Event.life (a : ActId) (x : Life) : Event → Life
  | .published _ b _ => if a = b then .new else x
  | .activated _ b => if a = b then { x with isSet := x.isSet || x.ready, ready := false } else x
  | .failed _ b _ _ => if a = b then { x with failed := true, isSet := x.isSet || x.ready } else x
  | .entered _ b => if a = b then { x with inFlight := x.inFlight + 1 } else x
  | .ticked b => if a = b then { x with inFlight := x.inFlight + 1 } else x
  | .answered _ b _ _ => if a = b then { x with inFlight := x.inFlight - 1 } else x
  | .tocked b => if a = b then { x with inFlight := x.inFlight - 1 } else x
  | _ => x

/-- How many of `z` there are in place of `x`. -/
def Event.counts (x : Option Activity) (z : Activity) : ℕ :=
  if x = some z then 1 else 0

theorem Event.counts_some (x z : Activity) : Event.counts (some x) z = if z = x then 1 else 0 := by
  simp only [Event.counts, Option.some.injEq, eq_comm]

/-- A call or a tick that begins or ends is counted. -/
theorem Event.inFlight_life {a : ActId} {x : Life} {e : Event}
    (he : ∀ g old, e ≠ .published g a old) :
    (e.life a x).inFlight + counts e.takes (use a) + counts e.takes (tick a) =
      x.inFlight + counts e.gives (use a) + counts e.gives (tick a) := by
  cases e
  case published g b old =>
    have hab : a ≠ b := fun h => he g old (by rw [h])
    simp [Event.life, takes, gives, counts, hab]
  all_goals
    simp only [Event.life, takes, gives, counts, Option.some.injEq, reduceCtorEq, if_false,
      use.injEq, tick.injEq, eq_comm (a := a)]
    try split_ifs
    all_goals simp

namespace Protocol

variable {P P' : Protocol} {e : Event}

/-! ## What an event does -/

/-- What is going on changes by what the event takes and gives. -/
theorem Step.count_pending (h : Step P e P') (z : Activity) :
    P'.pending.count z + Event.counts e.takes z =
      P.pending.count z + Event.counts e.gives z := by
  have trade : ∀ {x y : Activity} {M N : Multiset Activity}, N = x ::ₘ M →
      (y ::ₘ M).count z + Event.counts (some x) z = N.count z + Event.counts (some y) z := by
    rintro x y M N rfl
    rw [Event.counts_some, Event.counts_some, Multiset.count_cons, Multiset.count_cons]
    omega
  have lose : ∀ {x : Activity} {M N : Multiset Activity}, N = x ::ₘ M →
      M.count z + Event.counts (some x) z = N.count z := by
    rintro x M N rfl
    rw [Event.counts_some, Multiset.count_cons]
  have gain : ∀ {y : Activity} {N : Multiset Activity},
      (y ::ₘ N).count z = N.count z + Event.counts (some y) z := by
    intro y N
    rw [Event.counts_some, Multiset.count_cons]
  cases h
  all_goals
    first
      | rfl
      | exact gain
      | exact trade (by assumption)
      | exact lose (by assumption)

/-- What is going on after an event was going on before it, or began with it. -/
theorem Step.mem_pending (h : Step P e P') {x : Activity} (hx : x ∈ P'.pending) :
    x ∈ P.pending ∨ e.gives = some x := by
  have hc := h.count_pending x
  rw [← Multiset.one_le_count_iff_mem] at hx ⊢
  by_cases hg : e.gives = some x
  · exact .inr hg
  · refine .inl ?_
    simp only [Event.counts, hg, if_false] at hc
    omega

/-- What is going on goes on, unless the event ends it. -/
theorem Step.pending_mem (h : Step P e P') {x : Activity} (hx : x ∈ P.pending) :
    x ∈ P'.pending ∨ e.takes = some x := by
  have hc := h.count_pending x
  rw [← Multiset.one_le_count_iff_mem] at hx ⊢
  by_cases hg : e.takes = some x
  · exact .inr hg
  · refine .inl ?_
    simp only [Event.counts, hg, if_false] at hc
    omega

/-- What an event ends was going on. -/
theorem Step.takes_mem (h : Step P e P') {x : Activity} (hx : e.takes = some x) :
    x ∈ P.pending := by
  have first : ∀ {y : Activity} {M N : Multiset Activity},
      N = y ::ₘ M → some y = some x → x ∈ N := by
    rintro y M N rfl hy
    exact Option.some.inj hy ▸ Multiset.mem_cons_self _ _
  cases h
  all_goals
    first
      | contradiction
      | exact first (by assumption) hx

/-- What an event begins is going on after it. -/
theorem Step.gives_mem (h : Step P e P') {x : Activity} (hx : e.gives = some x) :
    x ∈ P'.pending := by
  cases h
  all_goals
    first
      | contradiction
      | exact Option.some.inj hx ▸ Multiset.mem_cons_self _ _

theorem Step.entry_eq (h : Step P e P') (g : GrainId) : P'.entry g = e.entry P.entry g := by
  cases h
  case published | failed | taken => exact Function.update_apply ..
  all_goals rfl

theorem Step.built_eq (h : Step P e P') : P'.built = e.built P.built := by
  cases h <;> rfl

theorem Step.life_eq (h : Step P e P') (a : ActId) : P'.life a = e.life a (P.life a) := by
  cases h
  case published | activated | failed | entered | ticked | answered | tocked =>
    refine (Function.update_apply ..).trans ?_
    dsimp only [Event.life]
    split_ifs with ha <;> first | rfl | (rw [ha]; done) | (rw [ha]; rfl)
  all_goals rfl

/-! ## What no schedule can break -/

/-- Some caller is building the activation. -/
def building (P : Protocol) (a : ActId) : Prop :=
  ∃ g, build g a ∈ P.pending

/-- What an activation's record says while it is being built, when it is live, and when
it has failed. -/
def Staged (P : Protocol) (a : ActId) : Prop :=
  P.building a ∧ (P.life a).ready = true ∧ (P.life a).isSet = false ∧ (P.life a).failed = false ∨
  ¬ P.building a ∧ (P.life a).ready = false ∧ (P.life a).isSet = true ∧
    (P.life a).failed = false ∨
  ¬ P.building a ∧ (P.life a).ready = true ∧ (P.life a).isSet = true ∧ (P.life a).failed = true

/-- An event about another activation leaves the callers that build `a`. -/
theorem Step.building_iff (h : Step P e P') {a : ActId} (ht : ∀ g, e.takes ≠ some (build g a))
    (hg : ∀ g, e.gives ≠ some (build g a)) : P'.building a ↔ P.building a :=
  ⟨fun ⟨g, hb⟩ => ⟨g, (h.mem_pending hb).resolve_right (hg g)⟩,
    fun ⟨g, hb⟩ => ⟨g, (h.pending_mem hb).resolve_right (ht g)⟩⟩

/-- The invariants of every run. -/
structure Sound (P : Protocol) : Prop where
  entry_lt : ∀ g a, P.entry g = some a → a < P.built
  about_lt : ∀ x ∈ P.pending, ∀ a, x.about = some a → a < P.built
  /-- An activation is entered under one identity. -/
  entry_inj : ∀ g g' a, P.entry g = some a → P.entry g' = some a → g = g'
  build_entry : ∀ g g' a, build g a ∈ P.pending → P.entry g' = some a → g' = g
  /-- An activation is built by one caller. -/
  build_once : ∀ g a, P.pending.count (build g a) ≤ 1
  build_inj : ∀ g g' a, build g a ∈ P.pending → build g' a ∈ P.pending → g = g'
  staged : ∀ a < P.built, P.Staged a
  /-- What the table holds has not failed. -/
  entry_live : ∀ g a, P.entry g = some a → (P.life a).failed = false
  /-- `in_flight` counts the calls and the ticks. -/
  inFlight : ∀ a, (P.life a).inFlight = P.pending.count (use a) + P.pending.count (tick a)

/-- An activation that is ready is not being built any more. -/
theorem Sound.not_building (hs : Sound P) {a : ActId} (ha : a < P.built)
    (hr : (P.life a).ready = false) : ¬ P.building a := by
  rcases hs.staged a ha with hst | hst | hst
  · rw [hst.2.1] at hr
    cases hr
  · exact hst.1
  · exact hst.1

theorem sound_init : Sound init where
  entry_lt _ _ h := by cases h
  about_lt _ h := absurd h (Multiset.notMem_zero _)
  entry_inj _ _ _ h := by cases h
  build_entry _ _ _ h := absurd h (Multiset.notMem_zero _)
  build_once _ _ := by simp [init]
  build_inj _ _ _ h := absurd h (Multiset.notMem_zero _)
  staged _ h := absurd h (Nat.not_lt_zero _)
  entry_live _ _ h := by cases h
  inFlight _ := rfl

/-- An entry after an event was there before it, or has just been made. -/
theorem Step.entry_of (h : Step P e P') {g : GrainId} {a : ActId} (ha : P'.entry g = some a) :
    P.entry g = some a ∨ (∃ old, e = .published g a old) ∧ a = P.built := by
  have hg := h.entry_eq g
  rw [ha] at hg
  cases h
  case published =>
    dsimp only [Event.entry] at hg
    split_ifs at hg with hgg
    · cases hg
      exact .inr ⟨⟨_, by rw [hgg]⟩, rfl⟩
    · exact .inl hg.symm
  case failed | taken =>
    dsimp only [Event.entry] at hg
    split_ifs at hg
    exact .inl hg.symm
  all_goals exact .inl hg.symm

/-- A caller that builds was building already, or has just entered its activation. -/
theorem Step.build_of (h : Step P e P') {g : GrainId} {a : ActId} (hb : build g a ∈ P'.pending) :
    build g a ∈ P.pending ∨ (∃ old, e = .published g a old) ∧ a = P.built := by
  rcases h.mem_pending hb with hm | hg
  · exact .inl hm
  · cases h
    case published =>
      cases hg
      exact .inr ⟨⟨_, rfl⟩, rfl⟩
    all_goals cases hg

theorem Step.built_le (h : Step P e P') : P.built ≤ P'.built := by
  rw [h.built_eq]
  unfold Event.built
  split <;> omega

theorem Step.built_of_published (h : Step P e P') {g : GrainId} {a : ActId} {old : Option ActId}
    (he : e = .published g a old) : P'.built = P.built + 1 := by
  rw [h.built_eq, he]
  rfl

namespace Sound

variable (hs : Sound P) (h : Step P e P')

include hs h

theorem step_entry_lt {g : GrainId} {a : ActId} (ha : P'.entry g = some a) : a < P'.built := by
  rcases h.entry_of ha with hP | ⟨⟨old, he⟩, rfl⟩
  · exact (hs.entry_lt g a hP).trans_le h.built_le
  · rw [h.built_of_published he]
    exact Nat.lt_succ_self _

theorem step_about_lt {x : Activity} (hx : x ∈ P'.pending) {a : ActId}
    (ha : x.about = some a) : a < P'.built := by
  rcases h.mem_pending hx with hP | hg
  · exact (hs.about_lt x hP a ha).trans_le h.built_le
  · have htaken : ∀ y, e.takes = some y → y.about = some a → a < P'.built := fun y hy hay =>
      (hs.about_lt y (h.takes_mem hy) a hay).trans_le h.built_le
    cases h <;> cases hg <;> cases ha
    all_goals
      first
        | exact htaken _ rfl rfl
        | exact hs.entry_lt _ _ (by assumption)
        | exact Nat.lt_succ_self _
        | assumption

theorem step_entry_inj {g g' : GrainId} {a : ActId} (ha : P'.entry g = some a)
    (ha' : P'.entry g' = some a) : g = g' := by
  rcases h.entry_of ha with hP | ⟨⟨old, he⟩, rfl⟩ <;>
    rcases h.entry_of ha' with hP' | ⟨⟨old', he'⟩, ha⟩
  · exact hs.entry_inj g g' a hP hP'
  · exact absurd (hs.entry_lt g a hP) ha.not_lt
  · exact absurd (hs.entry_lt g' _ hP') (lt_irrefl _)
  · rw [he] at he'
    cases he'
    rfl

theorem step_build_entry {g g' : GrainId} {a : ActId} (hb : build g a ∈ P'.pending)
    (ha : P'.entry g' = some a) : g' = g := by
  rcases h.entry_of ha with hP | ⟨⟨old, he⟩, rfl⟩ <;>
    rcases h.build_of hb with hP' | ⟨⟨old', he'⟩, ha⟩
  · exact hs.build_entry g g' a hP' hP
  · exact absurd (hs.entry_lt g' a hP) ha.not_lt
  · exact absurd (hs.about_lt _ hP' _ rfl) (lt_irrefl _)
  · rw [he] at he'
    cases he'
    rfl

theorem step_build_inj {g g' : GrainId} {a : ActId} (hb : build g a ∈ P'.pending)
    (hb' : build g' a ∈ P'.pending) : g = g' := by
  rcases h.build_of hb with hP | ⟨⟨old, he⟩, rfl⟩ <;>
    rcases h.build_of hb' with hP' | ⟨⟨old', he'⟩, ha⟩
  · exact hs.build_inj g g' a hP hP'
  · exact absurd (hs.about_lt _ hP _ rfl) ha.not_lt
  · exact absurd (hs.about_lt _ hP' _ rfl) (lt_irrefl _)
  · rw [he] at he'
    cases he'
    rfl

theorem step_build_once (g : GrainId) (a : ActId) : P'.pending.count (build g a) ≤ 1 := by
  have hc := h.count_pending (build g a)
  have h1 := hs.build_once g a
  by_cases hg : e.gives = some (build g a)
  · have h0 : P.pending.count (build g a) = 0 := by
      rw [Multiset.count_eq_zero]
      intro hm
      have hlt := hs.about_lt _ hm a rfl
      cases h <;> cases hg
      exact lt_irrefl _ hlt
    simp only [Event.counts, hg, if_true] at hc
    omega
  · simp only [Event.counts, hg, if_false] at hc
    omega

/-- Once the caller that builds is done, nobody builds. -/
theorem step_not_building {g : GrainId} {a : ActId} (ht : e.takes = some (build g a)) :
    ¬ P'.building a := by
  rintro ⟨g', hb⟩
  have hm := h.takes_mem ht
  have hg : build g' a ∈ P.pending := by
    rcases h.mem_pending hb with hP | hg
    · exact hP
    · cases h <;> cases ht <;> cases hg
  obtain rfl := hs.build_inj _ _ a hg hm
  have hc := h.count_pending (build g' a)
  have h1 := hs.build_once g' a
  have h2 := Multiset.one_le_count_iff_mem.2 hb
  have h3 : Event.counts e.gives (build g' a) = 0 := by
    cases h <;> cases ht <;> rfl
  simp only [Event.counts, ht, if_true] at hc h3
  omega

theorem step_staged {a : ActId} (ha : a < P'.built) : P'.Staged a := by
  -- an event that is not about the caller that builds `a` changes nothing of its stage
  have keep (hlt : a < P.built) (ht : ∀ g, e.takes ≠ some (build g a))
      (hg : ∀ g, e.gives ≠ some (build g a))
      (hl : (P'.life a).ready = (P.life a).ready ∧ (P'.life a).isSet = (P.life a).isSet ∧
        (P'.life a).failed = (P.life a).failed) : P'.Staged a := by
    have hst := hs.staged a hlt
    unfold Staged at hst ⊢
    rwa [h.building_iff ht hg, hl.1, hl.2.1, hl.2.2]
  have hlife := h.life_eq a
  have hbuilt := h.built_eq
  by_cases htakes : ∃ g, e.takes = some (build g a)
  · obtain ⟨g, ht⟩ := htakes
    have hnot := hs.step_not_building h ht
    have hlt := hs.about_lt _ (h.takes_mem ht) a rfl
    have hst := hs.staged a hlt
    have hb : P.building a := ⟨g, h.takes_mem ht⟩
    obtain ⟨-, h1, h2, h3⟩ : P.building a ∧ _ := by
      rcases hst with hst | hst | hst
      · exact hst
      · exact absurd hb hst.1
      · exact absurd hb hst.1
    cases h <;> cases ht
    · refine .inr (.inl ⟨hnot, ?_⟩)
      simp [hlife, Event.life, h1, h3]
    · refine .inr (.inr ⟨hnot, ?_⟩)
      simp [hlife, Event.life, h1]
  · have ht : ∀ g, e.takes ≠ some (build g a) := fun g hg => htakes ⟨g, hg⟩
    by_cases hgives : ∃ g, e.gives = some (build g a)
    · obtain ⟨g, hg⟩ := hgives
      have hb : P'.building a := ⟨g, h.gives_mem hg⟩
      refine .inl ⟨hb, ?_⟩
      rw [hlife]
      cases h <;> cases hg
      simp [Event.life, Life.new]
    · have hg : ∀ g, e.gives ≠ some (build g a) := fun g h' => hgives ⟨g, h'⟩
      refine keep ?_ ht hg ?_
      · cases h
        case published =>
          have hne : a ≠ P.built := fun ha' => hg _ (by rw [ha']; rfl)
          exact lt_of_le_of_ne (Nat.lt_succ_iff.1 ha) hne
        all_goals exact ha
      · rw [hlife]
        cases h
        case published | activated | failed =>
          dsimp only [Event.life]
          split_ifs with hab
          · first
              | exact (ht _ (by rw [hab]; rfl)).elim
              | exact (hg _ (by rw [hab]; rfl)).elim
          · exact ⟨rfl, rfl, rfl⟩
        all_goals
          dsimp only [Event.life]
          try split_ifs
          all_goals exact ⟨rfl, rfl, rfl⟩

theorem step_entry_live {g : GrainId} {a : ActId} (ha : P'.entry g = some a) :
    (P'.life a).failed = false := by
  have hlife := h.life_eq a
  rw [hlife]
  rcases h.entry_of ha with hP | ⟨⟨old, rfl⟩, rfl⟩
  · have hold := hs.entry_live g a hP
    have hne : ∀ g' x old, e ≠ .failed g' a x old := by
      rintro g' x old rfl
      obtain rfl := hs.build_entry g' g a (h.takes_mem rfl) hP
      have hg := h.entry_eq g
      simp [Event.entry, ha] at hg
    cases h
    case failed =>
      dsimp only [Event.life]
      split_ifs with hab
      · exact (hne _ _ _ (by rw [hab])).elim
      · exact hold
    case published =>
      dsimp only [Event.life]
      split_ifs
      · rfl
      · exact hold
    all_goals
      dsimp only [Event.life]
      try split_ifs
      all_goals exact hold
  · simp [Event.life, Life.new]

theorem step_inFlight (a : ActId) :
    (P'.life a).inFlight = P'.pending.count (use a) + P'.pending.count (tick a) := by
  have hu := h.count_pending (use a)
  have ht := h.count_pending (tick a)
  have hold := hs.inFlight a
  rw [h.life_eq]
  by_cases hp : ∃ g old, e = .published g a old
  · -- nothing runs yet on an activation that is being entered into the table
    obtain ⟨g, old, rfl⟩ := hp
    have hnone : ∀ x : Activity, x.about = some a → P.pending.count x = 0 := by
      intro x hx
      refine Multiset.count_eq_zero.2 fun hm => ?_
      have hlt := hs.about_lt x hm a hx
      cases h
      exact lt_irrefl _ hlt
    have h1 := hnone (use a) rfl
    have h2 := hnone (tick a) rfl
    have h3 : (Event.published g a old).takes = some (room g) := rfl
    have h4 : (Event.published g a old).gives = some (build g a) := rfl
    simp only [h3, h4, Event.counts_some, reduceCtorEq, if_false] at hu ht
    simp only [Event.life, if_true, Life.new]
    omega
  · have he := Event.inFlight_life (a := a) (x := P.life a) fun g old h => hp ⟨g, old, h⟩
    omega

end Sound

theorem Step.sound (h : Step P e P') (hs : Sound P) : Sound P' where
  entry_lt _ _ := hs.step_entry_lt h
  about_lt _ hx _ := hs.step_about_lt h hx
  entry_inj _ _ _ := hs.step_entry_inj h
  build_entry _ _ _ := hs.step_build_entry h
  build_once := hs.step_build_once h
  build_inj _ _ _ := hs.step_build_inj h
  staged _ := hs.step_staged h
  entry_live _ _ := hs.step_entry_live h
  inFlight := hs.step_inFlight h

end Protocol

end Nigrains
