import Nigrains.Refinement

/-!
# One activation of an identity

`_activated` looks an identity up, makes room, builds a grain and enters it into the
table. Making room may suspend, so what the lookup found may no longer be so when the
entry is made : a second caller of the same cold identity overwrites the first one's
activation (`herd`). As long as no lookup finds an identity absent while another caller of
it is between its own lookup and its entry, nothing is overwritten, no two activations of
one identity are live, and a failing activation removes its own entry (`published_once`).
-/

namespace Nigrains

/-- The event enters an activation into the table. -/
def Event.enters (g : GrainId) (a : ActId) : Event → Bool
  | .published g' a' _ => g' = g ∧ a' = a
  | _ => false

/-- The event ends the life of an activation : it has failed, or is taken out. -/
def Event.removes (g : GrainId) (a : ActId) : Event → Bool
  | .failed g' a' _ _ => g' = g ∧ a' = a
  | .taken _ g' a' => g' = g ∧ a' = a
  | _ => false

namespace Protocol

variable {P P' : Protocol} {e : Event}

/-- No lookup finds an identity absent while another caller of it makes room, and what is
taken out on leaving has been activated. -/
def LooksUpAlone (P : Protocol) : Event → Prop
  | .missed g => .room g ∉ P.pending
  | .taken who g a => who = .aexit → .build g a ∉ P.pending
  | _ => True

instance : Decidable (P.LooksUpAlone e) :=
  decidableOr (match e with
    | .missed _ => some (inferInstanceAs (Decidable (_ ∉ _)))
    | .taken .. => some (inferInstanceAs (Decidable (_ → _)))
    | _ => none) (by cases e <;> simp [LooksUpAlone])

/-- A caller making room for an identity is the only one, and finds no entry; a caller that
is building finds its own. -/
structure Owned (P : Protocol) : Prop where
  room_once : ∀ g, P.pending.count (.room g) ≤ 1
  room_entry : ∀ g, .room g ∈ P.pending → P.entry g = none
  build_entry : ∀ g a, .build g a ∈ P.pending → P.entry g = some a

theorem owned_init : Owned init where
  room_once _ := Nat.zero_le _
  room_entry _ h := absurd h (Multiset.notMem_zero _)
  build_entry _ _ h := absurd h (Multiset.notMem_zero _)

/-- What `_make_room` and `collect` take out has been activated, and so has what is taken
out on leaving. -/
theorem Step.not_building_of_taken {who : Remover} {g : GrainId} {a : ActId}
    (h : Step P (.taken who g a) P') (hs : Sound P) (hc : LooksUpAlone P (.taken who g a)) :
    ¬ P.building a := by
  cases h with
  | taken who he hidle hhold =>
    by_cases hwho : who = .aexit
    · rintro ⟨g', hb⟩
      obtain rfl := hs.build_entry g' g a hb he
      exact hc hwho hb
    · exact hs.not_building (hs.entry_lt g a he) (hidle hwho).2

namespace Owned

variable (hO : Owned P) (hs : Sound P) (hc : LooksUpAlone P e) (h : Step P e P')

include hO hc h in
theorem step_room_once (g : GrainId) : P'.pending.count (.room g) ≤ 1 := by
  have hcount := h.count_pending (.room g)
  have hle := hO.room_once g
  by_cases hg : e.gives = some (.room g)
  · have hnone : P.pending.count (.room g) = 0 := by
      rw [Multiset.count_eq_zero]
      cases h <;> cases hg
      exact hc
    simp only [Event.counts, hg, if_true] at hcount
    omega
  · simp only [Event.counts, hg, if_false] at hcount
    omega

include hO h in
/-- Once its activation is entered, nobody makes room for the identity any more. -/
theorem step_no_room {g : GrainId} {a : ActId} {old : Option ActId}
    (he : e = .published g a old) : .room g ∉ P'.pending := by
  intro hg
  have hcount := h.count_pending (.room g)
  have hle := hO.room_once g
  have hpos := Multiset.one_le_count_iff_mem.2 hg
  subst he
  simp only [Event.counts, Event.takes, Event.gives, if_true, Option.some.injEq, reduceCtorEq,
    if_false] at hcount
  omega

include hO h in
theorem step_room_entry (g : GrainId) (hg : .room g ∈ P'.pending) : P'.entry g = none := by
  rcases h.mem_pending hg with hP | hgives
  · have hold := hO.room_entry g hP
    cases hE : P'.entry g with
    | none => rfl
    | some a =>
      rcases h.entry_of hE with hE | ⟨⟨old, he⟩, -⟩
      · rw [hold] at hE
        cases hE
      · exact (step_no_room hO h he hg).elim
  · cases h <;> cases hgives
    assumption

include hO hs hc h in
theorem step_build_entry (g : GrainId) (a : ActId) (hb : .build g a ∈ P'.pending) :
    P'.entry g = some a := by
  rcases h.build_of hb with hP | ⟨⟨old, rfl⟩, rfl⟩
  · have hold := hO.build_entry g a hP
    rw [h.entry_eq g]
    cases e with
    | published g' b old =>
      dsimp only [Event.entry]
      split_ifs with hgg
      · -- the caller that enters `b` made room, so it found no entry
        subst hgg
        rw [hO.room_entry g (h.takes_mem rfl)] at hold
        cases hold
      · exact hold
    | failed g' b x popped =>
      dsimp only [Event.entry]
      split_ifs with hgg
      · subst hgg
        have hb' := hO.build_entry g b (h.takes_mem rfl)
        rw [hold] at hb'
        cases hb'
        exact (hs.step_not_building h rfl ⟨g, hb⟩).elim
      · exact hold
    | taken who g' b =>
      dsimp only [Event.entry]
      split_ifs with hgg
      · subst hgg
        have hnot := h.not_building_of_taken hs hc
        cases h with
        | taken _ he _ _ =>
          rw [hold] at he
          cases he
          exact (hnot ⟨g, hP⟩).elim
      · exact hold
    | _ => exact hold
  · rw [h.entry_eq g]
    exact if_pos rfl

include hO hs hc h in
theorem step : Owned P' :=
  ⟨hO.step_room_once hc h, hO.step_room_entry h, hO.step_build_entry hs hc h⟩

end Owned

/-- What an event of such a run is : an entry overwrites nothing, and a failure removes its
own entry. -/
def Clean : Event → Prop
  | .published _ _ old => old = none
  | .failed _ a _ popped => popped = some a
  | _ => True

theorem Owned.clean (hO : Owned P) (h : Step P e P') : Clean e := by
  cases e with
  | published g a old =>
    have hnone := hO.room_entry g (h.takes_mem rfl)
    cases h
    exact hnone
  | failed g a x popped =>
    have hsome := hO.build_entry g a (h.takes_mem rfl)
    cases h
    exact hsome
  | _ => trivial

/-- An activation that has been entered, and has neither failed nor been taken out. -/
def Live (P : Protocol) (g : GrainId) (a : ActId) : Prop :=
  (∃ e ∈ P.trace, e.enters g a = true) ∧ ∀ e ∈ P.trace, e.removes g a = false

instance {g : GrainId} {a : ActId} : Decidable (P.Live g a) :=
  inferInstanceAs (Decidable (_ ∧ _))

/-- What is live stands in the table. -/
theorem Owned.live_step (hO : Owned P) (h : Step P e P')
    (hl : ∀ g a, P.Live g a → P.entry g = some a) (g : GrainId) (a : ActId)
    (hlive : P'.Live g a) : P'.entry g = some a := by
  obtain ⟨⟨e', he', hent⟩, hrem⟩ := hlive
  rw [h.trace] at he' hrem
  have hremoves := hrem e List.mem_cons_self
  have hold (hm : e' ∈ P.trace) : P.entry g = some a :=
    hl g a ⟨⟨e', hm, hent⟩, fun x hx => hrem x (List.mem_cons_of_mem _ hx)⟩
  rw [h.entry_eq g]
  cases e with
  | published g' b old =>
    dsimp only [Event.entry]
    rcases List.mem_cons.1 he' with rfl | hm
    · obtain ⟨rfl, rfl⟩ := of_decide_eq_true hent
      exact if_pos rfl
    · split_ifs with hgg
      · subst hgg
        have hnone := hO.room_entry g (h.takes_mem rfl)
        rw [hold hm] at hnone
        cases hnone
      · exact hold hm
  | failed g' b x popped =>
    have hE := hold ((List.mem_cons.1 he').resolve_left (by rintro rfl; cases hent))
    dsimp only [Event.entry]
    split_ifs with hgg
    · subst hgg
      have hb := hO.build_entry g b (h.takes_mem rfl)
      rw [hE] at hb
      cases hb
      simp [Event.removes] at hremoves
    · exact hE
  | taken who g' b =>
    have hE := hold ((List.mem_cons.1 he').resolve_left (by rintro rfl; cases hent))
    dsimp only [Event.entry]
    split_ifs with hgg
    · subst hgg
      cases h with
      | taken _ he _ _ =>
        rw [hE] at he
        cases he
        simp [Event.removes] at hremoves
    · exact hE
  | _ => exact hold ((List.mem_cons.1 he').resolve_left (by rintro rfl; cases hent))

/-- What holds in every run that looks up alone. -/
theorem Runs.owned (h : Runs LooksUpAlone init P) :
    Owned P ∧ (∀ e ∈ P.trace, Clean e) ∧ ∀ g a, P.Live g a → P.entry g = some a := by
  have hI := h.invariant (I := fun P => Sound P ∧ Owned P ∧ (∀ e ∈ P.trace, Clean e) ∧
    ∀ g a, P.Live g a → P.entry g = some a) ?_ ?_
  · exact hI.2
  · exact ⟨sound_init, owned_init, (fun e he => by cases he),
      fun g a hl => by obtain ⟨⟨e, he, -⟩, -⟩ := hl; cases he⟩
  · rintro P e P' ⟨hs, hO, ht, hl⟩ hc he
    refine ⟨he.sound hs, hO.step hs hc he, fun e' he' => ?_, hO.live_step he hl⟩
    rw [he.trace, List.mem_cons] at he'
    rcases he' with rfl | he'
    · exact hO.clean he
    · exact ht e' he'

end Protocol

section

variable {cfg : Config} {isMine : Option (GrainId → Bool)} {s : State}

/-- While lookups are alone, no entry is overwritten, an identity has one live activation,
and a failing activation removes its own entry. -/
theorem published_once
    (h : Run (step cfg) (Logs State.trace fun s => s.view.LooksUpAlone) (.init isMine) s) :
    (∀ g a old, .published g a old ∈ s.trace → old = none) ∧
    (∀ g a b, s.view.Live g a → s.view.Live g b → a = b) ∧
    ∀ g a x popped, .failed g a x popped ∈ s.trace → popped = some a := by
  obtain ⟨-, hclean, hlive⟩ := (Run.view (fun _ _ hc => hc) h).owned
  refine ⟨fun g a old hm => hclean _ hm, fun g a b ha hb => ?_, fun g a x popped hm => hclean _ hm⟩
  have hentry := hlive g a ha
  rw [hlive g b hb] at hentry
  exact (Option.some.inj hentry).symm

/-- One caller after another, each finding the runtime as the one before has left it. -/
def inTurn : List Label :=
  [.arrive, .resume 0] ++ Label.invoke ⟨"counter", "x"⟩ ++ Label.serve ++
  Label.invoke ⟨"counter", "y"⟩ ++ Label.gos 3 ++ [Label.returns] ++ Label.gos 3

theorem published_once_inTurn : ∃ s : State, s.view.Live ⟨"counter", "y"⟩ 1 ∧
    (∀ g a old, .published g a old ∈ s.trace → old = none) ∧
    (∀ g a b, s.view.Live g a → s.view.Live g b → a = b) ∧
    ∀ g a x popped, .failed g a x popped ∈ s.trace → popped = some a := by
  obtain ⟨s, hrun, hp⟩ := exists_logged_run (.small (some 1)) none
    (fun s => s.view.LooksUpAlone) inTurn (fun s => decide (s.view.Live ⟨"counter", "y"⟩ 1))
    (by decide +kernel)
  exact ⟨s, of_decide_eq_true hp, published_once hrun⟩

/-- Two callers of a cold identity on a full runtime. The first one evicts, and its
eviction suspends; the second one finds the room that has been made and enters its
activation, which the first one overwrites. -/
def herd : List Label :=
  [.arrive, .resume 0] ++ Label.invoke ⟨"counter", "x"⟩ ++ Label.serve ++
  Label.invoke ⟨"counter", "y"⟩ ++ Label.gos 3 ++ [.run .suspend] ++
  [.arrive, .resume 1] ++ Label.invoke ⟨"counter", "y"⟩ ++ Label.gos 2 ++ [.run .suspend] ++
  [.resume 0, Label.returns] ++ Label.gos 3

/-- An entry is overwritten, and one identity has two live activations. -/
theorem herd_overwrites : ∃ s : State,
    Run (step (.small (some 1))) (fun _ _ => True) (.init none) s ∧
    .published ⟨"counter", "y"⟩ 2 (some 1) ∈ s.trace ∧
    s.view.Live ⟨"counter", "y"⟩ 1 ∧ s.view.Live ⟨"counter", "y"⟩ 2 := by
  obtain ⟨s, hrun, hp⟩ := exists_free_run (.small (some 1)) none herd
    (fun s => decide (.published ⟨"counter", "y"⟩ 2 (some 1) ∈ s.trace ∧
      s.view.Live ⟨"counter", "y"⟩ 1 ∧ s.view.Live ⟨"counter", "y"⟩ 2)) (by decide +kernel)
  exact ⟨s, hrun, of_decide_eq_true hp⟩

end

end Nigrains
