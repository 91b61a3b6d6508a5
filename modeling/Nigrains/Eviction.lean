import Nigrains.Publication

/-!
# Calls and the activations taken from under them

`_make_room` and `collect` take out only what has no call in flight and has been
activated. A caller that waited for the activation is counted nowhere between being woken
and going on, so it may go on with an activation that has been taken out meanwhile
(`woken_too_late`). As long as nothing is taken out while a caller that waited for it has
yet to go on, no method starts on an activation that has been taken out
(`started_before_taken`).
-/

namespace Nigrains

namespace Protocol

variable {P P' : Protocol} {e : Event}

/-- What is evicted or collected has no caller still waiting for it. -/
def TakesUnawaited (P : Protocol) : Event → Prop
  | .taken who _ a => who ≠ .aexit → .wait a ∉ P.pending
  | _ => True

instance : Decidable (P.TakesUnawaited e) :=
  decidableOr (match e with
    | .taken .. => some (inferInstanceAs (Decidable (_ → _)))
    | _ => none) (by cases e <;> simp [TakesUnawaited])

/-- Nothing leads to the activation any more : no entry, and no caller that waits for it,
holds it, uses it or builds it. -/
structure Gone (P : Protocol) (a : ActId) : Prop where
  lt_built : a < P.built
  entry : ∀ g, P.entry g ≠ some a
  build : ¬ P.building a
  wait : .wait a ∉ P.pending
  hold : .hold a ∉ P.pending
  use : .use a ∉ P.pending

theorem Gone.step {a : ActId} (hg : P.Gone a) (h : Step P e P') : P'.Gone a where
  lt_built := hg.lt_built.trans_le h.built_le
  entry g ha := by
    rcases h.entry_of ha with hP | ⟨-, rfl⟩
    · exact hg.entry g hP
    · exact lt_irrefl _ hg.lt_built
  build hb := by
    obtain ⟨g, hb⟩ := hb
    rcases h.build_of hb with hP | ⟨-, rfl⟩
    · exact hg.build ⟨g, hP⟩
    · exact lt_irrefl _ hg.lt_built
  wait hw := by
    rcases h.mem_pending hw with hP | hgives
    · exact hg.wait hP
    · cases h <;> cases hgives
      exact hg.entry _ (by assumption)
  hold hh := by
    rcases h.mem_pending hh with hP | hgives
    · exact hg.hold hP
    · have htakes := fun x => h.takes_mem (x := x)
      cases h <;> cases hgives
      · exact hg.entry _ (by assumption)
      · exact hg.wait (htakes _ rfl)
      · exact hg.build ⟨_, htakes _ rfl⟩
  use hu := by
    rcases h.mem_pending hu with hP | hgives
    · exact hg.use hP
    · have htakes := fun x => h.takes_mem (x := x)
      cases h <;> cases hgives
      exact hg.hold (htakes _ rfl)

/-- What is taken out while nobody builds it, waits for it or uses it is gone. -/
theorem Step.gone_of_taken {who : Remover} {g : GrainId} {a : ActId}
    (h : Step P (.taken who g a) P') (hs : Sound P) (hb : ¬ P.building a)
    (hw : .wait a ∉ P.pending) (hu : .use a ∉ P.pending) : P'.Gone a := by
  have hmem : ∀ x, x ∈ P'.pending → x ∈ P.pending ∨ some (.down who a) = some x :=
    fun x hx => h.mem_pending hx
  cases h with
  | taken who he hidle hhold =>
    refine ⟨hs.entry_lt g a he, fun g' he' => ?_, ?_,
      fun hx => hw ((hmem _ hx).resolve_right (by simp)),
      fun hx => hhold a ((hmem _ hx).resolve_right (by simp)),
      fun hx => hu ((hmem _ hx).resolve_right (by simp))⟩
    · have hupd : (if g' = g then none else P.entry g') = some a :=
        (Function.update_apply ..).symm.trans he'
      split_ifs at hupd with hgg
      exact hgg (hs.entry_inj g' g a hupd he)
    · rintro ⟨g', hb'⟩
      exact hb ⟨g', (hmem _ hb').resolve_right (by simp)⟩

/-- What is evicted or collected is activated, and no call is in flight on it. -/
theorem Step.idle_of_taken {who : Remover} {g : GrainId} {a : ActId}
    (h : Step P (.taken who g a) P') (hs : Sound P) (hwho : who ≠ .aexit) :
    ¬ P.building a ∧ .use a ∉ P.pending := by
  cases h with
  | taken who he hidle hhold =>
    obtain ⟨hflight, hready⟩ := hidle hwho
    refine ⟨hs.not_building (hs.entry_lt g a he) hready, fun hu => ?_⟩
    have hcount := hs.inFlight a
    have hpos := Multiset.one_le_count_iff_mem.2 hu
    omega

/-- What is evicted or collected while nobody waits for it is gone. -/
theorem Step.gone {who : Remover} {g : GrainId} {a : ActId} (h : Step P (.taken who g a) P')
    (hs : Sound P) (hc : P.TakesUnawaited (.taken who g a)) (hwho : who ≠ .aexit) :
    P'.Gone a := by
  obtain ⟨hb, hu⟩ := h.idle_of_taken hs hwho
  exact h.gone_of_taken hs hb (hc hwho) hu

/-- No method starts on what has been evicted or collected before. -/
def StartsBefore (later earlier : Event) : Prop :=
  ∀ c a who g, later = .started c a → earlier = .taken who g a → who = .aexit

/-- What has been evicted or collected stays gone, and no method starts on it. -/
theorem Runs.gone (h : Runs TakesUnawaited init P) :
    (∀ who g a, .taken who g a ∈ P.trace → who ≠ .aexit → P.Gone a) ∧
    P.trace.Pairwise StartsBefore := by
  have hI := h.invariant (I := fun P => Sound P ∧
    (∀ who g a, .taken who g a ∈ P.trace → who ≠ .aexit → P.Gone a) ∧
    P.trace.Pairwise StartsBefore) ?_ ?_
  · exact hI.2
  · exact ⟨sound_init, fun _ _ _ h => by (cases h), .nil⟩
  · rintro P e P' ⟨hs, hgone, hpair⟩ hc he
    rw [he.trace]
    refine ⟨he.sound hs, fun who g a hm hwho => ?_, List.pairwise_cons.2 ⟨?_, hpair⟩⟩
    · rcases List.mem_cons.1 hm with rfl | hm
      · exact he.gone hs hc hwho
      · exact (hgone who g a hm hwho).step he
    · rintro e' he' c a who g rfl rfl
      by_contra hwho
      cases he with
      | started hu => exact (hgone who g a he' hwho).use hu

end Protocol

section

variable {cfg : Config} {isMine : Option (GrainId → Bool)} {s : State}

/-- While nothing is taken out with a caller still waiting for it, no method starts on an
activation that has been evicted or collected. -/
theorem started_before_taken
    (h : Run (step cfg) (Logs State.trace fun s => s.view.TakesUnawaited) (.init isMine) s) :
    s.trace.Pairwise fun later earlier =>
      ∀ c a who g, later = .started c a → earlier = .taken who g a → who = .aexit :=
  (Run.view (fun _ _ hc => hc) h).gone.2

/-- The first activation serves its call and is evicted with nobody waiting for it. -/
theorem started_before_taken_inTurn : ∃ s : State,
    .started 0 0 ∈ s.trace ∧ .taken .makeRoom ⟨"counter", "x"⟩ 0 ∈ s.trace ∧
    s.trace.Pairwise fun later earlier =>
      ∀ c a who g, later = .started c a → earlier = .taken who g a → who = .aexit := by
  obtain ⟨s, hrun, hp⟩ := exists_logged_run (.small (some 1)) none
    (fun s => s.view.TakesUnawaited) inTurn (fun s => decide (.started 0 0 ∈ s.trace ∧
      .taken .makeRoom ⟨"counter", "x"⟩ 0 ∈ s.trace)) (by decide +kernel)
  have hp := of_decide_eq_true hp
  exact ⟨s, hp.1, hp.2, started_before_taken hrun⟩

/-- A caller waits for an activation in progress. The caller that builds it is served and
calls another grain, and its room is made by evicting the activation the first one has
been woken for. -/
def lateWaiter : List Label :=
  [.arrive, .resume 0] ++ Label.invoke ⟨"counter", "x"⟩ ++ Label.gos 2 ++ [.run .suspend] ++
  [.arrive, .resume 1] ++ Label.invoke ⟨"counter", "x"⟩ ++
  [.resume 0, Label.returns] ++ Label.gos 3 ++ [Label.returns] ++ Label.gos 1 ++
  Label.invoke ⟨"counter", "y"⟩ ++ Label.gos 3 ++ [.run .suspend] ++
  [.resume 1] ++ Label.gos 3

/-- A method starts on an activation that has been evicted. -/
theorem lateWaiter_starts : ∃ s : State, ∃ rest,
    Run (step (.small (some 1))) (fun _ _ => True) (.init none) s ∧
    s.trace = .started 1 0 :: rest ∧ .taken .makeRoom ⟨"counter", "x"⟩ 0 ∈ rest := by
  obtain ⟨s, hrun, hp⟩ := exists_free_run (.small (some 1)) none lateWaiter
    (fun s => decide (s.trace = .started 1 0 :: s.trace.tail ∧
      .taken .makeRoom ⟨"counter", "x"⟩ 0 ∈ s.trace.tail)) (by decide +kernel)
  have hp := of_decide_eq_true hp
  exact ⟨s, _, hrun, hp⟩

end

end Nigrains
