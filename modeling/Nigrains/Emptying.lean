import Nigrains.Leaving

/-!
# What leaving leaves behind

`__aexit__` lists the identities of the table once, and deactivates what stands under each
of them. What is entered into the table behind the walk stays there (`leftBehind`). As long
as nothing is, an entry is not overwritten, a failure removes its own entry, and every
`_deactivate` under way comes to its `deactivate` before `__aexit__` returns, the table is
then empty, and `deactivate` has been started exactly once on whatever has been activated
(`left_empty`).
-/

namespace Nigrains

/-- An activation has been taken out and waits for its timers. -/
def Activity.isDown : Activity → Bool
  | .down .. => true
  | _ => false

/-- `deactivate` starts on the activation. -/
def Event.closes (a : ActId) : Event → Bool
  | .deactivating _ b => b = a
  | _ => false

/-- The activation is taken out of the table. -/
def Event.takesOut (a : ActId) : Event → Bool
  | .taken _ _ b => b = a
  | _ => false

namespace Protocol

variable {P P' : Protocol} {e : Event}

/-! ## Every activation is deactivated once -/

/-- An entry overwrites nothing, a failure removes its own entry, no timer keeps an
activation from its `deactivate`, and on return none is still waiting for it. -/
def Orderly (P : Protocol) : Event → Prop
  | .published g _ _ => P.entry g = none
  | .failed g a _ _ => P.entry g = none ∨ P.entry g = some a
  | .abandoned .. => False
  | .left => ∀ x ∈ P.pending, x.isDown = false
  | _ => True

instance : Decidable (P.Orderly e) :=
  decidableOr (match e with
    | .published .. => some (inferInstanceAs (Decidable (_ = _)))
    | .failed .. => some (inferInstanceAs (Decidable (_ ∨ _)))
    | .abandoned .. => some (.isFalse id)
    | .left => some (inferInstanceAs (Decidable (∀ x ∈ P.pending, _)))
    | _ => none) (by cases e <;> simp [Orderly])

/-- How often `deactivate` has been started on an activation, or is still to be. -/
def closings (P : Protocol) (a : ActId) : ℕ :=
  P.trace.countP (Event.closes a) + (P.pending.count (.down .makeRoom a) +
    P.pending.count (.down .collect a) + P.pending.count (.down .aexit a))

/-- Only taking an activation out leads to its `deactivate`. -/
theorem Step.closings (h : Step P e P') (he : ∀ who a, e ≠ .abandoned who a) (a : ActId) :
    P'.closings a = P.closings a + if e.takesOut a then 1 else 0 := by
  have h1 := h.count_pending (.down .makeRoom a)
  have h2 := h.count_pending (.down .collect a)
  have h3 := h.count_pending (.down .aexit a)
  have ht : P'.trace.countP (Event.closes a) =
      P.trace.countP (Event.closes a) + if e.closes a then 1 else 0 := by
    rw [h.trace, List.countP_cons]
  unfold Protocol.closings
  cases e
  case abandoned who b => exact (he who b rfl).elim
  case taken who g b | deactivating who b =>
    cases who <;>
      simp only [Event.counts, Event.takes, Event.gives, Event.closes, Event.takesOut,
        Option.some.injEq, Activity.down.injEq, reduceCtorEq, true_and, false_and, if_false,
        decide_eq_true_eq, Bool.false_eq_true] at h1 h2 h3 ht ⊢ <;>
      omega
  all_goals
    simp only [Event.counts, Event.takes, Event.gives, Event.closes, Event.takesOut,
      Option.some.injEq, reduceCtorEq, if_false, Bool.false_eq_true] at h1 h2 h3 ht ⊢
    omega

/-- What stands in the table has not been closed, and what has been taken out of it has
been closed once, or is about to be. -/
structure Accounted (P : Protocol) : Prop where
  unbuilt : ∀ a, P.built ≤ a → P.closings a = 0
  entered : ∀ g a, P.entry g = some a → P.closings a = 0
  removed : ∀ a < P.built, (P.life a).failed = false → (∀ g, P.entry g ≠ some a) → P.closings a = 1
  activated : ∀ g a, .activated g a ∈ P.trace → a < P.built ∧ (P.life a).ready = false

theorem accounted_init : Accounted init where
  unbuilt _ _ := rfl
  entered _ _ h := by cases h
  removed _ h := absurd h (Nat.not_lt_zero _)
  activated _ _ h := by cases h

/-- What is taken out stood in the table. -/
theorem Step.entry_of_takesOut (h : Step P e P') {a : ActId} (he : e.takesOut a = true) :
    ∃ g, P.entry g = some a ∧ P'.entry g = none := by
  cases h
  case taken g b who hentry _ _ =>
    obtain rfl : b = a := of_decide_eq_true he
    exact ⟨g, hentry, Function.update_self ..⟩
  all_goals cases he

theorem Orderly.not_abandoned (hc : P.Orderly e) (who : Remover) (a : ActId) :
    e ≠ .abandoned who a := by
  rintro rfl
  exact hc

/-- An entry leaves the table by being taken out, or its activation has failed. -/
theorem Step.takesOut_of_removed (h : Step P e P') (hc : P.Orderly e) {g : GrainId} {a : ActId}
    (hg : P.entry g = some a) (hg' : P'.entry g ≠ some a) (hf : (P'.life a).failed = false) :
    e.takesOut a = true := by
  rw [h.entry_eq g] at hg'
  rw [h.life_eq a] at hf
  cases h
  case published =>
    dsimp only [Event.entry] at hg'
    split_ifs at hg' with hgg
    · subst hgg
      rw [hc] at hg
      cases hg
    · exact (hg' hg).elim
  case failed =>
    dsimp only [Event.entry] at hg'
    split_ifs at hg' with hgg
    · subst hgg
      rcases hc with hnone | hsome
      · rw [hnone] at hg
        cases hg
      · rw [hsome] at hg
        obtain rfl := Option.some.inj hg
        simp [Event.life] at hf
    · exact (hg' hg).elim
  case taken hentry _ _ =>
    dsimp only [Event.entry] at hg'
    split_ifs at hg' with hgg
    · subst hgg
      rw [hentry] at hg
      exact decide_eq_true (Option.some.inj hg)
    · exact (hg' hg).elim
  all_goals exact (hg' hg).elim

/-- An activation that is there and has not failed had not failed before. -/
theorem Step.failed_of_step (h : Step P e P') {a : ActId} (ha : a < P.built)
    (hf : (P'.life a).failed = false) :
    (P.life a).failed = false := by
  rw [h.life_eq a] at hf
  cases h
  case published =>
    dsimp only [Event.life] at hf
    rwa [if_neg ha.ne] at hf
  case failed =>
    dsimp only [Event.life] at hf
    split_ifs at hf
    exact hf
  all_goals
    dsimp only [Event.life] at hf
    try split_ifs at hf
    all_goals exact hf

namespace Accounted

variable (hA : Accounted P) (hs : Sound P) (hc : P.Orderly e) (h : Step P e P')

include hA hs hc h

theorem step_unbuilt {a : ActId} (ha : P'.built ≤ a) : P'.closings a = 0 := by
  have hlt : P.built ≤ a := h.built_le.trans ha
  rw [h.closings hc.not_abandoned, hA.unbuilt a hlt]
  split_ifs with he
  · obtain ⟨g, hg, -⟩ := h.entry_of_takesOut he
    exact absurd (hs.entry_lt g a hg) hlt.not_gt
  · rfl

theorem step_entered {g : GrainId} {a : ActId} (ha : P'.entry g = some a) :
    P'.closings a = 0 := by
  have hold : P.closings a = 0 := by
    rcases h.entry_of ha with hP | ⟨-, rfl⟩
    · exact hA.entered g a hP
    · exact hA.unbuilt _ le_rfl
  rw [h.closings hc.not_abandoned, hold]
  split_ifs with he
  · obtain ⟨g', hg', hnone⟩ := h.entry_of_takesOut he
    rcases h.entry_of ha with hP | ⟨-, rfl⟩
    · obtain rfl := hs.entry_inj g g' a hP hg'
      rw [ha] at hnone
      cases hnone
    · exact absurd (hs.entry_lt g' _ hg') (lt_irrefl _)
  · rfl

omit hs in
theorem step_removed {a : ActId} (ha : a < P'.built) (hf : (P'.life a).failed = false)
    (hnone : ∀ g, P'.entry g ≠ some a) : P'.closings a = 1 := by
  rw [h.closings hc.not_abandoned]
  have hlt : a < P.built := by
    cases h
    case published g hp =>
      refine lt_of_le_of_ne (Nat.lt_succ_iff.1 ha) ?_
      rintro rfl
      exact hnone g (Function.update_self ..)
    all_goals exact ha
  by_cases hentry : ∃ g, P.entry g = some a
  · obtain ⟨g, hg⟩ := hentry
    rw [hA.entered g a hg, if_pos (h.takesOut_of_removed hc hg (hnone g) hf)]
  · have hentry : ∀ g, P.entry g ≠ some a := fun g hg => hentry ⟨g, hg⟩
    rw [hA.removed a hlt (h.failed_of_step hlt hf) hentry]
    split_ifs with he
    · obtain ⟨g, hg, -⟩ := h.entry_of_takesOut he
      exact (hentry g hg).elim
    · rfl

theorem step_activated {g : GrainId} {a : ActId} (ha : .activated g a ∈ P'.trace) :
    a < P'.built ∧ (P'.life a).ready = false := by
  rw [h.trace, List.mem_cons] at ha
  rcases ha with rfl | ha
  · have hlt := hs.about_lt _ (h.takes_mem rfl) a rfl
    refine ⟨hlt.trans_le h.built_le, ?_⟩
    rw [h.life_eq]
    exact congrArg Life.ready (if_pos rfl)
  · obtain ⟨hlt, hready⟩ := hA.activated g a ha
    refine ⟨hlt.trans_le h.built_le, ?_⟩
    rw [h.life_eq]
    cases h
    case published =>
      dsimp only [Event.life]
      rwa [if_neg hlt.ne]
    all_goals
      dsimp only [Event.life]
      try split_ifs
      all_goals first | rfl | exact hready

theorem step : Accounted P' :=
  ⟨fun _ => hA.step_unbuilt hs hc h, fun _ _ => hA.step_entered hs hc h,
    fun _ => hA.step_removed hc h, fun _ _ => hA.step_activated hs hc h⟩

end Accounted

/-- Once the table is empty and nothing waits for its timers, whatever has been activated
has been closed once. -/
theorem Accounted.closed (hA : Accounted P) (hs : Sound P) (hempty : ∀ g, P.entry g = none)
    (hdown : ∀ x ∈ P.pending, x.isDown = false) {g : GrainId} {a : ActId}
    (ha : .activated g a ∈ P.trace) : P.trace.countP (Event.closes a) = 1 := by
  obtain ⟨hlt, hready⟩ := hA.activated g a ha
  have hfailed : (P.life a).failed = false := by
    rcases hs.staged a hlt with hst | hst | hst
    · exact hst.2.2.2
    · exact hst.2.2.2
    · rw [hst.2.1] at hready
      cases hready
  have hcount : ∀ who, P.pending.count (.down who a) = 0 := fun who =>
    Multiset.count_eq_zero.2 fun hm => by cases hdown _ hm
  have hone := hA.removed a hlt hfailed fun g' hg' => by
    rw [hempty g'] at hg'
    cases hg'
  simpa only [closings, hcount, add_zero] using hone

end Protocol

/-! ## The walk of `__aexit__` -/

/-- The identities a `__aexit__` that has listed the table has still to reach. -/
def Frame.toGo : Frame → Option (List GrainId)
  | .aexit (.deactivating rest) => some rest
  | .aexit .leaving => some []
  | _ => none

/-- Every `__aexit__` that has listed the table has still to reach the identity. -/
def State.reaches (s : State) (g : GrainId) : Prop :=
  ∀ u < s.spawned, ∀ f ∈ (s.tasks u).stack, f.toGo.all (fun rest => g ∈ rest) = true

/-- What is entered into the table, every `__aexit__` under way will reach; and its life is
orderly. -/
def LeavesNothing (s : State) (e : Event) : Prop :=
  s.view.Orderly e ∧ match e with
    | .published g _ _ => s.reaches g
    | _ => True

instance {s : State} {g : GrainId} : Decidable (s.reaches g) :=
  inferInstanceAs (Decidable (∀ u < s.spawned, ∀ f ∈ (s.tasks u).stack,
    f.toGo.all (fun rest => g ∈ rest) = true))

instance {s : State} {e : Event} : Decidable (LeavesNothing s e) :=
  have : Decidable (match e with | .published g _ _ => s.reaches g | _ => True) :=
    decidableOr (match e with
      | .published g _ _ => some (inferInstanceAs (Decidable (s.reaches g)))
      | _ => none) (by cases e <;> simp)
  inferInstanceAs (Decidable (_ ∧ _))

section

variable {cfg : Config} {isMine : Option (GrainId → Bool)} {s s' : State} {t : TaskId}
  {n : Next Frame Outcome}

/-- The next segment takes what stands under the identity out of the table. -/
def Doomed (s : State) (g : GrainId) : Prop :=
  ∃ t who rest, s.running = some (t, .send) ∧
    (s.tasks t).stack = .deactivate who g .start :: rest

/-- What stands in the table, a `__aexit__` that has listed it has still to reach. -/
def Frame.Covers (s : State) (f : Frame) : Prop :=
  ∀ rest, f.toGo = some rest → ∀ g a, s.activations.get g = some a → g ∈ rest ∨ Doomed s g

/-- What is doomed is taken out. -/
theorem Doomed.step {l : Label} {g : GrainId} {a : ActId} (hn : Nested s) (hd : Doomed s g)
    (h : step cfg s l = some s') (ha : s'.activations.get g = some a) : Doomed s' g := by
  obtain ⟨v, who, stk, hrv, hsv⟩ := hd
  rcases step_cases h with ⟨t, r, f, rest, c, s1, n, hr, hs, he, rfl⟩ |
    ⟨t, r, f, rest, hr, ht, hs, hf, rfl⟩ | ⟨t, i, call, saved, hr, hs, hdue, rfl⟩ | hw
  · rw [hr] at hrv
    cases hrv
    rw [hs] at hsv
    cases hsv
    have hnone : s1.activations.get g = none := by
      simp only [exec, deactivate] at he
      split at he
      · next hget =>
        cases he
        exact hget
      · cases he
        refine (congrFun (congrArg Protocol.entry (viewWith_cancel_all (M := 0) _ _)) g).trans ?_
        simp [State.viewWith, State.take, OrderedDict.get_pop]
    rw [show s1.activations.get g = some a from ha] at hnone
    cases hnone
  · rw [hr] at hrv
    cases hrv
  · rw [hr] at hrv
    cases hrv
  · refine ⟨v, who, stk, hw.keeps.running_eq.trans hrv, ?_⟩
    rw [hw.keeps.stack_eq v (.inl (hn.running v _ hrv).1), hsv]

/-- The frames of tasks that start are not on their way out. -/
theorem toGo_of_called {f : Frame} (h : f.called ∨ f.fresh ∨ f.hosted) : f.toGo = none := by
  unfold Frame.called Frame.entry Frame.fresh Frame.hosted at h
  unfold Frame.toGo
  split <;> simp_all

/-- `__aexit__` lists all there is, and passes an identity by taking out what stands under
it. -/
theorem aexit_toGo {pc : AexitAt} {r : Resume Outcome} {f' : Frame} {rest' : List GrainId}
    (h : aexit s pc r = some (s', n)) (hf' : f' ∈ n.frames) (hgo : f'.toGo = some rest') :
    s'.activations = s.activations ∧ (rest' = s.activations.keyList ∨
      (Frame.aexit pc).toGo = some rest' ∨
      ∃ g, (Frame.aexit pc).toGo = some (g :: rest') ∧
        n = .await f' (.deactivate .aexit g .start)) := by
  unfold aexit at h
  repeat' split at h
  all_goals
    first
      | contradiction
      | cases h
  all_goals
    simp only [Next.frames, List.mem_cons, List.not_mem_nil, or_false] at hf'
    first
      | done
      | subst hf'
      | rcases hf' with rfl | rfl
    all_goals
      first
        | (cases hgo; done)
        | (cases hgo; exact ⟨rfl, .inl rfl⟩)
        | (cases hgo; exact ⟨rfl, .inr (.inl rfl)⟩)
        | (cases hgo; exact ⟨rfl, .inr (.inr ⟨_, rfl, rfl⟩)⟩)

/-- The frames a segment leaves cover the table, if its own did. -/
theorem exec_covers {c : Choice} {f : Frame} {r : Resume Outcome} {stk : List Frame}
    (hr : s.running = some (t, r)) (hs : (s.tasks t).stack = f :: stk) (hcov : f.Covers s)
    (h : exec cfg s t c f r = some (s', n)) {f' : Frame} (hf' : f' ∈ n.frames) :
    f'.Covers { s' with toLoop := s'.toLoop.land t stk n } := by
  intro rest' hgo g a ha
  rcases exec_left h hf' with hentry | hcalled
  · cases f
    case aexit pc =>
      have hdoomed : ¬ Doomed s g := by
        rintro ⟨v, who, stk', hrv, hsv⟩
        rw [hr] at hrv
        cases hrv
        rw [hs] at hsv
        cases hsv
      obtain ⟨hact, hcase⟩ := aexit_toGo h hf' hgo
      have hget : s.activations.get g = some a := hact ▸ ha
      rcases hcase with rfl | hgo' | ⟨g', hgo', rfl⟩
      · exact .inl (OrderedDict.mem_keyList.2 ⟨a, hget⟩)
      · exact .inl ((hcov rest' hgo' g a hget).resolve_right hdoomed)
      · rcases List.mem_cons.1 ((hcov _ hgo' g a hget).resolve_right hdoomed) with rfl | hm
        · exact .inr ⟨t, .aexit, f' :: stk, rfl, Loop.stack_land_self s'.toLoop t stk
            (.await f' (.deactivate .aexit g .start))⟩
        · exact .inl hm
    all_goals
      cases f' <;> simp [Frame.entry] at hentry
      all_goals cases hgo
  · rw [toGo_of_called (.inl hcalled)] at hgo
    cases hgo

/-- What stands in the table, every `__aexit__` that has listed it has still to reach. -/
def Covered (s : State) : Prop :=
  ∀ u f, f ∈ (s.tasks u).stack → f.Covers s

theorem Covered.step {l : Label} (hI : Reached s) (hC : Covered s) (h : step cfg s l = some s')
    (hok : ∀ e, s'.trace = e :: s.trace → LeavesNothing s e) : Covered s' := by
  -- what is entered, every `__aexit__` under way has still to reach
  have keep (u : TaskId) (f : Frame) (hf : f ∈ (s.tasks u).stack) : f.Covers s' := by
    intro rest hgo g a ha
    have hold (hget : s.activations.get g = some a) : g ∈ rest ∨ Doomed s' g :=
      (hC u f hf rest hgo g a hget).imp_right fun hd => hd.step hI.nested h ha
    rcases hI.step_view h with hv | ⟨e, hv⟩
    · exact hold ((congrFun (congrArg Protocol.entry hv) g).symm.trans ha)
    · rcases hv.entry_of ha with hget | ⟨⟨old, rfl⟩, rfl⟩
      · exact hold hget
      · have hall := (hok _ hv.trace).2 u (hI.nested.lt_of_mem hf) f hf
        rw [hgo, Option.all_some, decide_eq_true_eq] at hall
        exact .inl hall
  refine frames_step (Φ := fun u f => f ∈ (s.tasks u).stack) (Ψ := fun _ f => f.Covers s') h
    (fun _ _ hf => hf) keep ?_ ?_ ?_
  · rintro t r f rest c s1 n hr hs he rfl
    refine ⟨fun f' hf' => exec_covers hr hs (hC t f ?_) he hf', fun _ f' _ _ hf' => ?_⟩
    · rw [hs]
      exact List.mem_cons_self
    · intro rest hgo
      rw [toGo_of_called (.inr (.inl hf'.1))] at hgo
      cases hgo
  · intro _ f hf rest hgo
    rw [toGo_of_called (.inr (.inr hf))] at hgo
    cases hgo
  · rintro _ call saved - - rest hgo
    cases hgo

theorem Run.covered
    (h : Run (step cfg) (Logs State.trace LeavesNothing) (.init isMine) s) :
    Reached s ∧ s.view.Accounted ∧ Covered s := by
  refine h.invariant (I := fun s => Reached s ∧ s.view.Accounted ∧ Covered s)
    ⟨reached_init _, view_init isMine ▸ Protocol.accounted_init, fun _ _ hf => by cases hf⟩ ?_
  rintro s l s' ⟨hI, hA, hC⟩ hl hok
  refine ⟨hI.step hl, ?_, hC.step hI hl hok⟩
  rcases hI.step_view hl with hv | ⟨e, hv⟩
  · rw [hv]
    exact hA
  · exact hA.step hI.sound (hok e hv.trace).1 hv

/-- While nothing is left behind, `__aexit__` returns with the table empty, and `deactivate`
has been started exactly once on every activation that has been activated. -/
theorem left_empty {l : Label}
    (h : Run (step cfg) (Logs State.trace LeavesNothing) (.init isMine) s)
    (hl : step cfg s l = some s') (hok : LeavesNothing s .left)
    (he : s'.trace = .left :: s.trace) :
    (∀ g, s'.activations.get g = none) ∧
    ∀ g a, .activated g a ∈ s'.trace → s'.trace.countP (Event.closes a) = 1 := by
  obtain ⟨hI, hA, hC⟩ := h.covered
  obtain ⟨t, r, f, rest, c, s1, n, hr, hs, hx, hs', hlogs⟩ := step_logs hl he
  have hgo : f.toGo = some [] := by
    cases hlogs <;> rfl
  have hempty : ∀ g, s.activations.get g = none := by
    intro g
    by_contra hne
    obtain ⟨a, ha⟩ := Option.ne_none_iff_exists'.1 hne
    have htop : f ∈ (s.tasks t).stack := by
      rw [hs]
      exact List.mem_cons_self
    rcases hC t f htop [] hgo g a ha with hm | ⟨v, who, stk, hrv, hsv⟩
    · cases hm
    · rw [hr] at hrv
      cases hrv
      rw [hs] at hsv
      cases hsv
      cases hgo
  rcases hI.step_view hl with hv | ⟨e, hv⟩
  · exact absurd (he.symm.trans (congrArg Protocol.trace hv)) (List.cons_ne_self _ _)
  obtain rfl : e = .left := (List.cons.inj (hv.trace.symm.trans he)).1
  refine ⟨fun g => (hv.entry_eq g).trans (hempty g), fun g a ha => ?_⟩
  have ha : .activated g a ∈ s.trace := by
    rw [he, List.mem_cons] at ha
    exact ha.resolve_left (by simp)
  rw [he, List.countP_cons_of_neg (by simp [Event.closes])]
  exact hA.closed hI.sound hempty hok.1 ha

/-- A runtime is left while a call is in flight on the second of two activations. While the drain
waits for it, a third one is activated, and while the first one is being deactivated, the second
one is called again. -/
def leftServing : List Label :=
  [.arrive, .resume 0] ++ Label.invoke ⟨"counter", "x"⟩ ++ Label.serve ++
  Label.invoke ⟨"counter", "y"⟩ ++ Label.gos 2 ++ [Label.returns] ++ Label.gos 3 ++
  [.run .suspend, .arrive, .resume 1, .run .leave] ++ Label.gos 4 ++
  [.arrive, .resume 2] ++ Label.invoke ⟨"counter", "z"⟩ ++ Label.serve ++
  [.run .suspend, .resume 0, Label.returns] ++ Label.gos 1 ++ [.run .suspend, .resume 1] ++
  Label.gos 6 ++ [.run .suspend, .resume 2, .run (.call ⟨"counter", "y"⟩ "get" 0 0)] ++
  Label.gos 5 ++ [Label.returns] ++ Label.gos 1 ++ [.run .suspend, .resume 1, Label.returns] ++
  Label.gos 5 ++ [Label.returns] ++ Label.gos 5 ++ [Label.returns] ++ Label.gos 2

/-- All three are deactivated, and the table is empty. -/
theorem left_empty_serving : ∃ s : State, (∀ g, s.activations.get g = none) ∧
    s.trace.countP (Event.closes 0) = 1 ∧ s.trace.countP (Event.closes 1) = 1 ∧
    s.trace.countP (Event.closes 2) = 1 := by
  obtain ⟨s, hrun, hp⟩ := exists_logged_run (.small none) none LeavesNothing leftServing
    (fun s => decide (LeavesNothing s .left) && (step (.small none) s (.run .go)).any
      fun s' : State => decide (s'.trace = .left :: s.trace ∧
        .activated ⟨"counter", "x"⟩ 0 ∈ s'.trace ∧ .activated ⟨"counter", "y"⟩ 1 ∈ s'.trace ∧
        .activated ⟨"counter", "z"⟩ 2 ∈ s'.trace)) (by decide +kernel)
  simp only [Bool.and_eq_true, Option.any_eq_true, decide_eq_true_eq] at hp
  obtain ⟨hok, s', hl, he, hx, hy, hz⟩ := hp
  obtain ⟨hempty, hclosed⟩ := left_empty hrun hl hok he
  exact ⟨s', hempty, hclosed _ _ hx, hclosed _ _ hy, hclosed _ _ hz⟩

/-- A runtime is left when its only call has ended. -/
def leftAlone : List Label :=
  [.arrive, .resume 0] ++ Label.invoke ⟨"counter", "x"⟩ ++ Label.serve ++ [.run .leave] ++
  Label.gos 7

/-- While the first of its activations is being deactivated, a call comes in for another
identity, and is served. -/
def leftBehind : List Label :=
  leftAlone ++ [.run .go, .run .suspend, .arrive, .resume 1] ++
  Label.invoke ⟨"counter", "y"⟩ ++ Label.serve ++ [.run .suspend, .resume 0, Label.returns] ++
  Label.gos 2

/-- `__aexit__` returns with an activation in the table that it has not deactivated. -/
theorem leftBehind_remains : ∃ s s' : State,
    Run (step (.small none)) (fun _ _ => True) (.init none) s ∧
    step (.small none) s (.run .go) = some s' ∧ s'.trace = .left :: s.trace ∧
    s'.activations.get ⟨"counter", "y"⟩ = some 1 ∧ .activated ⟨"counter", "y"⟩ 1 ∈ s'.trace ∧
    s'.trace.countP (Event.closes 1) = 0 := by
  obtain ⟨s, hrun, hp⟩ := exists_free_run (.small none) none leftBehind
    (fun s => (step (.small none) s (.run .go)).any fun s' : State =>
      decide (s'.trace = .left :: s.trace ∧ s'.activations.get ⟨"counter", "y"⟩ = some 1 ∧
        .activated ⟨"counter", "y"⟩ 1 ∈ s'.trace ∧ s'.trace.countP (Event.closes 1) = 0))
    (by decide +kernel)
  simp only [Option.any_eq_true, decide_eq_true_eq] at hp
  obtain ⟨s', hl, hrest⟩ := hp
  exact ⟨s, s', hrun, hl, hrest⟩

end

end Nigrains
