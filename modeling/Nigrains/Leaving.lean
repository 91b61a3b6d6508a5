import Nigrains.Timers

/-!
# What leaving finds at work

`__aexit__` waits for the calls in flight and then takes every entry out of the table, one
after another. Unlike `collect` and `_make_room` it does not ask again whether an entry is
being activated or has calls in flight : `_drain` looks once, and sees no activation in
progress. As long as none is when a `_drain` ends, and nobody looks up an identity that
`__aexit__` has still to reach (`LeftInPeace`), what is under each of these stays as quiet as
the drain has left it (`Peace`), and `deactivate` starts with nothing at work (`left_at_rest`).
-/

namespace Nigrains

/-- The identity that a caller looks up. -/
def Event.sought : Event → Option GrainId
  | .found g _ => some g
  | .joined g _ => some g
  | .missed g => some g
  | _ => none

namespace Protocol

variable {P P' : Protocol} {e : Event}

/-- Nobody is at work on what stands under the identity, or on the way there. -/
def Quiet (P : Protocol) (g : GrainId) : Prop :=
  .room g ∉ P.pending ∧ ∀ a, P.entry g = some a →
    .build g a ∉ P.pending ∧ .wait a ∉ P.pending ∧ .hold a ∉ P.pending ∧ .use a ∉ P.pending

/-- Whoever is on the way there has looked it up. -/
theorem Quiet.step {g : GrainId} (hQ : P.Quiet g) (hs : Sound P) (h : Step P e P')
    (hsought : e.sought ≠ some g) : P'.Quiet g := by
  obtain ⟨hroom, hentry⟩ := hQ
  refine ⟨fun hx => ?_, fun a ha => ?_⟩
  · rcases h.mem_pending hx with hP | hg
    · exact hroom hP
    · cases h <;> cases hg
      exact hsought rfl
  · rcases h.entry_of ha with hP | ⟨⟨old, rfl⟩, rfl⟩
    · obtain ⟨hbuild, hwait, hhold, huse⟩ := hentry a hP
      refine ⟨fun hx => ?_, fun hx => ?_, fun hx => ?_, fun hx => ?_⟩
      · rcases h.mem_pending hx with hx | hg
        · exact hbuild hx
        · cases h <;> cases hg
          exact lt_irrefl _ (hs.entry_lt g _ hP)
      · rcases h.mem_pending hx with hx | hg
        · exact hwait hx
        · cases h <;> cases hg
          next g' he hr => exact hsought (hs.entry_inj g g' a hP he ▸ rfl)
      · rcases h.mem_pending hx with hx | hg
        · exact hhold hx
        · cases h <;> cases hg
          · next g' he hr => exact hsought (hs.entry_inj g g' a hP he ▸ rfl)
          · next M hp hset hf => exact hwait (hp ▸ Multiset.mem_cons_self _ _)
          · next M g' hp =>
            have hb : .build g' a ∈ P.pending := hp ▸ Multiset.mem_cons_self _ _
            exact hbuild (hs.build_entry g' g a hb hP ▸ hb)
      · rcases h.mem_pending hx with hx | hg
        · exact huse hx
        · cases h <;> cases hg
          next M c hp => exact hhold (hp ▸ Multiset.mem_cons_self _ _)
    · exact (hroom (h.takes_mem rfl)).elim

/-- What has been taken out is not being built any more, and if it was taken out on
leaving, nothing leads to it. -/
structure Resting (P : Protocol) : Prop where
  settled : ∀ who a, .down who a ∈ P.pending → ¬ P.building a
  gone : ∀ a, .down .aexit a ∈ P.pending → P.Gone a

theorem resting_init : Resting init where
  settled _ _ h := absurd h (Multiset.notMem_zero _)
  gone _ h := absurd h (Multiset.notMem_zero _)

theorem Step.rests_of_taken {who : Remover} {g : GrainId} {a : ActId}
    (h : Step P (.taken who g a) P') (hs : Sound P) (hquiet : who = .aexit → P.Quiet g) :
    ¬ P.building a ∧ (who = .aexit → P'.Gone a) := by
  have hentry : P.entry g = some a := by cases h with | taken _ he _ _ => exact he
  by_cases hwho : who = .aexit
  · obtain ⟨hbuild, hwait, -, huse⟩ := (hquiet hwho).2 a hentry
    have hb : ¬ P.building a := by
      rintro ⟨g', hb⟩
      obtain rfl := hs.build_entry g' g a hb hentry
      exact hbuild hb
    exact ⟨hb, fun _ => h.gone_of_taken hs hb hwait huse⟩
  · exact ⟨(h.idle_of_taken hs hwho).1, fun hw => (hwho hw).elim⟩

/-- Nobody starts to build an activation that is there. -/
theorem Step.not_building_of_not {a : ActId} (h : Step P e P') (ha : a < P.built)
    (hb : ¬ P.building a) : ¬ P'.building a := by
  rintro ⟨g, hb'⟩
  rcases h.build_of hb' with hP | ⟨-, rfl⟩
  · exact hb ⟨g, hP⟩
  · exact lt_irrefl _ ha

theorem Resting.step (hR : Resting P) (hs : Sound P)
    (hquiet : ∀ g a, e = .taken .aexit g a → P.Quiet g) (h : Step P e P') : Resting P' where
  settled who a hd := by
    rcases h.mem_pending hd with hP | hg
    · exact h.not_building_of_not (hs.about_lt _ hP a rfl) (hR.settled who a hP)
    · obtain ⟨g, rfl⟩ : ∃ g, e = .taken who g a := by
        cases h <;> cases hg
        exact ⟨_, rfl⟩
      have hlt : a < P.built := by
        cases h with
        | taken _ he _ _ => exact hs.entry_lt g a he
      exact h.not_building_of_not hlt (h.rests_of_taken hs fun hw => hquiet g a (hw ▸ rfl)).1
  gone a hd := by
    rcases h.mem_pending hd with hP | hg
    · exact (hR.gone a hP).step h
    · obtain ⟨g, rfl⟩ : ∃ g, e = .taken .aexit g a := by
        cases h <;> cases hg
        exact ⟨_, rfl⟩
      exact (h.rests_of_taken hs fun _ => hquiet g a rfl).2 rfl

end Protocol

/-! ## What comes while somebody leaves -/

/-- The identities that a `__aexit__` has still to reach. -/
def Frame.due : Frame → List GrainId
  | .aexit (.deactivating rest) => rest
  | .deactivate .aexit g .start => [g]
  | _ => []

theorem mem_due_iff {f : Frame} {g : GrainId} : g ∈ f.due ↔
    (∃ rest, f = .aexit (.deactivating rest) ∧ g ∈ rest) ∨ f = .deactivate .aexit g .start := by
  unfold Frame.due
  split <;> simp_all [eq_comm]

/-- No `__aexit__` has still to reach the identity. -/
def State.undue (s : State) (g : GrainId) : Prop :=
  ∀ u < s.spawned, ∀ f ∈ (s.tasks u).stack, g ∉ f.due

instance {s : State} {g : GrainId} : Decidable (s.undue g) :=
  inferInstanceAs (Decidable (∀ u < s.spawned, ∀ f ∈ (s.tasks u).stack, g ∉ f.due))

/-- When a drain ends, no entry is being activated, waited for or about to be replaced, and if its
grace has run out, no call or tick is in flight ; and nobody looks up what a `__aexit__` has still
to reach. -/
def LeftInPeace (s : State) : Event → Prop
  | .drained late => ∀ x ∈ s.activations.items,
    .room x.1 ∉ s.pending ∧ .build x.1 x.2 ∉ s.pending ∧ .wait x.2 ∉ s.pending ∧
      (late = true → (s.heap x.2).inFlight = 0)
  | .found g _ => s.undue g
  | .joined g _ => s.undue g
  | .missed g => s.undue g
  | _ => True

instance {s : State} {e : Event} : Decidable (LeftInPeace s e) :=
  decidableOr (match e with
    | .drained _ => some (inferInstanceAs (Decidable (∀ x ∈ s.activations.items, _)))
    | .found g _ => some (inferInstanceAs (Decidable (s.undue g)))
    | .joined g _ => some (inferInstanceAs (Decidable (s.undue g)))
    | .missed g => some (inferInstanceAs (Decidable (s.undue g)))
    | _ => none) (by cases e <;> simp [LeftInPeace])

theorem LeftInPeace.undue {s : State} {e : Event} (h : LeftInPeace s e) {g : GrainId}
    (he : e.sought = some g) : s.undue g := by
  cases e <;> cases he <;> exact h

section

variable {cfg : Config} {isMine : Option (GrainId → Bool)} {s s' : State} {t : TaskId}
  {n : Next Frame Outcome}

/-- It is quiet under every identity that a `__aexit__` has still to reach, and everywhere when
its drain has ended. -/
structure Peace (s : State) : Prop where
  due : ∀ u f, f ∈ (s.tasks u).stack → ∀ g ∈ f.due, s.view.Quiet g
  drained : ∀ t v rest, s.running = some (t, .got (.ok v)) →
    (s.tasks t).stack = .aexit .draining :: rest → ∀ g a, s.activations.get g = some a →
      s.view.Quiet g

theorem peace_init (isMine : Option (GrainId → Bool)) : Peace (.init isMine) where
  due _ _ hf := by cases hf
  drained _ _ _ hr := by cases hr

/-- A `__aexit__` goes on with what it had still to reach, or lists the table. -/
theorem exec_due {c : Choice} {f f' : Frame} {r : Resume Outcome} {g : GrainId}
    (h : exec cfg s t c f r = some (s', n)) (hf : f' ∈ n.frames) (hg : g ∈ f'.due) :
    g ∈ f.due ∨ ∃ v a, f = .aexit .draining ∧ r = .got (.ok v) ∧ s.activations.get g = some a := by
  have hcarries (p : Frame) (hp : p.carries = true) : f' ≠ p := by
    rintro rfl
    rcases mem_due_iff.1 hg with ⟨rest, rfl, -⟩ | rfl <;> cases hp
  rcases mem_due_iff.1 hg with ⟨rest, rfl, hmem⟩ | rfl <;> cases exec_passage h
  case inl.empties g' =>
    obtain rfl : rest = _ := by simpa [Next.frames] using hf
    exact .inl (List.mem_cons_of_mem _ hmem)
  case inr.empties g' rest =>
    obtain rfl : g = g' := by simpa [Next.frames] using hf
    exact .inl List.mem_cons_self
  case inl.exits pc pc' =>
    obtain rfl : .deactivating rest = pc' := by simpa [Next.frames] using hf
    simp only [exec] at h
    unfold aexit at h
    repeat' split at h
    all_goals cases h
    · obtain ⟨a, ha⟩ := OrderedDict.mem_keyList.1 hmem
      exact .inr ⟨_, a, rfl, rfl, ha⟩
    · exact .inl hmem
  case inl.blocks seconds inside | inr.blocks seconds inside =>
    cases inside <;> simp [Next.frames, Inside.frame] at hf
  all_goals
    simp [Next.frames, hcarries _ (callFrame_carries ..),
      hcarries _ (terminalFrame_carries ..)] at hf

theorem due_of_new {f : Frame} (h : f.fresh ∨ f.hosted) : f.due = [] := by
  unfold Frame.fresh Frame.hosted at h
  unfold Frame.due
  split <;> simp_all

/-- When a drain ends in peace, it is quiet under all that the table holds. -/
theorem Reached.quiet_of_drained (hI : Reached s) {late : Bool} (hr : s.running = some (t, .send))
    (hc : LeftInPeace s (.drained late)) (hbusy : late = false → s.busy = false) {g : GrainId}
    {a : ActId} (ha : s.activations.get g = some a) : s.view.Quiet g := by
  have hmem : (g, a) ∈ s.activations.items := OrderedDict.mem_items.2 ha
  obtain ⟨hroom, hbuild, hwait, hgrace⟩ := hc (g, a) hmem
  have hflight : (s.heap a).inFlight = 0 := by
    cases late with
    | true => exact hgrace rfl
    | false =>
      have hnone := List.any_eq_false.1 (hbusy rfl) (g, a) hmem
      simpa using hnone
  refine ⟨hroom, fun b hb => ?_⟩
  obtain rfl : a = b := Option.some.inj (ha.symm.trans hb)
  refine ⟨hbuild, hwait, fun hhold => ?_, fun huse => ?_⟩
  · replace hhold : .hold a ∈ s.pending := hhold
    rw [State.pending, hr, Option.map_some, Option.getD_some, Resume.held, add_zero] at hhold
    exact hold_notMem_work _ a hhold
  · have hcount : (s.heap a).inFlight = s.pending.count (.use a) + s.pending.count (.tick a) :=
      hI.sound.inFlight a
    have hone := Multiset.one_le_count_iff_mem.2 huse
    change 1 ≤ s.pending.count (.use a) at hone
    omega

theorem Peace.step {l : Label} (hI : Reached s) (hP : Peace s) (h : step cfg s l = some s')
    (hc : Logs State.trace LeftInPeace s s') : Peace s' := by
  -- what is not looked up stays quiet
  have keep (g : GrainId) (hQ : s.view.Quiet g)
      (hsought : ∀ e, s'.trace = e :: s.trace → e.sought ≠ some g) : s'.view.Quiet g := by
    rcases hI.step_view h with hv | ⟨e, hv⟩
    · rw [hv]
      exact hQ
    · exact hQ.step hI.sound hv (hsought e hv.trace)
  have kept (u : TaskId) (f : Frame) (hf : f ∈ (s.tasks u).stack) (g : GrainId) (hg : g ∈ f.due) :
      s'.view.Quiet g :=
    keep g (hP.due u f hf g hg) fun e he hsought =>
      (hc e he).undue hsought u (hI.nested.lt_of_mem hf) f hf hg
  constructor
  · refine frames_step (Φ := fun u f => f ∈ (s.tasks u).stack)
      (Ψ := fun _ f => ∀ g ∈ f.due, s'.view.Quiet g) h (fun _ _ hf => hf) kept ?_ ?_ ?_
    · rintro t r f rest c s1 n hr hs he hs'
      refine ⟨fun f' hf' g hg => ?_, fun _ f' _ _ hf' g hg => ?_⟩
      · rcases exec_due he hf' hg with hdue | ⟨v, a, rfl, rfl, ha⟩
        · exact kept t f (hs ▸ List.mem_cons_self) g hdue
        · refine keep g (hP.drained t v rest hr hs g a ha) fun e htrace => ?_
          cases he
          rw [hs'] at htrace
          obtain rfl : .listed s.activations.keyList = e := (List.cons.inj htrace).1
          simp [Event.sought]
      · rw [due_of_new (.inl hf'.1)] at hg
        cases hg
    · intro _ f hf g hg
      rw [due_of_new (.inr hf)] at hg
      cases hg
    · rintro _ call saved - - g hg
      cases hg
  · intro t v rest hr' hs' g a ha
    rcases given_cases hI.nested h hr' hs' with ⟨r, f, c, s1, hr, hs, hb, he, hland⟩ | ⟨-, ho⟩ |
      ⟨hw, hlt, hr, hs⟩
    · obtain ⟨pc, rfl⟩ : ∃ pc, f = .drain pc := by
        cases awaits_of_below hb
        exact ⟨_, rfl⟩
      obtain ⟨late, rfl, hs1, hbusy⟩ : ∃ late, r = .send ∧ s1 = s.emit (.drained late) ∧
          (late = false → s.busy = false) := by
        simp only [exec] at he
        unfold drain at he
        repeat' split at he
        all_goals cases he
        · next hnot => exact ⟨false, rfl, rfl, fun _ => by simpa using hnot⟩
        · exact ⟨true, rfl, rfl, fun h => by cases h⟩
      have htrace : s'.trace = .drained late :: s.trace := by rw [hland, hs1]; rfl
      have hget : s.activations.get g = some a := by rw [hland, hs1] at ha; exact ha
      refine keep g (hI.quiet_of_drained hr (hc _ htrace) hbusy hget) fun e he' => ?_
      obtain rfl : .drained late = e := (List.cons.inj (htrace.symm.trans he')).1
      simp [Event.sought]
    · cases ho
    · rw [hI.view_eq h hw.trace]
      exact hP.drained t v rest hr hs g a (hw.activations ▸ ha)

end

section

variable {cfg : Config} {isMine : Option (GrainId → Bool)} {s s' : State}

theorem Run.resting (h : Run (step cfg) (Logs State.trace LeftInPeace) (.init isMine) s) :
    Reached s ∧ s.view.Resting ∧ Timed s := by
  have hI := h.invariant (I := fun s => Reached s ∧ Peace s ∧ s.view.Resting ∧ Timed s)
    ⟨reached_init _, peace_init _, view_init isMine ▸ Protocol.resting_init, timed_init _⟩ ?_
  · exact ⟨hI.1, hI.2.2⟩
  rintro s l s' ⟨hI, hP, hR, hT⟩ hl hok
  refine ⟨hI.step hl, hP.step hI hl hok, ?_, hT.step hI hR.settled hl⟩
  rcases hI.step_view hl with hv | ⟨e, hv⟩
  · rw [hv]
    exact hR
  · refine hR.step hI.sound (fun g a he => ?_) hv
    subst he
    obtain ⟨t, r, f, rest, c, s1, n, hr, hs, hx, hs', hlogs⟩ := step_logs hl hv.trace
    cases hlogs
    refine hP.due t (.deactivate .aexit g .start) ?_ g (List.mem_singleton_self g)
    rw [hs]
    exact List.mem_cons_self

/-- In every run in which nothing is on its way when a drain ends, and nobody looks up what is still
to be reached, `__aexit__` starts `deactivate` on an activation only when it has been activated and
no call or tick is in flight on it. -/
theorem left_at_rest {l : Label} {a : ActId}
    (h : Run (step cfg) (Logs State.trace LeftInPeace) (.init isMine) s)
    (hl : step cfg s l = some s') (he : s'.trace = .deactivating .aexit a :: s.trace) :
    (∀ g, .build g a ∉ s'.pending) ∧ .use a ∉ s'.pending ∧ .tick a ∉ s'.pending := by
  obtain ⟨hI, hR, hT⟩ := h.resting
  rcases hI.step_view hl with hv | ⟨e, hv⟩
  · exact absurd (he.symm.trans (congrArg Protocol.trace hv)) (List.cons_ne_self _ _)
  obtain rfl : e = .deactivating .aexit a := (List.cons.inj (hv.trace.symm.trans he)).1
  have hgone : s'.view.Gone a := (hR.gone a (hv.takes_mem rfl)).step hv
  refine ⟨fun g hb => hgone.build ⟨g, hb⟩, hgone.use, fun htick => ?_⟩
  -- what ticks is on the list of the activation, which has just been cleared
  obtain ⟨u, f, hf, hx⟩ := exists_frame_of_pending htick (by simp)
  obtain rfl : f = .tick a .working := by
    unfold Frame.activity at hx
    split at hx <;> simp_all
  have hlisted := (hT.step hI hR.settled hl).listed u a _ hf
  obtain ⟨t, r, f, rest, c, s1, n, hr, hs, hexec, rfl, hlogs⟩ := step_logs hl he
  obtain ⟨g, rfl, rfl⟩ : ∃ g, f = .deactivate .aexit g (.timers a []) ∧ r = .send := by
    cases hlogs
    exact ⟨_, rfl, rfl⟩
  cases hexec
  simp [State.emit, State.modify] at hlisted

/-- A runtime is left while a call is in flight on the second of two activations. The drain waits
for it, the `deactivate` of the first one suspends, a call of a third identity comes in and is
served, and `__aexit__` goes on to the second one. -/
def leftInPeace : List Label :=
  [.arrive, .resume 0] ++ Label.invoke ⟨"counter", "x"⟩ ++ Label.serve ++
  Label.invoke ⟨"counter", "y"⟩ ++ Label.gos 2 ++ [Label.returns] ++ Label.gos 3 ++
  [.run .suspend, .arrive, .resume 1, .run .leave] ++ Label.gos 4 ++
  [.resume 0, Label.returns] ++ Label.gos 1 ++ [.run .suspend, .resume 1] ++ Label.gos 6 ++
  [.run .suspend, .arrive, .resume 2] ++ Label.invoke ⟨"counter", "z"⟩ ++ Label.serve ++
  [.run .suspend, .resume 1, Label.returns] ++ Label.gos 4

/-- The second one is at rest. -/
theorem left_at_rest_inPeace : ∃ s s' : State,
    step (.small none) s (.run .go) = some s' ∧ .drained false ∈ s'.trace ∧
    .activated ⟨"counter", "z"⟩ 2 ∈ s'.trace ∧
    (∀ g, .build g 1 ∉ s'.pending) ∧ .use 1 ∉ s'.pending ∧ .tick 1 ∉ s'.pending := by
  obtain ⟨s, hrun, hp⟩ := exists_logged_run (.small none) none LeftInPeace leftInPeace
    (fun s => (step (.small none) s (.run .go)).any fun s' : State =>
      decide (s'.trace = .deactivating .aexit 1 :: s.trace ∧ .drained false ∈ s'.trace ∧
        .activated ⟨"counter", "z"⟩ 2 ∈ s'.trace)) (by decide +kernel)
  simp only [Option.any_eq_true, decide_eq_true_eq] at hp
  obtain ⟨s', hl, he, hdrained, hactivated⟩ := hp
  exact ⟨s, s', hl, hdrained, hactivated, left_at_rest hrun hl he⟩

/-- A runtime is left while a grain is being activated : no call is in flight, so nothing is
waited for. -/
def leftActivating : List Label :=
  [.arrive, .resume 0] ++ Label.invoke ⟨"counter", "x"⟩ ++ Label.gos 2 ++ [.run .suspend] ++
  [.arrive, .resume 1, .run .leave] ++ Label.gos 7

/-- `__aexit__` starts `deactivate` on an activation whose `activate` has not returned. -/
theorem leftActivating_deactivates : ∃ s s' : State,
    Run (step (.small none)) (fun _ _ => True) (.init none) s ∧
    step (.small none) s (.run .go) = some s' ∧
    .drained false ∈ s'.trace ∧ s'.trace = .deactivating .aexit 0 :: s.trace ∧
    .build ⟨"counter", "x"⟩ 0 ∈ s'.pending := by
  obtain ⟨s, hrun, hp⟩ := exists_free_run (.small none) none leftActivating
    (fun s => (step (.small none) s (.run .go)).any fun s' : State =>
      decide (.drained false ∈ s'.trace ∧ s'.trace = .deactivating .aexit 0 :: s.trace ∧
        .build ⟨"counter", "x"⟩ 0 ∈ s'.pending)) (by decide +kernel)
  simp only [Option.any_eq_true, decide_eq_true_eq] at hp
  obtain ⟨s', hl, hrest⟩ := hp
  exact ⟨s, s', hrun, hl, hrest⟩

end

end Nigrains
