import Nigrains.Slots

/-!
# The bound on activations

A full runtime makes room by evicting one idle activation, and suspends while it does. What
has been made room for is entered without another look at the table, which may have filled
again (`sharedSlot`), or may have been over the bound by more than one. As long as callers
that find no entry look for room where there is some for them and for everyone who has been
promised any, and nothing is left idle in a table that has been promised away (`KeepsRoom`),
an entry that takes the table over its bound finds every other one activating or at work
(`over_bound_busy`).
-/

namespace Nigrains

/-- A lookup finds nothing. -/
def Event.misses : Event → Bool
  | .missed _ => true
  | _ => false

/-- The activation that a call or a tick leaves, or that a call does not enter. -/
def Event.leaves : Event → Option ActId
  | .answered _ a _ _ => some a
  | .tocked a => some a
  | .refused _ a => some a
  | _ => none

namespace Protocol

variable {P P' : Protocol} {e : Event}

/-- All that the table holds is activating, has a call or a tick in flight, or has just been
given to a caller. -/
def AtWork (P : Protocol) : Prop :=
  ∀ g a, P.entry g = some a →
    .build g a ∈ P.pending ∨ .use a ∈ P.pending ∨ .tick a ∈ P.pending ∨ .hold a ∈ P.pending

/-- It stays so unless the last call or tick leaves an entry. -/
theorem AtWork.step (hA : P.AtWork) (hS : P'.Sound) (h : P.Step e P')
    (hleave : ∀ g a, P.entry g = some a → e.leaves = some a →
      (e.life a (P.life a)).inFlight ≠ 0) : P'.AtWork := by
  intro g a ha
  rcases h.entry_of ha with hentry | ⟨⟨old, rfl⟩, -⟩
  · by_cases hl : e.leaves = some a
    · have hflight := hleave g a hentry hl
      rw [← h.life_eq, hS.inFlight] at hflight
      have hone : 1 ≤ P'.pending.count (.use a) ∨ 1 ≤ P'.pending.count (.tick a) := by omega
      rw [Multiset.one_le_count_iff_mem, Multiset.one_le_count_iff_mem] at hone
      exact .inr (hone.imp_right .inl)
    · rcases hA g a hentry with hx | hx | hx | hx
      · rcases h.pending_mem hx with hx | ht
        · exact .inl hx
        · cases h <;> cases ht
          · exact .inr (.inr (.inr (Multiset.mem_cons_self _ _)))
          · -- the entry is gone
            simp [Protocol.log, Protocol.modify, Protocol.setEntry] at ha
      · rcases h.pending_mem hx with hx | ht
        · exact .inr (.inl hx)
        · cases e <;> cases ht
          exact absurd rfl hl
      · rcases h.pending_mem hx with hx | ht
        · exact .inr (.inr (.inl hx))
        · cases e <;> cases ht
          exact absurd rfl hl
      · rcases h.pending_mem hx with hx | ht
        · exact .inr (.inr (.inr hx))
        · cases h <;> cases ht
          · exact absurd rfl hl
          · exact .inr (.inl (Multiset.mem_cons_self _ _))
  · exact .inl (h.gives_mem rfl)

end Protocol

/-! ## What is kept -/

namespace State

/-- What could be evicted. -/
def idlers (s : State) : List (GrainId × ActId) :=
  s.activations.items.filter fun e => s.idle e.2

/-- How many slots of the table callers have been promised that have not entered theirs yet. -/
def reserved (s : State) : ℤ :=
  s.toLoop.work Frame.slots

/-- Nothing could be evicted, or there is room for one more beside what has been promised, or
nothing has been promised, and the table is not over its bound or has one idle activation. -/
def spare (m : ℤ) (s : State) : Prop :=
  s.idlers = [] ∨ s.activations.len + s.reserved < m ∨
    s.reserved = 0 ∧ (s.activations.len ≤ m ∨ s.idlers.length ≤ 1)

instance {m : ℤ} {s : State} : Decidable (s.spare m) :=
  inferInstanceAs (Decidable (_ ∨ _ ∨ _ ∧ (_ ∨ _)))

/-- The last call or tick leaves an activation that stands in the table. -/
def leavesIdle (s : State) (e : Event) : Prop :=
  ∃ x ∈ s.activations.items, e.leaves = some x.2 ∧ (e.life x.2 (s.life x.2)).inFlight = 0

instance {s : State} {e : Event} : Decidable (s.leavesIdle e) :=
  inferInstanceAs (Decidable (∃ x ∈ s.activations.items, _ ∧ _))

end State

/-- A lookup that finds nothing finds room, or only what one eviction is enough for, and what
is left idle leaves room for what has been promised, if anything has. -/
def KeepsRoom (cfg : Config) (s : State) (e : Event) : Prop :=
  ∀ m ∈ cfg.maxActivations,
    (e.misses = true → s.spare m) ∧ (s.leavesIdle e → s.reserved = 0 ∨ s.promised ≤ m)

instance {cfg : Config} {s : State} {e : Event} : Decidable (KeepsRoom cfg s e) :=
  inferInstanceAs (Decidable (∀ m ∈ cfg.maxActivations, _ ∧ _))

section

variable {cfg : Config} {s s' : State} {t : TaskId} {n : Next Frame Outcome} {m : ℤ}

theorem KeepsRoom.spare {g : GrainId} (hm : cfg.maxActivations = some m)
    (h : KeepsRoom cfg s (.missed g)) : s.spare m :=
  (h m hm).1 rfl

theorem KeepsRoom.promised {e : Event} (hm : cfg.maxActivations = some m)
    (h : KeepsRoom cfg s e) (he : s.leavesIdle e) : s.reserved = 0 ∨ s.promised ≤ m :=
  (h m hm).2 he

theorem spare_congr (ha : s'.activations = s.activations) (hh : s'.heap = s.heap)
    (hw : s'.reserved = s.reserved) : s'.spare m ↔ s.spare m := by
  unfold State.spare State.idlers State.idle
  rw [ha, hh, hw]

/-- Whoever is about to look for room, or to take out what it has found, may go by the table. -/
def Spared (m : ℤ) (s : State) : Prop :=
  ∀ t r f rest, s.running = some (t, r) → (s.tasks t).stack = f :: rest → f.looks = true →
    s.spare m

/-- What has been promised fits into the table, or everything in it is at work. -/
def Kept (m : ℤ) (s : State) : Prop :=
  s.reserved = 0 ∨ s.promised ≤ m ∨ s.view.AtWork

theorem slots_of_fresh {f : Frame} (h : f.fresh) : f.slots = 0 := by
  unfold Frame.fresh at h
  split at h <;> trivial

/-- Looking for room begins with a lookup that finds nothing, or goes on. -/
theorem exec_looks {c : Choice} {f f' : Frame} {r : Resume Outcome}
    (h : exec cfg s t c f r = some (s', n)) (hf : f' ∈ n.frames) (hlooks : f'.looks = true) :
    s'.activations = s.activations ∧ s'.heap = s.heap ∧ n.work Frame.slots = f.slots ∧
      (f.looks = true ∨ ∃ g, s'.trace = .missed g :: s.trace) := by
  have hcarries : ∀ p : Frame, p.carries = true → f' ≠ p := by
    rintro p hp rfl
    rcases looks_iff.1 hlooks with rfl | ⟨g, rfl⟩ <;> cases hp
  rcases looks_iff.1 hlooks with rfl | ⟨g, rfl⟩ <;> cases exec_passage h
  case inl.makesRoom g =>
    simp only [exec, activated] at h
    repeat' split at h
    all_goals cases h
    exact ⟨rfl, rfl, rfl, .inr ⟨_, rfl⟩⟩
  case inr.evicts g' =>
    simp only [exec, makeRoom] at h
    repeat' split at h
    all_goals cases h
    exact ⟨rfl, rfl, rfl, .inl rfl⟩
  case inl.blocks seconds inside | inr.blocks seconds inside =>
    cases inside <;> simp [Next.frames, Inside.frame] at hf
  all_goals
    simp [Next.frames, hcarries _ (callFrame_carries ..),
      hcarries _ (terminalFrame_carries ..)] at hf

theorem Spared.step {l : Label} (hm : cfg.maxActivations = some m) (hn : Nested s)
    (hS : Spared m s) (h : step cfg s l = some s')
    (hc : Logs State.trace (KeepsRoom cfg) s s') : Spared m s' := by
  intro t r' f' rest' hr' hs' hlooks
  rcases looks_cases hn h hlooks hr' hs' with ⟨c, f, r, rest, s1, n, hr, hs, he, rfl, hf⟩ |
    ⟨hw, hr, hs⟩
  · obtain ⟨ha, hh, hslots, hlook⟩ := exec_looks he hf hlooks
    obtain ⟨R, hR, hland⟩ := exec_work hn hr hs he fun _ => slots_of_fresh
    have hreserved : (s1.toLoop.land t rest n).work Frame.slots = s.reserved :=
      hland.trans ((congrArg (· + R) hslots).trans hR.symm)
    have hspare : ({ s1 with toLoop := s1.toLoop.land t rest n } : State).spare m ↔ s.spare m :=
      spare_congr ha hh hreserved
    refine hspare.2 ?_
    rcases hlook with hlook | ⟨g, htrace⟩
    · exact hS t r f rest hr hs hlook
    · exact (hc _ htrace).spare hm
  · have hreserved : s'.reserved = s.reserved := hw.keeps.work_eq fun f hf => by
      unfold Frame.hosted at hf
      split at hf <;> trivial
    rw [spare_congr hw.activations hw.heap hreserved]
    exact hS t r' f' rest' hr hs hlooks

/-- What cannot be evicted is at work. -/
theorem Reached.atWork (hI : Reached s)
    (h : ∀ e ∈ s.activations.items, s.idle e.2 = false) : s.view.AtWork := by
  intro g a ha
  rcases hI.busy_of_not_idle ha (h (g, a) (OrderedDict.mem_items.2 ha)) with hx | hx | hx
  · exact .inl hx
  · exact .inr (.inl hx)
  · exact .inr (.inr (.inl hx))

theorem busy_of_idlers (h : s.idlers = []) : ∀ e ∈ s.activations.items, s.idle e.2 = false := by
  intro e he
  simpa using List.filter_eq_nil_iff.1 h e he

/-- Where a caller finds room, or nothing to evict, there is a slot for it, or nothing idle. -/
theorem Reached.fits_of_room (hI : Reached s) (hspare : s.spare m)
    (hroom : (s.activations.len : ℤ) < m ∨ ∀ e ∈ s.activations.items, s.idle e.2 = false) :
    s.activations.len + s.reserved + 1 ≤ m ∨ s.view.AtWork := by
  rcases hroom with hlt | hbusy
  · rcases hspare with hnone | hfits | ⟨h0, -⟩
    · exact .inr (hI.atWork (busy_of_idlers hnone))
    · exact .inl (by omega)
    · exact .inl (by omega)
  · exact .inr (hI.atWork hbusy)

/-- Where a caller takes out what it has found idle, there is a slot for it, or nothing else
idle. -/
theorem fits_of_take (hspare : s.spare m) {e : GrainId × ActId}
    (hfind : s.activations.items.find? (fun e => s.idle e.2) = some e) :
    s.activations.len + s.reserved ≤ m ∨
      ∀ e' ∈ s.activations.items, e' ≠ e → s.idle e'.2 = false := by
  have he : e ∈ s.idlers :=
    List.mem_filter.2 ⟨List.mem_of_find?_eq_some hfind,
      List.find?_some (p := fun e : GrainId × ActId => s.idle e.2) hfind⟩
  rcases hspare with hnone | hfits | ⟨h0, hfits | hone⟩
  · rw [hnone] at he
    cases he
  · exact .inl (by omega)
  · exact .inl (by omega)
  · refine .inr fun e' he' hne => Bool.eq_false_iff.2 fun hidle => hne ?_
    obtain ⟨x, hx⟩ := List.length_eq_one_iff.1 (hone.antisymm (List.length_pos_of_mem he))
    have hmem : e' ∈ s.idlers := List.mem_filter.2 ⟨he', hidle⟩
    rw [hx, List.mem_singleton] at he hmem
    rw [he, hmem]

/-- What a removal takes out is gone from the table. -/
theorem deactivate_takes {who : Remover} {g : GrainId} {a : ActId} {r : Resume Outcome}
    (ha : s.activations.get g = some a) (h : deactivate s who g .start r = some (s', n)) :
    s'.activations = s.activations.pop g ∧ s'.trace = .taken who g a :: s.trace := by
  unfold deactivate at h
  split at h
  case h_1 =>
    rw [ha] at h
    cases h
    obtain ⟨L, hL⟩ := cancel_all_eq (s.heap a).timers (s.take who g a)
    rw [hL]
    exact ⟨rfl, rfl⟩
  all_goals simp_all

/-- What is left in the table is at work, if nothing else was idle. -/
theorem Reached.atWork_of_take {l : Label} {g : GrainId} {a : ActId} {who : Remover}
    (hI : Reached s) (h : Nigrains.step cfg s l = some s')
    (htrace : s'.trace = .taken who g a :: s.trace)
    (hact : s'.activations = s.activations.pop g)
    (hbusy : ∀ e ∈ s.activations.items, e ≠ (g, a) → s.idle e.2 = false) : s'.view.AtWork := by
  intro g' b hb
  replace hb : s'.activations.get g' = some b := hb
  rw [hact, OrderedDict.get_pop] at hb
  split_ifs at hb with hne
  have hidle := hbusy (g', b) (OrderedDict.mem_items.2 hb) fun heq => hne (Prod.mk.inj heq).1
  have hstay : ∀ x ∈ s.view.pending, x ∈ s'.view.pending := by
    rcases hI.step_view h with hv | ⟨e, hv⟩
    · rw [hv]
      exact fun _ => id
    · obtain rfl : e = .taken who g a := (List.cons.inj (hv.trace.symm.trans htrace)).1
      exact fun x hx => (hv.pending_mem hx).resolve_right (by simp [Event.takes])
  rcases hI.busy_of_not_idle hb hidle with hx | hx | hx
  · exact .inl (hstay _ hx)
  · exact .inr (.inl (hstay _ hx))
  · exact .inr (.inr (.inl (hstay _ hx)))

theorem slots_nonneg_of_looks {f : Frame} (hf : ¬f.looks = true) : 0 ≤ f.slots := by
  unfold Frame.slots
  split <;> first | decide | exact absurd rfl hf

theorem Kept.step {l : Label} (hm : cfg.maxActivations = some m) (hI : Reached s)
    (hE : Evicting s) (hS : Spared m s) (hK : Kept m s) (h : Nigrains.step cfg s l = some s')
    (hc : Logs State.trace (KeepsRoom cfg) s s') : Kept m s' := by
  have hI' := hI.step h
  have hnonneg : 0 ≤ s'.reserved := hI'.nested.slots_nonneg
  -- nothing more is promised
  have hless (hr : s'.reserved ≤ s.reserved) (hp : s'.promised ≤ s.promised) : Kept m s' := by
    have hkept : s.reserved = 0 ∨ s.promised ≤ m ∨ s'.view.AtWork := by
      rcases hK with h0 | hfits | hA
      · exact .inl h0
      · exact .inr (.inl hfits)
      · rcases hI.step_view h with hv | ⟨e, hv⟩
        · exact .inr (.inr (hv ▸ hA))
        · by_cases hleave : s.leavesIdle e
          · exact ((hc e hv.trace).promised hm hleave).imp_right .inl
          · exact .inr (.inr (hA.step hI'.sound hv fun g a ha hl h0 =>
              hleave ⟨(g, a), OrderedDict.mem_items.2 ha, hl, h0⟩))
    rcases hkept with h0 | hfits | hA
    · exact .inl (by omega)
    · exact .inr (.inl (hp.trans hfits))
    · exact .inr (.inr hA)
  by_cases hrun : ∃ c, l = .run c
  · obtain ⟨c, rfl⟩ := hrun
    obtain ⟨t, r, f, rest, s1, n, R, hr, hs, he, hs', hw, hw'⟩ := run_work hI.nested h
      (w := Frame.slots) fun _ => slots_of_fresh
    have hnext := slots_next he
    have hreserved : s.reserved = f.slots + R := hw
    have hreserved' : s'.reserved = n.work Frame.slots + R := hw'
    have hpromised : s.promised = s.activations.len + s.reserved := rfl
    have hpromised' : s'.promised = s'.activations.len + s'.reserved := rfl
    have hact' : s'.activations = s1.activations := by rw [hs']
    by_cases hlook : f.looks = true
    · have hspare := hS t r f rest hr hs hlook
      rcases looks_iff.1 hlook with rfl | ⟨g, rfl⟩
      · have hself : Frame.slots (.makeRoom .start) = -1 := rfl
        obtain ⟨rfl, htakes | hroom⟩ := makeRoom_slots hm he
        · exact hless (by omega) (by rw [hpromised', hact']; omega)
        · rcases hI.fits_of_room hspare hroom with hfits | hA
          · exact .inr (.inl (by rw [hpromised', hact']; omega))
          · exact .inr (.inr (hI.view_eq h (by rw [hs']) ▸ hA))
      · have hself : Frame.slots (.deactivate .makeRoom g .start) = -1 := rfl
        obtain ⟨a, hfind⟩ := hE t r g rest hr hs
        have ha := get_of_find hfind
        obtain ⟨hact, htrace⟩ := deactivate_takes ha he
        obtain ⟨hlen, hn⟩ := deactivate_slots (by simp [ha]) he
        rcases fits_of_take hspare hfind with hfits | hbusy
        · exact .inr (.inl (by rw [hpromised', hact']; omega))
        · exact .inr (.inr (hI.atWork_of_take h (by rw [hs', htrace]) (hact'.trans hact) hbusy))
    · have hself := slots_nonneg_of_looks hlook
      have hslots := exec_slots he (fun hf => hlook (hf ▸ rfl)) fun g hf => (hlook (hf ▸ rfl)).elim
      exact hless (by omega) (by rw [hpromised', hact']; omega)
  · have hl : ∀ c, l ≠ .run c := not_exists.1 hrun
    have hwork : s'.reserved = s.reserved := work_other hI.nested hl h
      (fun f hf => by unfold Frame.hosted at hf; split at hf <;> trivial) fun _ _ => rfl
    refine hless hwork.le ?_
    unfold State.promised
    rw [(step_idle hl h).1]
    exact add_le_add_right hwork.le _

theorem Run.kept {isMine : Option (GrainId → Bool)} (hm : cfg.maxActivations = some m)
    (h : Run (Nigrains.step cfg) (Logs State.trace (KeepsRoom cfg)) (.init isMine) s) :
    Kept m s := by
  have hI := h.invariant (I := fun s => Reached s ∧ Evicting s ∧ Spared m s ∧ Kept m s)
    ⟨reached_init _, evicting_init _, (fun _ _ _ _ hr => by cases hr), .inl rfl⟩
    fun s l s' ⟨hI, hE, hS, hK⟩ hl hc => ⟨hI.step hl, hE.step hI.nested hl,
      hS.step hm hI.nested hl hc, hK.step hm hI hE hS hl hc⟩
  exact hI.2.2.2

/-- Who is about to enter an activation finds a table that has a slot for it, or where nothing
is idle. -/
theorem Run.roomy {isMine : Option (GrainId → Bool)} {r : Resume Outcome} {g : GrainId}
    {rest : List Frame} (hm : cfg.maxActivations = some m)
    (h : Run (Nigrains.step cfg) (Logs State.trace (KeepsRoom cfg)) (.init isMine) s)
    (hr : s.running = some (t, r)) (hs : (s.tasks t).stack = .activated g .room :: rest) :
    (s.activations.len : ℤ) < m ∨ ∀ g a, s.activations.get g = some a →
      .build g a ∈ s.pending ∨ .use a ∈ s.pending ∨ .tick a ∈ s.pending := by
  have hI := h.reached
  have hone : 1 ≤ s.reserved := by
    have ht := (hI.nested.running t r hr).1
    refine le_trans ?_ (Finset.single_le_sum
      (fun u _ => (slots_stack (hI.nested.stacked u)).1) (Finset.mem_range.2 ht))
    exact (slots_stack (hI.nested.stacked t)).2 (.inl ⟨g, by rw [hs]; rfl⟩)
  rcases h.kept hm with h0 | hfits | hA
  · omega
  · unfold State.promised at hfits
    unfold State.reserved at hone
    exact .inl (by omega)
  · refine .inr fun g a ha => ?_
    have hheld : r.held = 0 := hI.asserted t r _ rest hr hs
    have hnone : .hold a ∉ s.pending := by
      unfold State.pending
      rw [hr, Option.map_some, Option.getD_some, hheld, add_zero]
      exact hold_notMem_work _ a
    rcases hA g a ha with hx | hx | hx | hx
    · exact .inl hx
    · exact .inr (.inl hx)
    · exact .inr (.inr hx)
    · exact (hnone hx).elim

/-- In every run in which what has been promised is kept, an entry that takes the table over its
bound finds every other one activating, or with a call or a tick in flight. -/
theorem over_bound_busy {isMine : Option (GrainId → Bool)} {l : Label} {g : GrainId}
    {a : ActId} {old : Option ActId} (hm : cfg.maxActivations = some m)
    (h : Run (step cfg) (Logs State.trace (KeepsRoom cfg)) (.init isMine) s)
    (hl : step cfg s l = some s') (he : s'.trace = .published g a old :: s.trace)
    (hover : m < s'.activations.len) :
    ∀ g' b, s'.activations.get g' = some b → g' ≠ g →
      .build g' b ∈ s'.pending ∨ .use b ∈ s'.pending ∨ .tick b ∈ s'.pending := by
  intro g' b hb hne
  obtain ⟨t, r, f, rest, c, s1, n, hr, hs, hx, hs', hlogs⟩ := step_logs hl he
  obtain ⟨v, rfl, rfl⟩ : ∃ v, f = .activated g .room ∧ r = .got (.ok v) := by
    cases hlogs
    exact ⟨_, rfl, rfl⟩
  obtain ⟨grain, hs1⟩ : ∃ grain, s1 = s.publish g grain := by
    simp only [exec, activated] at hx
    split at hx
    · next grain _ =>
      split_ifs at hx <;> cases hx <;> exact ⟨grain, rfl⟩
    · cases hx
      rw [hs'] at he
      simp [State.emit] at he
    · cases hx
  have hact : s'.activations = s.activations.set g s.built := by
    rw [hs', hs1]
    rfl
  rw [hact] at hb hover
  rw [OrderedDict.get_set, if_neg hne] at hb
  rcases h.roomy hm hr hs with hlt | hbusy
  · have hlen : (s.activations.set g s.built).len ≤ s.activations.len + 1 :=
      OrderedDict.len_set_le
    omega
  · -- publication ends nothing but the making of room
    rcases h.reached.step_view hl with hv | ⟨e, hv⟩
    · exact absurd (he.symm.trans (congrArg Protocol.trace hv)) (List.cons_ne_self _ _)
    · obtain rfl : e = .published g a old := (List.cons.inj (hv.trace.symm.trans he)).1
      have hstay : ∀ x ∈ s.pending, some (.room g) ≠ some x → x ∈ s'.pending := fun x hx hne =>
        (hv.pending_mem hx).resolve_right hne
      rcases hbusy g' b hb with hb | hb | hb
      · exact .inl (hstay _ hb (by simp))
      · exact .inr (.inl (hstay _ hb (by simp)))
      · exact .inr (.inr (hstay _ hb (by simp)))

/-- Two callers of two cold identities on a full runtime. The eviction that the first one has
asked for suspends; the second one finds the table empty, and is being served. -/
def whileEvicting : List Label :=
  [.arrive, .resume 0] ++ Label.invoke ⟨"counter", "x"⟩ ++ Label.serve ++
  Label.invoke ⟨"counter", "y"⟩ ++ Label.gos 3 ++ [.run .suspend] ++
  [.arrive, .resume 1] ++ Label.invoke ⟨"counter", "z"⟩ ++ Label.gos 2 ++ [Label.returns] ++
  Label.gos 3

/-- The method of the second one is still running when the first one enters its activation, and
the runtime goes over its bound. -/
theorem over_bound_busy_serving : ∃ s s' : State,
    step (.small (some 1)) s (.run .go) = some s' ∧ s'.activations.len = 2 ∧
    (.build ⟨"counter", "z"⟩ 1 ∈ s'.pending ∨ .use 1 ∈ s'.pending ∨ .tick 1 ∈ s'.pending) := by
  obtain ⟨s, hrun, hp⟩ := exists_logged_run (.small (some 1)) none (KeepsRoom (.small (some 1)))
    (whileEvicting ++ [.run .suspend, .resume 0, Label.returns] ++ Label.gos 2)
    (fun s => (step (.small (some 1)) s (.run .go)).any fun s' : State =>
      decide (s'.trace = .published ⟨"counter", "y"⟩ 2 none :: s.trace ∧ s'.activations.len = 2 ∧
        s'.activations.get ⟨"counter", "z"⟩ = some 1)) (by decide +kernel)
  simp only [Option.any_eq_true, decide_eq_true_eq] at hp
  obtain ⟨s', hl, he, hlen, hget⟩ := hp
  exact ⟨s, s', hl, hlen, over_bound_busy rfl hrun hl he (by rw [hlen]; decide) _ _ hget
    (by decide)⟩

/-- The second one has been served by the time the first one enters its activation into the slot
both have been given. -/
def sharedSlot : List Label :=
  whileEvicting ++ [Label.returns] ++ Label.gos 1 ++ [.run .suspend] ++
  [.resume 0, Label.returns] ++ Label.gos 2

/-- The runtime goes over its bound while an activation it holds is idle. -/
theorem sharedSlot_over : ∃ s s' : State,
    Run (step (.small (some 1))) (fun _ _ => True) (.init none) s ∧
    step (.small (some 1)) s (.run .go) = some s' ∧
    s'.trace = .published ⟨"counter", "y"⟩ 2 none :: s.trace ∧ 1 < s'.activations.len ∧
    s'.activations.get ⟨"counter", "z"⟩ = some 1 ∧ .build ⟨"counter", "z"⟩ 1 ∉ s'.pending ∧
    .use 1 ∉ s'.pending ∧ .tick 1 ∉ s'.pending := by
  obtain ⟨s, hrun, hp⟩ := exists_free_run (.small (some 1)) none sharedSlot
    (fun s => (step (.small (some 1)) s (.run .go)).any fun s' : State =>
      decide (s'.trace = .published ⟨"counter", "y"⟩ 2 none :: s.trace ∧ 1 < s'.activations.len ∧
        s'.activations.get ⟨"counter", "z"⟩ = some 1 ∧
        .build ⟨"counter", "z"⟩ 1 ∉ s'.pending ∧ .use 1 ∉ s'.pending ∧
        .tick 1 ∉ s'.pending)) (by decide +kernel)
  simp only [Option.any_eq_true, decide_eq_true_eq] at hp
  obtain ⟨s', hl, hrest⟩ := hp
  exact ⟨s, s', hrun, hl, hrest⟩

end

end Nigrains
