import Nigrains.Outcome

/-!
# Room that has been promised

`_make_room` lets a caller go on when there is room in the table, or nothing to evict, and
otherwise when it has taken one entry out and has awaited its `deactivate`. From then on until it
enters its activation the caller has been promised a slot of the table (`Frame.slots`), which the
table knows nothing of. What the table holds and what has been promised go up together when a
caller finds room or nothing to evict, and at no other time (`exec_slots`, `makeRoom_slots`).
-/

namespace Nigrains

/-- What has been promised to callers. Who has still to look, or to take out what it found, has
nothing yet. -/
def Frame.slots : Frame → ℤ
  | .activated _ .room => 1
  | .makeRoom .start => -1
  | .deactivate .makeRoom _ .start => -1
  | _ => 0

/-- A caller is about to look for room, or to take out what it has found. -/
def Frame.looks : Frame → Bool
  | .makeRoom .start => true
  | .deactivate .makeRoom _ .start => true
  | _ => false

theorem looks_iff {f : Frame} : f.looks = true ↔
    f = .makeRoom .start ∨ ∃ g, f = .deactivate .makeRoom g .start := by
  unfold Frame.looks
  split <;> simp_all

section

variable {cfg : Config} {s s' : State} {t : TaskId} {n : Next Frame Outcome}

/-- What cannot be evicted is being activated, or has a call or a tick in flight. -/
theorem Reached.busy_of_not_idle (hI : Reached s) {g : GrainId} {a : ActId}
    (ha : s.activations.get g = some a) (hidle : s.idle a = false) :
    .build g a ∈ s.pending ∨ .use a ∈ s.pending ∨ .tick a ∈ s.pending := by
  by_cases hready : (s.heap a).ready = true
  · left
    rcases hI.sound.staged a (hI.sound.entry_lt g a ha) with hst | hst | hst
    · obtain ⟨g', hb⟩ := hst.1
      exact hI.sound.build_entry g' g a hb ha ▸ hb
    · exact absurd (hst.2.1.symm.trans hready) (by simp)
    · exact absurd ((hI.sound.entry_live g a ha).symm.trans hst.2.2.2) (by simp)
  · right
    have hflight : (s.heap a).inFlight ≠ 0 := by
      intro h0
      simp [State.idle, h0, hready] at hidle
    have hcount : (s.heap a).inFlight = s.pending.count (.use a) + s.pending.count (.tick a) :=
      hI.sound.inFlight a
    rw [← Multiset.one_le_count_iff_mem, ← Multiset.one_le_count_iff_mem]
    omega

/-- What makes room was called for by one who has been promised it. -/
theorem promised_of_below {f : Frame} {p : Option Frame} (hb : below p f = true)
    (hf : (∃ pc, f = .makeRoom pc) ∨ ∃ g pc, f = .deactivate .makeRoom g pc) :
    (∃ g, p = some (.activated g .room)) ∨ p = some (.makeRoom .evicting) := by
  cases p with
  | none => rcases hf with ⟨pc, rfl⟩ | ⟨g, pc, rfl⟩ <;> cases hb
  | some p =>
    cases awaits_of_below hb with
    | room => exact .inl ⟨_, rfl⟩
    | evicting => exact .inr rfl
    | outside hf' | timeout hf' => rcases hf with ⟨pc, rfl⟩ | ⟨g, pc, rfl⟩ <;> cases hf'
    | scope hf' =>
      rcases hf with ⟨pc, rfl⟩ | ⟨g, pc, rfl⟩ <;> rcases hf' with hf' | hf' <;> cases hf'
    | _ => simp at hf

/-- Whoever has nothing yet stands on a caller that it makes room for. -/
theorem slots_stack : ∀ {l : List Frame}, Stacked below l →
    0 ≤ (l.map Frame.slots).sum ∧
    ((∃ g, l.head? = some (.activated g .room)) ∨ l.head? = some (.makeRoom .evicting) →
      1 ≤ (l.map Frame.slots).sum)
  | [], _ => ⟨le_rfl, by simp⟩
  | f :: rest, h => by
    obtain ⟨hrest, hpromised⟩ := slots_stack h.2
    rw [List.map_cons, List.sum_cons]
    have hroom : ∀ pc, f = .makeRoom pc → 1 ≤ (rest.map Frame.slots).sum := fun pc hf =>
      hpromised (promised_of_below h.1 (.inl ⟨pc, hf⟩))
    have htake : ∀ g pc, f = .deactivate .makeRoom g pc → 1 ≤ (rest.map Frame.slots).sum :=
      fun g pc hf => hpromised (promised_of_below h.1 (.inr ⟨g, pc, hf⟩))
    generalize (rest.map Frame.slots).sum = promised at *
    refine ⟨?_, ?_⟩
    · unfold Frame.slots
      split
      · omega
      · have := hroom _ rfl
        omega
      · have := htake _ _ rfl
        omega
      · omega
    · rintro (⟨g, hg⟩ | hg)
      · obtain rfl := Option.some.inj hg
        simp only [Frame.slots]
        omega
      · obtain rfl := Option.some.inj hg
        have := hroom _ rfl
        simp only [Frame.slots]
        omega

theorem Nested.slots_nonneg (hn : Nested s) : 0 ≤ s.toLoop.work Frame.slots :=
  Finset.sum_nonneg fun u _ => (slots_stack (hn.stacked u)).1

/-! ## What a segment promises -/

/-- Whoever is about to make room with an activation finds it : the first in the table that is
idle. -/
def Evicting (s : State) : Prop :=
  ∀ t r g rest, s.running = some (t, r) →
    (s.tasks t).stack = .deactivate .makeRoom g .start :: rest →
    ∃ a, s.activations.items.find? (fun e => s.idle e.2) = some (g, a)

theorem evicting_init (isMine : Option (GrainId → Bool)) : Evicting (.init isMine) :=
  fun _ _ _ _ hr => by cases hr

/-- And so it is in the table. -/
theorem get_of_find {g : GrainId} {a : ActId}
    (h : s.activations.items.find? (fun e => s.idle e.2) = some (g, a)) :
    s.activations.get g = some a :=
  OrderedDict.mem_items.1 (List.mem_of_find?_eq_some h)

theorem slots_of_carries {f : Frame} (h : f.carries = true) : f.slots = 0 := by
  cases f <;> first | rfl | cases h

/-- Room is made with the first activation in the table that is idle. -/
theorem exec_evicts {c : Choice} {f : Frame} {r : Resume Outcome} {g : GrainId}
    (h : exec cfg s t c f r = some (s', n)) (hf : .deactivate .makeRoom g .start ∈ n.frames) :
    ∃ a, s'.activations.items.find? (fun e => s'.idle e.2) = some (g, a) := by
  have hcarries : ∀ f' : Frame, f'.carries = true → .deactivate .makeRoom g .start ≠ f' := by
    rintro _ hc rfl
    cases hc
  cases exec_passage h
  case evicts g' =>
    simp only [exec, makeRoom] at h
    split_ifs at h
    · cases h
    · split at h
      · next e hfind =>
        cases h
        obtain rfl : g = e.1 := by simpa [Next.frames] using hf
        exact ⟨e.2, hfind⟩
      · cases h
  case blocks seconds inside => cases inside <;> simp [Next.frames, Inside.frame] at hf
  all_goals
    simp [Next.frames, hcarries _ (callFrame_carries ..),
      hcarries _ (terminalFrame_carries ..)] at hf

/-- Who looks for room when it runs on, or takes out what it has found, was left by a segment to do
so, or goes on to. -/
theorem looks_cases {l : Label} {r' : Resume Outcome} {f' : Frame} {rest' : List Frame}
    (hn : Nested s) (h : step cfg s l = some s') (hlooks : f'.looks = true)
    (hr' : s'.running = some (t, r')) (hs' : (s'.tasks t).stack = f' :: rest') :
    (∃ c f r rest s1 n, s.running = some (t, r) ∧ (s.tasks t).stack = f :: rest ∧
      exec cfg s t c f r = some (s1, n) ∧ s' = { s1 with toLoop := s1.toLoop.land t rest n } ∧
      f' ∈ n.frames) ∨
    (World s s' ∧ s.running = some (t, r') ∧ (s.tasks t).stack = f' :: rest') := by
  rcases step_cases h with ⟨u, r, f, rest, c, s1, n, hr, hs, he, rfl⟩ |
    ⟨u, r, f, rest, hr, hu, hs, hf, rfl⟩ | ⟨u, i, call, saved, hr, hs, hdue, rfl⟩ | hw
  · obtain rfl := running_land hr'
    refine .inl ⟨c, f, r, rest, s1, n, hr, hs, he, rfl, ?_⟩
    rw [Loop.stack_land_self] at hs'
    cases n with
    | park self => cases hr'
    | done o =>
      -- it awaits nothing yet
      obtain rfl : rest = _ := hs'
      have hb := hn.stacked t
      rw [hs] at hb
      rcases looks_iff.1 hlooks with rfl | ⟨g, rfl⟩ <;> cases awaits_of_below hb.1
    | await self callee =>
      obtain ⟨rfl, -⟩ := List.cons.inj hs'
      exact List.mem_cons_self ..
    | goto frame =>
      obtain ⟨rfl, -⟩ := List.cons.inj hs'
      exact List.mem_singleton_self _
  · cases hr'
    rw [stack_runTask, hs] at hs'
    cases hs'
    have hparks := hn.parked t _ _ (fun r' h' => by rw [hr] at h'; cases h') hs
    rcases looks_iff.1 hlooks with rfl | ⟨g, rfl⟩ <;> cases hparks
  · simp [State.expireTask, Loop.setTask, hr] at hr'
  · rw [hw.keeps.running_eq] at hr'
    rw [hw.keeps.stack_eq t (.inl (hn.running t r' hr').1)] at hs'
    exact .inr ⟨hw, hr', hs'⟩

theorem Evicting.step {l : Label} (hn : Nested s) (hE : Evicting s)
    (h : Nigrains.step cfg s l = some s') : Evicting s' := by
  intro t r' g rest' hr' hs'
  rcases looks_cases hn h rfl hr' hs' with ⟨c, f, r, rest, s1, n, hr, hs, he, rfl, hf⟩ |
    ⟨hw, hr, hs⟩
  · have hevicts := exec_evicts he hf
    exact hevicts
  · obtain ⟨a, hfind⟩ := hE t r' g rest' hr hs
    refine ⟨a, ?_⟩
    unfold State.idle at hfind ⊢
    rw [hw.activations, hw.heap]
    exact hfind

/-- Nothing that a segment leaves has been promised anything. -/
theorem slots_next {c : Choice} {f : Frame} {r : Resume Outcome}
    (h : exec cfg s t c f r = some (s', n)) : n.work Frame.slots ≤ 0 := by
  cases exec_passage h
  case calls | deliversWithin =>
    exact (add_zero _).trans (slots_of_carries (callFrame_carries _ _)) |>.le
  case blocks seconds inside => cases inside <;> exact le_rfl
  case delivers => exact (slots_of_carries (callFrame_carries _ _)).le
  case reaches => exact (slots_of_carries (terminalFrame_carries _ _)).le
  case reachesWithin =>
    exact (add_zero _).trans (slots_of_carries (terminalFrame_carries _ _)) |>.le
  all_goals simp [Next.work, Frame.slots]

/-- What a removal takes out it makes room with. -/
theorem deactivate_slots {g : GrainId} {r : Resume Outcome} (hentry : s.activations.get g ≠ none)
    (h : deactivate s .makeRoom g .start r = some (s', n)) :
    (s'.activations.len : ℤ) + 1 = s.activations.len ∧ n.work Frame.slots = 0 := by
  have hlen := OrderedDict.len_pop (d := s.activations) (k := g)
  rw [if_neg hentry] at hlen
  unfold deactivate at h
  split at h
  case h_1 =>
    split at h
    · next hnone => exact absurd hnone hentry
    · next a ha =>
      cases h
      obtain ⟨L, hL⟩ := cancel_all_eq (s.heap a).timers (s.take .makeRoom g a)
      rw [hL]
      exact ⟨by exact_mod_cast hlen, rfl⟩
  all_goals simp_all

theorem len_leave {c : CallId} {a : ActId} {o : Outcome} :
    (s.leave cfg c a o).activations.len = s.activations.len := by
  unfold State.leave
  split_ifs
  · exact OrderedDict.len_moveToEnd
  · rfl

/-- What is held and what is promised go up together only where room is made. -/
theorem exec_slots {c : Choice} {f : Frame} {r : Resume Outcome}
    (h : exec cfg s t c f r = some (s', n)) (hf : f ≠ .makeRoom .start)
    (hd : ∀ g, f = .deactivate .makeRoom g .start → s.activations.get g ≠ none) :
    s'.activations.len + n.work Frame.slots ≤ s.activations.len + f.slots := by
  have hnext := slots_next h
  by_cases htake : ∃ g, f = .deactivate .makeRoom g .start
  · obtain ⟨g, rfl⟩ := htake
    obtain ⟨hlen, hwork⟩ := deactivate_slots (hd g rfl) h
    have hself : Frame.slots (.deactivate .makeRoom g .start) = -1 := rfl
    omega
  · have hself : 0 ≤ f.slots := by
      unfold Frame.slots
      split <;> simp_all
    suffices (s'.activations.len : ℤ) ≤ s.activations.len + f.slots by omega
    have hpop : ∀ g, (s.activations.pop g).len ≤ s.activations.len := fun g => by
      have hlen := OrderedDict.len_pop (d := s.activations) (k := g)
      omega
    cases exec_effect h
    case publishes g grain o hbuild =>
      have hlen := OrderedDict.len_set_le (d := s.activations) (k := g) (v := s.built)
      show (((s.activations.set g s.built).len : ℕ) : ℤ) ≤ s.activations.len + 1
      omega
    case failsReading g a e | fails g a e =>
      have hlen := hpop g
      show (((s.activations.pop g).len : ℕ) : ℤ) ≤ s.activations.len + 0
      omega
    case takes who g a ha =>
      obtain ⟨L, hL⟩ := cancel_all_eq (s.heap a).timers (s.take who g a)
      rw [hL]
      have hlen := hpop g
      show (((s.activations.pop g).len : ℕ) : ℤ) ≤ _
      omega
    case forsakes | unlocks | leaves =>
      rw [len_leave]
      exact le_add_of_nonneg_right hself
    case activates g a o =>
      obtain ⟨L, timers, hL⟩ := startTimers_eq (t := t) a s
      unfold State.activate
      rw [hL]
      exact le_add_of_nonneg_right hself
    case begins =>
      obtain ⟨L, sweeper, scanner, hL⟩ := startBackground_eq cfg s t
      rw [hL]
      exact le_add_of_nonneg_right hself
    all_goals exact le_add_of_nonneg_right hself

/-- When room has been made, the table is not full or has nothing in it to evict. -/
theorem makeRoom_slots {r : Resume Outcome} {m : ℤ} (hm : cfg.maxActivations = some m)
    (h : makeRoom cfg s .start r = some (s', n)) :
    s' = s ∧ (n.work Frame.slots = -1 ∨ (s.activations.len : ℤ) < m ∨
      ∀ e ∈ s.activations.items, s.idle e.2 = false) := by
  unfold makeRoom at h
  split at h
  case h_1 =>
    split_ifs at h with hlt
    · cases h
      rw [hm, Option.all_some, decide_eq_true_eq] at hlt
      exact ⟨rfl, .inr (.inl hlt)⟩
    · split at h
      · cases h
        exact ⟨rfl, .inl rfl⟩
      · next hfind =>
        cases h
        rw [List.find?_eq_none] at hfind
        exact ⟨rfl, .inr (.inr fun e he => by simpa using hfind e he)⟩
  all_goals simp_all

/-- What is held and what is promised, together. -/
def State.promised (s : State) : ℤ :=
  s.activations.len + s.toLoop.work Frame.slots

end

end Nigrains
