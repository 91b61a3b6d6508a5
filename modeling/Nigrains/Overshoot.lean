import Nigrains.Bound
import Nigrains.Exclusion

/-!
# How far over its bound a runtime goes

Room that has been made is given to one caller, and may be gone when that caller comes to use it :
another one may have found the same room. So a table may go over its bound, and it stays there,
for every later caller makes room for itself only. What the table holds and what has been promised
go up together when a caller finds room or nothing to evict, and at no other time
(`exec_slots`). At such a moment the table is not full, or everything in it is at work. So the
table is never over its bound by more than there is going on at once, less one
(`overshoot_bounded`).
-/

namespace Nigrains

/-- Whether a caller makes room. -/
def Activity.rooms : Activity → Bool
  | .room _ => true
  | _ => false

/-- The activation that is being built, or has a call or a tick in flight on it. -/
def Activity.occupies : Activity → Option ActId
  | .build _ a => some a
  | .use a => some a
  | .tick a => some a
  | _ => none

/-- How much is going on : room being made, activations being built, calls and ticks in flight. -/
def State.load (s : State) : ℕ :=
  s.pending.countP (·.rooms) + Multiset.card (s.pending.filterMap Activity.occupies)

/-! ## Weights -/

section Weights

variable {φ ω κ M N : Type*} [AddCancelCommMonoid M] [AddCancelCommMonoid N] {L : Loop φ ω κ}

/-- A homomorphism of weights. -/
theorem Loop.map_work (g : M →+ N) (w : φ → M) : g (L.work w) = L.work fun f => g (w f) := by
  simp [Loop.work, map_sum, map_list_sum, List.map_map, Function.comp_def]

/-- Where every frame weighs less, the loop does. -/
theorem Loop.work_mono {w w' : φ → ℤ} (h : ∀ f, w f ≤ w' f) : L.work w ≤ L.work w' :=
  Finset.sum_le_sum fun _ _ => List.sum_le_sum fun f _ => h f

end Weights

section

variable {cfg : Config} {s s' : State} {t : TaskId} {n : Next Frame Outcome}

/-- No more is promised than there are callers that make room. -/
theorem slots_le_rooms : s.toLoop.work Frame.slots ≤ (s.pending.countP (·.rooms) : ℕ) := by
  have hcount : ((s.toLoop.work Frame.activity).countP (·.rooms) : ℤ) =
      s.toLoop.work fun f => ((f.activity.countP (·.rooms) : ℕ) : ℤ) :=
    Loop.map_work ((Nat.castAddMonoidHom ℤ).comp
      (Multiset.countPAddMonoidHom fun x : Activity => x.rooms = true)) Frame.activity
  have hle : s.toLoop.work Frame.slots ≤ (s.toLoop.work Frame.activity).countP (·.rooms) := by
    rw [hcount]
    refine Loop.work_mono fun f => ?_
    unfold Frame.slots
    split
    · have hone : Multiset.countP (·.rooms = true) {Activity.room ‹_›} = 1 :=
        Multiset.countP_cons_of_pos 0 rfl
      exact (congrArg Nat.cast hone).ge
    all_goals omega
  have hpending := Multiset.countP_le_of_le (fun x : Activity => x.rooms = true)
    (Multiset.le_add_right (s.toLoop.work Frame.activity)
      ((s.running.map fun x => x.2.held).getD 0))
  exact hle.trans (Int.ofNat_le.2 hpending)

/-- If nothing in the table can be evicted, all of it is occupied. -/
theorem Reached.len_le_of_busy (hI : Reached s)
    (h : ∀ e ∈ s.activations.items, s.idle e.2 = false) :
    s.activations.len ≤ Multiset.card (s.pending.filterMap Activity.occupies) := by
  have hnodup : (s.activations.items.map Prod.snd).Nodup := by
    refine List.Nodup.map_on ?_ OrderedDict.nodup_items
    rintro ⟨g, a⟩ hg ⟨g', a'⟩ hg' (rfl : a = a')
    exact Prod.ext (hI.sound.entry_inj g g' a (OrderedDict.mem_items.1 hg)
      (OrderedDict.mem_items.1 hg')) rfl
  have hsub : ((s.activations.items.map Prod.snd : List ActId) : Multiset ActId) ⊆
      s.pending.filterMap Activity.occupies := by
    intro a ha
    obtain ⟨e, he, rfl⟩ := List.mem_map.1 (Multiset.mem_coe.1 ha)
    rw [Multiset.mem_filterMap]
    rcases hI.busy_of_not_idle (OrderedDict.mem_items.1 he) (h e he) with hb | hb | hb
    all_goals exact ⟨_, hb, rfl⟩
  have hle := Multiset.card_le_card ((Multiset.le_iff_subset (Multiset.coe_nodup.2 hnodup)).2 hsub)
  simpa [OrderedDict.len, OrderedDict.items] using hle

/-- A table that is not full, or has nothing in it to evict, has promised no more than the bound
and what there is to do. -/
theorem Reached.promised_le (hI : Reached s) {m : ℤ} (hm : 1 ≤ m)
    (h : (s.activations.len : ℤ) < m ∨ ∀ e ∈ s.activations.items, s.idle e.2 = false) :
    s.promised ≤ m - 1 + s.load := by
  have hslots := slots_le_rooms (s := s)
  unfold State.promised State.load
  rcases h with hlt | hbusy
  · omega
  · have hlen := hI.len_le_of_busy hbusy
    omega

theorem promised_step {l : Label} {m : ℤ} {K : ℕ} (hm : cfg.maxActivations = some m) (hm1 : 1 ≤ m)
    (hI : Reached s) (hE : Evicting s) (h : step cfg s l = some s') (hload : s'.load ≤ K)
    (hle : s.promised ≤ m - 1 + K) : s'.promised ≤ m - 1 + K := by
  by_cases hrun : ∃ c, l = .run c
  · have hI' := hI.step h
    obtain ⟨c, rfl⟩ := hrun
    obtain ⟨t, r, f, rest, s1, n, R, hr, hs, he, rfl, hw, hw'⟩ := run_work hI.nested h
      (w := Frame.slots) fun f hf => by unfold Frame.fresh at hf; split at hf <;> trivial
    by_cases hf : f = .makeRoom .start
    · subst hf
      obtain ⟨rfl, hroom⟩ := makeRoom_slots hm he
      rcases hroom with htakes | hroom
      · have hself : Frame.slots (.makeRoom .start) = -1 := rfl
        unfold State.promised at hle ⊢
        rw [hw', htakes, ← hself, ← hw]
        exact hle
      · have hpromised := hI'.promised_le hm1 hroom
        omega
    · have hslots := exec_slots he hf fun g hg => by
        obtain ⟨a, hfind⟩ := hE t r g rest hr (hg ▸ hs)
        rw [get_of_find hfind]
        exact Option.some_ne_none a
      unfold State.promised at hle ⊢
      rw [hw']
      show (s1.activations.len : ℤ) + _ ≤ _
      omega
  · have hl : ∀ c, l ≠ .run c := not_exists.1 hrun
    have hwork := work_other (w := Frame.slots) hI.nested hl h
      (fun f hf => by unfold Frame.hosted at hf; split at hf <;> trivial) fun _ _ => rfl
    unfold State.promised at hle ⊢
    rw [hwork, (step_idle hl h).1]
    exact hle

/-- A runtime never holds more activations than it may, but for as many as there is going on at
once, less one. -/
theorem overshoot_bounded {isMine : Option (GrainId → Bool)} {m : ℤ} {K : ℕ}
    (hm : cfg.maxActivations = some m) (hm1 : 1 ≤ m)
    (h : Run (step cfg) (fun _ s' => s'.load ≤ K) (.init isMine) s) :
    (s.activations.len : ℤ) ≤ m - 1 + K := by
  have hI := h.invariant
    (I := fun s : State => Reached s ∧ Evicting s ∧ s.promised ≤ m - 1 + K)
    ⟨reached_init _, evicting_init _, ?_⟩
    fun s l s' ⟨hI, hE, hle⟩ hl hload =>
      ⟨hI.step hl, hE.step hI.nested hl, promised_step hm hm1 hI hE hl hload hle⟩
  · have hslots := hI.1.nested.slots_nonneg
    have hle := hI.2.2
    unfold State.promised at hle
    omega
  · have hinit : (State.init isMine).promised = 0 := rfl
    omega

/-- With two things going on at a time, a runtime that may hold one activation holds two, and never
more. -/
theorem overshoot_bounded_sharedSlot : ∃ s : State,
    Run (step (.small (some 1))) (fun _ s' => s'.load ≤ 2) (.init none) s ∧
    s.activations.len = 2 ∧ (s.activations.len : ℤ) ≤ 1 - 1 + (2 : ℕ) := by
  obtain ⟨s, hrun, hp⟩ := exists_run (step (.small (some 1)))
    (fun _ s' : State => decide (s'.load ≤ 2)) (fun _ _ => of_decide_eq_true) (.init none)
    (sharedSlot ++ [.run .go]) (fun s => decide (s.activations.len = 2)) (by decide +kernel)
  exact ⟨s, hrun, of_decide_eq_true hp, overshoot_bounded (m := 1) rfl le_rfl hrun⟩

end

end Nigrains
