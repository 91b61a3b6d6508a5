import Nigrains.Store
import Nigrains.Transition

/-!
# The recovery loop

Activations of persistent grains share one store. Each adds items one after another with
the loop the store's documentation gives : append the item to the copy it holds, save the
copy, and after a `ConcurrentChange` reload, append again and save again. A step of
`basketStep` is one operation of one activation on the store, or its starting to add, and
the activations take them in any order.

What carries the proof is that a handle whose version is the stored one also holds the
stored data (`Current`) : no version is given out twice, so a write by anybody else leaves
the handle with a version that is not there. A save that succeeds therefore adds one item
to exactly what was stored (`recovered`).
-/

set_option linter.unusedSectionVars false

namespace Nigrains

/-- One call of `add` : on which activation, the how manieth there, and of what. -/
structure Add (ι α : Type*) where
  by_ : ι
  turn : ℕ
  item : α
deriving DecidableEq, Repr

/-- Where an activation is in its recovery loop. -/
inductive Adding (ι α : Type*)
  | resting
  /-- The item is appended to the copy, and the copy not yet saved. -/
  | saving (add : Add ι α)
  /-- The save has raised `ConcurrentChange`. -/
  | reloading (add : Add ι α)
deriving DecidableEq, Repr

/-- An activation of a grain that keeps a list. -/
structure Basket (ι α : Type*) where
  state : GrainState (List α)
  items : List α
  stage : Adding ι α
  /-- How many adds it has begun. -/
  turns : ℕ
deriving DecidableEq, Repr

/-- `data or []`. -/
def orEmpty {α : Type*} (data : Option (List α)) : List α :=
  data.getD []

/-- A store, the activations over it, and the adds whose save has succeeded, in order. -/
structure Baskets (ι α : Type*) where
  store : InMemoryStateStore (List α)
  held : ι → Option (Basket ι α)
  saved : List (GrainId × Add ι α)

/-- What an activation does next. -/
inductive BasketLabel (ι α : Type*)
  /-- The runtime reads the grain's state, and `activate` takes its copy. -/
  | activates (i : ι) (grain : GrainId)
  | adds (i : ι) (item : α)
  | saves (i : ι)
  | reloads (i : ι)

variable {ι α : Type*} [DecidableEq ι]

namespace Baskets

/-- An empty store and no activation. -/
def init : Baskets ι α :=
  ⟨.init, fun _ => none, []⟩

/-- The activation `i` becomes `basket`. -/
def put (s : Baskets ι α) (i : ι) (basket : Basket ι α) : Baskets ι α :=
  { s with held := Function.update s.held i (some basket) }

/-- What a save that succeeds leaves. -/
def save (s : Baskets ι α) (i : ι) (b : Basket ι α) (add : Add ι α)
    (state : GrainState (List α)) (store : InMemoryStateStore (List α)) : Baskets ι α where
  store := store
  held := Function.update s.held i (some { b with state := state, stage := .resting })
  saved := s.saved ++ [(b.state.grainId, add)]

/-- The list stored for a grain. -/
def stored (s : Baskets ι α) (grain : GrainId) : List α :=
  orEmpty ((s.store.read grain).bind Stored.data)

/-- The items of a grain's adds whose save has succeeded, in the order they did. -/
def succeeded (s : Baskets ι α) (grain : GrainId) : List α :=
  (s.saved.filter fun e => e.1 = grain).map fun e => e.2.item

end Baskets

/-- `activate`, of an activation whose state the runtime has just read. -/
def Basket.activate (state : GrainState (List α)) : Basket ι α where
  state := state
  items := orEmpty state.data
  stage := .resting
  turns := 0

/-- The loop's body up to the save. -/
def Basket.append (b : Basket ι α) (add : Add ι α) : Basket ι α :=
  { b with items := b.items ++ [add.item], stage := .saving add }

/-- One step of one activation. -/
def basketStep (s : Baskets ι α) : BasketLabel ι α → Option (Baskets ι α)
  | .activates i grain =>
    match s.held i with
    | none => some (s.put i (.activate (.init grain (s.store.read grain))))
    | some _ => none
  | .adds i item =>
    match s.held i with
    | none => none
    | some b =>
      match b.stage with
      | .resting => some (s.put i ({ b with turns := b.turns + 1 }.append ⟨i, b.turns, item⟩))
      | _ => none
  | .saves i =>
    match s.held i with
    | none => none
    | some b =>
      match b.stage with
      | .saving add =>
        match b.state.save s.store (some b.items) with
        | .ok (state, store) => some (s.save i b add state store)
        | .error _ => some (s.put i { b with stage := .reloading add })
      | _ => none
  | .reloads i =>
    match s.held i with
    | none => none
    | some b =>
      match b.stage with
      | .reloading add =>
        let state := b.state.reload s.store
        some (s.put i ({ b with state := state, items := orEmpty state.data }.append add))
      | _ => none

/-! ## What one step can do -/

/-- A step of the activations, one rule for each thing that can happen. -/
inductive BasketStep (s : Baskets ι α) : Baskets ι α → Prop
  | activates (i : ι) (grain : GrainId) (hnew : s.held i = none) :
      BasketStep s (s.put i (.activate (.init grain (s.store.read grain))))
  | adds (i : ι) (item : α) (b : Basket ι α) (hb : s.held i = some b)
      (hrest : b.stage = .resting) :
      BasketStep s (s.put i ({ b with turns := b.turns + 1 }.append ⟨i, b.turns, item⟩))
  | saves (i : ι) (b : Basket ι α) (add : Add ι α) (version : Version)
      (store : InMemoryStateStore (List α)) (hb : s.held i = some b)
      (hsaving : b.stage = .saving add)
      (hwrite : s.store.write b.state.grainId (some b.items) b.state.version =
        .ok (version, store)) :
      BasketStep s (s.save i b add ⟨b.state.grainId, some b.items, some version⟩ store)
  | conflicts (i : ι) (b : Basket ι α) (add : Add ι α) (hb : s.held i = some b)
      (hsaving : b.stage = .saving add) :
      BasketStep s (s.put i { b with stage := .reloading add })
  | reloads (i : ι) (b : Basket ι α) (add : Add ι α) (hb : s.held i = some b)
      (hreload : b.stage = .reloading add) :
      BasketStep s (s.put i ({ b with
          state := .init b.state.grainId (s.store.read b.state.grainId)
          items := orEmpty ((s.store.read b.state.grainId).bind Stored.data) }.append add))

theorem basketStep_cases {s s' : Baskets ι α} {l : BasketLabel ι α}
    (h : basketStep s l = some s') : BasketStep s s' := by
  cases l with
  | activates i grain =>
    simp only [basketStep] at h
    split at h
    · next hnew =>
      obtain rfl := Option.some.inj h
      exact .activates i grain hnew
    · cases h
  | adds i item =>
    simp only [basketStep] at h
    split at h
    · cases h
    · next b hb =>
      split at h
      · next hrest =>
        obtain rfl := Option.some.inj h
        exact .adds i item b hb hrest
      · cases h
  | saves i =>
    simp only [basketStep, GrainState.save] at h
    split at h
    · cases h
    · next b hb =>
      split at h
      · next add hsaving =>
        cases hw : s.store.write b.state.grainId (some b.items) b.state.version with
        | error e =>
          rw [hw] at h
          obtain rfl := Option.some.inj h
          exact .conflicts i b add hb hsaving
        | ok r =>
          rw [hw] at h
          obtain rfl := Option.some.inj h
          exact .saves i b add r.1 r.2 hb hsaving hw
      · cases h
  | reloads i =>
    simp only [basketStep] at h
    split at h
    · cases h
    · next b hb =>
      split at h
      · next add hreload =>
        obtain rfl := Option.some.inj h
        exact .reloads i b add hb hreload
      · cases h

/-! ## What a handle knows of the store -/

/-- A handle whose version is the one that is stored holds the data that is stored. -/
def GrainState.Current (self : GrainState (List α)) (store : InMemoryStateStore (List α)) : Prop :=
  self.version = store.found self.grainId →
    self.data = (store.read self.grainId).bind Stored.data

/-- What the copy holds beside what was last read or saved. -/
def Adding.appended : Adding ι α → List α
  | .saving add => [add.item]
  | _ => []

/-- The add in hand. -/
def Adding.add? : Adding ι α → Option (Add ι α)
  | .resting => none
  | .saving add => some add
  | .reloading add => some add

/-- What holds of one activation. -/
structure Basket.Sound (store : InMemoryStateStore (List α)) (saved : List (GrainId × Add ι α))
    (i : ι) (b : Basket ι α) : Prop where
  current : b.state.Current store
  numbered : store.Numbered b.state.version
  /-- The copy is what was last read or saved, and the item in hand. -/
  copy : (∀ add, b.stage ≠ .reloading add) → b.items = orEmpty b.state.data ++ b.stage.appended
  /-- The add in hand is its latest, and has not been saved. -/
  inHand : ∀ add ∈ b.stage.add?, add.by_ = i ∧ add.turn + 1 = b.turns ∧
    ∀ e ∈ saved, e.2.by_ = i → e.2.turn < add.turn
  begun : ∀ e ∈ saved, e.2.by_ = i → e.2.turn < b.turns

/-- What every step keeps. -/
structure Recovering (s : Baskets ι α) : Prop where
  numbered : ∀ grain, s.store.Numbered (s.store.found grain)
  stored : ∀ grain, s.stored grain = s.succeeded grain
  nodup : (s.saved.map fun e => (e.2.by_, e.2.turn)).Nodup
  held : ∀ e ∈ s.saved, s.held e.2.by_ ≠ none
  sound : ∀ i b, s.held i = some b → b.Sound s.store s.saved i

variable {s s' : Baskets ι α} {i : ι} {b : Basket ι α} {add : Add ι α}

theorem recovering_init : Recovering (Baskets.init : Baskets ι α) where
  numbered := fun _ _ hv => nomatch hv
  stored := fun _ => rfl
  nodup := List.nodup_nil
  held := fun _ he => nomatch he
  sound := fun _ _ h => nomatch h

/-- A step that leaves the store as it is, and one activation as it should be. -/
theorem Recovering.put (hs : Recovering s) (hb : b.Sound s.store s.saved i) :
    Recovering (s.put i b) where
  numbered := hs.numbered
  stored := hs.stored
  nodup := hs.nodup
  held := by
    intro e he
    by_cases hi : e.2.by_ = i
    · simp [Baskets.put, hi]
    · simpa [Baskets.put, hi] using hs.held e he
  sound := by
    intro j c hc
    by_cases hj : j = i
    · subst hj
      obtain rfl : b = c := by simpa [Baskets.put] using hc
      exact hb
    · exact hs.sound j c (by simpa [Baskets.put, hj] using hc)

/-- What an activation has read from the store is current. -/
theorem GrainState.current_init (store : InMemoryStateStore (List α)) (grain : GrainId) :
    (GrainState.init grain (store.read grain)).Current store :=
  fun _ => rfl

/-- An activation starts from what it reads. -/
theorem sound_activate (hs : Recovering s) (hnew : s.held i = none) (grain : GrainId) :
    Basket.Sound s.store s.saved i (.activate (.init grain (s.store.read grain))) where
  current := GrainState.current_init s.store grain
  numbered := hs.numbered grain
  copy := fun _ => (List.append_nil _).symm
  inHand := fun _ hadd => nomatch hadd
  begun := fun e he hi => absurd (hi ▸ hnew) (hs.held e he)

/-- An add begins by appending its item to the copy. -/
theorem sound_adds (hb : b.Sound s.store s.saved i) (hrest : b.stage = .resting) (item : α) :
    Basket.Sound s.store s.saved i ({ b with turns := b.turns + 1 }.append ⟨i, b.turns, item⟩) where
  current := hb.current
  numbered := hb.numbered
  copy := by
    intro _
    have hcopy := hb.copy (by simp [hrest])
    simpa [Basket.append, Adding.appended, hrest] using hcopy
  inHand := by
    rintro add ⟨⟩
    exact ⟨rfl, rfl, hb.begun⟩
  begun := fun e he hi => Nat.lt_succ_of_lt (hb.begun e he hi)

/-- A conflict leaves the handle as it was. -/
theorem sound_conflicts (hb : b.Sound s.store s.saved i) (hsaving : b.stage = .saving add) :
    Basket.Sound s.store s.saved i { b with stage := .reloading add } where
  current := hb.current
  numbered := hb.numbered
  copy := fun h => absurd rfl (h add)
  inHand := by
    rintro add' ⟨⟩
    exact hb.inHand add (by simp [hsaving, Adding.add?])
  begun := hb.begun

/-- A reload takes what is stored, and the item is appended to that. -/
theorem sound_reloads (hs : Recovering s) (hb : b.Sound s.store s.saved i)
    (hreload : b.stage = .reloading add) :
    Basket.Sound s.store s.saved i ({ b with
      state := .init b.state.grainId (s.store.read b.state.grainId)
      items := orEmpty ((s.store.read b.state.grainId).bind Stored.data) }.append add) where
  current := GrainState.current_init s.store b.state.grainId
  numbered := hs.numbered b.state.grainId
  copy := fun _ => rfl
  inHand := by
    rintro add' ⟨⟩
    exact hb.inHand add (by simp [hreload, Adding.add?])
  begun := hb.begun

section Saves

variable {version : Version} {store : InMemoryStateStore (List α)}

/-- A save that succeeds writes what was stored, and the item. -/
theorem stored_saves (hb : b.Sound s.store s.saved i)
    (hsaving : b.stage = .saving add) (hfound : s.store.found b.state.grainId = b.state.version) :
    b.items = s.stored b.state.grainId ++ [add.item] := by
  have hcopy := hb.copy (by simp [hsaving])
  rw [hb.current hfound.symm, hsaving] at hcopy
  exact hcopy

/-- A write by one activation leaves what the others hold in order. -/
theorem sound_other {j : ι} {c : Basket ι α} (hc : c.Sound s.store s.saved j) (hj : j ≠ i)
    (hadd : add.by_ = i) (hwrite : s.store.write b.state.grainId (some b.items) b.state.version =
      .ok (version, store)) :
    c.Sound store (s.saved ++ [(b.state.grainId, add)]) j := by
  obtain ⟨-, rfl, hnext, hread⟩ := InMemoryStateStore.write_ok hwrite
  have hsaved : ∀ {n}, (∀ e ∈ s.saved, e.2.by_ = j → e.2.turn < n) →
      ∀ e ∈ s.saved ++ [(b.state.grainId, add)], e.2.by_ = j → e.2.turn < n := by
    intro n hn e he hej
    rcases List.mem_append.1 he with he | he
    · exact hn e he hej
    · rw [List.mem_singleton.1 he] at hej
      exact absurd (hej.symm.trans hadd) hj
  exact {
    current := by
      intro hv
      rw [InMemoryStateStore.found_eq, hread] at hv
      rw [hread]
      split at hv
      · exact absurd hv hc.numbered.ne_next
      · next hg =>
        rw [if_neg hg]
        exact hc.current hv
    numbered := hc.numbered.mono (by omega)
    copy := hc.copy
    inHand := fun add' h => ⟨(hc.inHand add' h).1, (hc.inHand add' h).2.1,
      hsaved (hc.inHand add' h).2.2⟩
    begun := hsaved hc.begun }

/-- The activation that has saved holds what is stored. -/
theorem sound_saves (hb : b.Sound s.store s.saved i) (hsaving : b.stage = .saving add)
    (hwrite : s.store.write b.state.grainId (some b.items) b.state.version =
      .ok (version, store)) :
    Basket.Sound store (s.saved ++ [(b.state.grainId, add)]) i { b with
      state := ⟨b.state.grainId, some b.items, some version⟩
      stage := .resting } := by
  obtain ⟨-, rfl, hnext, hread⟩ := InMemoryStateStore.write_ok hwrite
  obtain ⟨-, hturn, -⟩ := hb.inHand add (by simp [hsaving, Adding.add?])
  exact {
    current := fun _ => by simp [hread]
    numbered := fun v hv => ⟨s.store.next + 1, by omega, (Option.some.inj hv).symm⟩
    copy := fun _ => (List.append_nil _).symm
    inHand := fun _ hadd => nomatch hadd
    begun := by
      intro e he hi
      rcases List.mem_append.1 he with he | he
      · exact hb.begun e he hi
      · rw [List.mem_singleton.1 he]
        show add.turn < b.turns
        omega }

/-- A save that succeeds keeps the whole in order. -/
theorem Recovering.saves (hs : Recovering s) (hi : s.held i = some b)
    (hsaving : b.stage = .saving add)
    (hwrite : s.store.write b.state.grainId (some b.items) b.state.version =
      .ok (version, store)) :
    Recovering (s.save i b add ⟨b.state.grainId, some b.items, some version⟩ store) := by
  have hb := hs.sound i b hi
  obtain ⟨hby, -, hturn⟩ := hb.inHand add (by simp [hsaving, Adding.add?])
  obtain ⟨hfound, hv, hnext, hread⟩ := InMemoryStateStore.write_ok hwrite
  have hitems := stored_saves hb hsaving hfound
  exact {
    numbered := by
      intro grain
      show store.Numbered (store.found grain)
      rw [InMemoryStateStore.found_eq, hread]
      split
      · rw [hv]
        exact fun v hv => ⟨s.store.next + 1, hnext.ge, (Option.some.inj hv).symm⟩
      · exact (hs.numbered grain).mono (hnext ▸ Nat.le_succ _)
    stored := by
      intro grain
      have hold := hs.stored grain
      by_cases hg : grain = b.state.grainId
      · subst hg
        rw [hold] at hitems
        simpa [Baskets.save, Baskets.stored, Baskets.succeeded, hread, orEmpty] using hitems
      · simp only [Baskets.save, Baskets.stored, Baskets.succeeded, hread, if_neg hg] at hold ⊢
        simp [hold, Ne.symm hg]
    nodup := by
      show ((s.saved ++ [(b.state.grainId, add)]).map fun e => (e.2.by_, e.2.turn)).Nodup
      rw [List.map_append, List.nodup_append]
      refine ⟨hs.nodup, List.nodup_singleton _, ?_⟩
      rintro _ hx _ hy rfl
      obtain ⟨e, he, hxe⟩ := List.mem_map.1 hx
      obtain ⟨h1, h2⟩ := Prod.mk.inj (hxe.trans (List.mem_singleton.1 hy))
      exact absurd h2 (hturn e he (h1.trans hby)).ne
    held := by
      intro e he
      by_cases hei : e.2.by_ = i
      · simp [Baskets.save, hei]
      · rcases List.mem_append.1 he with he | he
        · simpa [Baskets.save, hei] using hs.held e he
        · rw [List.mem_singleton.1 he] at hei
          exact absurd hby hei
    sound := by
      intro j c hc
      by_cases hj : j = i
      · subst hj
        have he := Option.some.inj ((Function.update_self j _ s.held).symm.trans hc)
        exact he ▸ sound_saves hb hsaving hwrite
      · have hold := (Function.update_of_ne hj _ s.held).symm.trans hc
        exact sound_other (hs.sound j c hold) hj hby hwrite }

end Saves

/-- Every step keeps the activations and the store in order. -/
theorem Recovering.step (hs : Recovering s) (h : BasketStep s s') : Recovering s' := by
  cases h with
  | activates i grain hnew => exact hs.put (sound_activate hs hnew grain)
  | adds i item b hb hrest => exact hs.put (sound_adds (hs.sound i b hb) hrest item)
  | saves i b add version store hb hsaving hwrite => exact hs.saves hb hsaving hwrite
  | conflicts i b add hb hsaving => exact hs.put (sound_conflicts (hs.sound i b hb) hsaving)
  | reloads i b add hb hreload => exact hs.put (sound_reloads hs (hs.sound i b hb) hreload)

/-- At every moment the stored list is the items of the adds whose save has succeeded, in
the order in which they did, and no add is there twice. -/
theorem recovered {s : Baskets ι α} (h : Run basketStep (fun _ _ => True) Baskets.init s)
    (grain : GrainId) :
    s.stored grain = s.succeeded grain ∧
      (s.saved.map fun e => (e.2.by_, e.2.turn)).Nodup := by
  have hs : Recovering s := h.invariant recovering_init fun s l s' hI hl _ =>
    hI.step (basketStep_cases hl)
  exact ⟨hs.stored grain, hs.nodup⟩

/-- Two activations add at once : the second save is refused, reloads, and both items are in. -/
theorem recovered_bothWrites : ∃ s : Baskets ℕ ℕ,
    s.stored ⟨"basket", "a"⟩ = [7, 8] ∧ s.stored ⟨"basket", "a"⟩ = s.succeeded ⟨"basket", "a"⟩ ∧
      (s.saved.map fun e => (e.2.by_, e.2.turn)).Nodup := by
  obtain ⟨s, hrun, hp⟩ := exists_run_free basketStep (Baskets.init : Baskets ℕ ℕ)
    [.activates 0 ⟨"basket", "a"⟩, .activates 1 ⟨"basket", "a"⟩, .adds 0 7, .adds 1 8,
      .saves 0, .saves 1, .reloads 1, .saves 1]
    (fun s : Baskets ℕ ℕ => decide (s.stored ⟨"basket", "a"⟩ = [7, 8])) (by decide +kernel)
  exact ⟨s, of_decide_eq_true hp, recovered hrun ⟨"basket", "a"⟩⟩

end Nigrains
