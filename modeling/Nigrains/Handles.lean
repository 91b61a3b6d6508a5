import Nigrains.Store
import Nigrains.Transition

/-!
# Handles on one store

Any number of `GrainState` handles share one `InMemoryStateStore`, and operations may overlap,
also on one handle. A `Flight` is one operation under way : it is issued with the version its
handle has then, the store comes to it at some moment and answers, and at some later moment the
answer resumes the handle, or the operation is cancelled before it does. `handleStep` takes
these moments one after another, of all operations in any order.

`written` is what the store's writes have stored, and nothing in the program reads it. What
carries the proofs is that no two of these have the same version (`Wrote`), so that a pair of
data and version is known by its version alone, and that whatever a handle or an answer holds
is among them (`OnceHeld`).
-/

set_option linter.unusedSectionVars false

namespace Nigrains

variable {ι δ : Type*} [DecidableEq ι]

/-- The data and the version of a row, or `None` and `None`. -/
def heldOf (stored : Option (Stored δ)) : Option δ × Option Version :=
  (stored.bind Stored.data, stored.map Stored.version)

/-- What a handle holds. -/
def GrainState.held (self : GrainState δ) : Option δ × Option Version :=
  (self.data, self.version)

/-- What is asked of the store for a handle. -/
inductive HandleOp (δ : Type*)
  /-- The read that a handle is made from. -/
  | opens
  | save (data : Option δ)
  | reload
  | clear
deriving DecidableEq, Repr

/-- What the store has answered. -/
inductive Reply (δ : Type*)
  | read (stored : Option (Stored δ))
  | wrote (version : Version)
  | deleted
  | refused (e : ConcurrentChange)
deriving DecidableEq, Repr

/-- An operation under way. -/
structure Flight (ι δ : Type*) where
  by_ : ι
  grain : GrainId
  op : HandleOp δ
  /-- What the handle held when the operation was issued. The store sees the version. -/
  held : Option δ × Option Version
  reply : Option (Reply δ)
deriving DecidableEq, Repr

/-- A store, the handles on it, and the operations under way by the order they were issued in. -/
structure Handles (ι δ : Type*) where
  store : InMemoryStateStore δ
  handles : ι → Option (GrainState δ)
  flights : ℕ → Option (Flight ι δ)
  issued : ℕ
  /-- What has been written, the latest first. -/
  written : List (GrainId × Stored δ)

namespace Handles

/-- An empty store, and no handle. -/
def init : Handles ι δ :=
  ⟨.init, fun _ => none, fun _ => none, 0, []⟩

/-- An operation is issued. -/
def issue (s : Handles ι δ) (flight : Flight ι δ) : Handles ι δ :=
  { s with
    flights := Function.update s.flights s.issued (some flight)
    issued := s.issued + 1 }

/-- The store answers an operation. -/
def answer (s : Handles ι δ) (k : ℕ) (flight : Flight ι δ) (reply : Reply δ) : Handles ι δ :=
  { s with flights := Function.update s.flights k (some { flight with reply := some reply }) }

/-- An answer resumes a handle, which becomes `self`. -/
def land (s : Handles ι δ) (k : ℕ) (i : ι) (self : GrainState δ) : Handles ι δ :=
  { s with
    handles := Function.update s.handles i (some self)
    flights := Function.update s.flights k none }

/-- An operation is over, and leaves the handle where it was. -/
def forget (s : Handles ι δ) (k : ℕ) : Handles ι δ :=
  { s with flights := Function.update s.flights k none }

/-- The store comes to an operation. -/
def take (s : Handles ι δ) (k : ℕ) (flight : Flight ι δ) : Handles ι δ :=
  match flight.op with
  | .opens | .reload => s.answer k flight (.read (s.store.read flight.grain))
  | .save data =>
    match s.store.write flight.grain data flight.held.2 with
    | .error e => s.answer k flight (.refused e)
    | .ok (version, store) =>
      { s.answer k flight (.wrote version) with
        store := store
        written := (flight.grain, ⟨data, version⟩) :: s.written }
  | .clear =>
    match s.store.delete flight.grain flight.held.2 with
    | .error e => s.answer k flight (.refused e)
    | .ok store => { s.answer k flight .deleted with store := store }

/-- The rest of an operation, from its answer on. -/
def resume (s : Handles ι δ) (k : ℕ) (flight : Flight ι δ) : Option (Handles ι δ) :=
  match flight.op, flight.reply, s.handles flight.by_ with
  | .opens, some (.read stored), none => some (s.land k flight.by_ (.init flight.grain stored))
  | .save data, some (.wrote version), some self =>
    some (s.land k flight.by_ { self with version := some version, data := data })
  | .reload, some (.read stored), some self =>
    some (s.land k flight.by_
      { self with data := stored.bind Stored.data, version := stored.map Stored.version })
  | .clear, some .deleted, some self =>
    some (s.land k flight.by_ { self with data := none, version := none })
  | _, some (.refused _), some _ => some (s.forget k)
  | _, _, _ => none

end Handles

/-- What happens next. -/
inductive HandleLabel (ι δ : Type*)
  | opens (i : ι) (grain : GrainId)
  | saves (i : ι) (data : Option δ)
  | reloads (i : ι)
  | clears (i : ι)
  /-- The store comes to an operation. -/
  | takes (k : ℕ)
  /-- Its answer resumes the handle. -/
  | resumes (k : ℕ)
  /-- The task that awaits it is cancelled. -/
  | drops (k : ℕ)

/-- An operation on a handle is issued. -/
def Handles.issueOn (s : Handles ι δ) (i : ι) (op : HandleOp δ) : Option (Handles ι δ) :=
  (s.handles i).map fun self => s.issue ⟨i, self.grainId, op, self.held, none⟩

/-- One step of the handles on a store. -/
def handleStep (s : Handles ι δ) : HandleLabel ι δ → Option (Handles ι δ)
  | .opens i grain => some (s.issue ⟨i, grain, .opens, (none, none), none⟩)
  | .saves i data => s.issueOn i (.save data)
  | .reloads i => s.issueOn i .reload
  | .clears i => s.issueOn i .clear
  | .takes k =>
    match s.flights k with
    | none => none
    | some flight => if flight.reply = none then some (s.take k flight) else none
  | .resumes k => (s.flights k).bind (s.resume k)
  | .drops k => (s.flights k).map fun _ => s.forget k

/-! ## The kinds of step -/

/-- What a step does, one rule for each thing that can happen. -/
inductive HandleStep (s : Handles ι δ) : Handles ι δ → Prop
  | opens (i : ι) (grain : GrainId) :
    HandleStep s (s.issue ⟨i, grain, .opens, (none, none), none⟩)
  | issues (i : ι) (op : HandleOp δ) (self : GrainState δ) (hi : s.handles i = some self)
    (hop : op ≠ .opens) : HandleStep s (s.issue ⟨i, self.grainId, op, self.held, none⟩)
  | takes (k : ℕ) (flight : Flight ι δ) (hk : s.flights k = some flight) :
    HandleStep s (s.take k flight)
  | resumes (k : ℕ) (flight : Flight ι δ) (hk : s.flights k = some flight)
    (h : s.resume k flight = some s') : HandleStep s s'
  | drops (k : ℕ) : HandleStep s (s.forget k)

variable {s s' : Handles ι δ} {i : ι} {k : ℕ} {flight : Flight ι δ} {op : HandleOp δ}

theorem issueOn_cases (hop : op ≠ .opens) (h : s.issueOn i op = some s') : HandleStep s s' := by
  obtain ⟨self, hi, rfl⟩ := Option.map_eq_some_iff.1 h
  exact .issues i op self hi hop

theorem handleStep_cases {l : HandleLabel ι δ} (h : handleStep s l = some s') :
    HandleStep s s' := by
  cases l with
  | opens i grain =>
    obtain rfl := Option.some.inj h
    exact .opens i grain
  | saves i data => exact issueOn_cases (by simp) h
  | reloads i => exact issueOn_cases (by simp) h
  | clears i => exact issueOn_cases (by simp) h
  | takes k =>
    simp only [handleStep] at h
    split at h
    · cases h
    · next flight hk =>
      split_ifs at h
      obtain rfl := Option.some.inj h
      exact .takes k flight hk
  | resumes k =>
    obtain ⟨flight, hk, h⟩ := Option.bind_eq_some_iff.1 h
    exact .resumes k flight hk h
  | drops k =>
    obtain ⟨flight, hk, rfl⟩ := Option.map_eq_some_iff.1 h
    exact .drops k

/-- What the store does for an operation, and what it answers. -/
inductive Answered (s : Handles ι δ) (flight : Flight ι δ) : Reply δ → Handles ι δ → Prop
  | read (hop : flight.op = .opens ∨ flight.op = .reload) {s' : Handles ι δ}
    (hstore : s'.store = s.store) (hwritten : s'.written = s.written) :
    Answered s flight (.read (s.store.read flight.grain)) s'
  | wrote (data : Option δ) (version : Version) {s' : Handles ι δ} (hop : flight.op = .save data)
    (hstore : s.store.write flight.grain data flight.held.2 = .ok (version, s'.store))
    (hwritten : s'.written = (flight.grain, ⟨data, version⟩) :: s.written) :
    Answered s flight (.wrote version) s'
  | deleted {s' : Handles ι δ} (hop : flight.op = .clear)
    (hstore : s.store.delete flight.grain flight.held.2 = .ok s'.store)
    (hwritten : s'.written = s.written) : Answered s flight .deleted s'
  | refused (e : ConcurrentChange) {s' : Handles ι δ}
    (hop : (∃ data, flight.op = .save data ∧
        s.store.write flight.grain data flight.held.2 = .error e) ∨
      flight.op = .clear ∧ s.store.delete flight.grain flight.held.2 = .error e)
    (hstore : s'.store = s.store) (hwritten : s'.written = s.written) :
    Answered s flight (.refused e) s'

/-- The store comes to one operation, and changes no handle and no other operation. -/
theorem take_spec (s : Handles ι δ) (k : ℕ) (flight : Flight ι δ) :
    ∃ reply, Answered s flight reply (s.take k flight) ∧ (s.take k flight).handles = s.handles ∧
      (s.take k flight).flights =
        Function.update s.flights k (some { flight with reply := some reply }) := by
  unfold Handles.take
  split
  · next hop => exact ⟨_, .read (.inl hop) rfl rfl, rfl, rfl⟩
  · next hop => exact ⟨_, .read (.inr hop) rfl rfl, rfl, rfl⟩
  · next data hop =>
    split
    · next e he => exact ⟨_, .refused e (.inl ⟨data, hop, he⟩) rfl rfl, rfl, rfl⟩
    · next version store hw => exact ⟨_, .wrote data version hop hw rfl, rfl, rfl⟩
  · next hop =>
    split
    · next e he => exact ⟨_, .refused e (.inr ⟨hop, he⟩) rfl rfl, rfl, rfl⟩
    · next store hd => exact ⟨_, .deleted hop hd rfl, rfl, rfl⟩

/-- What an answer makes of the handle it resumes : its grain, and what it holds. -/
inductive Resumed (s : Handles ι δ) (flight : Flight ι δ) :
    GrainState δ → Prop
  | opened (stored : Option (Stored δ)) (hi : s.handles flight.by_ = none)
    (hop : flight.op = .opens)
    (hreply : flight.reply = some (.read stored)) : Resumed s flight (.init flight.grain stored)
  | wrote (self : GrainState δ) (data : Option δ) (version : Version)
    (hi : s.handles flight.by_ = some self) (hop : flight.op = .save data)
    (hreply : flight.reply = some (.wrote version)) :
    Resumed s flight ⟨self.grainId, data, some version⟩
  | reloaded (self : GrainState δ) (stored : Option (Stored δ))
    (hi : s.handles flight.by_ = some self) (hop : flight.op = .reload)
    (hreply : flight.reply = some (.read stored)) :
    Resumed s flight (.init self.grainId stored)
  | cleared (self : GrainState δ) (hi : s.handles flight.by_ = some self)
    (hop : flight.op = .clear) (hreply : flight.reply = some .deleted) :
    Resumed s flight ⟨self.grainId, none, none⟩

/-- A refusal resumes no handle. -/
theorem Resumed.not_refused {self : GrainState δ} (h : Resumed s flight self)
    (e : ConcurrentChange) : flight.reply ≠ some (.refused e) := by
  cases h with
  | opened stored hi hop hreply => simp [hreply]
  | wrote self data version hi hop hreply => simp [hreply]
  | reloaded self stored hi hop hreply => simp [hreply]
  | cleared self hi hop hreply => simp [hreply]

/-- An answer resumes its handle, or was a refusal and changes nothing. -/
theorem resume_spec (h : s.resume k flight = some s') :
    (∃ self, Resumed s flight self ∧ s' = s.land k flight.by_ self) ∨
      (∃ e, flight.reply = some (.refused e)) ∧ s' = s.forget k := by
  unfold Handles.resume at h
  split at h
  · next stored hop hreply hi =>
    exact .inl ⟨_, .opened stored hi hop hreply, (Option.some.inj h).symm⟩
  · next data version self hop hreply hi =>
    exact .inl ⟨_, .wrote self data version hi hop hreply, (Option.some.inj h).symm⟩
  · next stored self hop hreply hi =>
    exact .inl ⟨_, .reloaded self stored hi hop hreply, (Option.some.inj h).symm⟩
  · next self hop hreply hi =>
    exact .inl ⟨_, .cleared self hi hop hreply, (Option.some.inj h).symm⟩
  · next e _ hreply _ => exact .inr ⟨⟨e, hreply⟩, (Option.some.inj h).symm⟩
  · cases h

/-! ## What has been written -/

/-- The writes of a store, in any order : no two of them gave the same version, and every row
is one of them. -/
structure InMemoryStateStore.Wrote (store : InMemoryStateStore δ)
    (written : List (GrainId × Stored δ)) : Prop where
  numbered : ∀ e ∈ written, store.Numbered (some e.2.version)
  nodup : (written.map fun e => e.2.version).Nodup
  rows : ∀ grain stored, store.read grain = some stored → (grain, stored) ∈ written

namespace InMemoryStateStore

variable {store store' : InMemoryStateStore δ} {written : List (GrainId × Stored δ)}
  {grain : GrainId} {data : Option δ} {expected : Option Version} {version : Version}

theorem wrote_init : (init : InMemoryStateStore δ).Wrote [] where
  numbered := fun _ he => absurd he (List.not_mem_nil)
  nodup := List.nodup_nil
  rows := fun _ _ h => by cases h

/-- A write that succeeds is of a new version. -/
theorem Wrote.write (h : store.Wrote written)
    (hw : store.write grain data expected = .ok (version, store')) :
    store'.Wrote ((grain, ⟨data, version⟩) :: written) := by
  obtain ⟨-, rfl, hnext, hread⟩ := write_ok hw
  refine ⟨?_, ?_, ?_⟩
  · intro e he
    rcases List.mem_cons.1 he with rfl | he
    · exact fun v hv => ⟨store.next + 1, hnext.ge, (Option.some.inj hv).symm⟩
    · exact (h.numbered e he).mono (by omega)
  · refine List.nodup_cons.2 ⟨fun hmem => ?_, h.nodup⟩
    obtain ⟨e, he, hv⟩ := List.mem_map.1 hmem
    exact (h.numbered e he).ne_next (congrArg some hv)
  · intro g stored hg
    rw [hread] at hg
    split_ifs at hg with hgrain
    · obtain rfl := Option.some.inj hg
      exact hgrain ▸ List.mem_cons_self
    · exact List.mem_cons_of_mem _ (h.rows g stored hg)

theorem Wrote.delete (h : store.Wrote written) (hd : store.delete grain expected = .ok store') :
    store'.Wrote written := by
  obtain ⟨-, hnext, hread⟩ := delete_ok hd
  refine ⟨fun e he => (h.numbered e he).mono hnext.ge, h.nodup, fun g stored hg => ?_⟩
  rw [hread] at hg
  split_ifs at hg
  exact h.rows g stored hg

/-- A write is known by its version. -/
theorem Wrote.unique (h : store.Wrote written) {e e' : GrainId × Stored δ} (he : e ∈ written)
    (he' : e' ∈ written) (hv : e.2.version = e'.2.version) : e = e' :=
  List.inj_on_of_nodup_map h.nodup he he' hv

end InMemoryStateStore

/-- Nothing, or a pair of data and version that has been written for a grain. -/
def OnceHeld (written : List (GrainId × Stored δ)) (grain : GrainId)
    (held : Option δ × Option Version) : Prop :=
  ∃ stored : Option (Stored δ), held = heldOf stored ∧ ∀ row ∈ stored, (grain, row) ∈ written

namespace OnceHeld

variable {written written' : List (GrainId × Stored δ)} {grain : GrainId}
  {held : Option δ × Option Version}

theorem nothing : OnceHeld written grain (none, none) :=
  ⟨none, rfl, fun _ h => by cases h⟩

theorem mono (h : OnceHeld written grain held) (hw : written ⊆ written') :
    OnceHeld written' grain held := by
  obtain ⟨stored, rfl, hrow⟩ := h
  exact ⟨stored, rfl, fun row hr => hw (hrow row hr)⟩

/-- What is in the store is known by its version. -/
theorem heldOf_read {store : InMemoryStateStore δ} (h : OnceHeld written grain held)
    (hwrote : store.Wrote written) (hfound : store.found grain = held.2) :
    heldOf (store.read grain) = held := by
  obtain ⟨stored, rfl, hrow⟩ := h
  rw [InMemoryStateStore.found_eq] at hfound
  cases hread : store.read grain with
  | none =>
    rw [hread] at hfound
    rw [Option.map_eq_none_iff.1 hfound.symm]
  | some row =>
    rw [hread] at hfound
    obtain ⟨row', hrow', hv⟩ := Option.map_eq_some_iff.1 hfound.symm
    have heq := hwrote.unique (hrow row' hrow') (hwrote.rows grain row hread) hv
    rw [hrow', (Prod.mk.inj heq).2]

end OnceHeld

/-! ## What every step keeps -/

/-- What holds of an operation under way. -/
structure Flight.Sound (s : Handles ι δ) (flight : Flight ι δ) : Prop where
  held : OnceHeld s.written flight.grain flight.held
  grain : flight.op ≠ .opens →
    ∃ self, s.handles flight.by_ = some self ∧ self.grainId = flight.grain
  read : ∀ stored, flight.reply = some (.read stored) →
    OnceHeld s.written flight.grain (heldOf stored)
  wrote : ∀ data version, flight.op = .save data → flight.reply = some (.wrote version) →
    (flight.grain, ⟨data, version⟩) ∈ s.written

/-- Whatever handles and answers hold has been written, or is nothing. -/
structure Disciplined (s : Handles ι δ) : Prop where
  wrote : s.store.Wrote s.written
  handles : ∀ i self, s.handles i = some self → OnceHeld s.written self.grainId self.held
  flights : ∀ k flight, s.flights k = some flight → flight.Sound s

theorem disciplined_init : Disciplined (Handles.init : Handles ι δ) where
  wrote := InMemoryStateStore.wrote_init
  handles := fun _ _ h => by cases h
  flights := fun _ _ h => by cases h

/-- What holds of an operation does not depend on the store, nor on the other operations. -/
theorem Flight.Sound.mono (h : flight.Sound s) (hw : s.written ⊆ s'.written)
    (hgrain : ∀ self, s.handles flight.by_ = some self →
      ∃ self', s'.handles flight.by_ = some self' ∧ self'.grainId = self.grainId) :
    flight.Sound s' where
  held := h.held.mono hw
  grain := by
    intro hop
    obtain ⟨self, hi, hself⟩ := h.grain hop
    obtain ⟨self', hi', hself'⟩ := hgrain self hi
    exact ⟨self', hi', hself'.trans hself⟩
  read := fun stored hr => (h.read stored hr).mono hw
  wrote := fun data version hop hr => hw (h.wrote data version hop hr)

theorem Disciplined.issue (hs : Disciplined s) (hf : flight.Sound s) :
    Disciplined (s.issue flight) where
  wrote := hs.wrote
  handles := hs.handles
  flights := by
    intro k f hk
    have hkept : ∀ {f : Flight ι δ}, f.Sound s → f.Sound (s.issue flight) :=
      fun h => h.mono (List.Subset.refl _) fun self hi => ⟨self, hi, rfl⟩
    by_cases hnew : k = s.issued
    · obtain rfl : flight = f := by simpa [Handles.issue, hnew] using hk
      exact hkept hf
    · exact hkept (hs.flights k f (by simpa [Handles.issue, hnew] using hk))

theorem Disciplined.forget (hs : Disciplined s) (k : ℕ) : Disciplined (s.forget k) where
  wrote := hs.wrote
  handles := hs.handles
  flights := by
    intro k' f hk'
    by_cases hkk : k' = k
    · simp [Handles.forget, hkk] at hk'
    · have hf := hs.flights k' f (by simpa [Handles.forget, hkk] using hk')
      exact hf.mono (List.Subset.refl _) fun self hi => ⟨self, hi, rfl⟩

/-- Nothing that has been written is forgotten. -/
theorem Answered.subset {reply : Reply δ} (h : Answered s flight reply s') :
    s.written ⊆ s'.written := by
  cases h with
  | read _ _ hwritten => exact hwritten ▸ List.Subset.refl _
  | wrote data version _ _ hwritten => exact hwritten ▸ List.subset_cons_self _ _
  | deleted _ _ hwritten => exact hwritten ▸ List.Subset.refl _
  | refused e _ _ hwritten => exact hwritten ▸ List.Subset.refl _

theorem Answered.wrote_store {reply : Reply δ} (h : Answered s flight reply s')
    (hs : s.store.Wrote s.written) : s'.store.Wrote s'.written := by
  cases h with
  | read _ hstore hwritten => exact hstore ▸ hwritten ▸ hs
  | wrote data version _ hstore hwritten => exact hwritten ▸ hs.write hstore
  | deleted _ hstore hwritten => exact hwritten ▸ hs.delete hstore
  | refused e _ hstore hwritten => exact hstore ▸ hwritten ▸ hs

/-- What the store answers is what it holds, or what it has just written. -/
theorem Answered.sound {reply : Reply δ} (h : Answered s flight reply s') (hs : Disciplined s)
    (hf : flight.Sound s) (hhandles : s'.handles = s.handles) :
    Flight.Sound s' { flight with reply := some reply } where
  held := hf.held.mono h.subset
  grain := hhandles ▸ hf.grain
  read := by
    rintro stored ⟨⟩
    cases h with
    | read _ hstore hwritten =>
      exact ⟨_, rfl, fun row hrow => hwritten ▸ hs.wrote.rows _ row hrow⟩
  wrote := by
    rintro data version hop ⟨⟩
    cases h with
    | wrote data' version hop' _ hwritten =>
      obtain rfl := HandleOp.save.inj (hop'.symm.trans hop)
      exact hwritten ▸ List.mem_cons_self

theorem Disciplined.take (hs : Disciplined s) (hk : s.flights k = some flight) :
    Disciplined (s.take k flight) := by
  obtain ⟨reply, hanswer, hhandles, hflights⟩ := take_spec s k flight
  refine ⟨hanswer.wrote_store hs.wrote, ?_, ?_⟩
  · intro i self hi
    exact (hs.handles i self (hhandles ▸ hi)).mono hanswer.subset
  · intro k' f hk'
    rw [hflights] at hk'
    by_cases hkk : k' = k
    · obtain rfl : { flight with reply := some reply } = f := by simpa [hkk] using hk'
      exact hanswer.sound hs (hs.flights k flight hk) hhandles
    · have hf := hs.flights k' f (by simpa [hkk] using hk')
      exact hf.mono hanswer.subset fun self hi => ⟨self, hhandles ▸ hi, rfl⟩

/-- A handle that an answer resumes holds what has been written, of the grain it is of. -/
theorem Resumed.onceHeld {self : GrainState δ} (h : Resumed s flight self)
    (hf : flight.Sound s) : OnceHeld s.written self.grainId self.held ∧
      ∀ old, s.handles flight.by_ = some old → self.grainId = old.grainId := by
  have hgrain : ∀ {old}, flight.op ≠ .opens → s.handles flight.by_ = some old →
      old.grainId = flight.grain := by
    intro old hop hi
    obtain ⟨self, hi', hself⟩ := hf.grain hop
    exact Option.some.inj (hi.symm.trans hi') ▸ hself
  cases h with
  | opened stored hi hop hreply =>
    exact ⟨hf.read stored hreply, fun old hold => by rw [hi] at hold; cases hold⟩
  | wrote self data version hi hop hreply =>
    refine ⟨⟨some ⟨data, version⟩, rfl, ?_⟩, fun old hold => ?_⟩
    · rintro row ⟨⟩
      exact hgrain (by simp [hop]) hi ▸ hf.wrote data version hop hreply
    · rw [Option.some.inj (hi.symm.trans hold)]
  | reloaded self stored hi hop hreply =>
    refine ⟨?_, fun old hold => ?_⟩
    · exact hgrain (by simp [hop]) hi ▸ hf.read stored hreply
    · rw [← Option.some.inj (hi.symm.trans hold)]
      rfl
  | cleared self hi hop hreply =>
    refine ⟨.nothing, fun old hold => ?_⟩
    rw [← Option.some.inj (hi.symm.trans hold)]

theorem Disciplined.land {self : GrainState δ} (hs : Disciplined s)
    (hk : s.flights k = some flight) (hself : Resumed s flight self) :
    Disciplined (s.land k flight.by_ self) := by
  obtain ⟨hheld, hgrain⟩ := hself.onceHeld (hs.flights k flight hk)
  refine ⟨hs.wrote, ?_, ?_⟩
  · intro j other hj
    by_cases hji : j = flight.by_
    · obtain rfl : self = other := by simpa [Handles.land, hji] using hj
      exact hheld
    · exact hs.handles j other (by simpa [Handles.land, hji] using hj)
  · intro k' f hk'
    have hf : s.flights k' = some f := by
      by_cases hkk : k' = k
      · simp [Handles.land, hkk] at hk'
      · simpa [Handles.land, hkk] using hk'
    refine (hs.flights k' f hf).mono (List.Subset.refl _) fun old hold => ?_
    by_cases hby : f.by_ = flight.by_
    · exact ⟨self, by simp [Handles.land, hby], hgrain old (hby ▸ hold)⟩
    · exact ⟨old, by simpa [Handles.land, hby] using hold, rfl⟩

theorem Disciplined.step (hs : Disciplined s) (h : HandleStep s s') : Disciplined s' := by
  cases h with
  | opens i grain =>
    exact hs.issue ⟨.nothing, fun hop => absurd rfl hop, by simp, by simp⟩
  | issues i op self hi hop =>
    exact hs.issue ⟨hs.handles i self hi, fun _ => ⟨self, hi, rfl⟩, by simp, by simp⟩
  | takes k flight hk => exact hs.take hk
  | resumes k flight hk hresume =>
    rcases resume_spec hresume with ⟨self, hself, rfl⟩ | ⟨-, rfl⟩
    · exact hs.land hk hself
    · exact hs.forget k
  | drops k => exact hs.forget k

/-- What a store and its handles have been through. -/
def Handles.Reached (s : Handles ι δ) : Prop :=
  Run handleStep (fun _ _ => True) .init s

theorem Handles.Reached.disciplined (h : s.Reached) : Disciplined s :=
  h.invariant disciplined_init fun _ _ _ hs hstep _ => hs.step (handleStep_cases hstep)

/-- A step writes nothing, or one row that is in the store afterwards. -/
theorem HandleStep.written (h : HandleStep s s') : s'.written = s.written ∨
    ∃ e, s'.written = e :: s.written ∧ s'.store.read e.1 = some e.2 := by
  cases h with
  | opens i grain => exact .inl rfl
  | issues i op self hi hop => exact .inl rfl
  | takes k flight hk =>
    obtain ⟨reply, hanswer, -, -⟩ := take_spec s k flight
    cases hanswer with
    | read _ _ hwritten => exact .inl hwritten
    | wrote data version _ hstore hwritten =>
      obtain ⟨-, -, -, hread⟩ := InMemoryStateStore.write_ok hstore
      exact .inr ⟨_, hwritten, by rw [hread, if_pos rfl]⟩
    | deleted _ _ hwritten => exact .inl hwritten
    | refused e _ _ hwritten => exact .inl hwritten
  | resumes k flight hk hresume =>
    rcases resume_spec hresume with ⟨self, -, rfl⟩ | ⟨-, rfl⟩
    · exact .inl rfl
    · exact .inl rfl
  | drops k => exact .inl rfl

/-- What has been written was in the store at some time. -/
theorem Handles.Reached.exists_read (h : s.Reached) :
    ∀ e ∈ s.written, ∃ t : Handles ι δ, t.Reached ∧ Run handleStep (fun _ _ => True) t s ∧
      t.store.read e.1 = some e.2 := by
  induction h with
  | refl => exact fun e he => absurd he (List.not_mem_nil)
  | tail hrun ht ih =>
    intro e he
    obtain ⟨l, hl⟩ := ht.1
    rcases (handleStep_cases hl).written with hsame | ⟨e', hnew, hread⟩
    · obtain ⟨t, hreached, hrest, hread⟩ := ih e (hsame ▸ he)
      exact ⟨t, hreached, hrest.tail ht, hread⟩
    · rcases List.mem_cons.1 (hnew ▸ he) with rfl | he
      · exact ⟨_, hrun.tail ht, .refl, hread⟩
      · obtain ⟨t, hreached, hrest, hread⟩ := ih e he
        exact ⟨t, hreached, hrest.tail ht, hread⟩

/-- What is held was in the store at some time. -/
theorem OnceHeld.exists_read {grain : GrainId} {held : Option δ × Option Version}
    (h : OnceHeld s.written grain held) (hs : s.Reached) :
    ∃ t : Handles ι δ, t.Reached ∧ Run handleStep (fun _ _ => True) t s ∧
      heldOf (t.store.read grain) = held := by
  obtain ⟨stored, rfl, hrow⟩ := h
  cases stored with
  | none => exact ⟨.init, .refl, hs, rfl⟩
  | some row =>
    obtain ⟨t, hreached, hrest, hread⟩ := hs.exists_read _ (hrow row rfl)
    exact ⟨t, hreached, hrest, congrArg heldOf hread⟩

/-! ## Compare and set -/

/-- What the store does for an operation is what its answer says, and a write or a removal
replaces the row that the handle held when the operation was issued. -/
def Swapped (s s' : Handles ι δ) (flight : Flight ι δ) : Reply δ → Prop
  | .read stored => stored = s.store.read flight.grain ∧ s'.store = s.store
  | .wrote version => heldOf (s.store.read flight.grain) = flight.held ∧
    ∃ data, flight.op = .save data ∧
      s'.written = (flight.grain, ⟨data, version⟩) :: s.written ∧
      ∀ g, s'.store.read g = if g = flight.grain then some ⟨data, version⟩ else s.store.read g
  | .deleted => heldOf (s.store.read flight.grain) = flight.held ∧ flight.op = .clear ∧
    ∀ g, s'.store.read g = if g = flight.grain then none else s.store.read g
  | .refused _ => s'.store = s.store

/-- The discipline of a store and its handles. -/
structure ComparesAndSets (s : Handles ι δ) : Prop where
  /-- No two writes give one version. -/
  versions : (s.written.map fun e => e.2.version).Nodup
  /-- When the store comes to an operation, no handle changes, and the row is replaced that was
  held. -/
  swaps : ∀ k flight s', s.flights k = some flight → handleStep s (.takes k) = some s' →
    s'.handles = s.handles ∧ ∃ reply, Swapped s s' flight reply ∧
      s'.flights k = some { flight with reply := some reply }
  /-- A `ConcurrentChange` changes neither the store nor a handle. -/
  refuses : ∀ k flight e s', s.flights k = some flight → flight.reply = some (.refused e) →
    handleStep s (.resumes k) = some s' → s'.store = s.store ∧ s'.handles = s.handles
  /-- What a handle holds was in the store at some time. -/
  holds : ∀ i self, s.handles i = some self → ∃ t : Handles ι δ, t.Reached ∧
    Run handleStep (fun _ _ => True) t s ∧ heldOf (t.store.read self.grainId) = self.held

/-- An answer is of what the operation held, if it is not a refusal. -/
theorem Answered.swapped {reply : Reply δ} (h : Answered s flight reply s') (hs : Disciplined s)
    (hk : s.flights k = some flight) : Swapped s s' flight reply := by
  have hheld := (hs.flights k flight hk).held
  cases h with
  | read _ hstore _ => exact ⟨rfl, hstore⟩
  | wrote data version hop hstore hwritten =>
    obtain ⟨hfound, -, -, hread⟩ := InMemoryStateStore.write_ok hstore
    exact ⟨hheld.heldOf_read hs.wrote hfound, data, hop, hwritten, hread⟩
  | deleted hop hstore _ =>
    obtain ⟨hfound, -, hread⟩ := InMemoryStateStore.delete_ok hstore
    exact ⟨hheld.heldOf_read hs.wrote hfound, hop, hread⟩
  | refused e _ hstore _ => exact hstore

/-- Whatever operations overlap, and in whatever order the store comes to them and their answers
resume the handles, the store and its handles keep the discipline of compare and set. -/
theorem compare_and_set (h : s.Reached) : ComparesAndSets s where
  versions := h.disciplined.wrote.nodup
  swaps := by
    intro k flight s' hk hstep
    obtain ⟨reply, hanswer, hhandles, hflights⟩ := take_spec s k flight
    have htake : s' = s.take k flight := by
      simp only [handleStep, hk] at hstep
      split_ifs at hstep
      exact (Option.some.inj hstep).symm
    rw [htake]
    refine ⟨hhandles, reply, hanswer.swapped h.disciplined hk, ?_⟩
    rw [hflights, Function.update_self]
  refuses := by
    intro k flight e s' hk hreply hstep
    simp only [handleStep, hk, Option.bind_some] at hstep
    rcases resume_spec hstep with ⟨self, hself, -⟩ | ⟨-, rfl⟩
    · exact absurd hreply (hself.not_refused e)
    · exact ⟨rfl, rfl⟩
  holds := fun i self hi => (h.disciplined.handles i self hi).exists_read h

/-- Two saves on one handle, issued together, and a handle made before either. -/
def savedTogether : List (HandleLabel Bool ℕ) :=
  [.opens true ⟨"basket", "a"⟩, .takes 0, .resumes 0, .opens false ⟨"basket", "a"⟩, .takes 1,
    .saves true (some 1), .saves true (some 2), .takes 3, .takes 2, .resumes 3, .resumes 1]

/-- The store has written the one it came to first, and refused the other, which has not
returned yet. -/
theorem compare_and_set_overlapping : ∃ s : Handles Bool ℕ, s.Reached ∧
    s.handles true = some ⟨⟨"basket", "a"⟩, some 2, some "1"⟩ ∧
    s.flights 2 = some ⟨true, ⟨"basket", "a"⟩, .save (some 1), (none, none),
      some (.refused ⟨"basket/a", none, some "1"⟩)⟩ ∧ ComparesAndSets s := by
  obtain ⟨s, hrun, hs⟩ := exists_run_free handleStep (.init : Handles Bool ℕ) savedTogether
    (fun s => decide (s.handles true = some ⟨⟨"basket", "a"⟩, some 2, some "1"⟩ ∧
      s.flights 2 = some ⟨true, ⟨"basket", "a"⟩, .save (some 1), (none, none),
        some (.refused ⟨"basket/a", none, some "1"⟩)⟩)) (by decide +kernel)
  obtain ⟨htrue, hrefused⟩ := of_decide_eq_true hs
  exact ⟨s, hrun, htrue, hrefused, compare_and_set hrun⟩

end Nigrains
