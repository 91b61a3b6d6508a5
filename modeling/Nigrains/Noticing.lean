import Nigrains.Handles

/-!
# What a handle notices of the others

`InMemoryStateStore` never suspends, so over it an operation of a `GrainState` is one step, and
`writerStep` takes the operations of any number of handles in any order. Each is a run of three
steps of the operations that may overlap (`writerStep_run`), and a run of them is a run of those
(`Writers.Reached.refines`).

A handle is `overtaken` if another one has saved or cleared the same grain's state since it last
synchronised. No version is given out twice, so a handle that holds a version notices whenever
it has been overtaken. A handle that holds nothing cannot tell the absence it read from a later
one : it notices exactly if there is a row (`noticed_iff`).
-/

set_option linter.unusedSectionVars false

namespace Nigrains

variable {ι δ : Type*} [DecidableEq ι]

/-- What has become of an operation. -/
inductive Deed
  | opened
  | reloaded
  | saved
  | cleared
  /-- It raised `ConcurrentChange`. -/
  | refused
deriving DecidableEq, Repr

/-- An operation that is over. -/
structure Done (ι : Type*) where
  by_ : ι
  grain : GrainId
  deed : Deed
deriving DecidableEq, Repr

/-- A store, the handles on it, and what they have done, the latest first. -/
structure Writers (ι δ : Type*) where
  store : InMemoryStateStore δ
  handles : ι → Option (GrainState δ)
  done : List (Done ι)

namespace Writers

/-- An empty store, and no handle. -/
def init : Writers ι δ :=
  ⟨.init, fun _ => none, []⟩

/-- An operation leaves its handle `self` over `store`. -/
def leave (s : Writers ι δ) (i : ι) (deed : Deed) (self : GrainState δ)
    (store : InMemoryStateStore δ) : Writers ι δ :=
  ⟨store, Function.update s.handles i (some self), ⟨i, self.grainId, deed⟩ :: s.done⟩

/-- An operation that may raise. -/
def attempt (s : Writers ι δ) (i : ι) (deed : Deed) (self : GrainState δ)
    (r : Except ConcurrentChange (GrainState δ × InMemoryStateStore δ)) : Writers ι δ :=
  match r with
  | .ok (self', store) => s.leave i deed self' store
  | .error _ => { s with done := ⟨i, self.grainId, .refused⟩ :: s.done }

end Writers

/-- What is done next. -/
inductive WriterLabel (ι δ : Type*)
  | opens (i : ι) (grain : GrainId)
  | saves (i : ι) (data : Option δ)
  | reloads (i : ι)
  | clears (i : ι)

/-- One operation of one handle. -/
def writerStep (s : Writers ι δ) : WriterLabel ι δ → Option (Writers ι δ)
  | .opens i grain =>
    if s.handles i = none then
      some (s.leave i .opened (.init grain (s.store.read grain)) s.store)
    else none
  | .saves i data =>
    (s.handles i).map fun self => s.attempt i .saved self (self.save s.store data)
  | .reloads i =>
    (s.handles i).map fun self => s.leave i .reloaded (self.reload s.store) s.store
  | .clears i => (s.handles i).map fun self => s.attempt i .cleared self (self.clear s.store)

/-- Another handle has saved or cleared the grain's state since this one last synchronised. -/
def overtaken (i : ι) (grain : GrainId) : List (Done ι) → Bool
  | [] => false
  | e :: done =>
    if e.deed = .refused then overtaken i grain done
    else if e.by_ = i then false
    else (e.grain = grain ∧ (e.deed = .saved ∨ e.deed = .cleared)) || overtaken i grain done

section Overtaken

variable {i j : ι} {grain : GrainId} {deed : Deed} {e : Done ι} {done : List (Done ι)}

/-- What raised overtakes nobody. -/
theorem overtaken_refused (h : e.deed = .refused) :
    overtaken i grain (e :: done) = overtaken i grain done := by
  simp [overtaken, h]

/-- A handle that has just synchronised is not overtaken. -/
theorem overtaken_own (h : e.deed ≠ .refused) (hi : e.by_ = i) :
    overtaken i grain (e :: done) = false := by
  simp [overtaken, h, hi]

/-- A read overtakes nobody else. -/
theorem overtaken_read (h : e.deed = .opened ∨ e.deed = .reloaded) (hi : e.by_ ≠ i) :
    overtaken i grain (e :: done) = overtaken i grain done := by
  rcases h with h | h <;> simp [overtaken, h, hi]

/-- A save or a clear overtakes the others of its grain. -/
theorem overtaken_write (h : e.deed = .saved ∨ e.deed = .cleared) (hi : e.by_ ≠ i) :
    overtaken i grain (e :: done) = (decide (e.grain = grain) || overtaken i grain done) := by
  rcases h with h | h <;> simp [overtaken, h, hi]

end Overtaken

/-! ## The kinds of step -/

/-- What a step does, one rule for each thing that can happen. -/
inductive WriterStep (s : Writers ι δ) : Writers ι δ → Prop
  /-- A handle is made from what is stored, or takes it. -/
  | reads (i : ι) (deed : Deed) (grain : GrainId) (hdeed : deed = .opened ∨ deed = .reloaded)
    (hi : ∀ self, s.handles i = some self → self.grainId = grain) :
    WriterStep s (s.leave i deed (.init grain (s.store.read grain)) s.store)
  | saves (i : ι) (self : GrainState δ) (data : Option δ) (version : Version)
    (store : InMemoryStateStore δ) (hi : s.handles i = some self)
    (hw : s.store.write self.grainId data self.version = .ok (version, store)) :
    WriterStep s (s.leave i .saved ⟨self.grainId, data, some version⟩ store)
  | clears (i : ι) (self : GrainState δ) (store : InMemoryStateStore δ)
    (hi : s.handles i = some self)
    (hd : s.store.delete self.grainId self.version = .ok store) :
    WriterStep s (s.leave i .cleared ⟨self.grainId, none, none⟩ store)
  | refuses (i : ι) (self : GrainState δ) :
    WriterStep s { s with done := ⟨i, self.grainId, .refused⟩ :: s.done }

variable {s s' : Writers ι δ} {i : ι} {self : GrainState δ}

theorem writerStep_cases {l : WriterLabel ι δ} (h : writerStep s l = some s') :
    WriterStep s s' := by
  cases l with
  | opens i grain =>
    simp only [writerStep] at h
    split_ifs at h with hi
    obtain rfl := Option.some.inj h
    exact .reads i .opened grain (.inl rfl) fun self hself => by rw [hi] at hself; cases hself
  | reloads i =>
    obtain ⟨self, hi, rfl⟩ := Option.map_eq_some_iff.1 h
    refine .reads i .reloaded self.grainId (.inr rfl) fun self' hself => ?_
    rw [Option.some.inj (hi.symm.trans hself)]
  | saves i data =>
    obtain ⟨self, hi, rfl⟩ := Option.map_eq_some_iff.1 h
    cases hw : s.store.write self.grainId data self.version with
    | error e =>
      simp only [GrainState.save, hw]
      exact .refuses i self
    | ok r =>
      simp only [GrainState.save, hw]
      exact .saves i self data r.1 r.2 hi hw
  | clears i =>
    obtain ⟨self, hi, rfl⟩ := Option.map_eq_some_iff.1 h
    cases hd : s.store.delete self.grainId self.version with
    | error e =>
      simp only [GrainState.clear, hd]
      exact .refuses i self
    | ok store =>
      simp only [GrainState.clear, hd]
      exact .clears i self store hi hd

/-! ## What a handle knows -/

/-- A handle that has not been overtaken holds the version that is there, and one that has been
does not hold it, unless it holds nothing. -/
structure GrainState.Informed (handle : GrainState δ) (s : Writers ι δ) (i : ι) : Prop where
  numbered : s.store.Numbered handle.version
  current : overtaken i handle.grainId s.done = false →
    s.store.found handle.grainId = handle.version
  stale : overtaken i handle.grainId s.done = true → ∀ v ∈ handle.version,
    s.store.found handle.grainId ≠ some v

/-- What every step keeps. -/
structure Writers.Informed (s : Writers ι δ) : Prop where
  numbered : ∀ grain, s.store.Numbered (s.store.found grain)
  handles : ∀ i self, s.handles i = some self → self.Informed s i

theorem informed_init : (Writers.init : Writers ι δ).Informed where
  numbered := fun _ _ hv => by cases hv
  handles := fun _ _ h => by cases h

/-- A read leaves the others informed. -/
theorem GrainState.Informed.read {i j : ι} {deed : Deed} {self' : GrainState δ}
    (h : self.Informed s j) (hj : j ≠ i) (hdeed : deed = .opened ∨ deed = .reloaded) :
    self.Informed (s.leave i deed self' s.store) j := by
  have hover : overtaken j self.grainId (s.leave i deed self' s.store).done =
      overtaken j self.grainId s.done := overtaken_read hdeed (Ne.symm hj)
  exact ⟨h.numbered, hover ▸ h.current, hover ▸ h.stale⟩

/-- So does a save or a clear, after which the grain's version is not one they may hold. -/
theorem GrainState.Informed.write {i j : ι} {deed : Deed} {self' : GrainState δ}
    {store : InMemoryStateStore δ} (h : self.Informed s j) (hj : j ≠ i)
    (hdeed : deed = .saved ∨ deed = .cleared) (hnext : s.store.next ≤ store.next)
    (hother : ∀ g, g ≠ self'.grainId → store.found g = s.store.found g)
    (hnew : ∀ v, s.store.Numbered (some v) → store.found self'.grainId ≠ some v) :
    self.Informed (s.leave i deed self' store) j := by
  have hover : overtaken j self.grainId (s.leave i deed self' store).done =
      (decide (self'.grainId = self.grainId) || overtaken j self.grainId s.done) :=
    overtaken_write hdeed (Ne.symm hj)
  by_cases hgrain : self'.grainId = self.grainId
  · refine ⟨h.numbered.mono hnext, fun hfalse => ?_, fun _ v hv => ?_⟩
    · simp [hover, hgrain] at hfalse
    · have hv' : self.version = some v := hv
      exact hgrain ▸ hnew v (hv' ▸ h.numbered)
  · rw [decide_eq_false hgrain, Bool.false_or] at hover
    have hfound : store.found self.grainId = s.store.found self.grainId :=
      hother _ (Ne.symm hgrain)
    refine ⟨h.numbered.mono hnext, fun hfalse => ?_, fun htrue v hv => ?_⟩
    · exact hfound.trans (h.current (hover ▸ hfalse))
    · exact hfound ▸ h.stale (hover ▸ htrue) v hv

/-- A handle is informed of what it has just done itself. -/
theorem informed_own {deed : Deed} {store : InMemoryStateStore δ} (hdeed : deed ≠ .refused)
    (hnumbered : store.Numbered self.version) (hfound : store.found self.grainId = self.version) :
    self.Informed (s.leave i deed self store) i := by
  have hover : overtaken i self.grainId (s.leave i deed self store).done = false :=
    overtaken_own hdeed rfl
  exact ⟨hnumbered, fun _ => hfound, fun htrue => by rw [hover] at htrue; cases htrue⟩

/-- An operation that succeeds, and the handles it leaves. -/
theorem Writers.Informed.leave {deed : Deed} {store : InMemoryStateStore δ}
    (hnumbered : ∀ grain, store.Numbered (store.found grain))
    (hown : self.Informed (s.leave i deed self store) i)
    (hother : ∀ j other, j ≠ i → s.handles j = some other →
      other.Informed (s.leave i deed self store) j) : (s.leave i deed self store).Informed where
  numbered := hnumbered
  handles := by
    intro j other hj
    by_cases hji : j = i
    · subst hji
      obtain rfl : self = other := by simpa [Writers.leave] using hj
      exact hown
    · exact hother j other hji (by simpa [Writers.leave, hji] using hj)

theorem Writers.Informed.step (hs : s.Informed) (h : WriterStep s s') : s'.Informed := by
  cases h with
  | reads i deed grain hdeed hi =>
    have hdone : deed ≠ .refused := by
      rcases hdeed with rfl | rfl
      · simp
      · simp
    exact .leave hs.numbered (informed_own hdone (hs.numbered grain) rfl) fun j other hji hj =>
      (hs.handles j other hj).read hji hdeed
  | saves i self data version store hi hw =>
    obtain ⟨-, rfl, hnext, hread⟩ := InMemoryStateStore.write_ok hw
    have hnew : store.Numbered (some (toString (s.store.next + 1))) :=
      fun v hv => ⟨s.store.next + 1, hnext.ge, (Option.some.inj hv).symm⟩
    have hfound : ∀ g, store.found g =
        if g = self.grainId then some (toString (s.store.next + 1)) else s.store.found g := by
      intro g
      rw [InMemoryStateStore.found_eq, hread]
      split_ifs
      · rfl
      · rfl
    refine .leave (fun g => ?_) (informed_own (by simp) hnew (by simp [hfound]))
      fun j other hji hj => (hs.handles j other hj).write hji (.inl rfl) (by omega)
        (fun g hg => by simp [hfound, hg]) fun v hv => ?_
    · rw [hfound]
      split_ifs
      · exact hnew
      · exact (hs.numbered g).mono (by omega)
    · rw [hfound, if_pos rfl]
      exact fun heq => hv.ne_next heq.symm
  | clears i self store hi hd =>
    obtain ⟨-, hnext, hread⟩ := InMemoryStateStore.delete_ok hd
    have hfound : ∀ g, store.found g = if g = self.grainId then none else s.store.found g := by
      intro g
      rw [InMemoryStateStore.found_eq, hread]
      split_ifs
      · rfl
      · rfl
    have hnone : store.Numbered none := fun v hv => by cases hv
    refine .leave (fun g => ?_) (informed_own (by simp) hnone (by simp [hfound]))
      fun j other hji hj => (hs.handles j other hj).write hji (.inr rfl) hnext.ge
        (fun g hg => by simp [hfound, hg]) fun v hv => by simp [hfound]
    rw [hfound]
    split_ifs
    · exact hnone
    · exact (hs.numbered g).mono hnext.ge
  | refuses i self =>
    refine ⟨hs.numbered, fun j other hj => ?_⟩
    have h := hs.handles j other hj
    have hover : overtaken j other.grainId (⟨i, self.grainId, .refused⟩ :: s.done) =
        overtaken j other.grainId s.done := overtaken_refused rfl
    exact ⟨h.numbered, fun hfalse => h.current (hover ▸ hfalse),
      fun htrue => h.stale (hover ▸ htrue)⟩

/-- What a store and its handles have been through. -/
def Writers.Reached (s : Writers ι δ) : Prop :=
  Run writerStep (fun _ _ => True) .init s

theorem Writers.Reached.informed (h : s.Reached) : s.Informed :=
  h.invariant informed_init fun _ _ _ hs hstep _ => hs.step (writerStep_cases hstep)

/-! ## What is noticed -/

/-- An operation has succeeded. -/
def Succeeded {α : Type*} (r : Except ConcurrentChange α) : Prop :=
  ∃ a, r = .ok a

/-- A save or a clear through a handle succeeds exactly if it has not been overtaken, and raises
`ConcurrentChange` if it has. -/
def Notices (s : Writers ι δ) (i : ι) (self : GrainState δ) : Prop :=
  (∀ data, Succeeded (self.save s.store data) ↔ overtaken i self.grainId s.done = false) ∧
    (Succeeded (self.clear s.store) ↔ overtaken i self.grainId s.done = false)

/-- A save succeeds if the version is the one that is there. -/
theorem succeeded_save {store : InMemoryStateStore δ} {data : Option δ} :
    Succeeded (self.save store data) ↔ store.found self.grainId = self.version := by
  unfold Succeeded GrainState.save InMemoryStateStore.write
  by_cases h : store.found self.grainId = self.version <;> simp [h]

theorem succeeded_clear {store : InMemoryStateStore δ} :
    Succeeded (self.clear store) ↔ store.found self.grainId = self.version := by
  unfold Succeeded GrainState.clear InMemoryStateStore.delete
  by_cases h : store.found self.grainId = self.version <;> simp [h]

theorem notices_iff : Notices s i self ↔
    (s.store.found self.grainId = self.version ↔ overtaken i self.grainId s.done = false) := by
  unfold Notices
  simp only [succeeded_save, succeeded_clear, forall_const, and_self]

/-- Whatever the handles have done, one of them notices whether it has been overtaken exactly if
it holds a version, or there is a row, or it has not been. -/
theorem noticed_iff (h : s.Reached) (hi : s.handles i = some self) : Notices s i self ↔
    self.version ≠ none ∨ s.store.read self.grainId ≠ none ∨
      overtaken i self.grainId s.done = false := by
  have hself := h.informed.handles i self hi
  rw [notices_iff]
  cases hover : overtaken i self.grainId s.done with
  | false => simpa using hself.current hover
  | true =>
    cases hv : self.version with
    | some v => simpa using hself.stale hover v hv
    | none =>
      rw [InMemoryStateStore.found_eq, Option.map_eq_none_iff]
      simp

/-- Two handles read that nothing is there, and one of them saves. -/
def savedOnce : List (WriterLabel Bool ℕ) :=
  [.opens true ⟨"basket", "a"⟩, .opens false ⟨"basket", "a"⟩, .saves false (some 1)]

/-- The other holds nothing, and notices the row. -/
theorem noticed_row : ∃ s : Writers Bool ℕ, s.Reached ∧
    overtaken true ⟨"basket", "a"⟩ s.done = true ∧
    Notices s true ⟨⟨"basket", "a"⟩, none, none⟩ := by
  obtain ⟨s, hrun, hs⟩ := exists_run_free writerStep (.init : Writers Bool ℕ) savedOnce
    (fun s => decide (s.handles true = some ⟨⟨"basket", "a"⟩, none, none⟩ ∧
      s.store.read ⟨"basket", "a"⟩ = some ⟨some 1, "1"⟩ ∧
      overtaken true ⟨"basket", "a"⟩ s.done = true)) (by decide +kernel)
  obtain ⟨hi, hread, hover⟩ := of_decide_eq_true hs
  exact ⟨s, hrun, hover, (noticed_iff hrun hi).2 (.inr (.inl (by simp [hread])))⟩

/-- The row is cleared again, and the other handle saves as if nothing had happened. -/
theorem absence_unnoticed : ¬ ∀ (s : Writers Bool ℕ) (i : Bool) (self : GrainState ℕ),
    s.Reached → s.handles i = some self → Notices s i self := by
  intro h
  obtain ⟨s, hrun, hs⟩ := exists_run_free writerStep (.init : Writers Bool ℕ)
    (savedOnce ++ [.clears false])
    (fun s => decide (s.handles true = some ⟨⟨"basket", "a"⟩, none, none⟩ ∧
      s.store.read ⟨"basket", "a"⟩ = none ∧
      overtaken true ⟨"basket", "a"⟩ s.done = true)) (by decide +kernel)
  obtain ⟨hi, hread, hover⟩ := of_decide_eq_true hs
  have hfound : s.store.found ⟨"basket", "a"⟩ = none := congrArg (Option.map _) hread
  have hfalse := (notices_iff.1 (h s true _ hrun hi)).1 hfound
  exact absurd hover (by simp [hfalse])

/-! ## One operation at a time -/

section Alone

variable {t : Handles ι δ} {flight : Flight ι δ} {t' : Handles ι δ}

/-- An operation is issued, and the store comes to it at once. -/
theorem run_taken (l : HandleLabel ι δ) (hissue : handleStep t l = some (t.issue flight))
    (hreply : flight.reply = none) : ∃ reply taken, Run handleStep (fun _ _ => True) t taken ∧
      Answered (t.issue flight) flight reply taken ∧ taken.handles = t.handles ∧
      taken.flights t.issued = some { flight with reply := some reply } := by
  obtain ⟨reply, hanswer, hhandles, hflights⟩ := take_spec (t.issue flight) t.issued flight
  have htaken : handleStep (t.issue flight) (.takes t.issued) =
      some ((t.issue flight).take t.issued flight) := by
    simp [handleStep, Handles.issue, hreply]
  exact ⟨reply, _, (Relation.ReflTransGen.single ⟨⟨l, hissue⟩, trivial⟩).tail
    ⟨⟨_, htaken⟩, trivial⟩, hanswer, hhandles, by rw [hflights, Function.update_self]⟩

/-- So it is with one on a handle. -/
theorem run_takenOn {op : HandleOp δ} (l : HandleLabel ι δ) (hl : handleStep t l = t.issueOn i op)
    (hi : t.handles i = some self) : ∃ reply taken, Run handleStep (fun _ _ => True) t taken ∧
      Answered (t.issue ⟨i, self.grainId, op, self.held, none⟩)
        ⟨i, self.grainId, op, self.held, none⟩ reply taken ∧ taken.handles = t.handles ∧
      taken.flights t.issued = some ⟨i, self.grainId, op, self.held, some reply⟩ :=
  run_taken l (by rw [hl, Handles.issueOn, hi]; rfl) rfl

/-- Its answer resumes the handle at once. -/
theorem run_resumed {k : ℕ} (hrun : Run handleStep (fun _ _ => True) t t')
    (hk : t'.flights k = some flight) {t'' : Handles ι δ} (h : t'.resume k flight = some t'') :
    Run handleStep (fun _ _ => True) t t'' :=
  hrun.tail ⟨⟨.resumes k, by simp [handleStep, hk, h]⟩, trivial⟩

/-- `s'` comes of a run of the operations that may overlap. -/
def Overlapping (t : Handles ι δ) (s' : Writers ι δ) : Prop :=
  ∃ t' : Handles ι δ, Run handleStep (fun _ _ => True) t t' ∧ t'.store = s'.store ∧
    t'.handles = s'.handles

variable (hstore : t.store = s.store) (hhandles : t.handles = s.handles)

include hstore hhandles

theorem run_opens {grain : GrainId} (h : writerStep s (.opens i grain) = some s') :
    Overlapping t s' := by
  simp only [writerStep] at h
  split_ifs at h with hi
  obtain rfl := Option.some.inj h
  obtain ⟨reply, taken, hrun, hanswer, hkept, hflight⟩ :=
    run_taken (t := t) (.opens i grain) rfl rfl
  cases hanswer with
  | read _ htaken _ =>
    have hnone : taken.handles i = none := by rw [hkept, hhandles, hi]
    refine ⟨_, run_resumed hrun hflight (by simp only [Handles.resume, hnone]; rfl), ?_, ?_⟩
    · exact htaken.trans hstore
    · simp [Handles.land, Writers.leave, hkept, hhandles, Handles.issue, hstore]
  | wrote data version hop => cases hop
  | deleted hop => cases hop
  | refused e hop => simp at hop

theorem run_reloads (h : writerStep s (.reloads i) = some s') : Overlapping t s' := by
  obtain ⟨self, hi, rfl⟩ := Option.map_eq_some_iff.1 h
  have hi' : t.handles i = some self := hhandles ▸ hi
  obtain ⟨reply, taken, hrun, hanswer, hkept, hflight⟩ :=
    run_takenOn (.reloads i) rfl hi'
  have hself : taken.handles i = some self := hkept ▸ hi'
  cases hanswer with
  | read _ htaken _ =>
    refine ⟨_, run_resumed hrun hflight (by simp only [Handles.resume, hself]; rfl), ?_, ?_⟩
    · exact htaken.trans hstore
    · simp [Handles.land, Writers.leave, hkept, hhandles, Handles.issue, hstore,
        GrainState.reload]
  | wrote data version hop => cases hop
  | deleted hop => cases hop
  | refused e hop => simp at hop

theorem run_saves {data : Option δ} (h : writerStep s (.saves i data) = some s') :
    Overlapping t s' := by
  obtain ⟨self, hi, rfl⟩ := Option.map_eq_some_iff.1 h
  have hi' : t.handles i = some self := hhandles ▸ hi
  obtain ⟨reply, taken, hrun, hanswer, hkept, hflight⟩ :=
    run_takenOn (.saves i data) rfl hi'
  have hself : taken.handles i = some self := hkept ▸ hi'
  cases hanswer with
  | read hop => simp at hop
  | wrote data' version hop hw =>
    obtain rfl := HandleOp.save.inj hop
    have hw' : s.store.write self.grainId data self.version = .ok (version, taken.store) :=
      hstore ▸ hw
    refine ⟨_, run_resumed hrun hflight (by simp only [Handles.resume, hself]; rfl), ?_, ?_⟩
    · simp [Handles.land, Writers.attempt, Writers.leave, GrainState.save, hw']
    · simp [Handles.land, Writers.attempt, Writers.leave, GrainState.save, hw', hkept, hhandles]
  | deleted hop => cases hop
  | refused e hop htaken =>
    obtain ⟨data', hop, hw⟩ | ⟨hop, -⟩ := hop
    · obtain rfl := HandleOp.save.inj hop
      have hw' : s.store.write self.grainId data self.version = .error e := hstore ▸ hw
      refine ⟨_, run_resumed hrun hflight (by simp only [Handles.resume, hself]; rfl), ?_, ?_⟩
      · simpa [Handles.forget, Writers.attempt, GrainState.save, hw'] using htaken.trans hstore
      · simp [Handles.forget, Writers.attempt, GrainState.save, hw', hkept, hhandles]
    · cases hop

theorem run_clears (h : writerStep s (.clears i) = some s') : Overlapping t s' := by
  obtain ⟨self, hi, rfl⟩ := Option.map_eq_some_iff.1 h
  have hi' : t.handles i = some self := hhandles ▸ hi
  obtain ⟨reply, taken, hrun, hanswer, hkept, hflight⟩ :=
    run_takenOn (.clears i) rfl hi'
  have hself : taken.handles i = some self := hkept ▸ hi'
  cases hanswer with
  | read hop => simp at hop
  | wrote data version hop => cases hop
  | deleted hop hd =>
    have hd' : s.store.delete self.grainId self.version = .ok taken.store := hstore ▸ hd
    refine ⟨_, run_resumed hrun hflight (by simp only [Handles.resume, hself]; rfl), ?_, ?_⟩
    · simp [Handles.land, Writers.attempt, Writers.leave, GrainState.clear, hd']
    · simp [Handles.land, Writers.attempt, Writers.leave, GrainState.clear, hd', hkept, hhandles]
  | refused e hop htaken =>
    obtain ⟨data, hop, -⟩ | ⟨-, hd⟩ := hop
    · cases hop
    · have hd' : s.store.delete self.grainId self.version = .error e := hstore ▸ hd
      refine ⟨_, run_resumed hrun hflight (by simp only [Handles.resume, hself]; rfl), ?_, ?_⟩
      · simpa [Handles.forget, Writers.attempt, GrainState.clear, hd'] using htaken.trans hstore
      · simp [Handles.forget, Writers.attempt, GrainState.clear, hd', hkept, hhandles]

/-- An operation of one step is a run of the operations that may overlap. -/
theorem writerStep_run {l : WriterLabel ι δ} (h : writerStep s l = some s') :
    Overlapping t s' := by
  cases l with
  | opens i grain => exact run_opens hstore hhandles h
  | reloads i => exact run_reloads hstore hhandles h
  | saves i data => exact run_saves hstore hhandles h
  | clears i => exact run_clears hstore hhandles h

end Alone

/-- What handles do one operation at a time, they do in a run whose operations may overlap. -/
theorem Writers.Reached.refines (h : s.Reached) : Overlapping .init s := by
  refine h.invariant (I := Overlapping .init) ⟨.init, .refl, rfl, rfl⟩ ?_
  rintro s l s' ⟨t, hrun, hstore, hhandles⟩ hstep -
  obtain ⟨t', hstep', hstore', hhandles'⟩ := writerStep_run hstore hhandles hstep
  exact ⟨t', Relation.ReflTransGen.trans hrun hstep', hstore', hhandles'⟩

end Nigrains
