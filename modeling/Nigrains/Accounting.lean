import Nigrains.Refinement

/-!
# The accounts of the activations

Every activation that has been built is held, or has failed, or has been deactivated, or is
being deactivated : that is what the numbers of `stats` come to if they balance. Four things
put them out of balance, each at one event : an entry that is overwritten is still counted as
an activation, a failure that finds no entry takes none out, and a `_deactivate` that is ended
by a timer task, or whose `deactivate` is ended by a cancellation, never counts. Nothing else
does (`balanced`).
-/

set_option linter.unusedSectionVars false

namespace Nigrains

/-- An activation taken out whose `_deactivate` has not ended. -/
def Activity.isDeactivation : Activity → Bool
  | .down .. => true
  | .closing .. => true
  | _ => false

/-- How many of them there are. -/
def deactivations (M : Multiset Activity) : ℕ :=
  M.countP fun x => x.isDeactivation

theorem deactivations_cons (x : Activity) (M : Multiset Activity) :
    deactivations (x ::ₘ M) = deactivations M + if x.isDeactivation then 1 else 0 := by
  unfold deactivations
  rw [Multiset.countP_cons]

/-- What an event adds to the `_deactivate` in progress. -/
def Event.deactivations : Event → ℤ
  | .taken .. => 1
  | .abandoned .. => -1
  | .deactivated .. => -1
  | _ => 0

theorem Protocol.Step.deactivations_eq {P P' : Protocol} {e : Event} (h : Step P e P') :
    (deactivations P'.pending : ℤ) = deactivations P.pending + e.deactivations := by
  cases h
  case deactivating hp | abandoned hp | deactivated hp | woke hp _ _ | unjoined hp | gaveUp hp
      | published hp | activated hp | failed hp | refused hp | entered hp | answered hp
      | tocked hp =>
    rw [hp]
    simp [log, deactivations_cons, Event.deactivations, Activity.isDeactivation]
  all_goals simp [log, deactivations_cons, Event.deactivations, Activity.isDeactivation]

section

variable {cfg : Config} {s s' : State} {t : TaskId} {n : Next Frame Outcome}

/-- What has been built, less what is held, has failed or has been deactivated. -/
def State.ledger (s : State) : ℤ :=
  s.activationsTotal - s.activations.len - s.failedActivations - s.deactivations

/-- Whether `deactivate` has ended, as far as `except Exception` goes. -/
def Resume.caught : Resume Outcome → Bool
  | .got (.error e) => e.isException
  | _ => true

/-- What an event does to the ledger. -/
def Event.charge (r : Resume Outcome) : Event → ℤ
  | .published _ _ old => if old = none then 0 else 1
  | .failed _ _ _ popped => if popped = none then -1 else 0
  | .taken .. => 1
  | .deactivated .. => if r.caught then -1 else 0
  | _ => 0

theorem ledger_publish (g : GrainId) (grain : Grain) : (s.publish g grain).ledger =
    s.ledger + if s.activations.get g = none then 0 else 1 := by
  unfold State.ledger State.publish
  dsimp only
  rw [OrderedDict.len_set]
  split_ifs <;> omega

theorem ledger_fail (g : GrainId) (a : ActId) (e : Exc) : (s.fail g a e).ledger =
    s.ledger + if s.activations.get g = none then -1 else 0 := by
  have h := OrderedDict.len_pop (d := s.activations) (k := g)
  unfold State.ledger State.fail State.modify
  dsimp only
  rw [← h]
  split_ifs <;> omega

theorem ledger_take (who : Remover) {g : GrainId} {a : ActId}
    (h : s.activations.get g = some a) : (s.take who g a).ledger = s.ledger + 1 := by
  have hlen := OrderedDict.len_pop (d := s.activations) (k := g)
  rw [if_neg (by rw [h]; exact nofun)] at hlen
  unfold State.ledger State.take
  dsimp only
  rw [← hlen]
  omega

theorem ledger_leave (c : CallId) (a : ActId) (o : Outcome) :
    (s.leave cfg c a o).ledger = s.ledger := by
  unfold State.ledger State.leave State.modify
  dsimp only
  split_ifs <;> simp

theorem ledger_cancel_all (τs : List TaskId) (s : State) :
    (τs.foldl State.cancel s).ledger = s.ledger := by
  obtain ⟨L, h⟩ := cancel_all_eq τs s
  rw [h]
  rfl

theorem ledger_startTimers (a : ActId) : (s.startTimers t a).ledger = s.ledger := by
  obtain ⟨L, timers, h⟩ := startTimers_eq (t := t) a s
  rw [h]
  rfl

theorem ledger_startBackground : (s.startBackground cfg t).ledger = s.ledger := by
  obtain ⟨L, sweeper, scanner, h⟩ := startBackground_eq cfg s t
  rw [h]
  rfl

/-- One event is logged and changes the ledger as it says, or neither changes. -/
def Charged (r : Resume Outcome) (s s' : State) : Prop :=
  s'.trace = s.trace ∧ s'.ledger = s.ledger ∨
    ∃ e, s'.trace = e :: s.trace ∧ s'.ledger = s.ledger + e.charge r

namespace Charged

variable {r : Resume Outcome} {g : GrainId} {a : ActId}

theorem silent (ht : s'.trace = s.trace) (hl : s'.ledger = s.ledger) : Charged r s s' :=
  .inl ⟨ht, hl⟩

/-- An event that charges nothing. -/
theorem free (e : Event) (he : e.charge r = 0) (ht : s'.trace = e :: s.trace)
    (hl : s'.ledger = s.ledger) : Charged r s s' :=
  .inr ⟨e, ht, by rw [hl, he, add_zero]⟩

theorem publish (grain : Grain) : Charged r s (s.publish g grain) :=
  .inr ⟨_, rfl, ledger_publish g grain⟩

theorem fail (e : Exc) : Charged r s (s.fail g a e) :=
  .inr ⟨_, rfl, ledger_fail g a e⟩

theorem activate : Charged r s (s.activate t g a) :=
  free (.activated g a) rfl (congrArg (List.cons _) (trace_startTimers a s)) (ledger_startTimers a)

theorem leave {s1 : State} {c : CallId} {o : Outcome} (ht : s1.trace = s.trace)
    (hl : s1.ledger = s.ledger) : Charged r s (s1.leave cfg c a o) :=
  free (.answered c a o (countedOutcome cfg s1 a o)) rfl (congrArg (List.cons _) ht)
    ((ledger_leave c a o).trans hl)

theorem take (who : Remover) (τs : List TaskId) (h : s.activations.get g = some a) :
    Charged r s (τs.foldl State.cancel (s.take who g a)) :=
  .inr ⟨_, trace_cancel_all _ _, (ledger_cancel_all _ _).trans (ledger_take who h)⟩

end Charged

/-- A segment logs one event and changes the ledger as that event says, or neither. -/
theorem exec_charged {c : Choice} {f : Frame} {r : Resume Outcome}
    (h : exec cfg s t c f r = some (s', n)) : Charged r s s' := by
  cases exec_effect h
  case publishes g grain o hbuild => exact .publish grain
  case failsReading g a e | fails g a e => exact .fail e
  case activates => exact .activate
  case forsakes | unlocks | leaves => exact .leave rfl rfl
  case takes who g a hentry => exact .take who _ hentry
  case counts =>
    exact .inr ⟨_, rfl, by simp [State.ledger, State.emit, Event.charge, Resume.caught]; omega⟩
  case countsRaised who g a e he =>
    exact .inr ⟨_, rfl, by simp [State.ledger, State.emit, Event.charge, Resume.caught, he]; omega⟩
  case breaks who g a e he =>
    exact .inr ⟨_, rfl, by simp [State.ledger, State.emit, Event.charge, Resume.caught, he]⟩
  case begins => exact .silent trace_startBackground ledger_startBackground
  all_goals
    first
      | exact .silent rfl rfl
      | exact .free _ rfl rfl rfl

/-- A step that runs nothing changes no account. -/
theorem ledger_other {l : Label} (hl : ∀ c, l ≠ .run c) (h : step cfg s l = some s') :
    s'.trace = s.trace ∧ s'.ledger = s.ledger := by
  obtain ⟨L, now, isMine, rfl⟩ := step_outside hl h
  exact ⟨rfl, rfl⟩

/-! ## The accounts -/

/-- The accounts balance. -/
def Balanced (s : State) : Prop :=
  s.activationsTotal = s.activations.len + s.failedActivations + s.deactivations +
    deactivations s.pending

theorem balanced_iff : Balanced s ↔ s.ledger = deactivations s.pending := by
  unfold Balanced State.ledger
  omega

theorem balanced_init (isMine : Option (GrainId → Bool)) : Balanced (.init isMine) := by
  rw [balanced_iff]
  exact (congrArg (fun P => (deactivations (Protocol.pending P) : ℤ)) (view_init isMine)).symm

/-- What keeps the accounts : an activation is entered where none stands, a failing one takes
an entry out, no timer task ends a `_deactivate`, and `except Exception` catches whatever
`deactivate` raises. -/
def State.Accounts (s : State) : Event → Prop
  | .published g _ _ => s.activations.get g = none
  | .failed g _ _ _ => s.activations.get g ≠ none
  | .abandoned .. => False
  | .deactivated .. => s.running.all fun x => x.2.caught
  | _ => True

instance {e : Event} : Decidable (s.Accounts e) :=
  decidableOr (match e with
    | .published .. => some (inferInstanceAs (Decidable (_ = _)))
    | .failed .. => some (inferInstanceAs (Decidable (_ ≠ _)))
    | .abandoned .. => some (.isFalse id)
    | .deactivated .. => some (inferInstanceAs (Decidable (_ = true)))
    | _ => none) (by cases e <;> simp [State.Accounts])

/-- An event keeps the accounts if it charges what it adds to the `_deactivate` in progress. -/
theorem accounts_iff {e : Event} {r : Resume Outcome} (hr : s.running = some (t, r))
    (h : s.view.Step e s'.view) : s.Accounts e ↔ e.charge r = e.deactivations := by
  cases e
  case published g a old =>
    have hold : old = s.activations.get g := by
      generalize hP : s'.view = P' at h
      cases h
      rfl
    subst hold
    simp [State.Accounts, Event.charge, Event.deactivations]
  case failed g a x popped =>
    have hpopped : popped = s.activations.get g := by
      generalize hP : s'.view = P' at h
      cases h
      rfl
    subst hpopped
    simp [State.Accounts, Event.charge, Event.deactivations]
  case deactivated who a =>
    simp [State.Accounts, hr, Event.charge, Event.deactivations]
  all_goals simp [State.Accounts, Event.charge, Event.deactivations]

/-- A step logs one event and changes the accounts as that event says, or neither. -/
theorem Reached.accounts_step {l : Label} (hI : Reached s) (h : Nigrains.step cfg s l = some s') :
    s'.trace = s.trace ∧ s'.ledger = s.ledger ∧ s'.view = s.view ∨
    ∃ t r e, s.running = some (t, r) ∧ s.view.Step e s'.view ∧
      s'.ledger = s.ledger + e.charge r := by
  have hview := hI.step_view h
  by_cases hl : ∃ c, l = .run c
  · obtain ⟨c, rfl⟩ := hl
    obtain ⟨t, r, f, rest, s1, n, hr, -, he, rfl⟩ := run_cases h
    rcases exec_charged he with ⟨htrace, hledger⟩ | ⟨e, htrace, hledger⟩
    · rcases hview with hv | ⟨e, hv⟩
      · exact .inl ⟨htrace, hledger, hv⟩
      · exact absurd (hv.trace.symm.trans htrace) (List.cons_ne_self e _)
    · rcases hview with hv | ⟨e', hv⟩
      · exact absurd (htrace.symm.trans (congrArg Protocol.trace hv)) (List.cons_ne_self e _)
      · obtain rfl : e = e' := (List.cons.inj (htrace.symm.trans hv.trace)).1
        exact .inr ⟨t, r, e, hr, hv, hledger⟩
  · obtain ⟨htrace, hledger⟩ := ledger_other (not_exists.1 hl) h
    rcases hview with hv | ⟨e, hv⟩
    · exact .inl ⟨htrace, hledger, hv⟩
    · exact absurd (hv.trace.symm.trans htrace) (List.cons_ne_self e _)

/-- A step keeps the balance exactly if what it logs keeps the accounts. -/
theorem Reached.balanced_step {l : Label} (hI : Reached s) (hB : Balanced s)
    (h : Nigrains.step cfg s l = some s') :
    Balanced s' ↔ Logs State.trace State.Accounts s s' := by
  rw [balanced_iff] at hB ⊢
  rcases hI.accounts_step h with ⟨htrace, hledger, hv⟩ | ⟨t, r, e, hr, hv, hledger⟩
  · have hpending : s'.pending = s.pending := congrArg Protocol.pending hv
    rw [hledger, hpending]
    exact iff_of_true hB (logs_of_eq htrace)
  · have hcount : (deactivations s'.pending : ℤ) = deactivations s.pending + e.deactivations :=
      hv.deactivations_eq
    have hlogs : Logs State.trace State.Accounts s s' ↔ s.Accounts e := logs_iff hv.trace
    rw [hlogs, accounts_iff hr hv, hledger, hcount, hB]
    exact add_right_inj _

/-- The accounts balance in every state of a run whose steps keep them, and the first step
that does not keep them puts them out of balance. -/
theorem balanced {isMine : Option (GrainId → Bool)}
    (h : Run (step cfg) (Logs State.trace State.Accounts) (.init isMine) s) :
    Balanced s ∧ ∀ l s', step cfg s l = some s' →
      (Balanced s' ↔ Logs State.trace State.Accounts s s') := by
  have hI := Run.reached h
  have hB : Reached s ∧ Balanced s := by
    refine h.invariant (I := fun s => Reached s ∧ Balanced s)
      ⟨reached_init isMine, balanced_init isMine⟩ ?_
    rintro s l s' ⟨hI, hB⟩ hl hok
    exact ⟨hI.step hl, (hI.balanced_step hB hl).2 hok⟩
  exact ⟨hB.2, fun l s' hl => hI.balanced_step hB.2 hl⟩

/-! ## Runs on fixed inputs -/

/-- An activation serves its call, is idle for long enough and is collected. -/
def collected : List Label :=
  [.arrive, .resume 0] ++ Label.invoke ⟨"counter", "x"⟩ ++ Label.serve ++
  [.clock 300, .run .collect] ++ Label.gos 4

/-- The accounts balance when a grain has been collected. -/
theorem balanced_collected : ∃ s : State, s.deactivations = 1 ∧ Balanced s := by
  obtain ⟨s, hrun, hp⟩ := exists_logged_run (.small none) none State.Accounts
    (collected ++ [Label.returns] ++ Label.gos 1) (fun s => decide (s.deactivations = 1))
    (by decide +kernel)
  exact ⟨s, of_decide_eq_true hp, (balanced hrun).1⟩

/-- The task that collects it is cancelled while the grain is in its `deactivate`. -/
def interruptedCollection : List Label :=
  collected ++ [.run .suspend, .cancel 0, .resume 0, .run (.finish (.error .cancelledError))] ++
  Label.gos 1

/-- One activation has been built, and it is neither held, nor failed, nor deactivated, nor
being deactivated. -/
theorem interruptedCollection_unbalanced : ∃ s : State,
    Run (step (.small none)) (fun _ _ => True) (.init none) s ∧
    s.activationsTotal = 1 ∧ s.activations.len = 0 ∧ s.failedActivations = 0 ∧
    s.deactivations = 0 ∧ deactivations s.pending = 0 ∧ ¬Balanced s := by
  obtain ⟨s, hrun, hp⟩ := exists_free_run (.small none) none interruptedCollection
    (fun s => decide (s.activationsTotal = 1 ∧ s.activations.len = 0 ∧ s.failedActivations = 0 ∧
      s.deactivations = 0 ∧ deactivations s.pending = 0)) (by decide +kernel)
  obtain ⟨htotal, hlen, hfailed, hdeactivations, hpending⟩ := of_decide_eq_true hp
  refine ⟨s, hrun, htotal, hlen, hfailed, hdeactivations, hpending, ?_⟩
  unfold Balanced
  omega

end

end Nigrains
