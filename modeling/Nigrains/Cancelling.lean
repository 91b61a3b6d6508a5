import Nigrains.Scanning

/-!
# What a grain asked for

`wish` is what a grain has last asked for under a name, read off the log. A scan walks rows it
has read a while ago, and writes them back as they were : a row that its grain has cancelled
since, or asked for with another interval, comes back (`staleRow_fails`). As long as grains do
neither to a name of which some scan holds a row whose handler has not started, a scan acts
only on what the grain wishes (`obeyed`).
-/

namespace Nigrains

/-- The interval a grain has last asked for under a name, if it has not cancelled it since. -/
def wish (key : ReminderKey) : List ReminderEvent → Option (Option Time)
  | [] => none
  | .asked key' interval :: log => if key' = key then some interval else wish key log
  | .cancelled key' :: log => if key' = key then none else wish key log
  | _ :: log => wish key log

/-- Some scan holds a row of that name, and has not started its handler. -/
def Fleet.holds (s : Fleet) (key : ReminderKey) : Prop :=
  ∃ i < s.begun, ∃ row ∈ (s.scans i).pc.unstarted, row.key = key

instance {s : Fleet} {key : ReminderKey} : Decidable (s.holds key) :=
  inferInstanceAs (Decidable (∃ i < s.begun, ∃ row ∈ (s.scans i).pc.unstarted, row.key = key))

/-- A grain cancels a name, or changes its interval, only while no scan holds a row of it. -/
def Undisturbed (s : Fleet) : ReminderEvent → Prop
  | .asked key interval => wish key s.log = some interval ∨ ¬s.holds key
  | .cancelled key => ¬s.holds key
  | _ => True

instance {s : Fleet} {e : ReminderEvent} : Decidable (Undisturbed s e) :=
  decidableOr (match e with
    | .asked .. => some (inferInstanceAs (Decidable (_ ∨ ¬s.holds _)))
    | .cancelled key => some (inferInstanceAs (Decidable ¬s.holds key))
    | _ => none) (by cases e <;> simp [Undisturbed])

/-- No scan has undone what a grain asked for. -/
structure Obeyed (s : Fleet) : Prop where
  /-- What is cancelled is not in the store. -/
  gone : ∀ key, wish key s.log = none → s.reminders.rows.get key = none
  /-- A handler starts only under a name its grain has asked for. -/
  started : ∀ post row log, s.log = post ++ .started row :: log → (wish row.key log).isSome = true
  /-- A row is moved on, or dropped, only with the interval its grain has asked for. -/
  called : ∀ post row log, s.log = post ++ .called row :: log → wish row.key log = some row.interval

/-- Rows are as their grains wish. -/
structure Wished (s : Fleet) : Prop where
  stored : ∀ key row, s.reminders.rows.get key = some row →
    row.key = key ∧ wish key s.log = some row.interval
  held : ∀ i < s.begun, ∀ row ∈ (s.scans i).pc.unstarted, wish row.key s.log = some row.interval
  obeyed : Obeyed s

variable {s s' : Fleet}

theorem wished_init (isMine : NodeId → GrainId → Option Bool) : Wished (.init isMine) where
  stored _ _ h := by cases h
  held _ h := by cases h
  obeyed := by
    refine ⟨fun _ _ => rfl, fun post row log h => ?_, fun post row log h => ?_⟩ <;>
    · cases post <;> cases h

/-- What is in the store is wished for, so what is not wished for is not in the store. -/
theorem gone_of_stored
    (h : ∀ key row, s.reminders.rows.get key = some row →
      row.key = key ∧ wish key s.log = some row.interval)
    (key : ReminderKey) (hkey : wish key s.log = none) : s.reminders.rows.get key = none := by
  cases hrow : s.reminders.rows.get key with
  | none => rfl
  | some row =>
    rw [(h key row hrow).2] at hkey
    cases hkey

/-- Where an entry of a log with a new entry stands. -/
theorem split_cons {α : Type*} {e e' : α} {log post pre : List α}
    (h : e :: log = post ++ e' :: pre) :
    (e = e' ∧ log = pre) ∨ ∃ post', log = post' ++ e' :: pre := by
  cases post with
  | nil => exact .inl (List.cons.inj h)
  | cons _ post => exact .inr ⟨post, (List.cons.inj h).2⟩

/-- What has been obeyed stays so, and with it a new entry if that is. -/
theorem Obeyed.cons {e : ReminderEvent} (h : Obeyed s) (hlog : s'.log = e :: s.log)
    (hgone : ∀ key, wish key s'.log = none → s'.reminders.rows.get key = none)
    (hstarted : ∀ row, e = .started row → (wish row.key s.log).isSome = true)
    (hcalled : ∀ row, e = .called row → wish row.key s.log = some row.interval) : Obeyed s' where
  gone := hgone
  started post row log hs := by
    rw [hlog] at hs
    rcases split_cons hs with ⟨rfl, rfl⟩ | ⟨post', hpost⟩
    · exact hstarted row rfl
    · exact h.started post' row log hpost
  called post row log hs := by
    rw [hlog] at hs
    rcases split_cons hs with ⟨rfl, rfl⟩ | ⟨post', hpost⟩
    · exact hcalled row rfl
    · exact h.called post' row log hpost

/-- A scan that moves on holds no new rows. -/
theorem unstarted_setScan {i : ScanId} (scan : Scan)
    (h : scan.pc.unstarted ⊆ (s.scans i).pc.unstarted) (u : ScanId) :
    ((s.setScan i scan).scans u).pc.unstarted ⊆ (s.scans u).pc.unstarted := by
  by_cases hui : u = i
  · subst hui
    simpa [Fleet.setScan] using h
  · simp [Fleet.setScan, Function.update_of_ne hui]

namespace Wished

variable {i : ScanId} {row : Row} {rest : List Row} (hW : Wished s)

include hW

theorem asks {reminder : Reminder} (hok : Logs Fleet.log Undisturbed s (s.ask reminder)) :
    Wished (s.ask reminder) := by
  have hstored : ∀ key row, (s.ask reminder).reminders.rows.get key = some row →
      row.key = key ∧ wish key (s.ask reminder).log = some row.interval := by
    intro key row hrow
    simp only [Fleet.ask, InMemoryReminderStore.get_put] at hrow
    split_ifs at hrow with hkey
    · obtain rfl := Option.some.inj hrow
      exact ⟨hkey.symm, by simp [Fleet.ask, wish, hkey]⟩
    · simpa [Fleet.ask, wish, Ne.symm hkey] using hW.stored key row hrow
  refine ⟨hstored, fun i hi row hrow => ?_, hW.obeyed.cons rfl (gone_of_stored hstored)
    (fun _ h => by cases h) (fun _ h => by cases h)⟩
  have hwish := hW.held i hi row hrow
  simp only [Fleet.ask, wish]
  split_ifs with hkey
  · -- a row of the name is held, so its interval stays
    rcases hok (.asked reminder.key reminder.interval) rfl with hsame | hfree
    · rw [← hsame, hkey, hwish]
    · exact (hfree ⟨i, hi, row, hrow, hkey.symm⟩).elim
  · exact hwish

theorem cancels {grain : GrainId} {name : String}
    (hok : Logs Fleet.log Undisturbed s (s.cancel grain name)) : Wished (s.cancel grain name) := by
  have hstored : ∀ key row, (s.cancel grain name).reminders.rows.get key = some row →
      row.key = key ∧ wish key (s.cancel grain name).log = some row.interval := by
    intro key row hrow
    simp only [Fleet.cancel, InMemoryReminderStore.get_drop] at hrow
    split_ifs at hrow with hkey
    simpa [Fleet.cancel, wish, Ne.symm hkey] using hW.stored key row hrow
  refine ⟨hstored, fun i hi row hrow => ?_, hW.obeyed.cons rfl (gone_of_stored hstored)
    (fun _ h => by cases h) (fun _ h => by cases h)⟩
  have hne : (grain, name) ≠ row.key := fun hkey =>
    hok (.cancelled (grain, name)) rfl ⟨i, hi, row, hrow, hkey.symm⟩
  simpa [Fleet.cancel, wish, hne] using hW.held i hi row hrow

theorem reads (node : NodeId) : Wished (s.read node) := by
  refine ⟨hW.stored, fun i hi row hrow => ?_, hW.obeyed.cons rfl (gone_of_stored hW.stored)
    (fun _ h => by cases h) (fun _ h => by cases h)⟩
  by_cases hnew : i = s.begun
  · subst hnew
    simp only [Fleet.read, Fleet.setScan, Function.update_self, ScanAt.unstarted,
      ScanAt.pending] at hrow
    obtain ⟨key, hget⟩ := InMemoryReminderStore.exists_get_of_due hrow
    obtain ⟨rfl, hwish⟩ := hW.stored key row hget
    exact hwish
  · have hlt : i < s.begun := lt_of_le_of_ne (Nat.lt_succ_iff.1 hi) hnew
    simp only [Fleet.read, Fleet.setScan, Function.update_of_ne hnew] at hrow
    exact hW.held i hlt row hrow

theorem fires (hi : i < s.begun) (hpc : (s.scans i).pc = .walking (row :: rest)) :
    Wished (s.fire i row rest) := by
  have hrow : wish row.key s.log = some row.interval :=
    hW.held i hi row (by rw [hpc]; exact List.mem_cons_self)
  have hstored : ∀ key row', (s.fire i row rest).reminders.rows.get key = some row' →
      row'.key = key ∧ wish key (s.fire i row rest).log = some row'.interval := by
    intro key row' hget
    rcases get_reschedule hget with ⟨rfl, hkey, hinterval, -⟩ | ⟨-, hold⟩
    · exact ⟨hkey, hinterval ▸ hrow⟩
    · exact hW.stored key row' hold
  refine ⟨hstored, fun u hu row' hrow' => hW.held u hu row' ?_,
    hW.obeyed.cons rfl (gone_of_stored hstored) (fun _ h => by cases h)
    (fun _ h => by cases h; exact hrow)⟩
  exact unstarted_setScan { s.scans i with pc := .calling row rest }
    (by rw [hpc]; exact List.Subset.refl _) u hrow'

theorem starts (hi : i < s.begun) (hpc : (s.scans i).pc = .calling row rest) :
    Wished { s.setPc i (.handling row rest) with log := .started row :: s.log } := by
  have hrow : wish row.key s.log = some row.interval :=
    hW.held i hi row (by rw [hpc]; exact List.mem_cons_self)
  refine ⟨hW.stored, fun u hu row' hrow' => hW.held u hu row' ?_,
    hW.obeyed.cons rfl (gone_of_stored hW.stored)
    (fun _ h => by cases h; rw [hrow]; rfl) (fun _ h => by cases h)⟩
  exact unstarted_setScan { s.scans i with pc := .handling row rest }
    (by rw [hpc]; exact List.subset_cons_self row rest) u hrow'

theorem step (h : FleetStep s s') (hok : Logs Fleet.log Undisturbed s s') : Wished s' := by
  cases h with
  | asks reminder => exact hW.asks hok
  | cancels grain name => exact hW.cancels hok
  | reads node => exact hW.reads node
  | fires i row rest hi hpc hmine => exact hW.fires hi hpc
  | starts i row rest hi hpc => exact hW.starts hi hpc
  | moves i scan hi hnode hpending hunstarted =>
    exact ⟨hW.stored, fun u hu row hrow =>
      hW.held u hu row (unstarted_setScan scan hunstarted.subset u hrow),
      ⟨hW.obeyed.gone, hW.obeyed.started, hW.obeyed.called⟩⟩
  | regroups isMine =>
    exact ⟨hW.stored, hW.held, hW.obeyed.cons rfl (gone_of_stored hW.stored)
      (fun _ h => by cases h) (fun _ h => by cases h)⟩
  | turns clock =>
    exact ⟨hW.stored, hW.held, ⟨hW.obeyed.gone, hW.obeyed.started, hW.obeyed.called⟩⟩

end Wished

/-- While grains cancel names, and change their intervals, only when no scan holds a row of
them : no scan puts back what a grain has cancelled, or starts its handler, and none writes another
interval than its grain has last asked for. A scan that has read a reminder asked for once still
drops it if it has been asked for once more since. -/
theorem obeyed {isMine : NodeId → GrainId → Option Bool}
    (h : Run fleetStep (Logs Fleet.log Undisturbed) (.init isMine) s) : Obeyed s :=
  (h.invariant (I := Wished) (wished_init _) fun _ _ _ hW hl hok =>
    hW.step (fleetStep_cases hl) hok).obeyed

/-! ## Runs on fixed inputs -/

/-- A runtime alone : everything is its own. -/
def ownsAll : NodeId → GrainId → Option Bool :=
  fun _ _ => some true

/-- A grain with two reminders, both due, one of whose handlers has started. -/
def firstOfTwo : List FleetLabel :=
  [.every "" ⟨"digest", "a"⟩ "one" 10, .every "" ⟨"digest", "a"⟩ "two" 10, .clock "" 10,
    .scan "", .walk 0, .start 0]

/-- A grain cancels the second once its handler has started. -/
theorem obeyed_inTurn : ∃ s, s.log.head? = some (.cancelled (⟨"digest", "a"⟩, "two")) ∧
    s.log.length = 8 ∧ Obeyed s := by
  obtain ⟨s, hrun, hp⟩ := exists_run fleetStep _ (logs_of_check Fleet.log Undisturbed)
    (.init ownsAll) (firstOfTwo ++
      [.finish 0 none, .walk 0, .start 0, .cancel ⟨"digest", "a"⟩ "two"])
    (fun s : Fleet => decide (s.log.head? = some (.cancelled (⟨"digest", "a"⟩, "two")) ∧
      s.log.length = 8)) (by decide +kernel)
  obtain ⟨hhead, hlen⟩ := of_decide_eq_true hp
  exact ⟨s, hhead, hlen, obeyed hrun⟩

/-- The handler of the first cancels the second, which the scan has read already. -/
theorem staleRow_fails : ∃ s row,
    Run fleetStep (fun _ _ => True) (.init ownsAll) s ∧
    wish (⟨"digest", "a"⟩, "two") s.log = none ∧
    s.reminders.rows.get (⟨"digest", "a"⟩, "two") =
      some ⟨⟨⟨"digest", "a"⟩, "two", 20, some 10⟩, 3⟩ ∧
    s.log.head? = some (.started row) ∧ row.key = (⟨"digest", "a"⟩, "two") := by
  obtain ⟨s, hrun, hp⟩ := exists_run_free fleetStep (.init ownsAll) (firstOfTwo ++
      [.cancel ⟨"digest", "a"⟩ "two", .finish 0 none, .walk 0, .start 0])
    (fun s : Fleet => decide (wish (⟨"digest", "a"⟩, "two") s.log = none ∧
      s.reminders.rows.get (⟨"digest", "a"⟩, "two") =
        some ⟨⟨⟨"digest", "a"⟩, "two", 20, some 10⟩, 3⟩ ∧
      s.log.head? = some (.started ⟨⟨⟨"digest", "a"⟩, "two", 10, some 10⟩, 1⟩)))
    (by decide +kernel)
  obtain ⟨hwish, hrow, hhead⟩ := of_decide_eq_true hp
  exact ⟨s, _, hrun, hwish, hrow, hhead, rfl⟩

end Nigrains
