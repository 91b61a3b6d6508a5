import Nigrains.Scanning

/-!
# When a reminder is due that is asked for again

A grain asks for one reminder, always with the same interval, whenever it is activated, and never
cancels it. Its row is written by each ask, and by each scan that fires it. `Watched` follows a
fleet and notes what the clock read at the first ask, at the last firing and at the last write.

Every write puts the row off to one interval from then, so it is due one interval after the last
of them (`due_after_last`) : asking again moves the schedule. A grain that is activated more
often than its interval is never found due.
-/

namespace Nigrains

/-- A fleet, and what the clock has read when one of its reminders was written. -/
structure Watched where
  fleet : Fleet
  /-- At the first ask. -/
  first : Option Time
  /-- At the last firing. -/
  fired : Option Time
  /-- At the last ask or firing. -/
  last : Option Time

/-- What the clock reads if a label asks for the reminder. -/
def Fleet.asksAt (s : Fleet) (key : ReminderKey) : FleetLabel → Option Time
  | .every node grain name seconds =>
    if (grain, name) = key ∧ 0 < seconds then some (s.clock node) else none
  | _ => none

/-- What the clock reads if a label fires it. -/
def Fleet.firesAt (s : Fleet) (key : ReminderKey) : FleetLabel → Option Time
  | .walk i =>
    match (s.scans i).pc with
    | .walking (row :: _) =>
      if row.key = key ∧ s.isMine (s.scans i).node row.grain = some true then
        some (s.clock (s.scans i).node)
      else none
    | _ => none
  | _ => none

/-- Nobody writes the reminder but the grain that asks for it every `seconds`. -/
def FleetLabel.asksOnly (key : ReminderKey) (seconds : Time) : FleetLabel → Bool
  | .every _ grain name seconds' => (grain, name) = key → seconds' = seconds
  | .once _ grain name _ => (grain, name) ≠ key
  | .cancel grain name => (grain, name) ≠ key
  | .put reminder => reminder.key ≠ key
  | _ => true

namespace Watched

/-- Before anything has been asked for. -/
def init (isMine : NodeId → GrainId → Option Bool) : Watched :=
  ⟨.init isMine, none, none, none⟩

end Watched

/-- One step of a fleet in which a reminder is asked for every `seconds`. -/
def watchedStep (key : ReminderKey) (seconds : Time) (s : Watched) (l : FleetLabel) :
    Option Watched :=
  if l.asksOnly key seconds then
    (fleetStep s.fleet l).map fun fleet =>
      { fleet := fleet
        first := s.first.or (s.fleet.asksAt key l)
        fired := (s.fleet.firesAt key l).or s.fired
        last := ((s.fleet.asksAt key l).or (s.fleet.firesAt key l)).or s.last }
  else none

/-- What has been written last. -/
structure Watched.Scheduled (key : ReminderKey) (seconds : Time) (s : Watched) : Prop where
  filed : ∀ k row, s.fleet.reminders.rows.get k = some row → row.key = k
  unasked : s.last = none → s.fleet.reminders.rows.get key = none
  stored : ∀ t ∈ s.last, ∃ row, s.fleet.reminders.rows.get key = some row ∧
    row.interval = some seconds ∧ row.due = Double.add t seconds
  pending : ∀ i, ∀ row ∈ (s.fleet.scans i).pc.pending, row.key = key →
    row.interval = some seconds

variable {key : ReminderKey} {seconds : Time} {s s' : Watched}

theorem Watched.scheduled_init (key : ReminderKey) (seconds : Time)
    (isMine : NodeId → GrainId → Option Bool) : (Watched.init isMine).Scheduled key seconds where
  filed _ _ h := by cases h
  unasked _ := rfl
  stored _ h := by cases h
  pending _ _ h := by cases h

namespace Watched.Scheduled

variable {fleet : Fleet}

/-- What is not written stays, if nothing new is read. -/
theorem keep (hS : s.Scheduled key seconds)
    (hfiled : ∀ k row, s'.fleet.reminders.rows.get k = some row → row.key = k)
    (hget : s'.fleet.reminders.rows.get key = s.fleet.reminders.rows.get key)
    (hlast : s'.last = s.last)
    (hpending : ∀ i, ∀ row ∈ (s'.fleet.scans i).pc.pending, row.key = key →
      row.interval = some seconds) : s'.Scheduled key seconds where
  filed := hfiled
  unasked h := by rw [hget]; exact hS.unasked (hlast ▸ h)
  stored t ht := by rw [hget]; exact hS.stored t (hlast ▸ ht)
  pending := hpending

/-- A row of the reminder has its interval. -/
theorem interval (hS : s.Scheduled key seconds) {row : Row}
    (h : s.fleet.reminders.rows.get key = some row) : row.interval = some seconds := by
  cases hlast : s.last with
  | none =>
    rw [hS.unasked hlast] at h
    cases h
  | some t =>
    obtain ⟨row', hget, hinterval, -⟩ := hS.stored t hlast
    rw [h] at hget
    exact Option.some.inj hget ▸ hinterval

end Watched.Scheduled

/-- What a step is of the fleet, and what it notes. -/
theorem watchedStep_eq {l : FleetLabel} (h : watchedStep key seconds s l = some s') :
    l.asksOnly key seconds = true ∧ fleetStep s.fleet l = some s'.fleet ∧
      s'.last = ((s.fleet.asksAt key l).or (s.fleet.firesAt key l)).or s.last := by
  unfold watchedStep at h
  split_ifs at h with hl
  obtain ⟨fleet, hfleet, rfl⟩ := Option.map_eq_some_iff.1 h
  exact ⟨hl, hfleet, rfl⟩

theorem reschedule_of_interval {store : InMemoryReminderStore} {now interval : Time} {row : Row}
    (h : row.interval = some interval) :
    store.reschedule now row =
      store.put { row.toReminder with due := Double.add now interval } := by
  simp only [InMemoryReminderStore.reschedule, h]

theorem reschedule_of_once {store : InMemoryReminderStore} {now : Time} {row : Row}
    (h : row.interval = none) : store.reschedule now row = store.drop row.grain row.name := by
  simp only [InMemoryReminderStore.reschedule, h]

/-- A put files its reminder. -/
theorem filed_put {store : InMemoryReminderStore} {reminder : Reminder}
    (h : ∀ k row, store.rows.get k = some row → row.key = k) :
    ∀ k row, (store.put reminder).rows.get k = some row → row.key = k := by
  intro k row hget
  rw [InMemoryReminderStore.get_put] at hget
  split_ifs at hget with hk
  · obtain rfl := Option.some.inj hget
    exact hk.symm
  · exact h k row hget

/-- A removal files nothing. -/
theorem filed_drop {store : InMemoryReminderStore} {grain : GrainId} {name : String}
    (h : ∀ k row, store.rows.get k = some row → row.key = k) :
    ∀ k row, (store.drop grain name).rows.get k = some row → row.key = k := by
  intro k row hget
  rw [InMemoryReminderStore.get_drop] at hget
  split_ifs at hget
  exact h k row hget

/-- A scan that goes on has read nothing it had not read before. -/
theorem pending_setScan {fleet : Fleet} {i : ScanId} {scan : Scan}
    (h : scan.pc.pending <:+ (fleet.scans i).pc.pending) (j : ScanId) :
    ((fleet.setScan i scan).scans j).pc.pending <:+ (fleet.scans j).pc.pending := by
  by_cases hj : j = i
  · subst hj
    simpa [Fleet.setScan] using h
  · simp [Fleet.setScan, hj]

namespace Watched.Scheduled

variable (hS : s.Scheduled key seconds)

include hS

/-- A write of the reminder puts it off. -/
theorem puts (reminder : Reminder) {t : Time} (hkey : reminder.key = key)
    (hinterval : reminder.interval = some seconds) (hdue : reminder.due = Double.add t seconds)
    (hreminders : s'.fleet.reminders = s.fleet.reminders.put reminder) (hlast : s'.last = some t)
    (hpending : ∀ i, ∀ row ∈ (s'.fleet.scans i).pc.pending, row.key = key →
      row.interval = some seconds) : s'.Scheduled key seconds where
  filed := hreminders ▸ filed_put hS.filed
  unasked h := by rw [hlast] at h; cases h
  stored t' ht' := by
    obtain rfl : t = t' := by simpa [hlast] using ht'
    refine ⟨⟨reminder, s.fleet.reminders.written⟩, ?_, hinterval, hdue⟩
    rw [hreminders, InMemoryReminderStore.get_put, if_pos hkey.symm]
  pending := hpending

/-- A write of another one leaves it. -/
theorem putsOther (reminder : Reminder) (hkey : reminder.key ≠ key)
    (hreminders : s'.fleet.reminders = s.fleet.reminders.put reminder) (hlast : s'.last = s.last)
    (hpending : ∀ i, ∀ row ∈ (s'.fleet.scans i).pc.pending, row.key = key →
      row.interval = some seconds) : s'.Scheduled key seconds := by
  refine hS.keep (hreminders ▸ filed_put hS.filed) ?_ hlast hpending
  rw [hreminders, InMemoryReminderStore.get_put, if_neg (Ne.symm hkey)]

/-- So does a removal of another one. -/
theorem dropsOther {grain : GrainId} {name : String} (hkey : (grain, name) ≠ key)
    (hreminders : s'.fleet.reminders = s.fleet.reminders.drop grain name)
    (hlast : s'.last = s.last)
    (hpending : ∀ i, ∀ row ∈ (s'.fleet.scans i).pc.pending, row.key = key →
      row.interval = some seconds) : s'.Scheduled key seconds := by
  refine hS.keep (hreminders ▸ filed_drop hS.filed) ?_ hlast hpending
  rw [hreminders, InMemoryReminderStore.get_drop, if_neg (Ne.symm hkey)]

/-- The scans go on, and have read nothing they had not read before. -/
theorem moves (hreminders : s'.fleet.reminders = s.fleet.reminders)
    (hscans : ∀ i, (s'.fleet.scans i).pc.pending <:+ (s.fleet.scans i).pc.pending)
    (hlast : s'.last = s.last) : s'.Scheduled key seconds :=
  hS.keep (hreminders ▸ hS.filed) (by rw [hreminders]) hlast fun i row hrow =>
    hS.pending i row ((hscans i).subset hrow)

/-- A scan moves on, and writes nothing. -/
theorem moved {i : ScanId} {scan : Scan}
    (hfleet : some (s.fleet.setScan i scan) = some s'.fleet)
    (hscan : scan.pc.pending <:+ (s.fleet.scans i).pc.pending) (hlast : s'.last = s.last) :
    s'.Scheduled key seconds := by
  have hmoved := Option.some.inj hfleet
  refine hS.moves (by rw [← hmoved]; rfl) ?_ hlast
  rw [← hmoved]
  exact pending_setScan hscan

theorem step_every {node : NodeId} {grain : GrainId} {name : String} {seconds' : Time}
    (h : watchedStep key seconds s (.every node grain name seconds') = some s') :
    s'.Scheduled key seconds := by
  obtain ⟨hl, hfleet, hlast⟩ := watchedStep_eq h
  simp only [fleetStep, GrainReminders.every] at hfleet
  simp only [Fleet.asksAt, Fleet.firesAt] at hlast
  by_cases hpos : seconds' ≤ 0
  · rw [if_pos hpos] at hfleet
    rw [if_neg fun h => not_lt.2 hpos h.2] at hlast
    have hsame := Option.some.inj hfleet
    exact hS.keep (hsame ▸ hS.filed) (by rw [← hsame]) hlast (hsame ▸ hS.pending)
  · rw [if_neg hpos] at hfleet
    have hput := Option.some.inj hfleet
    have hpending : ∀ i, ∀ row ∈ (s'.fleet.scans i).pc.pending, row.key = key →
        row.interval = some seconds := by
      rw [← hput]
      exact hS.pending
    by_cases hkey : (grain, name) = key
    · obtain rfl : seconds' = seconds := by simpa [FleetLabel.asksOnly, hkey] using hl
      rw [if_pos ⟨hkey, not_le.1 hpos⟩] at hlast
      exact hS.puts ⟨grain, name, Double.add (s.fleet.clock node) seconds', some seconds'⟩ hkey rfl
        rfl
        (by rw [← hput]) hlast hpending
    · rw [if_neg fun h => hkey h.1] at hlast
      exact hS.putsOther ⟨grain, name, Double.add (s.fleet.clock node) seconds', some seconds'⟩ hkey
        (by rw [← hput]) hlast hpending

theorem step_walk {i : ScanId} (h : watchedStep key seconds s (.walk i) = some s') :
    s'.Scheduled key seconds := by
  obtain ⟨-, hfleet, hlast⟩ := watchedStep_eq h
  simp only [fleetStep, Fleet.walk] at hfleet
  simp only [Fleet.asksAt, Fleet.firesAt, Option.none_or] at hlast
  split_ifs at hfleet with hi
  split at hfleet
  · next hpc => exact hS.moved hfleet List.nil_suffix (by simpa [hpc] using hlast)
  · next row rest hpc =>
    simp only [hpc] at hlast
    have hrest : rest <:+ (s.fleet.scans i).pc.pending := by
      rw [hpc]
      exact List.suffix_cons row rest
    split at hfleet
    · next hmine => exact hS.moved hfleet List.nil_suffix (by simpa [hmine] using hlast)
    · next hmine => exact hS.moved hfleet hrest (by simpa [hmine] using hlast)
    · next hmine =>
      have hfired := Option.some.inj hfleet
      have hcalls : ∀ j, (s'.fleet.scans j).pc.pending <:+ (s.fleet.scans j).pc.pending := by
        rw [← hfired]
        exact pending_setScan hrest
      have hpending : ∀ j, ∀ row' ∈ (s'.fleet.scans j).pc.pending, row'.key = key →
          row'.interval = some seconds := fun j row' hrow' =>
        hS.pending j row' ((hcalls j).subset hrow')
      have hreminders : s'.fleet.reminders =
          s.fleet.reminders.reschedule (s.fleet.clock (s.fleet.scans i).node) row := by
        rw [← hfired]
        rfl
      by_cases hkey : row.key = key
      · have hinterval := hS.pending i row (by rw [hpc]; exact List.mem_cons_self) hkey
        rw [reschedule_of_interval hinterval] at hreminders
        exact hS.puts ⟨row.grain, row.name,
          Double.add (s.fleet.clock (s.fleet.scans i).node) seconds,
          row.interval⟩ hkey hinterval rfl hreminders (by simpa [hkey, hmine] using hlast) hpending
      · have hlast' : s'.last = s.last := by simpa [hkey] using hlast
        cases hinterval : row.interval with
        | none =>
          exact hS.dropsOther hkey (hreminders.trans (reschedule_of_once hinterval)) hlast' hpending
        | some interval =>
          rw [reschedule_of_interval hinterval] at hreminders
          exact hS.putsOther ⟨row.grain, row.name,
            Double.add (s.fleet.clock (s.fleet.scans i).node) interval, row.interval⟩ hkey
            hreminders hlast' hpending
  · cases hfleet

theorem step_once {node : NodeId} {grain : GrainId} {name : String} {seconds' : Time}
    (h : watchedStep key seconds s (.once node grain name seconds') = some s') :
    s'.Scheduled key seconds := by
  obtain ⟨hl, hfleet, hlast⟩ := watchedStep_eq h
  have hkey : (grain, name) ≠ key := by simpa [FleetLabel.asksOnly] using hl
  simp only [fleetStep, GrainReminders.once] at hfleet
  split_ifs at hfleet with hpos
  · have hsame := Option.some.inj hfleet
    exact hS.keep (hsame ▸ hS.filed) (by rw [← hsame]) hlast (hsame ▸ hS.pending)
  · have hput := Option.some.inj hfleet
    exact hS.putsOther ⟨grain, name, Double.add (s.fleet.clock node) seconds', none⟩ hkey
      (by rw [← hput])
      hlast (by rw [← hput]; exact hS.pending)

theorem step_scan {node : NodeId} (h : watchedStep key seconds s (.scan node) = some s') :
    s'.Scheduled key seconds := by
  obtain ⟨-, hfleet, hlast⟩ := watchedStep_eq h
  have hread := Option.some.inj hfleet
  refine hS.keep (by rw [← hread]; exact hS.filed) (by rw [← hread]; rfl) hlast ?_
  intro j row hrow hkey
  rw [← hread] at hrow
  by_cases hj : j = s.fleet.begun
  · -- the row is in the store
    obtain ⟨k, hget⟩ := InMemoryReminderStore.exists_get_of_due
      (by simpa [Fleet.read, Fleet.setScan, ScanAt.pending, hj] using hrow)
    have hfiled := hS.filed k row hget
    exact hS.interval (hkey ▸ hfiled ▸ hget)
  · exact hS.pending j row (by simpa [Fleet.read, Fleet.setScan, hj] using hrow) hkey

theorem step_start {i : ScanId} (h : watchedStep key seconds s (.start i) = some s') :
    s'.Scheduled key seconds := by
  obtain ⟨-, hfleet, hlast⟩ := watchedStep_eq h
  simp only [fleetStep, Fleet.start] at hfleet
  split_ifs at hfleet with hi
  split at hfleet
  · next row rest hpc =>
    have hmoved := Option.some.inj hfleet
    refine hS.moves (by rw [← hmoved]; rfl) ?_ hlast
    rw [← hmoved]
    exact pending_setScan (by rw [hpc]; exact List.suffix_refl _)
  · cases hfleet

theorem step_finish {i : ScanId} {raised : Option Exc}
    (h : watchedStep key seconds s (.finish i raised) = some s') :
    s'.Scheduled key seconds := by
  obtain ⟨-, hfleet, hlast⟩ := watchedStep_eq h
  simp only [fleetStep, Fleet.finish] at hfleet
  split_ifs at hfleet with hi hraised
  · split at hfleet
    · next row rest hpc => exact hS.moved hfleet (by rw [hpc]; exact List.suffix_refl _) hlast
    · next row rest hpc => exact hS.moved hfleet (by rw [hpc]; exact List.suffix_refl _) hlast
    · cases hfleet
  · split at hfleet
    · exact hS.moved hfleet List.nil_suffix hlast
    · exact hS.moved hfleet List.nil_suffix hlast
    · cases hfleet

theorem step {l : FleetLabel} (h : watchedStep key seconds s l = some s') :
    s'.Scheduled key seconds := by
  cases l with
  | every node grain name seconds' => exact hS.step_every h
  | walk i => exact hS.step_walk h
  | once node grain name seconds' => exact hS.step_once h
  | cancel grain name =>
    obtain ⟨hl, hfleet, hlast⟩ := watchedStep_eq h
    have hkey : (grain, name) ≠ key := by simpa [FleetLabel.asksOnly] using hl
    have hdrop := Option.some.inj hfleet
    exact hS.dropsOther hkey (by rw [← hdrop]; rfl) hlast (by rw [← hdrop]; exact hS.pending)
  | put reminder =>
    obtain ⟨hl, hfleet, hlast⟩ := watchedStep_eq h
    have hkey : reminder.key ≠ key := by simpa [FleetLabel.asksOnly] using hl
    have hput := Option.some.inj hfleet
    exact hS.putsOther reminder hkey (by rw [← hput]; rfl) hlast
      (by rw [← hput]; exact hS.pending)
  | scan node => exact hS.step_scan h
  | start i => exact hS.step_start h
  | finish i raised => exact hS.step_finish h
  | clock node seconds' =>
    obtain ⟨-, hfleet, hlast⟩ := watchedStep_eq h
    simp only [fleetStep] at hfleet
    split_ifs at hfleet
    have hturned := Option.some.inj hfleet
    exact hS.keep (by rw [← hturned]; exact hS.filed) (by rw [← hturned]) hlast
      (by rw [← hturned]; exact hS.pending)
  | membership isMine =>
    obtain ⟨-, hfleet, hlast⟩ := watchedStep_eq h
    have hregrouped := Option.some.inj hfleet
    exact hS.keep (by rw [← hregrouped]; exact hS.filed) (by rw [← hregrouped]) hlast
      (by rw [← hregrouped]; exact hS.pending)

end Watched.Scheduled

/-- A grain asks for one reminder, always with the same interval, and never cancels it. In any
sequence of asks and scans, its row is due one interval after the reading of the clock at the
last ask or firing, and is found from then on. -/
theorem due_after_last {isMine : NodeId → GrainId → Option Bool} {t : Time}
    (hrun : Run (watchedStep key seconds) (fun _ _ => True) (.init isMine) s)
    (hlast : s.last = some t) : ∃ row, s.fleet.reminders.rows.get key = some row ∧
      row.due = Double.add t seconds ∧
      ∀ now, row ∈ s.fleet.reminders.due now ↔ Double.add t seconds ≤ now := by
  have hS : s.Scheduled key seconds :=
    hrun.invariant (Watched.scheduled_init key seconds isMine) fun _ _ _ hS h _ => hS.step h
  obtain ⟨row, hget, -, hdue⟩ := hS.stored t hlast
  have hmem : row ∈ s.fleet.reminders.values := InMemoryReminderStore.mem_values.2 ⟨key, hget⟩
  refine ⟨row, hget, hdue, fun now => ?_⟩
  rw [InMemoryReminderStore.due, List.mem_filter, decide_eq_true_eq, hdue]
  exact and_iff_right hmem

/-- A digest that is asked for at 0, and asked for again at 5 when its grain is rebuilt. -/
def askedAgain : List FleetLabel :=
  [.every "a" ⟨"digest", "a"⟩ "send" 10, .clock "a" 5, .every "a" ⟨"digest", "a"⟩ "send" 10]

/-- It is due at 15. -/
theorem due_after_last_rebuilt : ∃ s row,
    Run (watchedStep (⟨"digest", "a"⟩, "send") 10) (fun _ _ => True)
      (.init fun _ _ => some true) s ∧ s.fleet.clock "a" = 5 ∧
    s.fleet.reminders.rows.get (⟨"digest", "a"⟩, "send") = some row ∧
    row.due = Double.add 5 10 := by
  obtain ⟨s, hrun, hs⟩ := exists_run_free (watchedStep (⟨"digest", "a"⟩, "send") 10)
    (.init fun _ _ => some true) askedAgain
    (fun s => decide (s.fleet.clock "a" = 5 ∧ s.last = some 5)) (by decide +kernel)
  obtain ⟨hclock, hlast⟩ := of_decide_eq_true hs
  obtain ⟨row, hget, hdue, -⟩ := due_after_last hrun hlast
  exact ⟨s, row, hrun, hclock, hget, hdue⟩

/-- So asking again postpones a schedule that has not fired. -/
theorem ask_postpones : ¬ ∀ (s : Watched) (row : Row) (t : Time),
    Run (watchedStep (⟨"digest", "a"⟩, "send") 10) (fun _ _ => True)
      (.init fun _ _ => some true) s →
    s.fleet.reminders.rows.get (⟨"digest", "a"⟩, "send") = some row →
    s.fired.or s.first = some t → row.due ≤ t + 10 := by
  intro h
  obtain ⟨s, hrun, hs⟩ := exists_run_free (watchedStep (⟨"digest", "a"⟩, "send") 10)
    (.init fun _ _ => some true) askedAgain
    (fun s => decide (s.fleet.reminders.rows.get (⟨"digest", "a"⟩, "send") =
      some ⟨⟨⟨"digest", "a"⟩, "send", 15, some 10⟩, 1⟩ ∧ s.fired.or s.first = some 0))
    (by decide +kernel)
  obtain ⟨hget, hbase⟩ := of_decide_eq_true hs
  exact absurd (h s _ 0 hrun hget hbase) (by decide +kernel)

end Nigrains
