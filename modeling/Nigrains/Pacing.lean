import Nigrains.Rounds

/-!
# How often a reminder fires

`Paced` keeps beside a fleet when each reminder has fired last, unless somebody has asked for it
since. A scan writes the next occurrence down before it calls the grain, one interval from then on
the clock of its node, and drops the row of a reminder that was asked for once. The row that fires
next has been read after that : one scan at a time walks the rows of a node, and nobody else fires
them. So nothing fires before it is due, and a reminder that nobody has asked for again fires at
most once an interval, as floats count it, or never again (`paced`).
-/

namespace Nigrains

/-- A fleet, and when a reminder has fired last and with which interval, if nobody has asked for it
since. -/
structure Paced where
  fleet : Fleet
  last : ReminderKey → Option (Time × Option Time)

/-- The reminder a label asks for. -/
def FleetLabel.asks : FleetLabel → Option ReminderKey
  | .every _ grain name seconds => if 0 < seconds then some (grain, name) else none
  | .once _ grain name seconds => if 0 < seconds then some (grain, name) else none
  | .put reminder => some reminder.key
  | _ => none

/-- The membership does not change, and a scan begins when no other one is under way on its node. -/
def Fleet.inTurn (s : Fleet) : FleetLabel → Bool
  | .scan node => decide (∀ i < s.begun, (s.scans i).node = node → (s.scans i).pc = .ended)
  | .membership _ => false
  | _ => true

namespace Paced

/-- Before anything has been asked for. -/
def init (owner : GrainId → NodeId) : Paced :=
  ⟨.init (agreed owner), fun _ => none⟩

/-- What is noted of a label. -/
def noted (s : Paced) (l : FleetLabel) : ReminderKey → Option (Time × Option Time) :=
  match s.fleet.firing l, l.asks with
  | some f, _ => Function.update s.last f.row.key (some (f.at_, f.row.interval))
  | none, some key => Function.update s.last key none
  | none, none => s.last

end Paced

/-- Since a reminder fired last it has rested for its interval, as floats add it to the clock. -/
def Rested (last : ReminderKey → Option (Time × Option Time)) (key : ReminderKey) (now : Time) :
    Prop :=
  ∀ t interval, last key = some (t, interval) → ∃ seconds, interval = some seconds ∧
    Double.add t seconds ≤ now

/-- One step of a fleet whose nodes scan one at a time. -/
def pacedStep (s : Paced) (l : FleetLabel) : Option Paced :=
  if s.fleet.inTurn l then (fleetStep s.fleet l).map fun fleet => ⟨fleet, s.noted l⟩ else none

/-- What is in the store, or has been read and is still to fire, is of a reminder that will have
rested by then. -/
structure Pacing (owner : GrainId → NodeId) (s : Paced) : Prop where
  owned : s.fleet.isMine = agreed owner
  filed : s.fleet.reminders.Filed
  one : ∀ i < s.fleet.begun, ∀ j < s.fleet.begun, i ≠ j →
    (s.fleet.scans i).node = (s.fleet.scans j).node →
      (s.fleet.scans i).pc = .ended ∨ (s.fleet.scans j).pc = .ended
  nodup : ∀ i < s.fleet.begun, ((s.fleet.scans i).pc.pending.map fun row => row.key).Nodup
  read : ∀ i < s.fleet.begun, ∀ row ∈ (s.fleet.scans i).pc.pending,
    row.due ≤ s.fleet.clock (s.fleet.scans i).node
  stored : ∀ key row, s.fleet.reminders.rows.get key = some row → Rested s.last key row.due
  pending : ∀ i < s.fleet.begun, ∀ row ∈ (s.fleet.scans i).pc.pending,
    owner row.grain = (s.fleet.scans i).node →
      Rested s.last row.key (s.fleet.clock (s.fleet.scans i).node)

section

variable {owner : GrainId → NodeId} {s s' : Paced}

theorem pacing_init (owner : GrainId → NodeId) : Pacing owner (.init owner) where
  owned := rfl
  filed _ _ h := by cases h
  one _ h := by cases h
  nodup _ h := by cases h
  read _ h := by cases h
  stored _ _ h := by cases h
  pending _ h := by cases h

section

variable {last : ReminderKey → Option (Time × Option Time)} {key key' : ReminderKey}
  {now now' : Time} {x : Option (Time × Option Time)}

/-- A reminder rests on. -/
theorem Rested.mono (h : Rested last key now) (hle : now ≤ now') : Rested last key now' := by
  intro t interval hlast
  obtain ⟨seconds, hseconds, hnow⟩ := h t interval hlast
  exact ⟨seconds, hseconds, hnow.trans hle⟩

theorem rested_update_of_ne (h : key ≠ key') :
    Rested (Function.update last key' x) key now ↔ Rested last key now := by
  unfold Rested
  rw [Function.update_of_ne h]

/-- What has not fired since it was asked for need not rest. -/
theorem rested_update_none : Rested (Function.update last key none) key now := by
  intro t interval hlast
  rw [Function.update_self] at hlast
  cases hlast

end

/-- What is due is of different reminders. -/
theorem nodup_keys_due {store : InMemoryReminderStore} (hfiled : store.Filed) (before : Time) :
    ((store.due before).map fun row => row.key).Nodup := by
  refine List.Nodup.map_on (fun row hrow row' hrow' hkey => ?_) (nodup_due before hfiled)
  have hget := get_of_due hfiled hrow
  rw [hkey, get_of_due hfiled hrow'] at hget
  exact (Option.some.inj hget).symm

/-- A reschedule files what it writes under its key. -/
theorem filed_reschedule {store : InMemoryReminderStore} (hfiled : store.Filed) (now : Time)
    (row : Row) : (store.reschedule now row).Filed := by
  cases hinterval : row.interval with
  | none =>
    rw [reschedule_of_once hinterval]
    exact filed_drop hfiled
  | some interval =>
    rw [reschedule_of_interval hinterval]
    exact filed_put hfiled

/-- What a firing leaves of its reminder will have rested when it is due. -/
theorem rested_reschedule {store : InMemoryReminderStore} {now : Time} {row row' : Row}
    {last : ReminderKey → Option (Time × Option Time)}
    (h : (store.reschedule now row).rows.get row.key = some row') :
    Rested (Function.update last row.key (some (now, row.interval))) row.key row'.due := by
  intro t interval hlast
  rw [Function.update_self] at hlast
  cases hlast
  have hmoved : Firing.Moved ⟨0, row, now⟩ (store.reschedule now row) := moved_reschedule _
  unfold Firing.Moved at hmoved
  cases hinterval : row.interval with
  | none =>
    simp only [hinterval] at hmoved
    rw [hmoved] at h
    cases h
  | some seconds =>
    simp only [hinterval] at hmoved
    obtain ⟨row'', hget, hrow⟩ := hmoved
    rw [hget] at h
    obtain rfl := Option.some.inj h
    exact ⟨seconds, rfl, (congrArg Reminder.due hrow).ge⟩

/-- Asking for a reminder forgets when it fired. -/
theorem noted_of_asks {l : FleetLabel} {key : ReminderKey} (hfiring : s.fleet.firing l = none)
    (hasks : l.asks = some key) : s.noted l = Function.update s.last key none := by
  unfold Paced.noted
  rw [hfiring, hasks]

theorem noted_eq_last {l : FleetLabel} (hfiring : s.fleet.firing l = none)
    (hasks : l.asks = none) : s.noted l = s.last := by
  unfold Paced.noted
  rw [hfiring, hasks]

/-- What a step is of the fleet, and what it notes. -/
theorem pacedStep_eq {l : FleetLabel} (h : pacedStep s l = some s') : s.fleet.inTurn l = true ∧
    ∃ fleet, fleetStep s.fleet l = some fleet ∧ s' = ⟨fleet, s.noted l⟩ := by
  unfold pacedStep at h
  split_ifs at h with hturn
  obtain ⟨fleet, hfleet, rfl⟩ := Option.map_eq_some_iff.1 h
  exact ⟨hturn, fleet, hfleet, rfl⟩

namespace Pacing

variable (hP : Pacing owner s)

include hP

/-- A scan goes on, and has read nothing it had not read before. -/
theorem moved {i : ScanId} {scan : Scan} (log : List ReminderEvent)
    (hnode : scan.node = (s.fleet.scans i).node)
    (hpending : scan.pc.pending <:+ (s.fleet.scans i).pc.pending)
    (hended : (s.fleet.scans i).pc = .ended → scan.pc = .ended) :
    Pacing owner ⟨{ s.fleet.setScan i scan with log := log }, s.last⟩ := by
  have hscans : ∀ j, ((s.fleet.setScan i scan).scans j).node = (s.fleet.scans j).node ∧
      ((s.fleet.setScan i scan).scans j).pc.pending <:+ (s.fleet.scans j).pc.pending ∧
      ((s.fleet.scans j).pc = .ended → ((s.fleet.setScan i scan).scans j).pc = .ended) := by
    intro j
    show (Function.update s.fleet.scans i scan j).node = _ ∧
      (Function.update s.fleet.scans i scan j).pc.pending <:+ _ ∧
      (_ → (Function.update s.fleet.scans i scan j).pc = _)
    by_cases hj : j = i
    · subst hj
      rw [Function.update_self]
      exact ⟨hnode, hpending, hended⟩
    · rw [Function.update_of_ne hj]
      exact ⟨rfl, List.suffix_rfl, id⟩
  exact {
    owned := hP.owned
    filed := hP.filed
    one := fun j hj k hk hjk hsame => by
      rw [(hscans j).1, (hscans k).1] at hsame
      exact (hP.one j hj k hk hjk hsame).imp (hscans j).2.2 (hscans k).2.2
    nodup := fun j hj => (hP.nodup j hj).sublist ((hscans j).2.1.sublist.map _)
    read := fun j hj row hrow => by
      rw [(hscans j).1]
      exact hP.read j hj row ((hscans j).2.1.subset hrow)
    stored := hP.stored
    pending := fun j hj row hrow howner => by
      rw [(hscans j).1] at howner ⊢
      exact hP.pending j hj row ((hscans j).2.1.subset hrow) howner }

/-- A reminder is asked for. -/
theorem asked (reminder : Reminder) : Pacing owner
    ⟨s.fleet.ask reminder, Function.update s.last reminder.key none⟩ := by
  have hrested : ∀ key now, (key ≠ reminder.key → Rested s.last key now) →
      Rested (Function.update s.last reminder.key none) key now := by
    intro key now h
    by_cases hkey : key = reminder.key
    · rw [hkey]
      exact rested_update_none
    · exact (rested_update_of_ne hkey).2 (h hkey)
  exact {
    owned := hP.owned
    filed := filed_put hP.filed
    one := hP.one
    nodup := hP.nodup
    read := hP.read
    stored := fun key row hrow => hrested key _ fun hkey => by
      have hrow := InMemoryReminderStore.get_put.symm.trans hrow
      rw [if_neg hkey] at hrow
      exact hP.stored key row hrow
    pending := fun i hi row hrow howner =>
      hrested row.key _ fun _ => hP.pending i hi row hrow howner }

/-- A reminder is cancelled. -/
theorem cancelled (grain : GrainId) (name : String) :
    Pacing owner ⟨s.fleet.cancel grain name, s.last⟩ :=
  { hP with
    filed := filed_drop hP.filed
    stored := fun key row hrow => by
      have hrow := InMemoryReminderStore.get_drop.symm.trans hrow
      split_ifs at hrow
      exact hP.stored key row hrow }

/-- A clock advances. -/
theorem ticked {clock : NodeId → Time} (h : ∀ n, s.fleet.clock n ≤ clock n) :
    Pacing owner ⟨{ s.fleet with clock := clock }, s.last⟩ :=
  { hP with
    read := fun i hi row hrow => (hP.read i hi row hrow).trans (h _)
    pending := fun i hi row hrow howner => (hP.pending i hi row hrow howner).mono (h _) }

/-- A scan reads what is due, while no other one is under way on its node. -/
theorem reads {node : NodeId}
    (hturn : ∀ i < s.fleet.begun, (s.fleet.scans i).node = node → (s.fleet.scans i).pc = .ended) :
    Pacing owner ⟨s.fleet.read node, s.last⟩ := by
  have hself : (s.fleet.read node).scans s.fleet.begun =
      ⟨node, .walking (s.fleet.reminders.due (s.fleet.clock node)), 0⟩ := Function.update_self ..
  have hother : ∀ i < s.fleet.begun, (s.fleet.read node).scans i = s.fleet.scans i :=
    fun i hi => Function.update_of_ne hi.ne _ _
  have hcases : ∀ i < s.fleet.begun + 1, i < s.fleet.begun ∨ i = s.fleet.begun := fun i hi =>
    Nat.lt_succ_iff_lt_or_eq.1 hi
  exact {
    owned := hP.owned
    filed := hP.filed
    one := fun i hi j hj hij hsame => by
      rcases hcases i hi with hi | rfl <;> rcases hcases j hj with hj | rfl
      · rw [hother i hi, hother j hj] at hsame ⊢
        exact hP.one i hi j hj hij hsame
      · rw [hother i hi, hself] at hsame
        rw [hother i hi]
        exact .inl (hturn i hi hsame)
      · rw [hother j hj, hself] at hsame
        rw [hother j hj]
        exact .inr (hturn j hj hsame.symm)
      · exact absurd rfl hij
    nodup := fun i hi => by
      rcases hcases i hi with hi | rfl
      · rw [hother i hi]
        exact hP.nodup i hi
      · rw [hself]
        exact nodup_keys_due hP.filed _
    read := fun i hi row hrow => by
      rcases hcases i hi with hi | rfl
      · rw [hother i hi] at hrow ⊢
        exact hP.read i hi row hrow
      · rw [hself] at hrow ⊢
        exact of_decide_eq_true (List.mem_filter.1 hrow).2
    stored := hP.stored
    pending := fun i hi row hrow howner => by
      rcases hcases i hi with hi | rfl
      · rw [hother i hi] at hrow howner ⊢
        exact hP.pending i hi row hrow howner
      · rw [hself] at hrow ⊢
        have hget := get_of_due hP.filed hrow
        exact (hP.stored _ row hget).mono (of_decide_eq_true (List.mem_filter.1 hrow).2) }

/-- A scan fires a row : the next occurrence comes an interval later. -/
theorem fires {i : ScanId} {row : Row} {rest : List Row} (hi : i < s.fleet.begun)
    (hpc : (s.fleet.scans i).pc = .walking (row :: rest))
    (hmine : owner row.grain = (s.fleet.scans i).node) :
    Pacing owner ⟨s.fleet.fire i row rest, Function.update s.last row.key
      (some (s.fleet.clock (s.fleet.scans i).node, row.interval))⟩ := by
  have hM : Pacing owner ⟨{ s.fleet.setScan i { s.fleet.scans i with pc := .calling row rest }
      with log := .called row :: s.fleet.log }, s.last⟩ :=
    hP.moved (.called row :: s.fleet.log) rfl (by rw [hpc]; exact List.suffix_cons row rest)
      (by rw [hpc]; exact fun h => by cases h)
  -- nobody else has read the row, who would fire it
  have hgone : ∀ j < s.fleet.begun, ∀ row' ∈ ((s.fleet.fire i row rest).scans j).pc.pending,
      owner row'.grain = ((s.fleet.fire i row rest).scans j).node → row'.key ≠ row.key := by
    intro j hj row' hrow' howner hkey
    by_cases hji : j = i
    · subst hji
      rw [scans_fire_self] at hrow'
      have hnodup := hP.nodup j hj
      rw [hpc] at hnodup
      exact (List.nodup_cons.1 hnodup).1 (List.mem_map.2 ⟨row', hrow', hkey⟩)
    · rw [scans_fire_ne hji] at hrow' howner
      have hgrain : row'.grain = row.grain := congrArg Prod.fst hkey
      rw [hgrain, hmine] at howner
      rcases hP.one i hi j hj (Ne.symm hji) howner with hend | hend
      · rw [hpc] at hend
        cases hend
      · rw [hend] at hrow'
        cases hrow'
  exact { hM with
    filed := filed_reschedule hP.filed _ row
    stored := fun key row' hrow' => by
      by_cases hkey : key = row.key
      · subst hkey
        exact rested_reschedule hrow'
      · rw [rested_update_of_ne hkey]
        exact hP.stored key row' ((get_reschedule_of_ne hkey).symm.trans hrow')
    pending := fun j hj row' hrow' howner => by
      rw [rested_update_of_ne (hgone j hj row' hrow' howner)]
      exact hM.pending j hj row' hrow' howner }

theorem step_walk {i : ScanId} (h : pacedStep s (.walk i) = some s') : Pacing owner s' := by
  obtain ⟨-, fleet, hfleet, rfl⟩ := pacedStep_eq h
  simp only [fleetStep, Fleet.walk] at hfleet
  split_ifs at hfleet with hi
  split at hfleet
  · next hpc =>
    cases hfleet
    rw [noted_eq_last (by simp [Fleet.firing, hpc]) rfl]
    exact hP.moved s.fleet.log rfl List.nil_suffix fun _ => rfl
  · next row rest hpc =>
    have hopen : (s.fleet.scans i).pc ≠ .ended := by simp [hpc]
    split at hfleet <;> cases hfleet
    · next hmine =>
      rw [noted_eq_last (by simp [Fleet.firing, hpc, hmine]) rfl]
      exact hP.moved s.fleet.log rfl List.nil_suffix fun _ => rfl
    · next hmine =>
      rw [noted_eq_last (by simp [Fleet.firing, hpc, hmine]) rfl]
      refine hP.moved s.fleet.log rfl ?_ fun h => absurd h hopen
      rw [hpc]
      exact List.suffix_cons row rest
    · next hmine =>
      have hnoted : s.noted (.walk i) = Function.update s.last row.key
          (some (s.fleet.clock (s.fleet.scans i).node, row.interval)) := by
        simp [Paced.noted, Fleet.firing, hpc, hmine]
      rw [hnoted]
      refine hP.fires hi hpc ?_
      rw [hP.owned] at hmine
      simpa [agreed] using hmine
  · cases hfleet

theorem step_finish {i : ScanId} {raised : Option Exc}
    (h : pacedStep s (.finish i raised) = some s') : Pacing owner s' := by
  obtain ⟨-, fleet, hfleet, rfl⟩ := pacedStep_eq h
  simp only [fleetStep, Fleet.finish] at hfleet
  split_ifs at hfleet with hi hraised
  · split at hfleet
    · next row rest hpc =>
      cases hfleet
      exact hP.moved s.fleet.log rfl (by rw [hpc]; exact List.suffix_rfl)
        (by rw [hpc]; exact fun h => by cases h)
    · next row rest hpc =>
      cases hfleet
      exact hP.moved s.fleet.log rfl (by rw [hpc]; exact List.suffix_rfl)
        (by rw [hpc]; exact fun h => by cases h)
    · cases hfleet
  · split at hfleet <;> cases hfleet
    all_goals exact hP.moved s.fleet.log rfl List.nil_suffix fun _ => rfl

theorem step {l : FleetLabel} (h : pacedStep s l = some s') : Pacing owner s' := by
  cases l with
  | every node grain name seconds =>
    obtain ⟨-, fleet, hfleet, rfl⟩ := pacedStep_eq h
    simp only [fleetStep, GrainReminders.every] at hfleet
    split_ifs at hfleet with hseconds <;> cases hfleet
    · have hasks : (FleetLabel.every node grain name seconds).asks = none :=
        if_neg (not_lt.2 hseconds)
      rwa [noted_eq_last rfl hasks]
    · have hasks : (FleetLabel.every node grain name seconds).asks = some (grain, name) :=
        if_pos (lt_of_not_ge hseconds)
      rw [noted_of_asks rfl hasks]
      exact hP.asked ⟨grain, name, Double.add (s.fleet.clock node) seconds, some seconds⟩
  | once node grain name seconds =>
    obtain ⟨-, fleet, hfleet, rfl⟩ := pacedStep_eq h
    simp only [fleetStep, GrainReminders.once] at hfleet
    split_ifs at hfleet with hseconds <;> cases hfleet
    · have hasks : (FleetLabel.once node grain name seconds).asks = none :=
        if_neg (not_lt.2 hseconds)
      rwa [noted_eq_last rfl hasks]
    · have hasks : (FleetLabel.once node grain name seconds).asks = some (grain, name) :=
        if_pos (lt_of_not_ge hseconds)
      rw [noted_of_asks rfl hasks]
      exact hP.asked ⟨grain, name, Double.add (s.fleet.clock node) seconds, none⟩
  | cancel grain name =>
    obtain ⟨-, fleet, hfleet, rfl⟩ := pacedStep_eq h
    cases hfleet
    exact hP.cancelled grain name
  | put reminder =>
    obtain ⟨-, fleet, hfleet, rfl⟩ := pacedStep_eq h
    cases hfleet
    exact hP.asked reminder
  | scan node =>
    obtain ⟨hturn, fleet, hfleet, rfl⟩ := pacedStep_eq h
    cases hfleet
    exact hP.reads (of_decide_eq_true hturn)
  | walk i => exact hP.step_walk h
  | start i =>
    obtain ⟨-, fleet, hfleet, rfl⟩ := pacedStep_eq h
    simp only [fleetStep, Fleet.start] at hfleet
    split_ifs at hfleet
    split at hfleet <;> cases hfleet
    next row rest hpc =>
      exact hP.moved (.started row :: s.fleet.log) rfl (by rw [hpc]; exact List.suffix_rfl)
        (by rw [hpc]; exact fun h => by cases h)
  | finish i raised => exact hP.step_finish h
  | clock node seconds =>
    obtain ⟨-, fleet, hfleet, rfl⟩ := pacedStep_eq h
    simp only [fleetStep] at hfleet
    split_ifs at hfleet with hseconds
    cases hfleet
    refine hP.ticked fun n => ?_
    by_cases hn : n = node
    · subst hn
      rw [Function.update_self]
      exact le_add_of_nonneg_right hseconds
    · rw [Function.update_of_ne hn]
  | membership isMine =>
    obtain ⟨hturn, -⟩ := pacedStep_eq h
    cases hturn

end Pacing

/-- A reminder every ten seconds, of which the first two occurrences are both fired late. -/
def everyTen : List FleetLabel :=
  [.every "a" ⟨"digest", "x"⟩ "daily" 10, .clock "a" 13, .scan "a", .walk 0, .start 0,
    .finish 0 none, .walk 0, .clock "a" 12, .scan "a"]

end

end Nigrains
