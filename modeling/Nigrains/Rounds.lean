import Mathlib.Algebra.BigOperators.Group.Finset.Piecewise
import Nigrains.Occurrences
import Nigrains.Postponing
import Nigrains.Ring

/-!
# A round of scans

Every node of a fleet completes one scan of the shared store, one after another or at the same
time, while nobody else writes to it. A row that is due when the round begins is seen by every
scan that comes before its owner's, and skipped, and the owner's moves it on before it calls its
grain. `Round` keeps beside the fleet what has fired. At the end each row that was due has fired
once, on its owner's node, and is gone or due again an interval after the clock's reading, the other
rows are as they were, and the scans have counted what was due between them (`round_exact`). The
reading and the interval are added as floats : a short interval may be lost, and then the row is due
again at once (`lostInterval_due`).
-/

open Finset

namespace Nigrains

/-- Who scans : a runtime alone, or the nodes of a cluster that agree on its members. -/
inductive Gathering
  | alone (node : NodeId)
  | cluster (members : List NodeId) (replicas : ℤ) (hmembers : members ≠ [])
    (hreplicas : 1 ≤ replicas)

namespace Gathering

/-- The nodes that scan. -/
def nodes : Gathering → List NodeId
  | alone node => [node]
  | cluster members .. => members

/-- What `is_mine` answers on a node, or none if it raises. A cluster that has looked before
answers the same (`Cluster.ownerOf_eq`). -/
def isMine (position : String → ℕ) : Gathering → NodeId → GrainId → Option Bool
  | alone _, _, _ => some true
  | cluster members replicas .., node, grain =>
    ((Cluster.init node members replicas).isMine position grain).1.toOption

/-- Who fires the reminders of a grain. -/
def owner (position : String → ℕ) : Gathering → GrainId → NodeId
  | alone node, _ => node
  | cluster members replicas .., grain =>
    ((freshOwner position members replicas grain).toOption).getD ""

variable {position : String → ℕ}

/-- Every grain is owned by one of the nodes. -/
theorem owner_mem (m : Gathering) (grain : GrainId) : m.owner position grain ∈ m.nodes := by
  cases m with
  | alone node => exact List.mem_singleton.2 rfl
  | cluster members replicas hmembers hreplicas =>
    obtain ⟨node, hnode, howner⟩ := exists_freshOwner position hreplicas hmembers grain
    simp only [owner, nodes, howner]
    exact hnode

/-- The nodes agree on who it is. -/
theorem isMine_eq (m : Gathering) {node : NodeId} (hnode : node ∈ m.nodes) (grain : GrainId) :
    m.isMine position node grain = some (decide (m.owner position grain = node)) := by
  cases m with
  | alone node' =>
    obtain rfl := List.mem_singleton.1 hnode
    simp [isMine, owner]
  | cluster members replicas hmembers hreplicas =>
    obtain ⟨o, -, howner⟩ := exists_freshOwner position hreplicas hmembers grain
    have heq : ((Cluster.init node members replicas).ownerOf position grain).1 =
        freshOwner position members replicas grain := Cluster.ownerOf_eq Cluster.cached_init
    have hmine : ((Cluster.init node members replicas).isMine position grain).1 =
        .ok (decide (o = node)) :=
      congrArg (Except.map fun o => decide (o = node)) (heq.trans howner)
    simp only [isMine, owner, hmine, howner]
    rfl

end Gathering

/-- A store as its writes leave it. -/
inductive InMemoryReminderStore.Built : InMemoryReminderStore → Prop
  | init : Built .init
  | put {store : InMemoryReminderStore} (h : Built store) (reminder : Reminder) :
    Built (store.put reminder)
  | drop {store : InMemoryReminderStore} (h : Built store) (grain : GrainId) (name : String) :
    Built (store.drop grain name)

/-- Each row is filed under its own key. -/
def InMemoryReminderStore.Filed (store : InMemoryReminderStore) : Prop :=
  ∀ key row, store.rows.get key = some row → row.key = key

theorem InMemoryReminderStore.Built.filed {store : InMemoryReminderStore} (h : store.Built) :
    store.Filed := by
  induction h with
  | init =>
    intro key row hget
    cases hget
  | put _ reminder ih => exact filed_put ih
  | drop _ grain name ih => exact filed_drop ih

/-- A row that has fired. -/
structure Firing where
  scan : ScanId
  row : Row
  /-- What the clock read when the row was moved on. -/
  at_ : Time

/-- A fleet, what the clock read when each scan began, and what has fired, the latest first. -/
structure Round where
  fleet : Fleet
  readAt : ScanId → Time
  fired : List Firing

/-- What a label fires. -/
def Fleet.firing (s : Fleet) : FleetLabel → Option Firing
  | .walk i =>
    match (s.scans i).pc with
    | .walking (row :: _) =>
      if s.isMine (s.scans i).node row.grain = some true then
        some ⟨i, row, s.clock (s.scans i).node⟩
      else none
    | _ => none
  | _ => none

/-- When a label begins a scan, what the clock reads. -/
def Fleet.readsAt (s : Fleet) (readAt : ScanId → Time) : FleetLabel → ScanId → Time
  | .scan node => Function.update readAt s.begun (s.clock node)
  | _ => readAt

/-- Nobody writes a reminder but the scans, and a handler raises what a scan survives. -/
def FleetLabel.scans : FleetLabel → Bool
  | .scan _ | .walk _ | .start _ | .clock .. => true
  | .finish _ raised => raised.all Exc.isException
  | _ => false

/-- A step of a round. -/
def roundStep (s : Round) (l : FleetLabel) : Option Round :=
  if l.scans then
    (fleetStep s.fleet l).map fun fleet =>
      ⟨fleet, s.fleet.readsAt s.readAt l, (s.fleet.firing l).toList ++ s.fired⟩
  else none

/-- A round begins, at the moment `now`. -/
def Round.begin (isMine : NodeId → GrainId → Option Bool) (store : InMemoryReminderStore)
    (now : Time) : Round :=
  ⟨{ Fleet.init isMine with reminders := store, clock := fun _ => now }, fun _ => now, []⟩

/-- Each node scans once, and what is not due when the round begins does not come due. -/
structure InRound (m : Gathering) (store : InMemoryReminderStore) (now : Time) (_s s' : Round) :
    Prop where
  node : ∀ i < s'.fleet.begun, (s'.fleet.scans i).node ∈ m.nodes
  once : ∀ i < s'.fleet.begun, ∀ j < s'.fleet.begun,
    (s'.fleet.scans i).node = (s'.fleet.scans j).node → i = j
  later : ∀ row ∈ store.values, now < row.due → ∀ n ∈ m.nodes, s'.fleet.clock n < row.due

/-- What a firing leaves in the store. -/
def Firing.Moved (f : Firing) (store : InMemoryReminderStore) : Prop :=
  match f.row.interval with
  | none => store.rows.get f.row.key = none
  | some interval => ∃ row, store.rows.get f.row.key = some row ∧
    row.toReminder = { f.row.toReminder with due := Double.add f.at_ interval }

/-- One if a scan awaits a call. -/
def ScanAt.awaits : ScanAt → ℕ
  | calling .. | handling .. => 1
  | _ => 0

/-- What holds during a round, by what was in the store when it began. -/
structure Rounding (position : String → ℕ) (m : Gathering) (store : InMemoryReminderStore)
    (now : Time) (s : Round) : Prop where
  owned : s.fleet.isMine = m.isMine position
  clock : ∀ n, now ≤ s.fleet.clock n
  node : ∀ i < s.fleet.begun, (s.fleet.scans i).node ∈ m.nodes
  once : ∀ i < s.fleet.begun, ∀ j < s.fleet.begun,
    (s.fleet.scans i).node = (s.fleet.scans j).node → i = j
  read : ∀ i < s.fleet.begun,
    now ≤ s.readAt i ∧ s.readAt i ≤ s.fleet.clock (s.fleet.scans i).node
  fired : ∀ f ∈ s.fired, f.scan < s.fleet.begun ∧ f.row ∈ store.due now ∧
    m.owner position f.row.grain = (s.fleet.scans f.scan).node ∧ s.readAt f.scan ≤ f.at_
  nodup : (s.fired.map Firing.row).Nodup
  pending_nodup : ∀ i < s.fleet.begun, (s.fleet.scans i).pc.pending.Nodup
  /-- A scan fires what is due of its own. -/
  due : ∀ i < s.fleet.begun, ∀ row ∈ store.due now,
    m.owner position row.grain = (s.fleet.scans i).node →
      row ∈ s.fired.map Firing.row ∨ row ∈ (s.fleet.scans i).pc.pending
  /-- What it has read of its own was due, and has not fired yet. -/
  pending : ∀ i < s.fleet.begun, ∀ row ∈ (s.fleet.scans i).pc.pending,
    m.owner position row.grain = (s.fleet.scans i).node →
      row ∈ store.due now ∧ row ∉ s.fired.map Firing.row
  moved : ∀ f ∈ s.fired, f.Moved s.fleet.reminders
  same : ∀ key, (∀ f ∈ s.fired, f.row.key ≠ key) →
    s.fleet.reminders.rows.get key = store.rows.get key
  count : ∀ i < s.fleet.begun, (s.fleet.scans i).fired + (s.fleet.scans i).pc.awaits =
    s.fired.countP fun f => f.scan = i
  logged : ∀ row, s.fleet.log.count (.called row) = (s.fired.map Firing.row).count row

section

variable {position : String → ℕ} {m : Gathering} {store : InMemoryReminderStore} {now : Time}
  {s s' : Round}

theorem rounding_begin :
    Rounding position m store now (.begin (m.isMine position) store now) where
  owned := rfl
  clock _ := le_rfl
  node _ h := by cases h
  once _ h := by cases h
  read _ h := by cases h
  fired _ h := by cases h
  nodup := List.nodup_nil
  pending_nodup _ h := by cases h
  due _ h := by cases h
  pending _ h := by cases h
  moved _ h := by cases h
  same _ _ := rfl
  count _ h := by cases h
  logged _ := rfl

/-- What is due is filed under its key. -/
theorem get_of_due (hfiled : store.Filed) {row : Row} (h : row ∈ store.due now) :
    store.rows.get row.key = some row := by
  obtain ⟨key, hget⟩ := InMemoryReminderStore.exists_get_of_due h
  rwa [hfiled key row hget]

/-- A reschedule is nothing to the other keys. -/
theorem get_reschedule_of_ne {row : Row} {key : ReminderKey} (h : key ≠ row.key) :
    (store.reschedule now row).rows.get key = store.rows.get key := by
  unfold InMemoryReminderStore.reschedule
  split
  · exact InMemoryReminderStore.get_drop.trans (if_neg h)
  · exact InMemoryReminderStore.get_put.trans (if_neg h)

/-- What a firing leaves, its reschedule has left. -/
theorem moved_reschedule (f : Firing) : f.Moved (store.reschedule f.at_ f.row) := by
  unfold Firing.Moved
  cases hinterval : f.row.interval with
  | none =>
    rw [reschedule_of_once hinterval]
    exact InMemoryReminderStore.get_drop.trans (if_pos rfl)
  | some interval =>
    rw [reschedule_of_interval hinterval]
    exact ⟨_, InMemoryReminderStore.get_put.trans (if_pos rfl), rfl⟩

theorem Firing.Moved.reschedule {f : Firing} {row : Row} (hf : f.Moved store)
    (hne : f.row.key ≠ row.key) : f.Moved (store.reschedule now row) := by
  unfold Firing.Moved at hf ⊢
  rwa [get_reschedule_of_ne hne]

section

variable {fleet : Fleet} {i j : ScanId} {row : Row} {rest : List Row}

theorem scans_fire_self : (fleet.fire i row rest).scans i =
    ⟨(fleet.scans i).node, .calling row rest, (fleet.scans i).fired⟩ :=
  Function.update_self ..

theorem scans_fire_ne (hji : j ≠ i) : (fleet.fire i row rest).scans j = fleet.scans j :=
  Function.update_of_ne hji _ _

theorem node_fire : ((fleet.fire i row rest).scans j).node = (fleet.scans j).node := by
  by_cases hji : j = i
  · rw [hji, scans_fire_self]
  · rw [scans_fire_ne hji]

end

namespace Rounding

variable (hR : Rounding position m store now s)

include hR

/-- A scan goes on, and fires nothing. -/
theorem goes {i : ScanId} {scan : Scan} {log : List ReminderEvent} (hi : i < s.fleet.begun)
    (hnode : scan.node = (s.fleet.scans i).node)
    (hpending : scan.pc.pending <:+ (s.fleet.scans i).pc.pending)
    (hkeep : ∀ row ∈ (s.fleet.scans i).pc.pending,
      m.owner position row.grain = (s.fleet.scans i).node → row ∈ scan.pc.pending)
    (hcount : scan.fired + scan.pc.awaits =
      (s.fleet.scans i).fired + (s.fleet.scans i).pc.awaits)
    (hlog : ∀ row, log.count (.called row) = s.fleet.log.count (.called row)) :
    Rounding position m store now
      ⟨{ s.fleet.setScan i scan with log := log }, s.readAt, s.fired⟩ := by
  have hscans (j : ScanId) : ((s.fleet.setScan i scan).scans j).node = (s.fleet.scans j).node ∧
      ((s.fleet.setScan i scan).scans j).pc.pending <:+ (s.fleet.scans j).pc.pending ∧
      (∀ row ∈ (s.fleet.scans j).pc.pending,
        m.owner position row.grain = (s.fleet.scans j).node →
          row ∈ ((s.fleet.setScan i scan).scans j).pc.pending) ∧
      ((s.fleet.setScan i scan).scans j).fired + ((s.fleet.setScan i scan).scans j).pc.awaits =
        (s.fleet.scans j).fired + (s.fleet.scans j).pc.awaits := by
    by_cases hji : j = i
    · subst hji
      simpa [Fleet.setScan] using ⟨hnode, hpending, hkeep, hcount⟩
    · simp only [Fleet.setScan, Function.update_of_ne hji]
      exact ⟨trivial, List.suffix_rfl, fun _ h _ => h, trivial⟩
  have hnodes (j : ScanId) := (hscans j).1
  refine ⟨hR.owned, hR.clock, fun j hj => ?_, fun j hj k hk h => ?_, fun j hj => ?_,
    fun f hf => ?_, hR.nodup, fun j hj => ?_, fun j hj row hrow ho => ?_,
    fun j hj row hrow ho => ?_, hR.moved, hR.same, fun j hj => ?_,
    fun row => (hlog row).trans (hR.logged row)⟩
  · exact (hnodes j).symm ▸ hR.node j hj
  · exact hR.once j hj k hk (by rw [← hnodes j, ← hnodes k]; exact h)
  · exact (hnodes j).symm ▸ hR.read j hj
  · exact (hnodes f.scan).symm ▸ hR.fired f hf
  · exact (hR.pending_nodup j hj).sublist (hscans j).2.1.sublist
  · have ho' := ho.trans (hnodes j)
    exact (hR.due j hj row hrow ho').imp_right fun h => (hscans j).2.2.1 row h ho'
  · exact hR.pending j hj row ((hscans j).2.1.subset hrow) (ho.trans (hnodes j))
  · exact (hscans j).2.2.2.trans (hR.count j hj)

/-- Clocks advance. -/
theorem waits {clock : NodeId → Time} (h : ∀ n, s.fleet.clock n ≤ clock n) :
    Rounding position m store now ⟨{ s.fleet with clock := clock }, s.readAt, s.fired⟩ :=
  ⟨hR.owned, fun n => (hR.clock n).trans (h n), hR.node, hR.once,
    fun i hi => ⟨(hR.read i hi).1, (hR.read i hi).2.trans (h _)⟩, hR.fired, hR.nodup,
    hR.pending_nodup, hR.due, hR.pending, hR.moved, hR.same, hR.count, hR.logged⟩

/-- What is in the store was there when the round began, or is what a firing has left. -/
theorem get_cases {key : ReminderKey} {row : Row}
    (h : s.fleet.reminders.rows.get key = some row) :
    (∃ f ∈ s.fired, f.row.key = key ∧ row.key = key) ∨ store.rows.get key = some row := by
  by_cases hf : ∃ f ∈ s.fired, f.row.key = key
  · obtain ⟨f, hmem, hkey⟩ := hf
    refine .inl ⟨f, hmem, hkey, ?_⟩
    have hmoved := hR.moved f hmem
    unfold Firing.Moved at hmoved
    rw [hkey, h] at hmoved
    split at hmoved
    · cases hmoved
    · obtain ⟨row', hget, hrow'⟩ := hmoved
      cases hget
      show row.toReminder.key = key
      rw [hrow', ← hkey]
      rfl
  · rw [hR.same key fun f hmem hkey => hf ⟨f, hmem, hkey⟩] at h
    exact .inr h

/-- What is in the store is filed under its key. -/
theorem filed (hfiled : store.Filed) : s.fleet.reminders.Filed := by
  intro key row hget
  rcases hR.get_cases hget with ⟨f, -, -, hk⟩ | hget
  · exact hk
  · exact hfiled key row hget

/-- While nothing of a node has fired, what is due of its own is what was due when the round
began, whatever the others have fired. -/
theorem mem_due_iff {node : NodeId} {row : Row} (hfiled : store.Filed) (hnode : node ∈ m.nodes)
    (hfresh : ∀ f ∈ s.fired, m.owner position f.row.grain ≠ node)
    (hlater : ∀ row ∈ store.values, now < row.due → ∀ n ∈ m.nodes, s.fleet.clock n < row.due)
    (ho : m.owner position row.grain = node) :
    row ∈ s.fleet.reminders.due (s.fleet.clock node) ↔ row ∈ store.due now := by
  have hkey : ∀ f ∈ s.fired, f.row.key ≠ row.key := fun f hf hk =>
    hfresh f hf ((congrArg (fun key => m.owner position key.1) hk).trans ho)
  constructor
  · intro hrow
    obtain ⟨key, hget⟩ := InMemoryReminderStore.exists_get_of_due hrow
    have hstore : store.rows.get key = some row := by
      rcases hR.get_cases hget with ⟨f, hf, hfkey, hk⟩ | hget
      · exact absurd (hfkey.trans hk.symm) (hkey f hf)
      · exact hget
    have hvalue := InMemoryReminderStore.mem_values.2 ⟨key, hstore⟩
    have hdue : row.due ≤ s.fleet.clock node := of_decide_eq_true (List.mem_filter.1 hrow).2
    refine List.mem_filter.2 ⟨hvalue, decide_eq_true ?_⟩
    by_contra hlt
    exact hdue.not_gt (hlater row hvalue (not_le.1 hlt) node hnode)
  · intro hrow
    have hget : s.fleet.reminders.rows.get row.key = some row :=
      (hR.same row.key hkey).trans (get_of_due hfiled hrow)
    have hdue : row.due ≤ now := of_decide_eq_true (List.mem_filter.1 hrow).2
    exact List.mem_filter.2 ⟨InMemoryReminderStore.mem_values.2 ⟨_, hget⟩,
      decide_eq_true (hdue.trans (hR.clock node))⟩

/-- A scan begins. What it reads of its own is what was due when the round began. -/
theorem reads {node : NodeId} {readAt : ScanId → Time}
    (hfiled : store.Filed)
    (hreadAt : readAt = Function.update s.readAt s.fleet.begun (s.fleet.clock node))
    (hok : InRound m store now s ⟨s.fleet.read node, readAt, s.fired⟩) :
    Rounding position m store now ⟨s.fleet.read node, readAt, s.fired⟩ := by
  have hold : ∀ i < s.fleet.begun, (s.fleet.read node).scans i = s.fleet.scans i := fun i hi =>
    Function.update_of_ne hi.ne _ _
  have hnew : (s.fleet.read node).scans s.fleet.begun =
      ⟨node, .walking (s.fleet.reminders.due (s.fleet.clock node)), 0⟩ :=
    Function.update_self ..
  have hnode : node ∈ m.nodes := by
    have hmem := hok.node s.fleet.begun (Nat.lt_succ_self _)
    rwa [show (Round.fleet _).scans s.fleet.begun = _ from hnew] at hmem
  -- the node has not scanned before, so nothing of its own has fired
  have hfresh : ∀ f ∈ s.fired, m.owner position f.row.grain ≠ node := by
    intro f hf ho
    obtain ⟨hlt, -, hown, -⟩ := hR.fired f hf
    refine hlt.ne (hok.once f.scan (hlt.trans (Nat.lt_succ_self _)) _ (Nat.lt_succ_self _) ?_)
    show ((s.fleet.read node).scans f.scan).node = ((s.fleet.read node).scans s.fleet.begun).node
    rw [hold _ hlt, hnew, ← hown, ho]
  have hdue {row : Row} (ho : m.owner position row.grain = node) :
      row ∈ s.fleet.reminders.due (s.fleet.clock node) ↔ row ∈ store.due now :=
    hR.mem_due_iff hfiled hnode hfresh hok.later ho
  have hnew_pc : ((s.fleet.read node).scans s.fleet.begun).pc.pending =
      s.fleet.reminders.due (s.fleet.clock node) := by rw [hnew]; rfl
  have hread_old : ∀ i < s.fleet.begun, readAt i = s.readAt i := fun i hi => by
    rw [hreadAt, Function.update_of_ne hi.ne]
  refine ⟨hR.owned, hR.clock, hok.node, hok.once, fun i hi => ?_, fun f hf => ?_, hR.nodup,
    fun i hi => ?_, fun i hi row hrow ho => ?_, fun i hi row hrow ho => ?_, hR.moved, hR.same,
    fun i hi => ?_, fun row => (List.count_cons_of_ne (by simp)).trans (hR.logged row)⟩
  · show now ≤ readAt i ∧ readAt i ≤ s.fleet.clock ((s.fleet.read node).scans i).node
    rcases Nat.lt_succ_iff_lt_or_eq.1 hi with hi | rfl
    · rw [hread_old i hi, hold i hi]
      exact hR.read i hi
    · rw [hreadAt, Function.update_self, hnew]
      exact ⟨hR.clock node, le_rfl⟩
  · obtain ⟨hlt, hdue, hown, hat⟩ := hR.fired f hf
    show f.scan < s.fleet.begun + 1 ∧ f.row ∈ store.due now ∧
      m.owner position f.row.grain = ((s.fleet.read node).scans f.scan).node ∧
        readAt f.scan ≤ f.at_
    rw [hold _ hlt, hread_old _ hlt]
    exact ⟨hlt.trans (Nat.lt_succ_self _), hdue, hown, hat⟩
  · show ((s.fleet.read node).scans i).pc.pending.Nodup
    rcases Nat.lt_succ_iff_lt_or_eq.1 hi with hi | rfl
    · rw [hold i hi]
      exact hR.pending_nodup i hi
    · rw [hnew_pc]
      exact nodup_due _ (hR.filed hfiled)
  · replace ho : m.owner position row.grain = ((s.fleet.read node).scans i).node := ho
    show _ ∨ row ∈ ((s.fleet.read node).scans i).pc.pending
    rcases Nat.lt_succ_iff_lt_or_eq.1 hi with hi | rfl
    · rw [hold i hi] at ho ⊢
      exact hR.due i hi row hrow ho
    · rw [hnew] at ho
      rw [hnew_pc]
      exact .inr ((hdue ho).2 hrow)
  · replace ho : m.owner position row.grain = ((s.fleet.read node).scans i).node := ho
    replace hrow : row ∈ ((s.fleet.read node).scans i).pc.pending := hrow
    rcases Nat.lt_succ_iff_lt_or_eq.1 hi with hi | rfl
    · rw [hold i hi] at ho hrow
      exact hR.pending i hi row hrow ho
    · rw [hnew] at ho
      rw [hnew_pc] at hrow
      refine ⟨(hdue ho).1 hrow, fun hfired => ?_⟩
      obtain ⟨f, hf, rfl⟩ := List.mem_map.1 hfired
      exact hfresh f hf ho
  · show ((s.fleet.read node).scans i).fired + ((s.fleet.read node).scans i).pc.awaits = _
    rcases Nat.lt_succ_iff_lt_or_eq.1 hi with hi | rfl
    · rw [hold i hi]
      exact hR.count i hi
    · rw [hnew]
      refine (List.countP_eq_zero.2 fun f hf => ?_).symm
      simpa using (hR.fired f hf).1.ne

section

variable {i j : ScanId} {row : Row} {rest : List Row}

/-- Rows that were due are told apart by their keys. -/
theorem key_ne (hfiled : store.Filed) (hdue : row ∈ store.due now)
    (hunfired : row ∉ s.fired.map Firing.row) : ∀ f ∈ s.fired, f.row.key ≠ row.key := by
  intro f hf hk
  have hget := get_of_due hfiled (hR.fired f hf).2.1
  rw [hk, get_of_due hfiled hdue] at hget
  cases hget
  exact hunfired (List.mem_map_of_mem hf)

/-- What has fired is not pending any more, and everything else that is due still is. -/
theorem fires_due (hpc : (s.fleet.scans i).pc = .walking (row :: rest)) (hj : j < s.fleet.begun)
    {row' : Row} (hrow : row' ∈ store.due now)
    (ho : m.owner position row'.grain = (s.fleet.scans j).node) :
    row' ∈ row :: s.fired.map Firing.row ∨
      row' ∈ ((s.fleet.fire i row rest).scans j).pc.pending := by
  rcases hR.due j hj row' hrow ho with h | h
  · exact .inl (List.mem_cons_of_mem _ h)
  · by_cases hji : j = i
    · subst hji
      rw [hpc] at h
      rcases List.mem_cons.1 h with rfl | h
      · exact .inl List.mem_cons_self
      · rw [scans_fire_self]
        exact .inr h
    · rw [scans_fire_ne hji]
      exact .inr h

/-- No scan has pending of its own what has fired. -/
theorem fires_pending (hi : i < s.fleet.begun)
    (hpc : (s.fleet.scans i).pc = .walking (row :: rest))
    (hmine : m.owner position row.grain = (s.fleet.scans i).node) (hj : j < s.fleet.begun)
    {row' : Row} (hrow : row' ∈ ((s.fleet.fire i row rest).scans j).pc.pending)
    (ho : m.owner position row'.grain = (s.fleet.scans j).node) :
    row' ∈ store.due now ∧ row' ∉ row :: s.fired.map Firing.row := by
  by_cases hji : j = i
  · subst hji
    rw [scans_fire_self] at hrow
    have hnodup := hR.pending_nodup j hj
    rw [hpc] at hnodup
    obtain ⟨hdue, hunfired⟩ := hR.pending j hj row'
      (by rw [hpc]; exact List.mem_cons_of_mem _ hrow) ho
    refine ⟨hdue, fun h => ?_⟩
    rcases List.mem_cons.1 h with rfl | h
    · exact (List.nodup_cons.1 hnodup).1 hrow
    · exact hunfired h
  · rw [scans_fire_ne hji] at hrow
    obtain ⟨hdue, hunfired⟩ := hR.pending j hj row' hrow ho
    refine ⟨hdue, fun h => ?_⟩
    rcases List.mem_cons.1 h with rfl | h
    · exact hji (hR.once j hj i hi (ho.symm.trans hmine))
    · exact hunfired h

/-- What a scan comes to of its own fires, for the first time. -/
theorem fires (hfiled : store.Filed) (hi : i < s.fleet.begun)
    (hpc : (s.fleet.scans i).pc = .walking (row :: rest))
    (hmine : m.owner position row.grain = (s.fleet.scans i).node) :
    Rounding position m store now ⟨s.fleet.fire i row rest, s.readAt,
      ⟨i, row, s.fleet.clock (s.fleet.scans i).node⟩ :: s.fired⟩ := by
  obtain ⟨hdue, hunfired⟩ :=
    hR.pending i hi row (by rw [hpc]; exact List.mem_cons_self) hmine
  have hkey := hR.key_ne hfiled hdue hunfired
  refine ⟨hR.owned, hR.clock, fun j hj => ?_, fun j hj k hk h => ?_, fun j hj => ?_,
    fun f hf => ?_, List.nodup_cons.2 ⟨hunfired, hR.nodup⟩, fun j hj => ?_,
    fun j hj row' hrow ho => ?_, fun j hj row' hrow ho => ?_, fun f hf => ?_,
    fun key hother => ?_, fun j hj => ?_, fun row' => ?_⟩
  · exact node_fire.symm ▸ hR.node j hj
  · exact hR.once j hj k hk (node_fire.symm.trans (h.trans node_fire))
  · exact node_fire.symm ▸ hR.read j hj
  · rcases List.mem_cons.1 hf with rfl | hf
    · exact ⟨hi, hdue, hmine.trans node_fire.symm, (hR.read i hi).2⟩
    · exact node_fire.symm ▸ hR.fired f hf
  · show ((s.fleet.fire i row rest).scans j).pc.pending.Nodup
    have hnodup := hR.pending_nodup j hj
    by_cases hji : j = i
    · subst hji
      rw [hpc] at hnodup
      rw [scans_fire_self]
      exact (List.nodup_cons.1 hnodup).2
    · rwa [scans_fire_ne hji]
  · exact hR.fires_due hpc hj hrow (ho.trans node_fire)
  · exact hR.fires_pending hi hpc hmine hj hrow (ho.trans node_fire)
  · rcases List.mem_cons.1 hf with rfl | hf
    · exact moved_reschedule _
    · exact (hR.moved f hf).reschedule (hkey f hf)
  · have hother' := hother _ List.mem_cons_self
    exact (get_reschedule_of_ne hother'.symm).trans
      (hR.same key fun f hf => hother f (List.mem_cons_of_mem _ hf))
  · show ((s.fleet.fire i row rest).scans j).fired +
      ((s.fleet.fire i row rest).scans j).pc.awaits = _
    have hcount := hR.count j hj
    rw [List.countP_cons]
    by_cases hji : j = i
    · subst hji
      rw [hpc] at hcount
      rw [scans_fire_self, ← hcount]
      simp [ScanAt.awaits]
    · rw [scans_fire_ne hji, hcount]
      simp [Ne.symm hji]
  · show (ReminderEvent.called row :: s.fleet.log).count (.called row') =
      (row :: s.fired.map Firing.row).count row'
    rw [List.count_cons, List.count_cons, hR.logged]
    simp

end

theorem step_walk {i : ScanId} (hfiled : store.Filed) (h : roundStep s (.walk i) = some s') :
    Rounding position m store now s' := by
  obtain ⟨fleet, hfleet, rfl⟩ := Option.map_eq_some_iff.1 h
  simp only [fleetStep, Fleet.walk] at hfleet
  split_ifs at hfleet with hi
  have hmine (row : Row) : s.fleet.isMine (s.fleet.scans i).node row.grain =
      some (decide (m.owner position row.grain = (s.fleet.scans i).node)) := by
    rw [hR.owned]
    exact m.isMine_eq (hR.node i hi) row.grain
  split at hfleet
  · next hpc =>
    cases hfleet
    have hfiring : s.fleet.firing (.walk i) = none := by simp only [Fleet.firing, hpc]
    rw [hfiring]
    exact hR.goes hi rfl List.nil_suffix (by rw [hpc]; exact fun row hrow _ => hrow)
      (by rw [hpc]; rfl) fun _ => rfl
  · next row rest hpc =>
    rw [hmine] at hfleet
    by_cases ho : m.owner position row.grain = (s.fleet.scans i).node
    · rw [decide_eq_true ho] at hfleet
      cases hfleet
      have hfiring : s.fleet.firing (.walk i) =
          some ⟨i, row, s.fleet.clock (s.fleet.scans i).node⟩ := by
        simp only [Fleet.firing, hpc, hmine, decide_eq_true ho, if_true]
      rw [hfiring]
      exact hR.fires hfiled hi hpc ho
    · rw [decide_eq_false ho] at hfleet
      cases hfleet
      have hfiring : s.fleet.firing (.walk i) = none := by
        simp only [Fleet.firing, hpc, hmine, decide_eq_false ho]
        rfl
      rw [hfiring]
      refine hR.goes hi rfl (by rw [hpc]; exact List.suffix_cons row rest) ?_ (by rw [hpc]; rfl)
        fun _ => rfl
      rw [hpc]
      intro row' hrow ho'
      rcases List.mem_cons.1 hrow with rfl | hrow
      · exact (ho ho').elim
      · exact hrow
  · cases hfleet

/-- A call returns, or raises what a scan survives. -/
theorem step_finish {i : ScanId} {raised : Option Exc}
    (h : roundStep s (.finish i raised) = some s') : Rounding position m store now s' := by
  unfold roundStep at h
  split_ifs at h with hraised
  obtain ⟨fleet, hfleet, rfl⟩ := Option.map_eq_some_iff.1 h
  replace hraised : raised.all Exc.isException = true := hraised
  simp only [fleetStep, Fleet.finish] at hfleet
  split_ifs at hfleet with hi
  split at hfleet
  · next row rest hpc =>
    cases hfleet
    exact hR.goes hi rfl (by rw [hpc]; exact List.suffix_rfl)
      (by rw [hpc]; exact fun _ h _ => h) (by rw [hpc]; rfl) fun _ => rfl
  · next row rest hpc =>
    cases hfleet
    exact hR.goes hi rfl (by rw [hpc]; exact List.suffix_rfl)
      (by rw [hpc]; exact fun _ h _ => h) (by rw [hpc]; rfl) fun _ => rfl
  · cases hfleet

theorem step {l : FleetLabel} (hfiled : store.Filed) (hok : InRound m store now s s')
    (h : roundStep s l = some s') : Rounding position m store now s' := by
  cases l with
  | walk i => exact hR.step_walk hfiled h
  | finish i raised => exact hR.step_finish h
  | scan node =>
    cases h
    exact hR.reads hfiled rfl hok
  | start i =>
    obtain ⟨fleet, hfleet, rfl⟩ := Option.map_eq_some_iff.1 h
    simp only [fleetStep, Fleet.start] at hfleet
    split_ifs at hfleet with hi
    split at hfleet <;> cases hfleet
    next row rest hpc =>
    exact hR.goes hi rfl (by rw [hpc]; exact List.suffix_rfl)
      (by rw [hpc]; exact fun _ h _ => h) (by rw [hpc]; rfl)
      fun _ => List.count_cons_of_ne (by simp)
  | clock node seconds =>
    obtain ⟨fleet, hfleet, rfl⟩ := Option.map_eq_some_iff.1 h
    simp only [fleetStep] at hfleet
    split_ifs at hfleet with hseconds
    cases hfleet
    refine hR.waits fun n => ?_
    rw [Function.update_apply]
    split_ifs with hn
    · rw [hn]
      exact le_add_of_nonneg_right hseconds
    · exact le_rfl
  | every | once | cancel | put | membership => cases h

end Rounding

/-- Who scans, each scan's firings counted. -/
theorem sum_countP_scan {fired : List Firing} {n : ℕ} (h : ∀ f ∈ fired, f.scan < n) :
    ∑ i ∈ range n, fired.countP (fun f => f.scan = i) = fired.length := by
  induction fired with
  | nil => simp
  | cons f fired ih =>
    simp only [List.countP_cons, sum_add_distrib, List.length_cons,
      ih fun f' hf' => h f' (List.mem_cons_of_mem _ hf')]
    have hone : ∑ i ∈ range n, (if f.scan = i then 1 else 0) = 1 :=
      (sum_ite_eq ..).trans (if_pos (mem_range.2 (h f List.mem_cons_self)))
    simpa using hone

/-- Each row that is due when a round begins is fired once, by its owner's scan. At the end it is
gone, or still there and due an interval after that scan has moved it on, as floats add it and so no
earlier, and the other rows are as they were. The scans count what was due between them. -/
theorem round_exact (hbuilt : store.Built)
    (hpos : ∀ row ∈ store.values, ∀ interval ∈ row.interval, 0 < interval)
    (h : Run roundStep (InRound m store now) (.begin (m.isMine position) store now) s)
    (hall : ∀ n ∈ m.nodes, ∃ i < s.fleet.begun, (s.fleet.scans i).node = n)
    (hended : ∀ i < s.fleet.begun, (s.fleet.scans i).pc = .ended) :
    (∀ row, s.fleet.log.count (.called row) = if row ∈ store.due now then 1 else 0) ∧
    (s.fired.map Firing.row).Perm (store.due now) ∧
    (∀ f ∈ s.fired, m.isMine position (s.fleet.scans f.scan).node f.row.grain = some true ∧
      (f.row.interval = none → s.fleet.reminders.rows.get f.row.key = none) ∧
      ∀ interval ∈ f.row.interval, ∃ row, s.fleet.reminders.rows.get f.row.key = some row ∧
        row.toReminder = { f.row.toReminder with due := Double.add f.at_ interval } ∧
        now ≤ s.readAt f.scan ∧ s.readAt f.scan ≤ f.at_ ∧ (IsDouble f.at_ → f.at_ ≤ row.due)) ∧
    (∀ key, (∀ row ∈ store.due now, row.key ≠ key) →
      s.fleet.reminders.rows.get key = store.rows.get key) ∧
    ∑ i ∈ range s.fleet.begun, (s.fleet.scans i).fired = (store.due now).length := by
  have hR := h.invariant (I := Rounding position m store now) rounding_begin
    fun _ _ _ hR hl hok => hR.step hbuilt.filed hok hl
  have hperm : (s.fired.map Firing.row).Perm (store.due now) := by
    refine (List.perm_ext_iff_of_nodup hR.nodup (nodup_due _ hbuilt.filed)).2 fun row => ?_
    constructor
    · intro hrow
      obtain ⟨f, hf, rfl⟩ := List.mem_map.1 hrow
      exact (hR.fired f hf).2.1
    · intro hrow
      have howner : m.owner position row.grain ∈ m.nodes := m.owner_mem row.grain
      obtain ⟨i, hi, hnode⟩ := hall _ howner
      refine (hR.due i hi row hrow hnode.symm).resolve_right ?_
      rw [hended i hi]
      exact List.not_mem_nil
  refine ⟨fun row => ?_, hperm, fun f hf => ?_, fun key hkey => ?_, ?_⟩
  · rw [hR.logged row, hperm.count_eq]
    split_ifs with hrow
    · exact List.count_eq_one_of_mem (nodup_due _ hbuilt.filed) hrow
    · exact List.count_eq_zero_of_not_mem hrow
  · obtain ⟨hlt, hdue, hown, hat⟩ := hR.fired f hf
    have hmoved := hR.moved f hf
    refine ⟨?_, fun hnone => ?_, fun interval hinterval => ?_⟩
    · rw [m.isMine_eq (hR.node f.scan hlt), hown, decide_eq_true rfl]
    · simpa only [Firing.Moved, hnone] using hmoved
    · replace hinterval : f.row.interval = some interval := hinterval
      have hvalue : f.row ∈ store.values := (List.mem_filter.1 hdue).1
      unfold Firing.Moved at hmoved
      split at hmoved
      · next hnone =>
        rw [hnone] at hinterval
        cases hinterval
      next interval' heq =>
      obtain rfl := Option.some.inj (heq.symm.trans hinterval)
      obtain ⟨row, hget, hrow⟩ := hmoved
      refine ⟨row, hget, hrow, (hR.read f.scan hlt).1, hat, fun hfloat => ?_⟩
      rw [hrow]
      exact Double.le_add hfloat (hpos f.row hvalue interval' hinterval).le
  · exact hR.same key fun f hf => hkey f.row (hR.fired f hf).2.1
  · rw [← hperm.length_eq, List.length_map, ← sum_countP_scan fun f hf => (hR.fired f hf).1]
    refine sum_congr rfl fun i hi => ?_
    have hcount := hR.count i (mem_range.1 hi)
    rwa [hended i (mem_range.1 hi)] at hcount

end

/-! ## A round on fixed inputs -/

instance {m : Gathering} {store : InMemoryReminderStore} {now : Time} {s s' : Round} :
    Decidable (InRound m store now s s') :=
  decidable_of_iff ((∀ i < s'.fleet.begun, (s'.fleet.scans i).node ∈ m.nodes) ∧
    (∀ i < s'.fleet.begun, ∀ j < s'.fleet.begun,
      (s'.fleet.scans i).node = (s'.fleet.scans j).node → i = j) ∧
    ∀ row ∈ store.values, now < row.due → ∀ n ∈ m.nodes, s'.fleet.clock n < row.due)
    ⟨fun h => ⟨h.1, h.2.1, h.2.2⟩, fun h => ⟨h.node, h.once, h.later⟩⟩

/-- Two nodes. -/
def twoNodes : Gathering :=
  .cluster ["a", "bb"] 1 (by decide) (by decide)

/-- A digest every ten seconds and a report, both late, and another digest that is not. -/
def lateRows : InMemoryReminderStore :=
  ((InMemoryReminderStore.init.put ⟨⟨"digest", "a"⟩, "one", 5, some 10⟩).put
    ⟨⟨"report", "weekly"⟩, "all", 5, none⟩).put ⟨⟨"digest", "a"⟩, "two", 100, some 10⟩

/-- The scans overlap, and the handler of the report raises. -/
def bothScan : List FleetLabel :=
  [.scan "bb", .walk 0, .walk 0, .scan "a", .walk 1, .start 0, .clock "a" 3, .clock "bb" 3,
    .finish 0 (some .timeoutError), .walk 0, .start 1, .finish 1 none, .walk 1]

/-- Two of three rows fire, and the third is as it was. -/
theorem round_exact_two : ∃ s : Round, s.fleet.begun = 2 ∧
    (∀ row, s.fleet.log.count (.called row) = if row ∈ lateRows.due 20 then 1 else 0) ∧
    s.fleet.reminders.rows.get (⟨"digest", "a"⟩, "two") =
      lateRows.rows.get (⟨"digest", "a"⟩, "two") ∧
    ∑ i ∈ range s.fleet.begun, (s.fleet.scans i).fired = 2 := by
  obtain ⟨s, hrun, hp⟩ := exists_run roundStep
    (fun s s' => decide (InRound twoNodes lateRows 20 s s')) (fun _ _ => of_decide_eq_true)
    (.begin (twoNodes.isMine fun key => key.length % 10) lateRows 20) bothScan
    (fun s : Round => decide (s.fleet.begun = 2 ∧
      (∀ n ∈ twoNodes.nodes, ∃ i < s.fleet.begun, (s.fleet.scans i).node = n) ∧
      ∀ i < s.fleet.begun, (s.fleet.scans i).pc = .ended)) (by decide +kernel)
  obtain ⟨hbegun, hall, hended⟩ := of_decide_eq_true hp
  have hbuilt : lateRows.Built := ((InMemoryReminderStore.Built.init.put _).put _).put _
  obtain ⟨hcalled, -, -, hsame, hcount⟩ := round_exact hbuilt (by decide +kernel) hrun hall hended
  exact ⟨s, hbegun, hcalled, hsame _ (by decide +kernel), hcount.trans (by decide +kernel)⟩

/-- A digest every `2 ^ -37` seconds. -/
def lostInterval : InMemoryReminderStore :=
  InMemoryReminderStore.init.put ⟨⟨"digest", "a"⟩, "one", 5, some (2 ^ (-37 : ℤ))⟩

/-- After ten days that is less than the clock can tell, and the digest is not put off. -/
theorem lostInterval_due : ¬ ∀ (m : Gathering) (store : InMemoryReminderStore) (now : Time)
    (s : Round), store.Built →
    (∀ row ∈ store.values, ∀ interval ∈ row.interval, 0 < interval) →
    Run roundStep (InRound m store now)
      (.begin (m.isMine fun key => key.length % 10) store now) s →
    (∀ n ∈ m.nodes, ∃ i < s.fleet.begun, (s.fleet.scans i).node = n) →
    (∀ i < s.fleet.begun, (s.fleet.scans i).pc = .ended) →
    ∀ f ∈ s.fired, ∀ row, s.fleet.reminders.rows.get f.row.key = some row →
      s.readAt f.scan < row.due := by
  intro h
  obtain ⟨s, hrun, hp⟩ := exists_run roundStep
    (fun s s' => decide (InRound (.alone "a") lostInterval 864000 s s'))
    (fun _ _ => of_decide_eq_true)
    (.begin (Gathering.isMine (fun key => key.length % 10) (.alone "a")) lostInterval 864000)
    [.scan "a", .walk 0, .start 0, .finish 0 none, .walk 0]
    (fun s : Round => decide (s.fleet.begun = 1 ∧ (s.fleet.scans 0).node = "a" ∧
      (s.fleet.scans 0).pc = .ended ∧ s.readAt 0 = 864000) &&
      s.fired.any fun f : Firing => decide (f.scan = 0) &&
        (s.fleet.reminders.rows.get f.row.key).any fun row : Row => decide (row.due = 864000))
    (by decide +kernel)
  simp only [Bool.and_eq_true, List.any_eq_true, Option.any_eq_true, decide_eq_true_eq] at hp
  obtain ⟨⟨hbegun, hnode, hended, hread⟩, f, hf, hscan, row, hget, hdue⟩ := hp
  have hone (i : ScanId) (hi : i < s.fleet.begun) : i = 0 := Nat.lt_one_iff.1 (hbegun ▸ hi)
  have hlater := h (.alone "a") lostInterval 864000 s (.put .init _) (by decide +kernel) hrun
    (fun n hn => ⟨0, by omega, hnode.trans (List.mem_singleton.1 hn).symm⟩)
    (fun i hi => by rw [hone i hi]; exact hended) f hf row hget
  rw [hscan, hread, hdue] at hlater
  exact lt_irrefl _ hlater

end Nigrains
