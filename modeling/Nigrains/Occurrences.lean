import Nigrains.Cancelling

/-!
# How often a row fires

Rows are told apart by the write that made them, so a row is one scheduled occurrence. A scan
takes a row out of the store before it calls its grain, and only the scans of the owner's node
do so, but a row that another scan of that node has read is out of its reach : it fires twice
(`overlapping_fires_twice`). If no scan reads a row of its own node that another scan there has
read and not come to, every row fires at most once (`fires_once`).
-/

namespace Nigrains

/-- The answers of `is_mine` in a fleet that agrees on its membership, and so on who owns what. -/
def agreed (owner : GrainId → NodeId) (node : NodeId) (grain : GrainId) : Option Bool :=
  some (owner grain = node)

/-- The membership does not change. -/
def FixedMembership (_ : Fleet) (e : ReminderEvent) : Prop :=
  e ≠ .regrouped

instance {s : Fleet} {e : ReminderEvent} : Decidable (FixedMembership s e) :=
  inferInstanceAs (Decidable (e ≠ .regrouped))

/-- Nor does a scan read a row of its own node that another scan on that node has read and not
come to. -/
def Apart (s : Fleet) : ReminderEvent → Prop
  | .read node rows => ∀ row ∈ rows, s.isMine node row.grain = some true →
      ∀ i < s.begun, (s.scans i).node = node → row ∉ (s.scans i).pc.pending
  | e => FixedMembership s e

instance {s : Fleet} {e : ReminderEvent} : Decidable (Apart s e) :=
  match e with
  | .read node rows => inferInstanceAs (Decidable (∀ row ∈ rows, s.isMine node row.grain =
      some true → ∀ i < s.begun, (s.scans i).node = node → row ∉ (s.scans i).pc.pending))
  | .asked key interval => inferInstanceAs (Decidable (FixedMembership s (.asked key interval)))
  | .cancelled key => inferInstanceAs (Decidable (FixedMembership s (.cancelled key)))
  | .called row => inferInstanceAs (Decidable (FixedMembership s (.called row)))
  | .started row => inferInstanceAs (Decidable (FixedMembership s (.started row)))
  | .regrouped => inferInstanceAs (Decidable (FixedMembership s .regrouped))

/-- Which rows may still fire. -/
structure Occurring (owner : GrainId → NodeId) (s : Fleet) : Prop where
  owned : s.isMine = agreed owner
  stored : ∀ key row, s.reminders.rows.get key = some row →
    row.key = key ∧ row.stamp < s.reminders.written
  read : ∀ i < s.begun, ∀ row ∈ (s.scans i).pc.pending, row.stamp < s.reminders.written
  nodup : ∀ i < s.begun, (s.scans i).pc.pending.Nodup
  /-- A row is read by one scan of its owner's node. -/
  apart : ∀ i < s.begun, ∀ j < s.begun, i ≠ j → (s.scans i).node = (s.scans j).node →
    ∀ row ∈ (s.scans i).pc.pending, owner row.grain = (s.scans i).node →
      row ∉ (s.scans j).pc.pending
  /-- A row that has fired is nowhere any more. -/
  gone : ∀ row, .called row ∈ s.log → row.stamp < s.reminders.written ∧
    (∀ key, s.reminders.rows.get key ≠ some row) ∧
    ∀ i < s.begun, owner row.grain = (s.scans i).node → row ∉ (s.scans i).pc.pending
  once : ∀ row, s.log.count (.called row) ≤ 1

variable {owner : GrainId → NodeId} {s s' : Fleet}

theorem occurring_init (owner : GrainId → NodeId) : Occurring owner (.init (agreed owner)) where
  owned := rfl
  stored _ _ h := by cases h
  read _ h := by cases h
  nodup _ h := by cases h
  apart _ h := by cases h
  gone _ h := by cases h
  once _ := Nat.zero_le 1

/-- What is due is due once. -/
theorem nodup_due {store : InMemoryReminderStore} (before : Time)
    (h : ∀ key row, store.rows.get key = some row → row.key = key) :
    (store.due before).Nodup := by
  refine List.Nodup.filter _ (List.Nodup.map_on ?_ OrderedDict.nodup_items)
  intro e he e' he' heq
  have hkey := h _ _ (OrderedDict.mem_items.1 he)
  have hkey' := h _ _ (OrderedDict.mem_items.1 he')
  exact Prod.ext (by rw [← hkey, ← hkey', heq]) heq

namespace Occurring

variable (hO : Occurring owner s)

include hO

/-- A write to the store, and an entry of the log that calls nothing, while the scans stay as
they are. -/
theorem write {e : ReminderEvent} (hlog : s'.log = e :: s.log) (he : ∀ row, e ≠ .called row)
    (hmine : s'.isMine = s.isMine) (hscans : s'.scans = s.scans) (hbegun : s'.begun = s.begun)
    (hwritten : s.reminders.written ≤ s'.reminders.written)
    (hstored : ∀ key row, s'.reminders.rows.get key = some row →
      s.reminders.rows.get key = some row ∨ row.key = key ∧ row.stamp = s.reminders.written ∧
        s.reminders.written < s'.reminders.written) : Occurring owner s' where
  owned := hmine.trans hO.owned
  stored key row hrow := by
    rcases hstored key row hrow with hold | ⟨hkey, hstamp, hlt⟩
    · obtain ⟨hkey, hlt⟩ := hO.stored key row hold
      exact ⟨hkey, hlt.trans_le hwritten⟩
    · exact ⟨hkey, hstamp ▸ hlt⟩
  read i hi row hrow := by
    rw [hscans] at hrow
    exact (hO.read i (hbegun ▸ hi) row hrow).trans_le hwritten
  nodup i hi := by
    rw [hscans]
    exact hO.nodup i (hbegun ▸ hi)
  apart i hi j hj := by
    rw [hscans]
    exact hO.apart i (hbegun ▸ hi) j (hbegun ▸ hj)
  gone row hrow := by
    have hold : .called row ∈ s.log := by
      rw [hlog, List.mem_cons] at hrow
      exact hrow.resolve_left fun h => he row h.symm
    obtain ⟨hlt, hstore, hpending⟩ := hO.gone row hold
    refine ⟨hlt.trans_le hwritten, fun key hget => ?_, ?_⟩
    · rcases hstored key row hget with h | ⟨-, hstamp, -⟩
      · exact hstore key h
      · exact hlt.ne hstamp
    · rw [hscans, hbegun]
      exact hpending
  once row := by
    rw [hlog, List.count_cons_of_ne (he row)]
    exact hO.once row

/-- Scans that have read nothing they had not read before, while the store stays as it is. -/
theorem shrink (hmine : s'.isMine = s.isMine) (hreminders : s'.reminders = s.reminders)
    (hbegun : s'.begun = s.begun)
    (hscans : ∀ i, (s'.scans i).node = (s.scans i).node ∧
      (s'.scans i).pc.pending <:+ (s.scans i).pc.pending)
    (hlog : ∀ row, s'.log.count (.called row) = s.log.count (.called row)) :
    Occurring owner s' where
  owned := hmine.trans hO.owned
  stored := by
    rw [hreminders]
    exact hO.stored
  read i hi row hrow := by
    rw [hreminders]
    exact hO.read i (hbegun ▸ hi) row ((hscans i).2.subset hrow)
  nodup i hi := (hO.nodup i (hbegun ▸ hi)).sublist (hscans i).2.sublist
  apart i hi j hj hij hnode row hrow howner hrow' := by
    rw [(hscans i).1, (hscans j).1] at hnode
    rw [(hscans i).1] at howner
    exact hO.apart i (hbegun ▸ hi) j (hbegun ▸ hj) hij hnode row ((hscans i).2.subset hrow) howner
      ((hscans j).2.subset hrow')
  gone row hrow := by
    have hold : .called row ∈ s.log := by
      rw [← List.count_pos_iff, hlog, List.count_pos_iff] at hrow
      exact hrow
    rw [hreminders, hbegun]
    obtain ⟨hlt, hstore, hpending⟩ := hO.gone row hold
    refine ⟨hlt, hstore, fun i hi howner hmem => ?_⟩
    rw [(hscans i).1] at howner
    exact hpending i hi howner ((hscans i).2.subset hmem)
  once row := (hlog row).trans_le (hO.once row)

/-- A scan begins, apart from the others. -/
theorem reads (node : NodeId) (hok : Apart s (.read node (s.reminders.due (s.clock node)))) :
    Occurring owner (s.read node) := by
  have hdue : ∀ row ∈ s.reminders.due (s.clock node), ∃ key,
      s.reminders.rows.get key = some row := fun row => InMemoryReminderStore.exists_get_of_due
  have hnew : (s.read node).scans s.begun =
      ⟨node, .walking (s.reminders.due (s.clock node)), 0⟩ := by
    simp [Fleet.read, Fleet.setScan]
  have hold : ∀ i, i ≠ s.begun → (s.read node).scans i = s.scans i := fun i hi => by
    simp [Fleet.read, Fleet.setScan, Function.update_of_ne hi]
  have hlt : ∀ i < (s.read node).begun, i ≠ s.begun → i < s.begun := fun i hi hne =>
    lt_of_le_of_ne (Nat.lt_succ_iff.1 hi) hne
  -- a row that is due is this node's own only if no other scan here has read it
  have hfree : ∀ row ∈ s.reminders.due (s.clock node), owner row.grain = node →
      ∀ i < s.begun, (s.scans i).node = node → row ∉ (s.scans i).pc.pending :=
    fun row hrow howner => hok row hrow (by simp [hO.owned, agreed, howner])
  refine ⟨hO.owned, hO.stored, fun i hi row hrow => ?_, fun i hi => ?_,
    fun i hi j hj hij hnode row hrow howner => ?_, fun row hrow => ?_, fun row => ?_⟩
  · by_cases hne : i = s.begun
    · subst hne
      rw [hnew] at hrow
      obtain ⟨key, hget⟩ := hdue row hrow
      exact (hO.stored key row hget).2
    · rw [hold i hne] at hrow
      exact hO.read i (hlt i hi hne) row hrow
  · by_cases hne : i = s.begun
    · subst hne
      rw [hnew]
      exact nodup_due _ fun key row hget => (hO.stored key row hget).1
    · rw [hold i hne]
      exact hO.nodup i (hlt i hi hne)
  · by_cases hi' : i = s.begun
    · have hj' : j ≠ s.begun := fun h => hij (hi'.trans h.symm)
      rw [hi', hnew] at hnode hrow howner
      rw [hold j hj'] at hnode ⊢
      exact hfree row hrow howner j (hlt j hj hj') hnode.symm
    · rw [hold i hi'] at hnode hrow howner
      by_cases hj' : j = s.begun
      · rw [hj', hnew] at hnode ⊢
        intro hrow'
        exact hfree row hrow' (howner.trans hnode) i (hlt i hi hi') hnode hrow
      · rw [hold j hj'] at hnode ⊢
        exact hO.apart i (hlt i hi hi') j (hlt j hj hj') hij hnode row hrow howner
  · have hcalled : .called row ∈ s.log := by
      simpa [Fleet.read] using hrow
    obtain ⟨hstamp, hstore, hpending⟩ := hO.gone row hcalled
    refine ⟨hstamp, hstore, fun i hi howner hmem => ?_⟩
    by_cases hne : i = s.begun
    · subst hne
      rw [hnew] at hmem
      obtain ⟨key, hget⟩ := hdue row hmem
      exact hstore key hget
    · rw [hold i hne] at howner hmem
      exact hpending i (hlt i hi hne) howner hmem
  · simpa [Fleet.read, List.count_cons] using hO.once row

/-- A row fires, and is nowhere any more. -/
theorem fires {i : ScanId} {row : Row} {rest : List Row} (hi : i < s.begun)
    (hpc : (s.scans i).pc = .walking (row :: rest))
    (hmine : s.isMine (s.scans i).node row.grain = some true) :
    Occurring owner (s.fire i row rest) := by
  have hpending : (s.scans i).pc.pending = row :: rest := by rw [hpc]; rfl
  have howns : owner row.grain = (s.scans i).node := by simpa [hO.owned, agreed] using hmine
  have hstamp : row.stamp < s.reminders.written :=
    hO.read i hi row (by rw [hpending]; exact List.mem_cons_self)
  have hwritten : s.reminders.written ≤ (s.fire i row rest).reminders.written :=
    written_le_reschedule _ _ _
  have hscans : ∀ u, ((s.fire i row rest).scans u).node = (s.scans u).node ∧
      ((s.fire i row rest).scans u).pc.pending <:+ (s.scans u).pc.pending := by
    intro u
    by_cases hu : u = i
    · subst hu
      rw [hpending]
      simp only [Fleet.fire, Fleet.setPc, Fleet.setScan, Function.update_self, true_and]
      exact List.suffix_cons row rest
    · simp [Fleet.fire, Fleet.setPc, Fleet.setScan, Function.update_of_ne hu]
  have hstored : ∀ key row', (s.fire i row rest).reminders.rows.get key = some row' →
      (key ≠ row.key ∧ s.reminders.rows.get key = some row') ∨ row'.key = key ∧
        row'.stamp = s.reminders.written ∧
        s.reminders.written < (s.fire i row rest).reminders.written := by
    intro key row' hget
    rcases get_reschedule hget with ⟨-, hkey, -, hnew, hlt⟩ | hold
    · exact .inr ⟨hkey, hnew, hlt⟩
    · exact .inl hold
  have hcalled : .called row ∉ s.log := fun h =>
    (hO.gone row h).2.2 i hi howns (by rw [hpending]; exact List.mem_cons_self)
  refine ⟨hO.owned, fun key row' hget => ?_, fun u hu row' hrow' => ?_, fun u hu => ?_,
    fun u hu v hv huv hnode row' hrow' howner hrow'' => ?_, fun row' hrow' => ?_, fun row' => ?_⟩
  · rcases hstored key row' hget with ⟨-, hold⟩ | ⟨hkey, hnew, hlt⟩
    · exact ⟨(hO.stored key row' hold).1, (hO.stored key row' hold).2.trans_le hwritten⟩
    · exact ⟨hkey, hnew ▸ hlt⟩
  · exact (hO.read u hu row' ((hscans u).2.subset hrow')).trans_le hwritten
  · exact (hO.nodup u hu).sublist (hscans u).2.sublist
  · rw [(hscans u).1] at hnode howner
    rw [(hscans v).1] at hnode
    exact hO.apart u hu v hv huv hnode row' ((hscans u).2.subset hrow') howner
      ((hscans v).2.subset hrow'')
  · rcases List.mem_cons.1 hrow' with heq | hmem
    · obtain rfl := ReminderEvent.called.inj heq
      refine ⟨hstamp.trans_le hwritten, fun key hget => ?_, fun u hu howner hmem => ?_⟩
      · rcases hstored key row' hget with ⟨hne, hold⟩ | ⟨-, hnew, -⟩
        · exact hne (hO.stored key row' hold).1.symm
        · exact hstamp.ne hnew
      · by_cases hu' : u = i
        · subst hu'
          have hnodup := hO.nodup u hi
          rw [hpending] at hnodup
          refine (List.nodup_cons.1 hnodup).1 ?_
          simpa [Fleet.fire, Fleet.setPc, Fleet.setScan, ScanAt.pending] using hmem
        · rw [(hscans u).1] at howner
          exact hO.apart i hi u hu (Ne.symm hu') (howns.symm.trans howner) row'
            (by rw [hpending]; exact List.mem_cons_self) howns ((hscans u).2.subset hmem)
    · obtain ⟨hlt, hstore, hother⟩ := hO.gone row' hmem
      refine ⟨hlt.trans_le hwritten, fun key hget => ?_, fun u hu howner hmem' => ?_⟩
      · rcases hstored key row' hget with ⟨-, hold⟩ | ⟨-, hnew, -⟩
        · exact hstore key hold
        · exact hlt.ne hnew
      · rw [(hscans u).1] at howner
        exact hother u hu howner ((hscans u).2.subset hmem')
  · simp only [Fleet.fire, List.count_cons, beq_iff_eq, ReminderEvent.called.injEq]
    split_ifs with heq
    · subst heq
      rw [List.count_eq_zero.2 hcalled]
    · exact hO.once row'

theorem step (h : FleetStep s s') (hok : Logs Fleet.log Apart s s') : Occurring owner s' := by
  cases h with
  | asks reminder =>
    refine hO.write rfl (fun _ h => by cases h) rfl rfl rfl (Nat.le_succ _) fun key row hget => ?_
    simp only [Fleet.ask, InMemoryReminderStore.get_put] at hget
    split_ifs at hget with hkey
    · obtain rfl := Option.some.inj hget
      exact .inr ⟨hkey.symm, rfl, Nat.lt_succ_self _⟩
    · exact .inl hget
  | cancels grain name =>
    refine hO.write rfl (fun _ h => by cases h) rfl rfl rfl le_rfl fun key row hget => ?_
    simp only [Fleet.cancel, InMemoryReminderStore.get_drop] at hget
    split_ifs at hget
    exact .inl hget
  | reads node => exact hO.reads node (hok _ rfl)
  | fires i row rest hi hpc hmine => exact hO.fires hi hpc hmine
  | starts i row rest hi hpc =>
    refine hO.shrink rfl rfl rfl (fun u => ?_) fun row' => by simp
    by_cases hu : u = i
    · subst hu
      simp [Fleet.setPc, Fleet.setScan, hpc, ScanAt.pending]
    · simp [Fleet.setPc, Fleet.setScan, Function.update_of_ne hu]
  | moves i scan hi hnode hpending hunstarted =>
    refine hO.shrink rfl rfl rfl (fun u => ?_) fun _ => rfl
    by_cases hu : u = i
    · subst hu
      simpa [Fleet.setScan] using ⟨hnode, hpending⟩
    · simp [Fleet.setScan, Function.update_of_ne hu]
  | regroups isMine => exact (hok .regrouped rfl rfl).elim
  | turns clock => exact hO.shrink rfl rfl rfl (fun _ => ⟨rfl, List.suffix_refl _⟩) fun _ => rfl

end Occurring

/-- While no scan reads a row of its own node that another scan there has read and not come to,
each row fires at most once. -/
theorem fires_once (h : Run fleetStep (Logs Fleet.log Apart) (.init (agreed owner)) s) (row : Row) :
    s.log.count (.called row) ≤ 1 :=
  (h.invariant (I := Occurring owner) (occurring_init owner) fun _ _ _ hO hl hok =>
    hO.step (fleetStep_cases hl) hok).once row

/-! ## Runs on fixed inputs -/

/-- A second scan begins when the first is through. -/
theorem fires_once_inTurn : ∃ s : Fleet,
    s.log.head? = some (.called ⟨⟨⟨"digest", "a"⟩, "one", 20, some 10⟩, 2⟩) ∧
    ∀ row, s.log.count (.called row) ≤ 1 := by
  obtain ⟨s, hrun, hp⟩ := exists_run fleetStep _ (logs_of_check Fleet.log Apart)
    (.init (agreed fun _ => "")) (firstOfTwo ++ [.finish 0 none, .walk 0, .start 0, .finish 0 none,
      .walk 0, .clock "" 10, .scan "", .walk 1])
    (fun s : Fleet => decide (s.log.head? =
      some (.called ⟨⟨⟨"digest", "a"⟩, "one", 20, some 10⟩, 2⟩))) (by decide +kernel)
  exact ⟨s, of_decide_eq_true hp, fires_once hrun⟩

/-- A second scan begins while the first awaits a handler, and both fire the row that comes
after it. -/
theorem overlapping_fires_twice : ∃ s,
    Run fleetStep (Logs Fleet.log FixedMembership) (.init (agreed fun _ => "")) s ∧
    s.log.count (.called ⟨⟨⟨"digest", "a"⟩, "two", 10, some 10⟩, 1⟩) = 2 := by
  obtain ⟨s, hrun, hp⟩ := exists_run fleetStep _ (logs_of_check Fleet.log FixedMembership)
    (.init (agreed fun _ => "")) (firstOfTwo ++
      [.scan "", .walk 1, .start 1, .finish 1 none, .finish 0 none, .walk 0])
    (fun s : Fleet => decide
      (s.log.count (.called ⟨⟨⟨"digest", "a"⟩, "two", 10, some 10⟩, 1⟩) = 2)) (by decide +kernel)
  exact ⟨s, hrun, of_decide_eq_true hp⟩

end Nigrains
