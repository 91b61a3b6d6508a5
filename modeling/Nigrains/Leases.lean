import Nigrains.Transition
import Nigrains.Valkey

/-!
# A lease and its heartbeat

One node's life in a store of keys that expire : it starts, writes its key again and again, and
stops. Time passes between, and others write and delete keys of their own. A run is `BeatsOnTime` if
no heartbeat goes by without a write that reaches the store.

The constructor compares the heartbeat with the lease, and what is written is the lease cut to
whole seconds. So a node stays in its own fleet exactly if a whole number of seconds fits
between the two (`keeps_lease_iff`).
-/

namespace Nigrains

/-- Where a node is in its life. -/
inductive LeasePhase
  | outside
  | beating
  | stopped
deriving DecidableEq, Repr

/-- A node's life in a store. -/
structure Leased (σ : Type*) where
  store : σ
  phase : LeasePhase
  /-- The seconds since its last write reached the store. -/
  since : ℚ

/-- What happens next. -/
inductive LeaseLabel
  | starts
  | passes (seconds : ℚ)
  /-- The loop of `_beat` comes round. -/
  | beats
  | stops
  /-- Somebody else writes a key. -/
  | sets (key : String) (seconds : ℤ)
  /-- Somebody else deletes one. -/
  | deletes (key : String)

variable {σ : Type*} (V : Valkey σ) (self : ValkeyMembership)

/-- The node is outside, and the store empty. -/
def Leased.init : Leased σ :=
  ⟨V.empty, .outside, 0⟩

/-- One step of a node's life. -/
def leaseStep (s : Leased σ) : LeaseLabel → Option (Leased σ)
  | .starts =>
    if s.phase = .outside then
      (self.announce V s.store).map fun store => ⟨store, .beating, 0⟩
    else none
  | .passes seconds =>
    if 0 ≤ seconds then
      some { s with store := V.pass s.store seconds, since := s.since + seconds }
    else none
  | .beats =>
    if s.phase = .beating then
      match self.announce V s.store with
      | some store => some { s with store := store, since := 0 }
      | none => some s
    else none
  | .stops =>
    if s.phase = .beating then
      some { s with store := self.leave V s.store, phase := .stopped }
    else none
  | .sets key seconds =>
    if key = self.key self.node then none
    else (V.set s.store key seconds).map fun store => { s with store := store }
  | .deletes key =>
    if key = self.key self.node then none
    else some { s with store := V.delete s.store key }

/-- A node that beats lets no heartbeat go by without a write. -/
def BeatsOnTime (_ s' : Leased σ) : Prop :=
  s'.phase = .beating → s'.since ≤ self.heartbeat

instance (s s' : Leased σ) : Decidable (BeatsOnTime self s s') :=
  inferInstanceAs (Decidable (s'.phase = .beating → s'.since ≤ self.heartbeat))

/-- The expiry is positive and longer than the heartbeat, and as long as the node is on time its
key is there from its start until it stops. -/
def KeepsLease : Prop :=
  0 < self.expiry ∧ self.heartbeat < self.expiry ∧
    ∀ s, Run (leaseStep V self) (BeatsOnTime self) (.init V) s → s.phase = .beating →
      V.Present s.store (self.key self.node)

/-- The key has as long to live as the expiry and the last write leave it. -/
def Leased.Lasting (s : Leased σ) : Prop :=
  s.phase = .beating → s.since ≤ self.heartbeat ∧
    V.left s.store (self.key self.node) = self.expiry - s.since

variable {V self} {s s' : Leased σ}

/-- A write that reaches the store. -/
theorem left_announce {store store' : σ} (h : self.announce V store = some store') :
    V.left store' (self.key self.node) = self.expiry := by
  rw [(Valkey.left_of_set h).2, if_pos rfl]

/-- A step that is on time leaves the key as long as it should have. -/
theorem Leased.Lasting.step (hself : self.heartbeat < self.expiry) {l : LeaseLabel}
    (hs : s.Lasting V self) (h : leaseStep V self s l = some s') (hok : BeatsOnTime self s s') :
    s'.Lasting V self := by
  intro hphase
  refine ⟨hok hphase, ?_⟩
  cases l with
  | starts =>
    simp only [leaseStep] at h
    split_ifs at h
    obtain ⟨store, hannounce, rfl⟩ := Option.map_eq_some_iff.1 h
    simpa using left_announce hannounce
  | passes seconds =>
    simp only [leaseStep] at h
    split_ifs at h with hpos
    obtain rfl := Option.some.inj h
    obtain ⟨hsince, hleft⟩ := hs hphase
    have hlasting : 0 < V.left s.store (self.key self.node) := by
      rw [hleft]
      linarith
    rw [V.left_pass _ _ _ hpos hlasting, hleft]
    ring
  | beats =>
    simp only [leaseStep] at h
    split_ifs at h
    split at h
    · next store hannounce =>
      obtain rfl := Option.some.inj h
      simpa using left_announce hannounce
    · obtain rfl := Option.some.inj h
      exact (hs hphase).2
  | stops =>
    simp only [leaseStep] at h
    split_ifs at h
    obtain rfl := Option.some.inj h
    cases hphase
  | sets key seconds =>
    simp only [leaseStep] at h
    split_ifs at h with hkey
    obtain ⟨store, hset, rfl⟩ := Option.map_eq_some_iff.1 h
    rw [(Valkey.left_of_set hset).2, if_neg (Ne.symm hkey)]
    exact (hs hphase).2
  | deletes key =>
    simp only [leaseStep] at h
    split_ifs at h with hkey
    obtain rfl := Option.some.inj h
    rw [V.left_delete_of_ne _ _ _ (Ne.symm hkey)]
    exact (hs hphase).2

/-- A node that is on time keeps its key, if the expiry is longer than the heartbeat. -/
theorem present_of_beatsOnTime (hself : self.heartbeat < self.expiry)
    (hrun : Run (leaseStep V self) (BeatsOnTime self) (.init V) s) (hphase : s.phase = .beating) :
    V.Present s.store (self.key self.node) := by
  have hlasting : s.Lasting V self :=
    hrun.invariant (fun h => by cases h) fun _ _ _ hs h hok => hs.step hself h hok
  obtain ⟨hsince, hleft⟩ := hlasting hphase
  unfold Valkey.Present
  rw [hleft]
  linarith

/-- A node keeps its lease exactly if some whole number of seconds is longer than the heartbeat
and not longer than the lease. -/
theorem keeps_lease_iff (V : Valkey σ) (self : ValkeyMembership) : KeepsLease V self ↔
    ∃ n : ℤ, 1 ≤ n ∧ self.heartbeat < n ∧ n ≤ self.lease := by
  constructor
  · rintro ⟨hpos, hbeat, -⟩
    exact ⟨self.expiry, hpos, hbeat, (le_pyInt hpos).1 le_rfl⟩
  · rintro ⟨n, hn, hbeat, hlease⟩
    have hle : n ≤ self.expiry := (le_pyInt hn).2 hlease
    have hbeat' : self.heartbeat < self.expiry := hbeat.trans_le (by exact_mod_cast hle)
    exact ⟨by omega, hbeat', fun s hrun hphase => present_of_beatsOnTime hbeat' hrun hphase⟩

/-- A lease that is cut below its heartbeat. -/
def cutShort : ValkeyMembership where
  node := "a"
  keyPrefix := ValkeyMembership.defaultPrefix
  lease := 59 / 10
  heartbeat := 11 / 2
  fits := by norm_num
  members := ["a"]

/-- The constructor accepts it, and the node is out of its own fleet before its first beat is
due. -/
theorem lease_cut_short : ValkeyMembership.init "a" ValkeyMembership.defaultPrefix (59 / 10)
      (11 / 2) = .ok cutShort ∧
    (∃ s, Run (leaseStep .rows cutShort) (BeatsOnTime cutShort) (.init .rows) s ∧
      s.phase = .beating ∧ ¬ Valkey.rows.Present s.store (cutShort.key cutShort.node)) ∧
    ¬ KeepsLease .rows cutShort := by
  have hinit : ValkeyMembership.init "a" ValkeyMembership.defaultPrefix (59 / 10) (11 / 2) =
      .ok cutShort := dif_neg (by norm_num)
  have hrun : ∃ s, Run (leaseStep .rows cutShort) (BeatsOnTime cutShort) (.init .rows) s ∧
      decide (s.phase = .beating ∧
        s.store.left (cutShort.key cutShort.node) ≤ 0) = true := by
    exact exists_run _ (fun s s' => decide (BeatsOnTime cutShort s s'))
      (fun _ _ h => of_decide_eq_true h) _ [.starts, .passes (26 / 5)] _ (by decide +kernel)
  obtain ⟨s, hrun, hs⟩ := hrun
  obtain ⟨hphase, hleft⟩ := of_decide_eq_true hs
  have hgone : ¬ Valkey.rows.Present s.store (cutShort.key cutShort.node) := not_lt.2 hleft
  exact ⟨hinit, ⟨s, hrun, hphase, hgone⟩, fun h => hgone (h.2.2 s hrun hphase)⟩

/-- The defaults keep their lease. -/
example (V : Valkey σ) (node : NodeId) : ∃ self,
    ValkeyMembership.init node ValkeyMembership.defaultPrefix ValkeyMembership.defaultLease
      ValkeyMembership.defaultHeartbeat = .ok self ∧ KeepsLease V self := by
  have hbeat : ValkeyMembership.defaultHeartbeat < pyInt ValkeyMembership.defaultLease := by
    decide +kernel
  have hlease : 0 < pyInt ValkeyMembership.defaultLease := by decide +kernel
  exact ⟨_, dif_neg (by decide +kernel), hlease, hbeat,
    fun s hrun hphase => present_of_beatsOnTime hbeat hrun hphase⟩

end Nigrains
