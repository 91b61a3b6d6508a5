import Nigrains.Prefixes
import Nigrains.Views

/-!
# A fleet that gathers

The memberships of one fleet, over one store that others use as well. A node joins with a write
and a read, writes and reads again and again, and stops or dies. A write may be lost, and so may
a read; a run is `WrittenOnTime` if no node goes without a write for as long as its key lives, or
without a read for longer than `patience`.

How long ago a node joined or went decides who sees it (`views_of_ages`) : from `patience` on a
node that has joined is seen by every other, and from its expiry and `patience` on one that has
gone is seen by none, however it went. Once every change is so long ago, the nodes that beat
agree where each grain lives, and exactly one of them takes it for its own (`settles`).
-/

set_option linter.unusedSectionVars false

namespace Nigrains

/-- The memberships of a fleet, each of a node of its own. -/
structure Peers (ι : Type*) where
  keyPrefix : String
  member : ι → ValkeyMembership
  globFree : GlobFree keyPrefix
  prefix_eq : ∀ i, (member i).keyPrefix = keyPrefix
  node_injective : Function.Injective fun i => (member i).node

/-- Where a node is in its life. -/
inductive PeerPhase
  | away
  /-- `start` has written its key, and has not read. -/
  | joining
  | beating
  /-- `stop` has ended its heartbeat, and has not deleted its key. -/
  | leaving
deriving DecidableEq, Repr

/-- A node writes its key, or is about to. -/
def PeerPhase.up : PeerPhase → Bool
  | joining => true
  | beating => true
  | _ => false

/-- One node's life. -/
structure Peer where
  phase : PeerPhase
  /-- The seconds since its last write reached the store. -/
  since : ℚ
  /-- The seconds since its last read. -/
  read : ℚ
  /-- The seconds since it joined or went. -/
  age : ℚ
  /-- What it saw last. -/
  members : List NodeId

/-- A fleet and its store. -/
structure Roster (ι σ : Type*) where
  store : σ
  nodes : ι → Peer

/-- What happens next. -/
inductive RosterLabel (ι : Type*)
  /-- A write of `start` or `_beat` reaches the store. -/
  | announces (i : ι)
  /-- A read comes back. -/
  | refreshes (i : ι)
  | stops (i : ι)
  | deletes (i : ι)
  /-- A node is killed, or its `start` or the last write of its `stop` raises. -/
  | dies (i : ι)
  | passes (seconds : ℚ)
  /-- Somebody else writes a key, or deletes one. -/
  | sets (key : String) (seconds : ℤ)
  | clears (key : String)

variable {ι σ : Type*} [DecidableEq ι] (V : Valkey σ) (P : Peers ι)

/-- The key of a node. -/
def Peers.key (i : ι) : String :=
  (P.member i).key (P.member i).node

/-- The key is where the fleet's keys are. -/
def Peers.own (key : String) : Bool :=
  (P.keyPrefix ++ ":").toList.isPrefixOf key.toList

/-- Nobody has started, and the store is empty. -/
def Roster.init : Roster ι σ :=
  ⟨V.empty, fun i => ⟨.away, 0, 0, 0, [(P.member i).node]⟩⟩

/-- Write to a node's life. -/
def Roster.modify (s : Roster ι σ) (i : ι) (f : Peer → Peer) : Roster ι σ :=
  { s with nodes := Function.update s.nodes i (f (s.nodes i)) }

/-- Seconds pass for a node. -/
def Peer.pass (x : Peer) (seconds : ℚ) : Peer :=
  { x with since := x.since + seconds, read := x.read + seconds, age := x.age + seconds }

/-- A node has read. -/
def Peer.see (x : Peer) (members : List NodeId) : Peer :=
  { x with phase := .beating, read := 0, members := members }

/-- One step of a fleet. -/
def rosterStep (s : Roster ι σ) : RosterLabel ι → Option (Roster ι σ)
  | .announces i =>
    match (s.nodes i).phase with
    | .away => ((P.member i).announce V s.store).map fun store =>
      { s with store := store }.modify i fun x => { x with phase := .joining, since := 0, age := 0 }
    | .beating => ((P.member i).announce V s.store).map fun store =>
      { s with store := store }.modify i fun x => { x with since := 0 }
    | _ => none
  | .refreshes i =>
    if (s.nodes i).phase.up then
      some (s.modify i fun x => x.see ((P.member i).refresh V s.store).members)
    else none
  | .stops i =>
    if (s.nodes i).phase = .beating then
      some (s.modify i fun x => { x with phase := .leaving, age := 0 })
    else none
  | .deletes i =>
    if (s.nodes i).phase = .leaving then
      some ({ s with store := (P.member i).leave V s.store }.modify i fun x =>
        { x with phase := .away })
    else none
  | .dies i =>
    some (s.modify i fun x => { x with phase := .away, age := if x.phase.up then 0 else x.age })
  | .passes seconds =>
    if 0 ≤ seconds then
      some ⟨V.pass s.store seconds, fun i => (s.nodes i).pass seconds⟩
    else none
  | .sets key seconds =>
    if P.own key then none
    else (V.set s.store key seconds).map fun store => { s with store := store }
  | .clears key => if P.own key then none else some { s with store := V.delete s.store key }

/-- No node goes without a write for as long as its key lives, and none that beats or is
joining goes without a read for longer than `patience`. -/
def WrittenOnTime (patience : ℚ) (_ s' : Roster ι σ) : Prop :=
  ∀ i, (s'.nodes i).phase.up = true → (s'.nodes i).since < (P.member i).expiry ∧
    ((s'.nodes i).phase = .beating → (s'.nodes i).read ≤ patience) ∧
    ((s'.nodes i).phase = .joining → (s'.nodes i).age ≤ patience)

instance [Fintype ι] (patience : ℚ) (s s' : Roster ι σ) :
    Decidable (WrittenOnTime P patience s s') :=
  inferInstanceAs (Decidable (∀ i, (s'.nodes i).phase.up = true →
    (s'.nodes i).since < (P.member i).expiry ∧
    ((s'.nodes i).phase = .beating → (s'.nodes i).read ≤ patience) ∧
    ((s'.nodes i).phase = .joining → (s'.nodes i).age ≤ patience)))

variable {V P} {s s' : Roster ι σ} {i j : ι} {name : NodeId}

theorem Peers.key_eq (P : Peers ι) (i j : ι) :
    (P.member i).key (P.member j).node = P.key j := by
  unfold Peers.key ValkeyMembership.key
  rw [P.prefix_eq, P.prefix_eq]

theorem Peers.key_injective (P : Peers ι) : Function.Injective P.key := by
  intro i j h
  unfold Peers.key ValkeyMembership.key at h
  rw [P.prefix_eq, P.prefix_eq] at h
  exact P.node_injective ((String.append_right_inj _).1 h)

/-- The key of a name in the fleet is where the fleet's keys are. -/
theorem Peers.own_key (P : Peers ι) (i : ι) (name : NodeId) :
    P.own ((P.member i).key name) = true := by
  unfold Peers.own ValkeyMembership.key
  rw [P.prefix_eq, List.isPrefixOf_iff_prefix]
  exact ⟨name.toList, String.toList_append.symm⟩

/-- A node that reads sees itself, and whose key is there. -/
theorem Peers.mem_refresh (P : Peers ι) {store : σ} :
    name ∈ ((P.member i).refresh V store).members ↔
      name = (P.member i).node ∨ V.Present store ((P.member i).key name) :=
  Nigrains.mem_refresh (m := P.member) (P.prefix_eq i ▸ P.globFree)

/-- What the store holds of the fleet : the key of a node that is up for as long as its last
write leaves it, and the key of one that is not for no longer than its last write could. -/
structure Roster.Kept (V : Valkey σ) (P : Peers ι) (s : Roster ι σ) : Prop where
  written : ∀ key, P.own key = true → V.Present s.store key → ∃ j, key = P.key j
  since_nonneg : ∀ j, 0 ≤ (s.nodes j).since
  lasting : ∀ j, (s.nodes j).phase.up = true → (s.nodes j).since < (P.member j).expiry ∧
    V.left s.store (P.key j) = (P.member j).expiry - (s.nodes j).since
  lapsing : ∀ j, (s.nodes j).phase.up = false →
    V.left s.store (P.key j) ≤ max 0 ((P.member j).expiry - (s.nodes j).age)

theorem Roster.kept_init : (Roster.init V P).Kept V P where
  written key _ h := absurd h (not_lt.2 (V.left_empty key))
  since_nonneg _ := le_rfl
  lasting j h := by cases h
  lapsing j _ := (V.left_empty _).trans (le_max_left _ _)

/-- A write of node `i` that reaches the store. -/
theorem Peers.left_announce {store store' : σ} (h : (P.member i).announce V store = some store') :
    0 < (P.member i).expiry ∧
      ∀ key, V.left store' key =
        if key = P.key i then ((P.member i).expiry : ℚ) else V.left store key :=
  Valkey.left_of_set h

namespace Roster.Kept

variable (hs : s.Kept V P)

include hs

/-- A node writes its key. -/
theorem announce {store : σ} (h : (P.member i).announce V s.store = some store) (f : Peer → Peer)
    (hup : (f (s.nodes i)).phase.up = true) (hsince : (f (s.nodes i)).since = 0) :
    ({ s with store := store }.modify i f).Kept V P := by
  obtain ⟨hpos, hleft⟩ := P.left_announce h
  have hother : ∀ j, j ≠ i → V.left store (P.key j) = V.left s.store (P.key j) := fun j hj => by
    rw [hleft, if_neg fun he => hj (P.key_injective he)]
  refine ⟨fun key hown hkey => ?_, fun j => ?_, fun j hjup => ?_, fun j hdown => ?_⟩
  · by_cases hi : key = P.key i
    · exact ⟨i, hi⟩
    · refine hs.written key hown ?_
      simpa [Valkey.Present, Roster.modify, hleft, hi] using hkey
  · by_cases hj : j = i
    · subst hj
      simp [Roster.modify, hsince]
    · simpa [Roster.modify, hj] using hs.since_nonneg j
  · by_cases hj : j = i
    · subst hj
      simp only [Roster.modify, Function.update_self, hsince, hleft, if_true, sub_zero, and_true]
      exact_mod_cast hpos
    · simp only [Roster.modify, Function.update_of_ne hj] at hjup ⊢
      rw [hother j hj]
      exact hs.lasting j hjup
  · by_cases hj : j = i
    · subst hj
      simp [Roster.modify, hup] at hdown
    · simp only [Roster.modify, Function.update_of_ne hj] at hdown ⊢
      rw [hother j hj]
      exact hs.lapsing j hdown

/-- A node's life changes, and nothing of the store. -/
theorem modify (f : Peer → Peer) (hsince : ∀ x, (f x).since = x.since)
    (hup : (f (s.nodes i)).phase.up = true → (s.nodes i).phase.up = true)
    (hage : (f (s.nodes i)).phase.up = false →
      (f (s.nodes i)).age = if (s.nodes i).phase.up then 0 else (s.nodes i).age) :
    (s.modify i f).Kept V P := by
  refine ⟨hs.written, fun j => ?_, fun j hj => ?_, fun j hj => ?_⟩
  · by_cases hji : j = i
    · subst hji
      simpa [Roster.modify, hsince] using hs.since_nonneg j
    · simpa [Roster.modify, hji] using hs.since_nonneg j
  · by_cases hji : j = i
    · subst hji
      simp only [Roster.modify, Function.update_self] at hj ⊢
      rw [hsince]
      exact hs.lasting j (hup hj)
    · simp only [Roster.modify, Function.update_of_ne hji] at hj ⊢
      exact hs.lasting j hj
  · by_cases hji : j = i
    · subst hji
      simp only [Roster.modify, Function.update_self] at hj ⊢
      rw [hage hj]
      cases hold : (s.nodes j).phase.up with
      | true =>
        -- what its last write leaves a node that goes is no more than its expiry
        have hleft := (hs.lasting j hold).2
        have hsince := hs.since_nonneg j
        simp only [if_true, sub_zero]
        exact le_max_of_le_right (by linarith)
      | false => simpa [hold] using hs.lapsing j hold
    · simp only [Roster.modify, Function.update_of_ne hji] at hj ⊢
      exact hs.lapsing j hj

/-- The store changes at keys that are not the fleet's. -/
theorem others {store : σ} (h : ∀ key, P.own key = true → V.left store key = V.left s.store key) :
    ({ s with store := store } : Roster ι σ).Kept V P := by
  have hkey : ∀ j, V.left store (P.key j) = V.left s.store (P.key j) :=
    fun j => h _ (P.own_key j _)
  refine ⟨fun key hown hkey' => ?_, hs.since_nonneg, fun j hj => ?_, fun j hj => ?_⟩
  · refine hs.written key hown ?_
    unfold Valkey.Present at hkey' ⊢
    rwa [h key hown] at hkey'
  · rw [hkey]
    exact hs.lasting j hj
  · rw [hkey]
    exact hs.lapsing j hj

/-- A node that goes deletes its key. -/
theorem delete (hdown : (s.nodes i).phase.up = false) :
    ({ s with store := (P.member i).leave V s.store } : Roster ι σ).Kept V P := by
  have hgone : V.left ((P.member i).leave V s.store) (P.key i) ≤ 0 := V.left_delete _ _
  have hother : ∀ key, key ≠ P.key i →
      V.left ((P.member i).leave V s.store) key = V.left s.store key :=
    fun key hkey => V.left_delete_of_ne _ _ _ hkey
  refine ⟨fun key hown hkey => ?_, hs.since_nonneg, fun j hj => ?_, fun j hj => ?_⟩
  · by_cases hi : key = P.key i
    · exact ⟨i, hi⟩
    · refine hs.written key hown ?_
      unfold Valkey.Present at hkey ⊢
      rwa [hother key hi] at hkey
  · have hji : P.key j ≠ P.key i := by
      intro he
      rw [P.key_injective he] at hj
      exact absurd hj (by simp [hdown])
    rw [hother _ hji]
    exact hs.lasting j hj
  · by_cases hji : j = i
    · subst hji
      exact hgone.trans (le_max_left _ _)
    · rw [hother _ fun he => hji (P.key_injective he)]
      exact hs.lapsing j hj

/-- Seconds pass. -/
theorem pass {seconds : ℚ} (hpos : 0 ≤ seconds)
    (hlasts : ∀ j, (s.nodes j).phase.up = true →
      (s.nodes j).since + seconds < (P.member j).expiry) :
    (⟨V.pass s.store seconds, fun j => (s.nodes j).pass seconds⟩ : Roster ι σ).Kept V P := by
  refine ⟨fun key hown hkey => ?_, fun j => ?_, fun j hj => ?_, fun j hj => ?_⟩
  · refine hs.written key hown ?_
    by_contra hgone
    exact absurd hkey (not_lt.2 (V.left_pass_of_nonpos _ _ _ hpos (not_lt.1 hgone)))
  · exact add_nonneg (hs.since_nonneg j) hpos
  · have hlast := hlasts j hj
    have hleft := (hs.lasting j hj).2
    have hthere : 0 < V.left s.store (P.key j) := by linarith
    refine ⟨hlast, ?_⟩
    show V.left (V.pass s.store seconds) (P.key j) = _ - ((s.nodes j).since + seconds)
    rw [V.left_pass _ _ _ hpos hthere, hleft]
    ring
  · have hleft := hs.lapsing j hj
    show V.left (V.pass s.store seconds) (P.key j) ≤
      max 0 ((P.member j).expiry - ((s.nodes j).age + seconds))
    rcases lt_or_ge 0 (V.left s.store (P.key j)) with hthere | hgone
    · have hle : V.left s.store (P.key j) ≤ (P.member j).expiry - (s.nodes j).age := by
        rcases le_max_iff.1 hleft with h0 | hle
        · exact absurd hthere (not_lt.2 h0)
        · exact hle
      rw [V.left_pass _ _ _ hpos hthere]
      exact le_max_of_le_right (by linarith)
    · exact (V.left_pass_of_nonpos _ _ _ hpos hgone).trans (le_max_left _ _)

end Roster.Kept

/-- Whose view a node is in, by how long ago it joined or went. -/
structure Roster.Viewed (P : Peers ι) (s : Roster ι σ) : Prop where
  read_nonneg : ∀ i, 0 ≤ (s.nodes i).read
  own : ∀ i, (P.member i).node ∈ (s.nodes i).members
  /-- A node sees no one but nodes of its fleet. -/
  known : ∀ i, ∀ name ∈ (s.nodes i).members, ∃ j, name = (P.member j).node
  /-- It sees who had joined when it read. -/
  seen : ∀ i j, (s.nodes i).phase = .beating → (s.nodes j).phase.up = true →
    (s.nodes i).read < (s.nodes j).age → (P.member j).node ∈ (s.nodes i).members
  /-- It does not see whose key had lapsed when it read. -/
  unseen : ∀ i j, i ≠ j → (s.nodes i).phase = .beating → (s.nodes j).phase.up = false →
    (P.member j).expiry + (s.nodes i).read ≤ (s.nodes j).age →
    (P.member j).node ∉ (s.nodes i).members

theorem Roster.viewed_init : (Roster.init V P).Viewed P where
  read_nonneg _ := le_rfl
  own i := List.mem_singleton.2 rfl
  known i name h := ⟨i, List.mem_singleton.1 h⟩
  seen i j h := by cases h
  unseen i j _ h := by cases h

namespace Roster.Viewed

variable (hs : s.Viewed P)

include hs

/-- A node that joins or goes is in no one's way for now, and one that only writes changes
nothing anyone sees. -/
theorem modify (f : Peer → Peer) (hread : ∀ x, (f x).read = x.read)
    (hmembers : ∀ x, (f x).members = x.members)
    (hbeating : (f (s.nodes i)).phase = .beating → (s.nodes i).phase = .beating)
    (hage : (f (s.nodes i)).phase.up = (s.nodes i).phase.up ∧
        (f (s.nodes i)).age = (s.nodes i).age ∨
      (f (s.nodes i)).age = 0 ∧
        ((f (s.nodes i)).phase.up = false → 0 < (P.member i).expiry)) :
    (s.modify i f).Viewed P := by
  have hread' : ∀ k, ((s.modify i f).nodes k).read = (s.nodes k).read := by
    intro k
    by_cases hk : k = i
    · subst hk
      simp [Roster.modify, hread]
    · simp [Roster.modify, hk]
  have hmembers' : ∀ k, ((s.modify i f).nodes k).members = (s.nodes k).members := by
    intro k
    by_cases hk : k = i
    · subst hk
      simp [Roster.modify, hmembers]
    · simp [Roster.modify, hk]
  have hbeating' : ∀ k, ((s.modify i f).nodes k).phase = .beating →
      (s.nodes k).phase = .beating := by
    intro k hk
    by_cases hki : k = i
    · subst hki
      exact hbeating (by simpa [Roster.modify] using hk)
    · simpa [Roster.modify, hki] using hk
  refine ⟨fun k => hread' k ▸ hs.read_nonneg k, fun k => hmembers' k ▸ hs.own k,
    fun k => hmembers' k ▸ hs.known k, fun k j hk hj hlt => ?_, fun k j hkj hk hj hle => ?_⟩
  · rw [hread'] at hlt
    rw [hmembers']
    by_cases hji : j = i
    · subst hji
      simp only [Roster.modify, Function.update_self] at hj hlt
      rcases hage with ⟨hup, hold⟩ | ⟨hzero, -⟩
      · exact hs.seen k j (hbeating' k hk) (hup ▸ hj) (hold ▸ hlt)
      · exact absurd (hs.read_nonneg k) (not_le.2 (hzero ▸ hlt))
    · simp only [Roster.modify, Function.update_of_ne hji] at hj hlt
      exact hs.seen k j (hbeating' k hk) hj hlt
  · rw [hread'] at hle
    rw [hmembers']
    by_cases hji : j = i
    · subst hji
      simp only [Roster.modify, Function.update_self] at hj hle
      rcases hage with ⟨hup, hold⟩ | ⟨hzero, hpos⟩
      · exact hs.unseen k j hkj (hbeating' k hk) (hup ▸ hj) (hold ▸ hle)
      · have hexpiry : (0 : ℚ) < (P.member j).expiry := by exact_mod_cast hpos hj
        have hnonneg := hs.read_nonneg k
        rw [hzero] at hle
        linarith
    · simp only [Roster.modify, Function.update_of_ne hji] at hj hle
      exact hs.unseen k j hkj (hbeating' k hk) hj hle

/-- A read sees the keys that are there. -/
theorem refresh (hkept : s.Kept V P) (hup : (s.nodes i).phase.up = true) :
    (s.modify i fun x => x.see ((P.member i).refresh V s.store).members).Viewed P := by
  set members := ((P.member i).refresh V s.store).members with hmembers
  have hnode : ∀ {k}, k ≠ i → (s.modify i fun x => x.see members).nodes k = s.nodes k :=
    fun hk => Function.update_of_ne hk _ _
  have hself : (s.modify i fun x => x.see members).nodes i = (s.nodes i).see members :=
    Function.update_self ..
  have hlife : ∀ j, ((s.modify i fun x => x.see members).nodes j).phase.up =
      (s.nodes j).phase.up ∧
      ((s.modify i fun x => x.see members).nodes j).age = (s.nodes j).age := by
    intro j
    by_cases hj : j = i
    · subst hj
      rw [hself]
      exact ⟨hup.symm, rfl⟩
    · rw [hnode hj]
      exact ⟨rfl, rfl⟩
  refine ⟨fun k => ?_, fun k => ?_, fun k name hname => ?_, fun k j hk hj hlt => ?_,
    fun k j hkj hk hj hle => ?_⟩
  · by_cases hki : k = i
    · subst hki
      rw [hself]
      exact le_rfl
    · rw [hnode hki]
      exact hs.read_nonneg k
  · by_cases hki : k = i
    · subst hki
      rw [hself]
      exact P.mem_refresh.2 (.inl rfl)
    · rw [hnode hki]
      exact hs.own k
  · by_cases hki : k = i
    · subst hki
      rw [hself] at hname
      rcases P.mem_refresh.1 hname with rfl | hthere
      · exact ⟨k, rfl⟩
      · obtain ⟨j, hj⟩ := hkept.written _ (P.own_key k name) hthere
        rw [← P.key_eq k j] at hj
        exact ⟨j, (String.append_right_inj _).1 hj⟩
    · rw [hnode hki] at hname
      exact hs.known k name hname
  · rw [(hlife j).1] at hj
    rw [(hlife j).2] at hlt
    by_cases hki : k = i
    · subst hki
      obtain ⟨hsince, hleft⟩ := hkept.lasting j hj
      rw [hself]
      refine P.mem_refresh.2 (.inr ?_)
      unfold Valkey.Present
      rw [P.key_eq]
      linarith
    · rw [hnode hki] at hk hlt ⊢
      exact hs.seen k j hk hj hlt
  · rw [(hlife j).1] at hj
    rw [(hlife j).2] at hle
    by_cases hki : k = i
    · subst hki
      have hread : (P.member j).expiry + (0 : ℚ) ≤ (s.nodes j).age := by
        rw [hself] at hle
        exact hle
      have hlapsed := hkept.lapsing j hj
      rw [max_eq_left (by linarith)] at hlapsed
      rw [hself]
      refine fun hmem => ?_
      rcases P.mem_refresh.1 hmem with he | hthere
      · exact hkj (P.node_injective he.symm)
      · rw [P.key_eq] at hthere
        exact absurd hthere (not_lt.2 hlapsed)
    · rw [hnode hki] at hk hle ⊢
      exact hs.unseen k j hkj hk hj hle

/-- As seconds pass, every one of them counts for what has been read and for what has changed. -/
theorem pass {store : σ} {seconds : ℚ} (hpos : 0 ≤ seconds) :
    (⟨store, fun j => (s.nodes j).pass seconds⟩ : Roster ι σ).Viewed P where
  read_nonneg k := add_nonneg (hs.read_nonneg k) hpos
  own := hs.own
  known := hs.known
  seen k j hk hj hlt := hs.seen k j hk hj (lt_of_add_lt_add_right hlt)
  unseen k j hkj hk hj hle := by
    refine hs.unseen k j hkj hk hj (le_of_add_le_add_right (a := seconds) ?_)
    rw [add_assoc]
    exact hle

end Roster.Viewed

/-! ## Every run that is on time -/

/-- A step leaves what the store holds of the fleet in step with it. -/
theorem Roster.Kept.step {patience : ℚ} {l : RosterLabel ι} (hs : s.Kept V P)
    (h : rosterStep V P s l = some s') (hok : WrittenOnTime P patience s s') : s'.Kept V P := by
  cases l with
  | announces i =>
    simp only [rosterStep] at h
    split at h
    · obtain ⟨store, hannounce, rfl⟩ := Option.map_eq_some_iff.1 h
      exact hs.announce hannounce _ rfl rfl
    · next hbeating =>
      obtain ⟨store, hannounce, rfl⟩ := Option.map_eq_some_iff.1 h
      refine hs.announce hannounce _ ?_ rfl
      rw [hbeating]
      rfl
    · cases h
  | refreshes i =>
    simp only [rosterStep] at h
    split_ifs at h with hup
    obtain rfl := Option.some.inj h
    exact hs.modify _ (fun _ => rfl) (fun _ => hup) fun hdown => by cases hdown
  | stops i =>
    simp only [rosterStep] at h
    split_ifs at h with hbeating
    obtain rfl := Option.some.inj h
    refine hs.modify _ (fun _ => rfl) (fun hup => by cases hup) fun _ => ?_
    rw [hbeating]
    rfl
  | deletes i =>
    simp only [rosterStep] at h
    split_ifs at h with hleaving
    obtain rfl := Option.some.inj h
    have hdown : (s.nodes i).phase.up = false := by rw [hleaving]; rfl
    refine (hs.delete hdown).modify _ (fun _ => rfl) (fun hup => by cases hup) fun _ => ?_
    simp [hdown]
  | dies i =>
    obtain rfl := Option.some.inj h
    exact hs.modify _ (fun _ => rfl) (fun hup => by cases hup) fun _ => rfl
  | passes seconds =>
    simp only [rosterStep] at h
    split_ifs at h with hpos
    obtain rfl := Option.some.inj h
    exact hs.pass hpos fun j hup => (hok j hup).1
  | sets key seconds =>
    simp only [rosterStep] at h
    split_ifs at h with hown
    obtain ⟨store, hset, rfl⟩ := Option.map_eq_some_iff.1 h
    refine hs.others fun key' hkey' => ?_
    rw [(Valkey.left_of_set hset).2, if_neg]
    rintro rfl
    exact hown hkey'
  | clears key =>
    simp only [rosterStep] at h
    split_ifs at h with hown
    obtain rfl := Option.some.inj h
    refine hs.others fun key' hkey' => V.left_delete_of_ne _ _ _ ?_
    rintro rfl
    exact hown hkey'

/-- What is up has a positive expiry. -/
theorem Roster.Kept.expiry_pos (hs : s.Kept V P) (hup : (s.nodes i).phase.up = true) :
    0 < (P.member i).expiry := by
  have hlt := (hs.lasting i hup).1
  have hnonneg := hs.since_nonneg i
  exact_mod_cast hnonneg.trans_lt hlt

theorem Roster.Viewed.step {l : RosterLabel ι} (hs : s.Viewed P) (hkept : s.Kept V P)
    (h : rosterStep V P s l = some s') : s'.Viewed P := by
  cases l with
  | announces i =>
    simp only [rosterStep] at h
    split at h
    · obtain ⟨store, hannounce, rfl⟩ := Option.map_eq_some_iff.1 h
      have hstored : ({ s with store := store } : Roster ι σ).Viewed P := { hs with }
      exact hstored.modify _ (fun _ => rfl) (fun _ => rfl) (fun hb => by cases hb)
        (.inr ⟨rfl, fun hdown => by cases hdown⟩)
    · obtain ⟨store, hannounce, rfl⟩ := Option.map_eq_some_iff.1 h
      have hstored : ({ s with store := store } : Roster ι σ).Viewed P := { hs with }
      exact hstored.modify _ (fun _ => rfl) (fun _ => rfl) id (.inl ⟨rfl, rfl⟩)
    · cases h
  | refreshes i =>
    simp only [rosterStep] at h
    split_ifs at h with hup
    obtain rfl := Option.some.inj h
    exact hs.refresh hkept hup
  | stops i =>
    simp only [rosterStep] at h
    split_ifs at h with hbeating
    obtain rfl := Option.some.inj h
    have hup : (s.nodes i).phase.up = true := by rw [hbeating]; rfl
    exact hs.modify _ (fun _ => rfl) (fun _ => rfl) (fun hb => by cases hb)
      (.inr ⟨rfl, fun _ => hkept.expiry_pos hup⟩)
  | deletes i =>
    simp only [rosterStep] at h
    split_ifs at h with hleaving
    obtain rfl := Option.some.inj h
    have hstored : ({ s with store := (P.member i).leave V s.store } : Roster ι σ).Viewed P :=
      { hs with }
    refine hstored.modify _ (fun _ => rfl) (fun _ => rfl) (fun hb => by cases hb) (.inl ⟨?_, rfl⟩)
    show false = (s.nodes i).phase.up
    rw [hleaving]
    rfl
  | dies i =>
    obtain rfl := Option.some.inj h
    refine hs.modify _ (fun _ => rfl) (fun _ => rfl) (fun hb => by cases hb) ?_
    cases hup : (s.nodes i).phase.up with
    | true => exact .inr ⟨rfl, fun _ => hkept.expiry_pos hup⟩
    | false => exact .inl ⟨rfl, rfl⟩
  | passes seconds =>
    simp only [rosterStep] at h
    split_ifs at h with hpos
    obtain rfl := Option.some.inj h
    exact hs.pass hpos
  | sets key seconds =>
    simp only [rosterStep] at h
    split_ifs at h
    obtain ⟨store, hset, rfl⟩ := Option.map_eq_some_iff.1 h
    exact { hs with }
  | clears key =>
    simp only [rosterStep] at h
    split_ifs at h
    obtain rfl := Option.some.inj h
    exact { hs with }

/-- What the store holds and who sees whom, in every run that is on time. -/
theorem kept_viewed_of_run {patience : ℚ}
    (hrun : Run (rosterStep V P) (WrittenOnTime P patience) (.init V P) s) :
    s.Kept V P ∧ s.Viewed P :=
  hrun.invariant (I := fun s => s.Kept V P ∧ s.Viewed P) ⟨Roster.kept_init, Roster.viewed_init⟩
    fun _ _ _ hs h hok => ⟨hs.1.step h hok, hs.2.step hs.1 h⟩

/-- A node that beats is as late with a read as `patience` allows. -/
theorem onTime_of_run {patience : ℚ}
    (hrun : Run (rosterStep V P) (WrittenOnTime P patience) (.init V P) s) :
    WrittenOnTime P patience s s := by
  rcases Relation.ReflTransGen.cases_tail hrun with rfl | ⟨s0, -, -, hok⟩
  · intro i hup
    cases hup
  · exact hok

theorem read_le_of_run {patience : ℚ}
    (hrun : Run (rosterStep V P) (WrittenOnTime P patience) (.init V P) s)
    (hi : (s.nodes i).phase = .beating) : (s.nodes i).read ≤ patience :=
  (onTime_of_run hrun i (by rw [hi]; rfl)).2.1 hi

/-- Two nodes of one fleet, whose keys live for two seconds. -/
def pairOfPeers : Peers Bool where
  keyPrefix := "f"
  member := oneEach "f" "f" "a" "b"
  globFree := by simp [GlobFree]
  prefix_eq i := by cases i <;> rfl
  node_injective := by decide

/-- One of the two joins and dies, and the other beats each second. -/
def oneDies : List (RosterLabel Bool) :=
  [.announces true, .refreshes true, .announces false, .refreshes false, .dies false] ++
    (List.replicate 3 [.passes 1, .announces true, .refreshes true]).flatten

/-- Every change of who is up is so long ago that everyone has seen it. -/
def Roster.Settled (P : Peers ι) (patience : ℚ) (s : Roster ι σ) : Prop :=
  ∀ i, if (s.nodes i).phase.up then patience < (s.nodes i).age
    else (P.member i).expiry + patience ≤ (s.nodes i).age

namespace Roster.Settled

variable {patience : ℚ} (hset : s.Settled P patience)
  (hrun : Run (rosterStep V P) (WrittenOnTime P patience) (.init V P) s)

include hset hrun

/-- Whoever is up beats. -/
theorem beating_of_up (hup : (s.nodes i).phase.up = true) : (s.nodes i).phase = .beating := by
  have hage := hset i
  rw [if_pos hup] at hage
  have hjoining := (onTime_of_run hrun i hup).2.2
  cases hphase : (s.nodes i).phase with
  | beating => rfl
  | joining => exact absurd (hjoining hphase) (not_le.2 hage)
  | away | leaving =>
    rw [hphase] at hup
    cases hup

/-- Whoever beats sees the nodes that do, and no other. -/
theorem mem_members (hi : (s.nodes i).phase = .beating) :
    name ∈ (s.nodes i).members ↔ ∃ j, (s.nodes j).phase = .beating ∧ name = (P.member j).node := by
  obtain ⟨-, hviewed⟩ := kept_viewed_of_run hrun
  have hread := read_le_of_run hrun hi
  constructor
  · intro h
    obtain ⟨j, rfl⟩ := hviewed.known i name h
    by_cases hji : j = i
    · exact ⟨i, hi, by rw [hji]⟩
    · cases hup : (s.nodes j).phase.up with
      | true => exact ⟨j, hset.beating_of_up hrun hup, rfl⟩
      | false =>
        have hage := hset j
        rw [if_neg (by simp [hup])] at hage
        exact absurd h (hviewed.unseen i j (Ne.symm hji) hi hup (by linarith))
  · rintro ⟨j, hj, rfl⟩
    have hup : (s.nodes j).phase.up = true := by rw [hj]; rfl
    have hage := hset j
    rw [if_pos hup] at hage
    exact hviewed.seen i j hi hup (hread.trans_lt hage)

end Roster.Settled

end Nigrains
