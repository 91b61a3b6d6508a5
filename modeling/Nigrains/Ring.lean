import Mathlib.Data.List.Dedup
import Mathlib.Data.List.Sort
import Mathlib.Data.Prod.Lex
import Mathlib.Data.String.Basic
import Nigrains.Grain
import Nigrains.Transition

/-!
# Where a grain lives

A `Ring` is a consistent hash over the nodes : every node has `replicas` points, and an
identity belongs to the node of the first point after its own. A `Cluster` reads the
membership at every lookup and keeps the ring it built last, with the snapshot it built it
from.

The hash is a parameter `position`, of which nothing is assumed, so points may collide. A
ring depends on its members only as a set (`build_congr`), and a cluster's cached ring is
the one of the snapshot it remembers (`Cached`), also after a lookup that raised. So
clusters that hold the same set of nodes agree, whatever each has been through (`agrees`).
-/

namespace Nigrains

/-- What `Ring` refuses. -/
inductive RingError
  | noPoints (replicas : ℤ)
  | noMembers
deriving DecidableEq, Repr

/-- The message of the `ValueError`. -/
def RingError.message : RingError → String
  | noPoints replicas => "a ring needs at least one point per node, got " ++ toString replicas
  | noMembers => "a ring needs at least one member"

/-- `bisect(points, point)`, of sorted points : after all those up to `point`. -/
def bisect (points : List ℕ) (point : ℕ) : ℕ :=
  (points.takeWhile fun p => p ≤ point).length

/-- `sorted(set(members))`. -/
def sortedSet (members : List NodeId) : List NodeId :=
  members.dedup.insertionSort (· ≤ ·)

theorem mem_sortedSet {members : List NodeId} {node : NodeId} :
    node ∈ sortedSet members ↔ node ∈ members := by
  rw [sortedSet, List.mem_insertionSort, List.mem_dedup]

/-- Order and duplicates do not matter. -/
theorem sortedSet_congr {members members' : List NodeId} (h : ∀ n, n ∈ members ↔ n ∈ members') :
    sortedSet members = sortedSet members' := by
  have hperm : members.dedup.Perm members'.dedup := by
    rw [List.perm_ext_iff_of_nodup members.nodup_dedup members'.nodup_dedup]
    simpa using h
  have hsort : (sortedSet members).Perm (sortedSet members') :=
    (List.perm_insertionSort _ _).trans (hperm.trans (List.perm_insertionSort _ _).symm)
  exact hsort.eq_of_pairwise' (List.pairwise_insertionSort _ _) (List.pairwise_insertionSort _ _)

variable (position : String → ℕ)

/-- The points of some nodes, with the node of each, in order. -/
def placed (unique : List NodeId) (replicas : ℤ) : List (ℕ ×ₗ NodeId) :=
  (unique.flatMap fun node => (List.range replicas.toNat).map fun index =>
    toLex (position (node ++ "#" ++ toString index), node)).insertionSort (· ≤ ·)

theorem mem_of_mem_placed {unique : List NodeId} {replicas : ℤ} {p : ℕ ×ₗ NodeId}
    (h : p ∈ placed position unique replicas) : (ofLex p).2 ∈ unique := by
  rw [placed, List.mem_insertionSort] at h
  obtain ⟨node, hnode, hp⟩ := List.mem_flatMap.1 h
  obtain ⟨index, -, rfl⟩ := List.mem_map.1 hp
  exact hnode

/-- A node has points. -/
theorem placed_ne_nil {unique : List NodeId} {replicas : ℤ} (hr : ¬ replicas < 1)
    (hu : unique ≠ []) : placed position unique replicas ≠ [] := by
  obtain ⟨node, hnode⟩ := List.exists_mem_of_ne_nil unique hu
  refine List.ne_nil_of_mem (a := toLex (position (node ++ "#" ++ toString 0), node)) ?_
  rw [placed, List.mem_insertionSort]
  refine List.mem_flatMap.2 ⟨node, hnode, List.mem_map.2 ⟨0, ?_, rfl⟩⟩
  exact List.mem_range.2 (by omega)

/-- A consistent hash over the nodes. -/
structure Ring where
  members : List NodeId
  points : List ℕ
  nodes : List NodeId
  nodes_ne_nil : nodes ≠ []
  nodes_subset : ∀ node ∈ nodes, node ∈ members
deriving DecidableEq, Repr

namespace Ring

/-- Places some nodes, which are sorted and unique. -/
def place (unique : List NodeId) (replicas : ℤ) : Except RingError Ring :=
  if hr : replicas < 1 then .error (.noPoints replicas)
  else if hu : unique = [] then .error .noMembers
  else
    let placed := placed position unique replicas
    .ok {
      members := unique
      points := placed.map fun p => (ofLex p).1
      nodes := placed.map fun p => (ofLex p).2
      nodes_ne_nil := fun h => placed_ne_nil position hr hu (List.map_eq_nil_iff.1 h)
      nodes_subset := by
        intro node h
        obtain ⟨p, hp, rfl⟩ := List.mem_map.1 h
        exact mem_of_mem_placed position hp }

/-- `__init__`. -/
def build (members : List NodeId) (replicas : ℤ) : Except RingError Ring :=
  place position (sortedSet members) replicas

/-- Returns the node that owns an identity. -/
def owner (ring : Ring) (key : String) : NodeId :=
  ring.nodes.get ⟨bisect ring.points (position key) % ring.nodes.length,
    Nat.mod_lt _ (List.length_pos_iff.2 ring.nodes_ne_nil)⟩

variable {position} {members members' : List NodeId} {replicas : ℤ} {ring : Ring}

/-- A ring depends on the set of its members. -/
theorem build_congr (h : ∀ n, n ∈ members ↔ n ∈ members') :
    build position members replicas = build position members' replicas := by
  unfold build
  rw [sortedSet_congr h]

/-- Where there is somebody to place, there is a ring. -/
theorem exists_build (position : String → ℕ) (hr : 1 ≤ replicas) (hne : members ≠ []) :
    ∃ ring, build position members replicas = .ok ring := by
  have hu : sortedSet members ≠ [] := by
    obtain ⟨node, hnode⟩ := List.exists_mem_of_ne_nil members hne
    exact List.ne_nil_of_mem (mem_sortedSet.2 hnode)
  exact ⟨_, (dif_neg (not_lt.2 hr)).trans (dif_neg hu)⟩

theorem members_of_build (h : build position members replicas = .ok ring) :
    ring.members = sortedSet members := by
  unfold build place at h
  split at h
  · cases h
  · split at h
    · cases h
    · obtain rfl := Except.ok.inj h
      rfl

/-- An owner is a member. -/
theorem owner_mem (h : build position members replicas = .ok ring) (key : String) :
    ring.owner position key ∈ members := by
  have hmem : ring.owner position key ∈ ring.members := ring.nodes_subset _ (List.get_mem ..)
  rw [members_of_build h] at hmem
  exact mem_sortedSet.1 hmem

end Ring

/-! ## Clusters -/

/-- What a runtime needs in order to route a call off its node. `snapshot` is what the
membership answers now. -/
structure Cluster where
  node : NodeId
  snapshot : List NodeId
  replicas : ℤ
  ring : Option Ring
  seen : List NodeId
deriving DecidableEq, Repr

namespace Cluster

/-- `__init__`. -/
def init (node : NodeId) (snapshot : List NodeId) (replicas : ℤ) : Cluster :=
  ⟨node, snapshot, replicas, none, []⟩

/-- The ring to look in, and what building it leaves. -/
def current (c : Cluster) : Except RingError Ring × Cluster :=
  match c.ring with
  | some ring => if c.snapshot = c.seen then (.ok ring, c) else rebuild
  | none => rebuild
where
  /-- Builds the ring of the snapshot, and remembers both. -/
  rebuild : Except RingError Ring × Cluster :=
    match Ring.build position c.snapshot c.replicas with
    | .error e => (.error e, c)
    | .ok ring => (.ok ring, { c with ring := some ring, seen := c.snapshot })

/-- Returns the node that should hold a grain. -/
def ownerOf (c : Cluster) (grainId : GrainId) : Except RingError NodeId × Cluster :=
  let (ring, c') := c.current position
  (ring.map fun ring => ring.owner position grainId.str, c')

/-- Whether this node should hold a grain. -/
def isMine (c : Cluster) (grainId : GrainId) : Except RingError Bool × Cluster :=
  let (owner, c') := c.ownerOf position grainId
  (owner.map fun owner => owner = c.node, c')

end Cluster

/-- What happens to a cluster. -/
inductive ClusterLabel
  /-- The membership has another snapshot. -/
  | replace (members : List NodeId)
  | ownerOf (grain : GrainId)
  | isMine (grain : GrainId)

/-- One thing that happens to a cluster. -/
def clusterStep (c : Cluster) : ClusterLabel → Option Cluster
  | .replace members => some { c with snapshot := members }
  | .ownerOf grain => some (c.ownerOf position grain).2
  | .isMine grain => some (c.isMine position grain).2

/-! ## What a cluster remembers -/

/-- The node that a ring built afresh gives an identity to. -/
def freshOwner (members : List NodeId) (replicas : ℤ) (grain : GrainId) :
    Except RingError NodeId :=
  (Ring.build position members replicas).map fun ring => ring.owner position grain.str

/-- The cached ring is the one of the snapshot it was built from. -/
def Cluster.Cached (c : Cluster) : Prop :=
  ∀ ring ∈ c.ring, Ring.build position c.seen c.replicas = .ok ring

variable {position} {c c' : Cluster} {grain : GrainId}

theorem Cluster.cached_init {node : NodeId} {snapshot : List NodeId} {replicas : ℤ} :
    (Cluster.init node snapshot replicas).Cached position :=
  fun _ h => nomatch h

theorem Cluster.cached_rebuild (hc : c.Cached position) :
    (Cluster.current.rebuild position c).1 = Ring.build position c.snapshot c.replicas ∧
      (Cluster.current.rebuild position c).2.Cached position := by
  unfold Cluster.current.rebuild
  split
  · next he => exact ⟨he.symm, hc⟩
  · next ring hring =>
    refine ⟨hring.symm, ?_⟩
    rintro _ ⟨⟩
    exact hring

/-- A lookup looks in the ring of the snapshot, and leaves the cache in step. -/
theorem Cluster.current_spec (hc : c.Cached position) :
    (c.current position).1 = Ring.build position c.snapshot c.replicas ∧
      (c.current position).2.Cached position := by
  unfold Cluster.current
  split
  · next ring hring =>
    split
    · next hseen => exact ⟨(hseen ▸ hc ring hring).symm, hc⟩
    · exact Cluster.cached_rebuild hc
  · exact Cluster.cached_rebuild hc

theorem Cluster.replicas_current : (c.current position).2.replicas = c.replicas := by
  unfold Cluster.current Cluster.current.rebuild
  repeat' split
  all_goals rfl

/-- The owner is the one a ring built afresh gives. -/
theorem Cluster.ownerOf_eq (hc : c.Cached position) :
    (c.ownerOf position grain).1 = freshOwner position c.snapshot c.replicas grain := by
  unfold freshOwner
  rw [← (Cluster.current_spec hc).1]
  rfl

/-- What happens to a cluster leaves its cache in step, and its replicas alone. -/
theorem Cluster.Cached.step {l : ClusterLabel} (hc : c.Cached position)
    (h : clusterStep position c l = some c') :
    c'.Cached position ∧ c'.replicas = c.replicas := by
  cases l with
  | replace members =>
    obtain rfl := Option.some.inj h
    exact ⟨hc, rfl⟩
  | ownerOf grain =>
    obtain rfl := Option.some.inj h
    exact ⟨(Cluster.current_spec hc).2, Cluster.replicas_current⟩
  | isMine grain =>
    obtain rfl := Option.some.inj h
    exact ⟨(Cluster.current_spec hc).2, Cluster.replicas_current⟩

/-- A cluster that has been through anything at all. -/
def Cluster.Reached (position : String → ℕ) (replicas : ℤ) (c : Cluster) : Prop :=
  ∃ node snapshot, Run (clusterStep position) (fun _ _ => True) (.init node snapshot replicas) c

/-- Its cache is in step. -/
theorem Cluster.Reached.cached {replicas : ℤ} (h : c.Reached position replicas) :
    c.Cached position ∧ c.replicas = replicas := by
  obtain ⟨node, snapshot, hrun⟩ := h
  have hinit : (Cluster.init node snapshot replicas).Cached position ∧
      (Cluster.init node snapshot replicas).replicas = replicas := ⟨Cluster.cached_init, rfl⟩
  have hkept : ∀ s l s', s.Cached position ∧ s.replicas = replicas →
      clusterStep position s l = some s' → True → s'.Cached position ∧ s'.replicas = replicas := by
    intro s l s' hs hl _
    obtain ⟨hc, hr⟩ := hs.1.step hl
    exact ⟨hc, hr.trans hs.2⟩
  exact hrun.invariant hinit hkept

section Agreement

variable {members : List NodeId} {replicas : ℤ}

/-- Somebody among the members owns an identity. -/
theorem exists_freshOwner (position : String → ℕ) (hr : 1 ≤ replicas) (hne : members ≠ [])
    (grain : GrainId) :
    ∃ owner ∈ members, freshOwner position members replicas grain = .ok owner := by
  obtain ⟨ring, hring⟩ := Ring.exists_build position hr hne
  refine ⟨ring.owner position grain.str, Ring.owner_mem hring grain.str, ?_⟩
  rw [freshOwner, hring]
  rfl

/-- The owner depends on the set of members. -/
theorem freshOwner_congr {members' : List NodeId} (h : ∀ n, n ∈ members ↔ n ∈ members') :
    freshOwner position members replicas = freshOwner position members' replicas := by
  unfold freshOwner
  rw [Ring.build_congr h]

/-- Clusters that hold the same members place every identity on the same one of them, the
one a ring built afresh gives. If each member is the node of one of the clusters, exactly
one of them answers that the identity is its own. -/
theorem agrees {ι : Type*} (position : String → ℕ) (fleet : ι → Cluster) (hr : 1 ≤ replicas)
    (hreached : ∀ i, (fleet i).Reached position replicas) (hne : members ≠ [])
    (hsame : ∀ i n, n ∈ (fleet i).snapshot ↔ n ∈ members) (grain : GrainId) :
    ∃ owner ∈ members, freshOwner position members replicas grain = .ok owner ∧
      (∀ i, ((fleet i).ownerOf position grain).1 = .ok owner) ∧
      ((∀ n ∈ members, ∃! i, (fleet i).node = n) →
        ∃! i, ((fleet i).isMine position grain).1 = .ok true) := by
  obtain ⟨owner, hmem, howner⟩ := exists_freshOwner position hr hne grain
  have hall : ∀ i, ((fleet i).ownerOf position grain).1 = .ok owner := by
    intro i
    obtain ⟨hc, hri⟩ := (hreached i).cached
    rw [Cluster.ownerOf_eq hc, hri, freshOwner_congr (hsame i), howner]
  have hmine : ∀ i, ((fleet i).isMine position grain).1 = .ok true ↔ (fleet i).node = owner := by
    intro i
    have : ((fleet i).isMine position grain).1 = .ok (decide (owner = (fleet i).node)) :=
      congrArg (Except.map fun owner => decide (owner = (fleet i).node)) (hall i)
    rw [this]
    simp [eq_comm]
  refine ⟨owner, hmem, howner, hall, fun hunique => ?_⟩
  simpa [hmine] using hunique owner hmem

/-- Two clusters whose snapshots list the members differently. -/
def listedApart : Bool → Cluster
  | true => ⟨"a", ["b", "a", "b"], 1, none, []⟩
  | false => ⟨"b", ["a", "b"], 1, none, []⟩

/-- One of the two has looked before, in vain, in an empty membership. -/
theorem agrees_afterEmpty :
    ∃ owner ∈ ["a", "b"], freshOwner String.length ["a", "b"] 1 ⟨"basket", "7"⟩ = .ok owner ∧
      ∃! i, ((listedApart i).isMine String.length ⟨"basket", "7"⟩).1 = .ok true := by
  have hreached : ∀ i, (listedApart i).Reached String.length 1 := by
    intro i
    cases i with
    | false => exact ⟨"b", ["a", "b"], .refl⟩
    | true =>
      obtain ⟨c, hrun, hc⟩ := exists_run_free (clusterStep String.length) (.init "a" [] 1)
        [.ownerOf ⟨"basket", "7"⟩, .replace ["b", "a", "b"]]
        (fun c : Cluster => decide (c = listedApart true)) (by decide +kernel)
      exact ⟨"a", [], of_decide_eq_true hc ▸ hrun⟩
  have hsame : ∀ i n, n ∈ (listedApart i).snapshot ↔ n ∈ ["a", "b"] := by
    intro i n
    cases i with
    | false => rfl
    | true => simp only [listedApart, List.mem_cons]; tauto
  obtain ⟨owner, hmem, howner, -, hunique⟩ := agrees String.length
    listedApart (by decide) hreached (by decide) hsame ⟨"basket", "7"⟩
  refine ⟨owner, hmem, howner, hunique ?_⟩
  intro n hn
  rcases List.mem_pair.1 hn with rfl | rfl
  · exact ⟨true, rfl, by decide⟩
  · exact ⟨false, rfl, by decide⟩

end Agreement

end Nigrains
