import Mathlib.Data.Fintype.EquivFin
import Nigrains.Disruption

/-!
# Views that differ

The nodes of a fleet learn of each other at different times, and each places a grain by the
members it has seen. Whoever sets out from the grain's place meets the points of all of them
in one order. So two nodes that both take a grain for their own do not both see each other,
and the node that is met first of all takes it for its own, unless it is not there any more :
then somebody sends the grain's calls to it.
-/

namespace Nigrains

variable {position : String → ℕ} {replicas : ℤ}

theorem pointsOf_mono {nodes nodes' : Set NodeId} (h : nodes ⊆ nodes') :
    pointsOf position replicas nodes ⊆ pointsOf position replicas nodes' := by
  rintro p ⟨node, hnode, hp⟩
  exact ⟨node, h hnode, hp⟩

/-- A point of one node is among those of any nodes it is one of. -/
theorem mem_pointsOf {nodes nodes' : Set NodeId} {p : ℕ ×ₗ NodeId}
    (h : p ∈ pointsOf position replicas nodes) (hp : (ofLex p).2 ∈ nodes') :
    p ∈ pointsOf position replicas nodes' := by
  obtain ⟨node, -, index, hindex, rfl⟩ := h
  exact ⟨node, hp, index, hindex, rfl⟩

variable {c c' : Cluster} {grain : GrainId} {node node' : NodeId}

/-- Where a cluster places a grain is the node of the first point of its view. -/
theorem Cluster.firstMet_ownerOf (hc : c.Reached position replicas)
    (h : (c.ownerOf position grain).1 = .ok node) :
    ∃ p, FirstMet (pointsOf position replicas {n | n ∈ c.snapshot}) (position grain.str) p ∧
      node = (ofLex p).2 := by
  obtain ⟨hcached, hreplicas⟩ := hc.cached
  rw [Cluster.ownerOf_eq hcached, hreplicas, freshOwner] at h
  cases hring : Ring.build position c.snapshot replicas with
  | error e =>
    rw [hring] at h
    cases h
  | ok ring =>
    rw [hring] at h
    obtain rfl : ring.owner position grain.str = node := Except.ok.inj h
    exact Ring.firstMet_owner hring grain.str

/-- A cluster that sees somebody places every grain. -/
theorem Cluster.exists_ownerOf (hr : 1 ≤ replicas) (hc : c.Reached position replicas)
    (hne : c.snapshot ≠ []) (grain : GrainId) :
    ∃ node, (c.ownerOf position grain).1 = .ok node := by
  obtain ⟨hcached, hreplicas⟩ := hc.cached
  obtain ⟨owner, -, howner⟩ := exists_freshOwner position hr hne grain
  exact ⟨owner, by rw [Cluster.ownerOf_eq hcached, hreplicas, howner]⟩

/-- It takes a grain for its own if it places it on itself. -/
theorem Cluster.isMine_iff :
    (c.isMine position grain).1 = .ok true ↔ (c.ownerOf position grain).1 = .ok c.node := by
  have hmap : (c.isMine position grain).1 =
      (c.ownerOf position grain).1.map fun owner => decide (owner = c.node) := rfl
  rw [hmap]
  cases (c.ownerOf position grain).1 with
  | error e => simp [Except.map]
  | ok owner => simp [Except.map]

/-- Two clusters that each see where the other places a grain place it on one node. -/
theorem Cluster.ownerOf_eq_of_seen (hc : c.Reached position replicas)
    (hc' : c'.Reached position replicas) (h : (c.ownerOf position grain).1 = .ok node)
    (h' : (c'.ownerOf position grain).1 = .ok node') (hseen : node ∈ c'.snapshot)
    (hseen' : node' ∈ c.snapshot) : node = node' := by
  obtain ⟨p, hp, rfl⟩ := Cluster.firstMet_ownerOf hc h
  obtain ⟨q, hq, rfl⟩ := Cluster.firstMet_ownerOf hc' h'
  rw [hp.eq_of_mem hq (mem_pointsOf hp.1 hseen) (mem_pointsOf hq.1 hseen')]

/-- Of all that the nodes of a fleet see, the point that is met first after an identity's own. -/
theorem exists_firstMet_views {ι : Type*} [Finite ι] {fleet : ι → Cluster}
    (position : String → ℕ) (hr : 1 ≤ replicas) {i : ι} (hne : (fleet i).snapshot ≠ [])
    (key : String) :
    ∃ p, FirstMet (pointsOf position replicas {n | ∃ i, n ∈ (fleet i).snapshot})
      (position key) p := by
  have := Fintype.ofFinite ι
  have hall : ∀ n, n ∈ Finset.univ.toList.flatMap (fun i => (fleet i).snapshot) ↔
      ∃ i, n ∈ (fleet i).snapshot := by simp
  obtain ⟨node, hnode⟩ := List.exists_mem_of_ne_nil _ hne
  obtain ⟨ring, hring⟩ := Ring.exists_build position hr
    (List.ne_nil_of_mem ((hall node).2 ⟨i, hnode⟩))
  obtain ⟨p, hp, -⟩ := Ring.firstMet_owner hring key
  simp only [hall] at hp
  exact ⟨p, hp⟩

/-- Whatever the nodes of a fleet have been through and see, as long as each sees itself : every
node places every grain; some node takes it for its own, or some node places it on one that is
not there; and of two nodes that take it for their own, one does not see the other. -/
theorem views_claim {ι : Type*} [Finite ι] [Nonempty ι] (position : String → ℕ)
    (fleet : ι → Cluster) (hr : 1 ≤ replicas)
    (hreached : ∀ i, (fleet i).Reached position replicas)
    (hself : ∀ i, (fleet i).node ∈ (fleet i).snapshot) (grain : GrainId) :
    (∀ i, ∃ node ∈ (fleet i).snapshot, ((fleet i).ownerOf position grain).1 = .ok node) ∧
    ((∃ i, ((fleet i).isMine position grain).1 = .ok true) ∨
      ∃ i node, ((fleet i).ownerOf position grain).1 = .ok node ∧
        ∀ j, (fleet j).node ≠ node) ∧
    ∀ i j, ((fleet i).isMine position grain).1 = .ok true →
      ((fleet j).isMine position grain).1 = .ok true → (fleet i).node ≠ (fleet j).node →
      (fleet i).node ∉ (fleet j).snapshot ∨ (fleet j).node ∉ (fleet i).snapshot := by
  have hne : ∀ i, (fleet i).snapshot ≠ [] := fun i => List.ne_nil_of_mem (hself i)
  refine ⟨fun i => ?_, ?_, fun i j hi hj hdiffer => ?_⟩
  · obtain ⟨node, hnode⟩ := Cluster.exists_ownerOf hr (hreached i) (hne i) grain
    obtain ⟨p, hp, rfl⟩ := Cluster.firstMet_ownerOf (hreached i) hnode
    exact ⟨_, node_mem_of_mem_pointsOf hp.1, hnode⟩
  · -- whoever sees the node that is met first of all places the grain on it
    obtain ⟨p, hp⟩ := exists_firstMet_views position hr (hne (Classical.arbitrary ι)) grain.str
    have hfirst : ∀ i, (ofLex p).2 ∈ (fleet i).snapshot →
        ((fleet i).ownerOf position grain).1 = .ok (ofLex p).2 := by
      intro i hi
      obtain ⟨node, hnode⟩ := Cluster.exists_ownerOf hr (hreached i) (hne i) grain
      obtain ⟨q, hq, rfl⟩ := Cluster.firstMet_ownerOf (hreached i) hnode
      have hview : pointsOf position replicas {n | n ∈ (fleet i).snapshot} ⊆
          pointsOf position replicas {n | ∃ i, n ∈ (fleet i).snapshot} :=
        pointsOf_mono fun n hn => ⟨i, hn⟩
      rw [hnode, hq.unique (hp.subset hview (mem_pointsOf hp.1 hi))]
    obtain ⟨i, hi⟩ := node_mem_of_mem_pointsOf hp.1
    by_cases hthere : ∃ j, (fleet j).node = (ofLex p).2
    · obtain ⟨j, hj⟩ := hthere
      refine .inl ⟨j, Cluster.isMine_iff.2 ?_⟩
      rw [hj]
      exact hfirst j (hj ▸ hself j)
    · exact .inr ⟨i, _, hfirst i hi, not_exists.1 hthere⟩
  · by_contra hboth
    rw [not_or, not_not, not_not] at hboth
    exact hdiffer (Cluster.ownerOf_eq_of_seen (hreached i) (hreached j) (Cluster.isMine_iff.1 hi)
      (Cluster.isMine_iff.1 hj) hboth.1 hboth.2)

/-- A node that has not seen the other yet, and the other. -/
def seenByOne : Bool → Cluster
  | true => ⟨"a", ["a"], 1, none, []⟩
  | false => ⟨"b", ["a", "b"], 1, none, []⟩

/-- Neither of the two has looked yet. -/
theorem views_claim_seenByOne :
    ((∃ i, ((seenByOne i).isMine String.length ⟨"basket", "7"⟩).1 = .ok true) ∨
      ∃ i node, ((seenByOne i).ownerOf String.length ⟨"basket", "7"⟩).1 = .ok node ∧
        ∀ j, (seenByOne j).node ≠ node) ∧
    (((seenByOne false).isMine String.length ⟨"basket", "7"⟩).1 = .ok true →
      "b" ∉ (seenByOne true).snapshot ∨ "a" ∉ (seenByOne false).snapshot) := by
  have hreached : ∀ i, (seenByOne i).Reached String.length 1 := by
    intro i
    cases i with
    | false => exact ⟨"b", ["a", "b"], .refl⟩
    | true => exact ⟨"a", ["a"], .refl⟩
  have hself : ∀ i, (seenByOne i).node ∈ (seenByOne i).snapshot := by decide
  obtain ⟨-, hclaimed, hapart⟩ :=
    views_claim String.length seenByOne (by decide) hreached hself ⟨"basket", "7"⟩
  exact ⟨hclaimed, fun h => hapart false true h (by decide +kernel) (by decide)⟩

end Nigrains
