import Nigrains.Circle
import Nigrains.Ring

/-!
# What a change of membership moves

The points of a ring's nodes lie on a circle, and an identity belongs to the node of the first
point met after its own (`Ring.firstMet_owner`). So a node that joins adds points, and what is
met first afterwards was met first before, or is a point of the node that joined.

Points may collide : those of one position are met in the order of their nodes, and a node that
joins may take an identity from another by its name alone.
-/

namespace Nigrains

/-- The points of some nodes, each with the node it belongs to. -/
def pointsOf (position : String → ℕ) (replicas : ℤ) (nodes : Set NodeId) : Set (ℕ ×ₗ NodeId) :=
  {p | ∃ node ∈ nodes, ∃ index < replicas.toNat,
    p = toLex (position (node ++ "#" ++ toString index), node)}

variable {position : String → ℕ} {replicas : ℤ}

theorem mem_placed {unique : List NodeId} {p : ℕ ×ₗ NodeId} :
    p ∈ placed position unique replicas ↔ p ∈ pointsOf position replicas {n | n ∈ unique} := by
  rw [placed, List.mem_insertionSort]
  simp [pointsOf, eq_comm]

theorem pointsOf_union (nodes nodes' : Set NodeId) :
    pointsOf position replicas (nodes ∪ nodes') =
      pointsOf position replicas nodes ∪ pointsOf position replicas nodes' := by
  ext p
  simp only [pointsOf, Set.mem_ofPred_eq, Set.mem_union, or_and_right, exists_or]

theorem node_mem_of_mem_pointsOf {nodes : Set NodeId} {p : ℕ ×ₗ NodeId}
    (h : p ∈ pointsOf position replicas nodes) : (ofLex p).2 ∈ nodes := by
  obtain ⟨node, hnode, index, -, rfl⟩ := h
  exact hnode

namespace Ring

variable {members joined : List NodeId} {node : NodeId} {ring ring' : Ring}

/-- An owner is the node of the first point after its key. -/
theorem firstMet_owner (h : build position members replicas = .ok ring) (key : String) :
    ∃ p, FirstMet (pointsOf position replicas {n | n ∈ members}) (position key) p ∧
      ring.owner position key = (ofLex p).2 := by
  unfold build place at h
  split_ifs at h with hr hu
  obtain rfl := Except.ok.inj h
  have hpoints : {p | p ∈ placed position (sortedSet members) replicas} =
      pointsOf position replicas {n | n ∈ members} := by
    ext p
    simp [mem_placed, pointsOf, mem_sortedSet]
  have hne : placed position (sortedSet members) replicas ≠ [] := placed_ne_nil position hr hu
  have hlt := Nat.mod_lt (passed (placed position (sortedSet members) replicas) (position key))
    (List.length_pos_iff.2 hne)
  have hsorted : (placed position (sortedSet members) replicas).Pairwise (· ≤ ·) :=
    List.pairwise_insertionSort _ _
  refine ⟨_, hpoints ▸ firstMet_getElem hsorted hlt, ?_⟩
  simp only [owner, bisect, List.get_eq_getElem, List.getElem_map, List.length_map,
    List.takeWhile_map]
  rfl

/-- When a node joins, an owner stays or is the node that joined. -/
theorem owner_join (h : build position members replicas = .ok ring)
    (h' : build position joined replicas = .ok ring')
    (hjoin : ∀ n, n ∈ joined ↔ n ∈ members ∨ n = node) (key : String) :
    ring'.owner position key = ring.owner position key ∨ ring'.owner position key = node := by
  obtain ⟨p, hp, howner⟩ := firstMet_owner h key
  obtain ⟨q, hq, howner'⟩ := firstMet_owner h' key
  have hset : {n | n ∈ joined} = {n | n ∈ members} ∪ {node} := by
    ext n
    simp [hjoin, or_comm]
  rw [hset, pointsOf_union] at hq
  rw [howner, howner']
  rcases hq.union with hold | hnew
  · exact .inl (congrArg (fun p => (ofLex p).2) (hold.unique hp))
  · exact .inr (node_mem_of_mem_pointsOf hnew.1)

/-- A node that joins a membership takes some identities, and moves no other : of a ring
without it and a ring with it, the owners of an identity differ exactly if it is the owner in
the second. -/
theorem join_moves_own (position : String → ℕ) (hr : 1 ≤ replicas) (hne : members ≠ [])
    (hnode : node ∉ members) :
    ∃ ring, build position members replicas = .ok ring ∧
      ∀ joined, (∀ n, n ∈ joined ↔ n ∈ members ++ [node]) →
        ∃ ring', build position joined replicas = .ok ring' ∧ ∀ key,
          (ring'.owner position key = ring.owner position key ∨
            ring'.owner position key = node) ∧
          (ring'.owner position key ≠ ring.owner position key ↔
            ring'.owner position key = node) := by
  obtain ⟨ring, hring⟩ := exists_build position hr hne
  refine ⟨ring, hring, fun joined hjoined => ?_⟩
  have hjoin : ∀ n, n ∈ joined ↔ n ∈ members ∨ n = node := by simpa using hjoined
  have hne' : joined ≠ [] := List.ne_nil_of_mem ((hjoin node).2 (.inr rfl))
  obtain ⟨ring', hring'⟩ := exists_build position hr hne'
  refine ⟨ring', hring', fun key => ?_⟩
  have hor := owner_join hring hring' hjoin key
  refine ⟨hor, hor.resolve_left, fun htaken hkept => ?_⟩
  -- the owner before was a member, and the node was not
  exact hnode (htaken ▸ hkept ▸ owner_mem hring key)

/-- Two nodes with one point in common, and a key on it : the one that joins has the lesser
name, and is found first. -/
theorem join_moves_own_collided :
    ∃ ring, build (fun _ => 7) ["b"] 1 = .ok ring ∧
      ∀ joined, (∀ n, n ∈ joined ↔ n ∈ ["b"] ++ ["a"]) →
        ∃ ring', build (fun _ => 7) joined 1 = .ok ring' ∧ ∀ key,
          (ring'.owner (fun _ => 7) key = ring.owner (fun _ => 7) key ∨
            ring'.owner (fun _ => 7) key = "a") ∧
          (ring'.owner (fun _ => 7) key ≠ ring.owner (fun _ => 7) key ↔
            ring'.owner (fun _ => 7) key = "a") :=
  join_moves_own (fun _ => 7) (by decide) (by decide) (by decide)

end Ring

end Nigrains
