import Nigrains.Transition
import Nigrains.Valkey

/-!
# Fleets that share a store

Any number of memberships, of any fleets, over one store. They write their keys and delete
them, time passes, and a refresh reads what is there.

A key is the prefix of its fleet, a colon, and the name of a node, and both may have colons in
them. So a key of one fleet may also be read as a key of another. A fleet sees itself and no
other exactly if no key does that for a node it does not have (`refresh_exact_iff`), which
whatever the names is so exactly if no prefix begins with another one and a colon
(`separate_iff_of_prefixes`).
-/

set_option linter.unusedSectionVars false

namespace Nigrains

/-- A store, and what each membership saw last. -/
structure Sharing (ι σ : Type*) where
  store : σ
  members : ι → List NodeId

/-- What happens next. -/
inductive SharingLabel (ι : Type*)
  | announces (i : ι)
  | passes (seconds : ℚ)
  | leaves (i : ι)
  | refreshes (i : ι)

variable {ι σ : Type*} [DecidableEq ι] (V : Valkey σ) (m : ι → ValkeyMembership)

/-- An empty store. -/
def Sharing.init : Sharing ι σ :=
  ⟨V.empty, fun i => [(m i).node]⟩

/-- One step of the memberships. -/
def sharingStep (s : Sharing ι σ) : SharingLabel ι → Option (Sharing ι σ)
  | .announces i => ((m i).announce V s.store).map fun store => { s with store := store }
  | .passes seconds =>
    if 0 ≤ seconds then some { s with store := V.pass s.store seconds } else none
  | .leaves i => some { s with store := (m i).leave V s.store }
  | .refreshes i =>
    some { s with members := Function.update s.members i ((m i).refresh V s.store).members }

/-- The node `name` is of the fleet of `i`. -/
def OfFleet (i : ι) (name : NodeId) : Prop :=
  ∃ k, (m k).keyPrefix = (m i).keyPrefix ∧ (m k).node = name

/-- After a refresh, in any run, the members are the sorted set of the nodes of the fleet whose
key is there, and the node itself. -/
def RefreshExact : Prop :=
  ∀ s s' i, Run (sharingStep V m) (fun _ _ => True) (.init V m) s →
    sharingStep V m s (.refreshes i) = some s' → (s'.members i).Pairwise (· < ·) ∧
      ∀ name, name ∈ s'.members i ↔ name = (m i).node ∨
        OfFleet m i name ∧ V.Present s.store ((m i).key name)

/-- No key that is written, which takes a lease of a second, can be read as the key of a node
that a fleet does not have. -/
def Separate : Prop :=
  ∀ i j name, 1 ≤ (m j).lease → (m j).key (m j).node = (m i).key name → OfFleet m i name

variable {V m} {s s' : Sharing ι σ} {i : ι}

/-- A sorted set has each of its members once. -/
theorem pairwise_lt_sortedSet (l : List NodeId) : (sortedSet l).Pairwise (· < ·) := by
  have hle : (sortedSet l).Pairwise (· ≤ ·) := List.pairwise_insertionSort _ _
  have hne : (sortedSet l).Pairwise (· ≠ ·) :=
    (List.perm_insertionSort _ _).nodup_iff.2 l.nodup_dedup
  exact (hle.and hne).imp fun h => lt_of_le_of_ne h.1 h.2

theorem GlobFree.colon {pattern : String} (h : GlobFree pattern) : GlobFree (pattern ++ ":") := by
  intro c hc
  rw [String.toList_append, List.mem_append] at hc
  rcases hc with hc | hc
  · exact h c hc
  · obtain rfl : c = ':' := by simpa using hc
    decide

/-- What a refresh sees is what is there under the prefix. -/
theorem mem_refresh (hglob : GlobFree (m i).keyPrefix) {store : σ} {name : NodeId} :
    name ∈ ((m i).refresh V store).members ↔
      name = (m i).node ∨ V.Present store ((m i).key name) := by
  have hscan : name ∈ (V.scan store ((m i).keyPrefix ++ ":" ++ "*")).map
      (fun key => removePrefix key ((m i).keyPrefix ++ ":")) ↔
      V.Present store ((m i).key name) := by
    constructor
    · intro h
      obtain ⟨key, hkey, rfl⟩ := List.mem_map.1 h
      obtain ⟨hleft, rest, rfl⟩ := (V.mem_scan _ _ _ hglob.colon).1 hkey
      rw [removePrefix_append]
      exact hleft
    · intro h
      exact List.mem_map.2 ⟨(m i).key name, (V.mem_scan _ _ _ hglob.colon).2 ⟨h, name, rfl⟩,
        removePrefix_append _ _⟩
  simp only [ValkeyMembership.refresh, mem_sortedSet, List.mem_append, List.mem_singleton, hscan]
  exact or_comm

/-- An expiry is positive if the lease is of a second or more. -/
theorem expiry_pos {self : ValkeyMembership} : 0 < self.expiry ↔ 1 ≤ self.lease := by
  have h := le_pyInt (le_refl (1 : ℤ)) (x := self.lease)
  rw [Int.cast_one] at h
  exact h

/-- Every key that is there is the one of a node whose lease is of a second or more. -/
def Sharing.Written (V : Valkey σ) (m : ι → ValkeyMembership) (s : Sharing ι σ) : Prop :=
  ∀ key, V.Present s.store key → ∃ j, 1 ≤ (m j).lease ∧ key = (m j).key (m j).node

theorem Sharing.Written.step {l : SharingLabel ι} (hs : s.Written V m)
    (h : sharingStep V m s l = some s') : s'.Written V m := by
  cases l with
  | announces j =>
    obtain ⟨store, hset, rfl⟩ := Option.map_eq_some_iff.1 h
    obtain ⟨hpos, hleft⟩ := Valkey.left_of_set hset
    intro key hkey
    unfold Valkey.Present at hkey
    rw [hleft] at hkey
    split_ifs at hkey with heq
    · exact ⟨j, expiry_pos.1 hpos, heq⟩
    · exact hs key hkey
  | passes seconds =>
    simp only [sharingStep] at h
    split_ifs at h with hpos
    obtain rfl := Option.some.inj h
    intro key hkey
    refine hs key ?_
    by_contra hgone
    exact absurd hkey (not_lt.2 (V.left_pass_of_nonpos _ _ _ hpos (not_lt.1 hgone)))
  | leaves j =>
    obtain rfl := Option.some.inj h
    intro key hkey
    by_cases hown : key = (m j).key (m j).node
    · subst hown
      exact absurd hkey (not_lt.2 (V.left_delete _ _))
    · refine hs key ?_
      unfold Valkey.Present at hkey ⊢
      rwa [ValkeyMembership.leave, V.left_delete_of_ne _ _ _ hown] at hkey
  | refreshes j =>
    obtain rfl := Option.some.inj h
    exact hs

theorem written_of_run (hrun : Run (sharingStep V m) (fun _ _ => True) (.init V m) s) :
    s.Written V m :=
  hrun.invariant (fun key h => absurd h (not_lt.2 (V.left_empty key)))
    fun _ _ _ hs h _ => hs.step h

/-- Fleets that share a store do not see each other exactly if no key of one can be read as the
key of a node that another does not have. -/
theorem refresh_exact_iff (V : Valkey σ) (m : ι → ValkeyMembership)
    (hglob : ∀ i, GlobFree (m i).keyPrefix) : RefreshExact V m ↔ Separate m := by
  constructor
  · intro h i j name hlease hkey
    -- the node `j` announces itself, and `i` reads
    obtain ⟨store, hset, hleft⟩ := V.set_pos V.empty ((m j).key (m j).node) (m j).expiry
      (expiry_pos.2 hlease)
    have hstep : sharingStep V m (.init V m) (.announces j) =
        some { Sharing.init V m with store := store } := congrArg (Option.map _) hset
    have hpresent : V.Present store ((m i).key name) := by
      unfold Valkey.Present
      rw [hleft, if_pos hkey.symm]
      exact_mod_cast expiry_pos.2 hlease
    obtain ⟨-, hmem⟩ := h _ _ i (.single ⟨⟨_, hstep⟩, trivial⟩) rfl
    have hname := (hmem name).1 (by simpa using (mem_refresh (hglob i)).2 (.inr hpresent))
    rcases hname with rfl | ⟨hfleet, -⟩
    · exact ⟨i, rfl, rfl⟩
    · exact hfleet
  · intro h s s' i hrun hstep
    obtain rfl := Option.some.inj hstep
    have hmembers : (Function.update s.members i ((m i).refresh V s.store).members) i =
        ((m i).refresh V s.store).members := Function.update_self ..
    simp only [hmembers, mem_refresh (hglob i)]
    refine ⟨pairwise_lt_sortedSet _, fun name => or_congr_right ⟨fun hpresent => ?_, And.right⟩⟩
    obtain ⟨j, hlease, hkey⟩ := written_of_run hrun _ hpresent
    exact ⟨h i j name hlease hkey.symm, hpresent⟩

/-- A prefix and a colon that begin another fleet's keys are the other's prefix and colon, or
begin its prefix. -/
theorem eq_or_append_of_key_eq {p q a b : String} (h : p ++ ":" ++ a = q ++ ":" ++ b) :
    (p = q ∧ a = b) ∨ (∃ rest, p = q ++ ":" ++ rest) ∨ ∃ rest, q = p ++ ":" ++ rest := by
  have hlist : p.toList ++ [':'] ++ a.toList = q.toList ++ [':'] ++ b.toList := by
    simpa using congrArg String.toList h
  have hbegin : ∀ {p q : String}, p.toList ++ [':'] <+: q.toList ++ [':'] →
      p = q ∨ ∃ rest, q = p ++ ":" ++ rest := by
    intro p q hpq
    rcases List.prefix_concat_iff.1 hpq with heq | ⟨rest, hrest⟩
    · exact .inl (String.toList_inj.1 (List.append_cancel_right heq))
    · exact .inr ⟨String.ofList rest, String.toList_inj.1 (by simp [← hrest])⟩
  have hsame : p = q → a = b := by
    rintro rfl
    exact String.toList_inj.1 (List.append_cancel_left hlist)
  rcases List.prefix_or_prefix_of_prefix (List.prefix_append _ _)
    (hlist ▸ List.prefix_append (q.toList ++ [':']) b.toList) with hp | hq
  · rcases hbegin hp with heq | hrest
    · exact .inl ⟨heq, hsame heq⟩
    · exact .inr (.inr hrest)
  · rcases hbegin hq with heq | hrest
    · exact .inl ⟨heq.symm, hsame heq.symm⟩
    · exact .inr (.inl hrest)

/-- One node in each of two fleets. -/
def oneEach (p q : String) (name name' : NodeId) : Bool → ValkeyMembership
  | true => ⟨name, p, 2, 1, by norm_num, [name]⟩
  | false => ⟨name', q, 2, 1, by norm_num, [name']⟩

/-- Whatever their nodes are called, fleets with some prefixes keep to themselves exactly if no
prefix begins with another one and a colon. -/
theorem separate_iff_of_prefixes (prefixes : Set String) :
    (∀ (ι : Type) (m : ι → ValkeyMembership), (∀ i, (m i).keyPrefix ∈ prefixes) → Separate m) ↔
      ∀ p ∈ prefixes, ∀ q ∈ prefixes, ∀ rest, q ≠ p ++ ":" ++ rest := by
  constructor
  · rintro h p hp q hq rest rfl
    have hm : ∀ i, (oneEach p (p ++ ":" ++ rest) "" "" i).keyPrefix ∈ prefixes := by
      intro i
      cases i
      · exact hq
      · exact hp
    have hkey : (oneEach p (p ++ ":" ++ rest) "" "" false).key "" =
        (oneEach p (p ++ ":" ++ rest) "" "" true).key (rest ++ ":") := by
      simp [ValkeyMembership.key, oneEach, String.append_assoc]
    obtain ⟨k, -, hk⟩ := h Bool _ hm true false (rest ++ ":") (by norm_num [oneEach]) hkey
    -- neither of the two nodes has a colon in its name
    have hcolon : (":" : String).length ≤ (rest ++ ":").length := by simp
    cases k
    · simp [← hk, oneEach] at hcolon
    · simp [← hk, oneEach] at hcolon
  · intro h ι m hm i j name _ hkey
    rcases eq_or_append_of_key_eq hkey with ⟨hp, rfl⟩ | ⟨rest, hrest⟩ | ⟨rest, hrest⟩
    · exact ⟨j, hp, rfl⟩
    · exact absurd hrest (h _ (hm i) _ (hm j) rest)
    · exact absurd hrest (h _ (hm j) _ (hm i) rest)

/-- Two fleets whose prefixes are of one length. -/
theorem refresh_exact_siblings : RefreshExact .rows (oneEach "a" "b" "one" "two") := by
  have hlen : ∀ i, (oneEach "a" "b" "one" "two" i).keyPrefix.length = 1 := by
    intro i
    cases i
    · rfl
    · rfl
  refine (refresh_exact_iff _ _ fun i => ?_).2 fun i j name _ hkey => ?_
  · unfold GlobFree
    cases i
    · simp [oneEach]
    · simp [oneEach]
  · have hlonger : ∀ {i j rest}, (oneEach "a" "b" "one" "two" i).keyPrefix ≠
        (oneEach "a" "b" "one" "two" j).keyPrefix ++ ":" ++ rest := by
      intro i j rest heq
      have hcount := congrArg String.length heq
      rw [String.length_append, String.length_append, hlen, hlen] at hcount
      have hcolon : (":" : String).length = 1 := rfl
      omega
    rcases eq_or_append_of_key_eq hkey with ⟨hp, rfl⟩ | ⟨rest, hrest⟩ | ⟨rest, hrest⟩
    · exact ⟨j, hp, rfl⟩
    · exact absurd hrest hlonger
    · exact absurd hrest hlonger

/-- A fleet whose prefix begins with the other's and a colon is seen by it. -/
theorem refresh_sees_other :
    (∃ s s', Run (sharingStep .rows (oneEach "a" "a:b" "x" "y")) (fun _ _ => True)
        (.init .rows (oneEach "a" "a:b" "x" "y")) s ∧
      sharingStep .rows (oneEach "a" "a:b" "x" "y") s (.refreshes true) = some s' ∧
      s'.members true = ["b:y", "x"]) ∧
    ¬ RefreshExact .rows (oneEach "a" "a:b" "x" "y") := by
  obtain ⟨s, hrun, hs⟩ := exists_run_free (sharingStep .rows (oneEach "a" "a:b" "x" "y"))
    (.init .rows (oneEach "a" "a:b" "x" "y")) [.announces false]
    (fun s => (sharingStep .rows (oneEach "a" "a:b" "x" "y") s (.refreshes true)).any
      fun s' : Sharing Bool ValkeyRows => decide (s'.members true = ["b:y", "x"]))
    (by decide +kernel)
  obtain ⟨s', hstep, hmembers⟩ := (Option.any_eq_true ..).1 hs
  have hseen : s'.members true = ["b:y", "x"] := of_decide_eq_true hmembers
  refine ⟨⟨s, s', hrun, hstep, hseen⟩, fun h => ?_⟩
  obtain ⟨-, hmem⟩ := h s s' true hrun hstep
  rcases (hmem "b:y").1 (by simp [hseen]) with hown | ⟨⟨k, -, hk⟩, -⟩
  · exact absurd hown (by decide)
  · cases k
    · exact absurd hk (by decide)
    · exact absurd hk (by decide)

end Nigrains
