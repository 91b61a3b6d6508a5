import Mathlib.Data.Rat.Floor
import Mathlib.Tactic.Linarith
import Nigrains.OrderedDict
import Nigrains.Ring

/-!
# Membership by heartbeat

A node writes a key that expires, and writes it again while it lives. The membership is the
keys that are there.

The store is a parameter. `Valkey` is what the code relies on : how many seconds each key has
left, what SET, DEL and the passage of time do to that, and what SCAN finds. `Valkey.rows` is
one such store, a dictionary of the moments at which keys expire.
-/

namespace Nigrains

/-- `int(x)`, which goes toward zero. -/
def pyInt (x : ℚ) : ℤ :=
  x.num.tdiv x.den

/-- A whole number from one on is at most `int(x)` if it is at most `x`. -/
theorem le_pyInt {n : ℤ} (hn : 1 ≤ n) {x : ℚ} : n ≤ pyInt x ↔ (n : ℚ) ≤ x := by
  unfold pyInt
  rcases le_or_gt 0 x with hx | hx
  · rw [Int.tdiv_eq_ediv_of_nonneg (Rat.num_nonneg.2 hx), ← Rat.floor_def, ← Int.le_floor]
    rfl
  · have hnum : x.num.tdiv x.den ≤ 0 := by
      have hneg := Rat.num_neg.2 hx
      rw [← neg_neg x.num, Int.neg_tdiv]
      have := Int.tdiv_nonneg (a := -x.num) (b := x.den) (by omega) (by omega)
      omega
    have hlt : (x : ℚ) < n := hx.trans_le (by exact_mod_cast (by omega : (0 : ℤ) ≤ n))
    exact ⟨fun h => by omega, fun h => absurd h (not_le.2 hlt)⟩

/-- `name.removeprefix(start)`. -/
def removePrefix (name start : String) : String :=
  if start.toList <+: name.toList then String.ofList (name.toList.drop start.toList.length)
  else name

theorem removePrefix_append (start rest : String) : removePrefix (start ++ rest) start = rest := by
  simp [removePrefix]

/-- It has none of the characters that SCAN reads as anything but themselves. -/
def GlobFree (pattern : String) : Prop :=
  ∀ c ∈ pattern.toList, c ∉ ['*', '?', '[', ']', '\\']

/-- A store of keys that expire, as far as the code relies on it. -/
structure Valkey (σ : Type*) where
  empty : σ
  /-- `SET key "" EX seconds`, or nothing if it is refused. -/
  set : σ → String → ℤ → Option σ
  /-- `DEL key`. -/
  delete : σ → String → σ
  /-- Seconds pass. -/
  pass : σ → ℚ → σ
  /-- `SCAN MATCH pattern`, to its end. -/
  scan : σ → String → List String
  /-- How many seconds a key has left. One that has none left is not there. -/
  left : σ → String → ℚ
  left_empty : ∀ key, left empty key ≤ 0
  set_pos : ∀ s key seconds, 0 < seconds → ∃ s', set s key seconds = some s' ∧
    ∀ key', left s' key' = if key' = key then (seconds : ℚ) else left s key'
  /-- An expiry that is not positive is refused. -/
  set_nonpos : ∀ s key seconds, seconds ≤ 0 → set s key seconds = none
  left_delete : ∀ s key, left (delete s key) key ≤ 0
  left_delete_of_ne : ∀ s key key', key' ≠ key → left (delete s key) key' = left s key'
  left_pass : ∀ s seconds key, 0 ≤ seconds → 0 < left s key →
    left (pass s seconds) key = left s key - seconds
  left_pass_of_nonpos : ∀ s seconds key, 0 ≤ seconds → left s key ≤ 0 →
    left (pass s seconds) key ≤ 0
  mem_scan : ∀ s start key, GlobFree start →
    (key ∈ scan s (start ++ "*") ↔ 0 < left s key ∧ ∃ rest, key = start ++ rest)

namespace Valkey

variable {σ : Type*} (V : Valkey σ)

/-- A key is there. -/
def Present (s : σ) (key : String) : Prop :=
  0 < V.left s key

variable {V} {s s' : σ} {key : String} {seconds : ℤ}

/-- A SET that is not refused had a positive expiry, and writes its own key. -/
theorem left_of_set (h : V.set s key seconds = some s') : 0 < seconds ∧
    ∀ key', V.left s' key' = if key' = key then (seconds : ℚ) else V.left s key' := by
  have hpos : 0 < seconds := by
    by_contra hle
    rw [V.set_nonpos _ _ _ (not_lt.1 hle)] at h
    cases h
  obtain ⟨s'', hset, hleft⟩ := V.set_pos s key seconds hpos
  obtain rfl : s'' = s' := Option.some.inj (hset.symm.trans h)
  exact ⟨hpos, hleft⟩

end Valkey

/-! ## A store in a dictionary -/

/-- What a clock reads, and the moment at which each key expires. -/
structure ValkeyRows where
  now : ℚ
  rows : OrderedDict String ℚ

namespace ValkeyRows

/-- How many seconds a key has left. -/
def left (s : ValkeyRows) (key : String) : ℚ :=
  match s.rows.get key with
  | none => 0
  | some expires => expires - s.now

/-- A pattern that ends in a star, and has no other. -/
def scan (s : ValkeyRows) (pattern : String) : List String :=
  s.rows.keyList.filter fun key => 0 < s.left key ∧ pattern.toList.dropLast <+: key.toList

theorem mem_scan {s : ValkeyRows} {start key : String} :
    key ∈ s.scan (start ++ "*") ↔ 0 < s.left key ∧ ∃ rest, key = start ++ rest := by
  have hstart : (start ++ "*").toList.dropLast = start.toList := by simp
  have hkey : 0 < s.left key → key ∈ s.rows.keyList := by
    intro h
    rw [OrderedDict.mem_keyList]
    by_contra hnone
    rw [left, Option.eq_none_iff_forall_ne_some.2 fun v hv => hnone ⟨v, hv⟩] at h
    exact lt_irrefl 0 h
  have hrest : start.toList <+: key.toList ↔ ∃ rest, key = start ++ rest := by
    constructor
    · rintro ⟨rest, hr⟩
      exact ⟨String.ofList rest, String.toList_inj.1 (by simp [hr])⟩
    · rintro ⟨rest, rfl⟩
      simp
  simp only [scan, List.mem_filter, hstart, hrest, decide_eq_true_eq]
  exact ⟨fun h => h.2, fun h => ⟨hkey h.1, h⟩⟩

end ValkeyRows

/-- It keeps what the code relies on. -/
def Valkey.rows : Valkey ValkeyRows where
  empty := ⟨0, ∅⟩
  set s key seconds :=
    if 0 < seconds then some { s with rows := s.rows.set key (s.now + seconds) } else none
  delete s key := { s with rows := s.rows.pop key }
  pass s seconds := { s with now := s.now + seconds }
  scan := ValkeyRows.scan
  left := ValkeyRows.left
  left_empty := fun _ => le_rfl
  set_pos := by
    intro s key seconds h
    refine ⟨_, if_pos h, fun key' => ?_⟩
    simp only [ValkeyRows.left, OrderedDict.get_set]
    by_cases hkey : key' = key
    · simp [hkey]
    · simp [hkey]
  set_nonpos := fun _ _ _ h => if_neg (not_lt.2 h)
  left_delete := fun s key => by simp [ValkeyRows.left, OrderedDict.get_pop]
  left_delete_of_ne := fun s key key' h => by simp [ValkeyRows.left, OrderedDict.get_pop, h]
  left_pass := by
    intro s seconds key _ h
    unfold ValkeyRows.left at h ⊢
    cases hget : s.rows.get key with
    | none => simp [hget] at h
    | some expires => exact (sub_sub expires s.now seconds).symm
  left_pass_of_nonpos := by
    intro s seconds key hpos h
    unfold ValkeyRows.left at h ⊢
    cases hget : s.rows.get key with
    | none => exact le_rfl
    | some expires =>
      simp only [hget] at h ⊢
      linarith
  mem_scan := fun _ _ _ _ => ValkeyRows.mem_scan

/-- The heartbeat is not shorter than the lease. -/
structure LeaseError where
  heartbeat : ℚ
  lease : ℚ
deriving DecidableEq, Repr

/-- The message of the `ValueError`, given how a number of seconds is written. -/
def LeaseError.message (write : ℚ → String) (e : LeaseError) : String :=
  "a heartbeat of " ++ write e.heartbeat ++ "s does not fit inside a lease of " ++
    write e.lease ++ "s: this node would drop out of its own fleet between beats"

/-- Membership by heartbeat, with the lease doing the deciding. -/
structure ValkeyMembership where
  node : NodeId
  /-- Where member keys live. -/
  keyPrefix : String
  /-- Seconds a member key survives unrefreshed. -/
  lease : ℚ
  /-- Seconds between refreshes. -/
  heartbeat : ℚ
  fits : heartbeat < lease
  /-- The last membership seen. -/
  members : List NodeId

namespace ValkeyMembership

/-- `DEFAULT_PREFIX`, `DEFAULT_LEASE` and `DEFAULT_HEARTBEAT`. -/
def defaultPrefix : String := "nigrains:members"
def defaultLease : ℚ := 15
def defaultHeartbeat : ℚ := 5

/-- `__init__`. -/
def init (node : NodeId) (keyPrefix : String) (lease heartbeat : ℚ) :
    Except LeaseError ValkeyMembership :=
  if h : lease ≤ heartbeat then .error ⟨heartbeat, lease⟩
  else .ok ⟨node, keyPrefix, lease, heartbeat, not_le.1 h, [node]⟩

/-- The key one node's membership lives under. -/
def key (self : ValkeyMembership) (node : NodeId) : String :=
  self.keyPrefix ++ ":" ++ node

/-- The expiry that `announce` asks for. -/
def expiry (self : ValkeyMembership) : ℤ :=
  pyInt self.lease

variable {σ : Type*} (V : Valkey σ)

/-- Writes this node's key with a fresh lease. -/
def announce (self : ValkeyMembership) (s : σ) : Option σ :=
  V.set s (self.key self.node) self.expiry

/-- Reads who else is there. -/
def refresh (self : ValkeyMembership) (s : σ) : ValkeyMembership :=
  let seen := (V.scan s (self.keyPrefix ++ ":" ++ "*")).map fun name =>
    removePrefix name (self.keyPrefix ++ ":")
  { self with members := sortedSet (seen ++ [self.node]) }

/-- What `stop` does to the store. -/
def leave (self : ValkeyMembership) (s : σ) : σ :=
  V.delete s (self.key self.node)

end ValkeyMembership

end Nigrains
