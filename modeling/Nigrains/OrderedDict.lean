import Mathlib.Data.List.AList

/-!
# Dictionaries that remember their order

A Python `OrderedDict`, as Mathlib's association list `AList` with the most recent entry
at the head of `entries` : walking the dictionary is walking `entries` from the end.
`set` overwrites in place or adds at the recent end, `pop` is `AList.erase`, and
`moveToEnd` is an erasure followed by an insertion, which is what `AList.insert` does.
-/

set_option linter.unusedSectionVars false

namespace Nigrains

/-- A dictionary with its insertion order. The head of `entries` is the recent end. -/
abbrev OrderedDict (κ ν : Type*) := AList fun _ : κ => ν

namespace OrderedDict

open List

variable {κ ν : Type*} [DecidableEq κ] {d : OrderedDict κ ν} {k k' : κ} {v : ν}

/-- `d.get(k)`. -/
def get (d : OrderedDict κ ν) (k : κ) : Option ν :=
  d.lookup k

/-- `d[k] = v` : a present key keeps its place. -/
def set (d : OrderedDict κ ν) (k : κ) (v : ν) : OrderedDict κ ν :=
  if k ∈ d then d.replace k v else d.insert k v

/-- What `d.pop(k, None)` leaves. -/
def pop (d : OrderedDict κ ν) (k : κ) : OrderedDict κ ν :=
  d.erase k

/-- `d.move_to_end(k)`, where `k` is present. -/
def moveToEnd (d : OrderedDict κ ν) (k : κ) : OrderedDict κ ν :=
  match d.lookup k with
  | some v => d.insert k v
  | none => d

/-- `d.items()`, oldest first. -/
def items (d : OrderedDict κ ν) : List (κ × ν) :=
  d.entries.reverse.map fun e => (e.1, e.2)

/-- `list(d)`, oldest first. -/
def keyList (d : OrderedDict κ ν) : List κ :=
  d.items.map Prod.fst

/-- `len(d)`. -/
def len (d : OrderedDict κ ν) : ℕ :=
  d.entries.length

theorem mem_items {e : κ × ν} : e ∈ d.items ↔ d.get e.1 = some e.2 := by
  unfold items get
  rw [← Option.mem_def, AList.mem_lookup_iff]
  constructor
  · rintro h
    obtain ⟨e', he', rfl⟩ := List.mem_map.1 h
    exact List.mem_reverse.1 he'
  · exact fun h => List.mem_map.2 ⟨⟨e.1, e.2⟩, List.mem_reverse.2 h, rfl⟩

theorem mem_keyList : k ∈ d.keyList ↔ ∃ v, d.get k = some v := by
  unfold keyList
  constructor
  · intro h
    obtain ⟨e, he, rfl⟩ := List.mem_map.1 h
    exact ⟨e.2, mem_items.1 he⟩
  · rintro ⟨v, hv⟩
    exact List.mem_map.2 ⟨(k, v), mem_items.2 hv, rfl⟩

/-- No entry is there twice. -/
theorem nodup_items : d.items.Nodup := by
  refine List.Nodup.map ?_ (List.nodup_reverse.2 d.nodupKeys.nodup)
  rintro ⟨k, v⟩ ⟨k', v'⟩ h
  obtain ⟨rfl, rfl⟩ := Prod.mk.inj h
  rfl

/-- Popping a key forgets it and no other. -/
theorem get_pop : (d.pop k).get k' = if k' = k then none else d.get k' := by
  unfold pop get
  split_ifs with h
  · rw [h, AList.lookup_erase]
  · exact AList.lookup_erase_ne h

theorem dlookup_kreplace (k k' : κ) (v : ν) :
    ∀ l : List (Sigma fun _ : κ => ν), (kreplace k v l).dlookup k' =
      if k' = k ∧ k ∈ l.keys then some v else l.dlookup k'
  | [] => by simp [kreplace]
  | ⟨k₁, v₁⟩ :: l => by
    have ih := dlookup_kreplace k k' v l
    by_cases h1 : k = k₁
    · subst h1
      have hl : kreplace k v (⟨k, v₁⟩ :: l) = ⟨k, v⟩ :: l := by
        simp [kreplace, lookmap_cons_some]
      rw [hl]
      by_cases h : k' = k
      · subst h
        simp
      · simp [h]
    · have hl : kreplace k v (⟨k₁, v₁⟩ :: l) = ⟨k₁, v₁⟩ :: kreplace k v l := by
        simp [kreplace, lookmap_cons_none, h1]
      rw [hl]
      by_cases h : k' = k₁
      · subst h
        simp [Ne.symm h1]
      · rw [dlookup_cons_ne _ _ h, ih, dlookup_cons_ne _ _ h]
        simp [h1]

/-- A key set to a value answers it, and no other key changes. -/
theorem get_set : (d.set k v).get k' = if k' = k then some v else d.get k' := by
  unfold set get
  split_ifs with hk h h
  · rw [h]
    exact (dlookup_kreplace k k v _).trans (if_pos ⟨rfl, hk⟩)
  · exact (dlookup_kreplace k k' v _).trans (if_neg fun hm => h hm.1)
  · rw [h, AList.lookup_insert]
  · exact AList.lookup_insert_ne h

theorem length_kreplace (k : κ) (v : ν) (l : List (Sigma fun _ : κ => ν)) :
    (kreplace k v l).length = l.length := by
  have h := congrArg List.length (keys_kreplace k v l)
  simpa [List.keys] using h

/-- Setting a key adds at most one entry. -/
theorem len_set_le : (d.set k v).len ≤ d.len + 1 := by
  unfold set len
  split_ifs with hk
  · exact Nat.le_succ_of_le (Nat.le_of_eq (length_kreplace k v d.entries))
  · rw [AList.entries_insert_of_notMem hk, List.length_cons]

/-- Moving a key changes the order only. -/
@[simp] theorem get_moveToEnd : (d.moveToEnd k).get k' = d.get k' := by
  unfold moveToEnd get
  split
  · next v hv =>
    by_cases h : k' = k
    · subst h
      rw [AList.lookup_insert, hv]
    · exact AList.lookup_insert_ne h
  · rfl

/-! ## How many entries there are -/

theorem len_eq_length_keys : d.len = d.keys.length :=
  (List.length_map _).symm

theorem mem_iff_exists_get : k ∈ d ↔ ∃ v, d.get k = some v := by
  rw [← AList.lookup_isSome, Option.isSome_iff_exists]
  rfl

theorem len_set : (d.set k v).len = d.len + if d.get k = none then 1 else 0 := by
  unfold set
  split_ifs with hk hnone hnone
  · obtain ⟨w, hw⟩ := mem_iff_exists_get.1 hk
    rw [hnone] at hw
    cases hw
  · rw [len_eq_length_keys, len_eq_length_keys, AList.keys_replace]
    rfl
  · rw [len_eq_length_keys, len_eq_length_keys, AList.keys_insert, List.length_cons,
      List.erase_of_not_mem hk]
  · exact (hnone (AList.lookup_eq_none.2 hk)).elim

theorem len_pop : (d.pop k).len + (if d.get k = none then 0 else 1) = d.len := by
  unfold pop
  rw [len_eq_length_keys, len_eq_length_keys, AList.keys_erase]
  split_ifs with hnone
  · rw [List.erase_of_not_mem (AList.lookup_eq_none.1 hnone)]
    rfl
  · have hk : k ∈ d.keys := by
      by_contra hk
      exact hnone (AList.lookup_eq_none.2 hk)
    exact List.length_erase_add_one hk

@[simp] theorem len_moveToEnd : (d.moveToEnd k).len = d.len := by
  unfold moveToEnd
  split
  · next v hv =>
    have hk : k ∈ d.keys := AList.lookup_isSome.1 (by rw [hv]; rfl)
    rw [len_eq_length_keys, len_eq_length_keys, AList.keys_insert, List.length_cons,
      List.length_erase_add_one hk]
  · rfl

/-! ## In which order they stand -/

theorem keyList_eq : d.keyList = d.keys.reverse := by
  unfold keyList items
  rw [map_map, map_reverse]
  rfl

/-- A new key stands at the recent end. -/
theorem keys_set (h : k ∉ d) : (d.set k v).keys = k :: d.keys := by
  unfold set
  rw [if_neg h, AList.keys_insert, erase_of_not_mem h]

theorem keys_pop : (d.pop k).keys = d.keys.erase k :=
  AList.keys_erase k d

theorem keys_moveToEnd (h : k ∈ d) : (d.moveToEnd k).keys = k :: d.keys.erase k := by
  unfold moveToEnd
  obtain ⟨v, hv⟩ := Option.isSome_iff_exists.1 (AList.lookup_isSome.2 h)
  rw [hv]
  exact AList.keys_insert ..

end OrderedDict

end Nigrains
