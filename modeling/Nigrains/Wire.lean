import Mathlib.Algebra.Order.Ring.Rat
import Mathlib.Data.List.Nodup
import Mathlib.Data.List.Perm.Subperm
import Nigrains.Str

/-!
# What crosses a wire

`Value` is a Python value as `json` tells them apart, and `Json` a document, as the tree that
its text denotes. `dumps` writes tuples as arrays, keys as strings, and strings in escapes, so that
a pair of surrogates denotes the character it encodes; `loads` reads arrays as lists and keys as
strings. So a value arrives as its `image` (`loads_dumps`), which is equal to the value exactly if
there is no tuple in it, every key is a string, no string has a pair to join, and no float is a NaN
(`equals_image_iff`).

Floats are a parameter `φ`, with `ρ` for the way numbers are written, and `nan` for those floats
that are not equal to themselves.
-/

set_option linter.unusedSectionVars false

namespace Nigrains

/-- A key of a dictionary. -/
inductive Key (φ : Type*)
  | none
  | bool (b : Bool)
  | int (n : ℤ)
  | float (x : φ)
  | str (s : Str)
  /-- Anything else that is hashable, of a class of that name. -/
  | other (className : String)
deriving DecidableEq, Repr

/-- A value. -/
inductive Value (φ : Type*)
  | none
  | bool (b : Bool)
  | int (n : ℤ)
  | float (x : φ)
  | str (s : Str)
  | list (items : List (Value φ))
  | tuple (items : List (Value φ))
  | dict (entries : List (Key φ × Value φ))
  /-- Anything else, of a class of that name. -/
  | other (className : String)
deriving Repr

/-- A document. -/
inductive Json (φ : Type*)
  | null
  | bool (b : Bool)
  | int (n : ℤ)
  | float (x : φ)
  | str (s : Str)
  | array (items : List (Json φ))
  | object (members : List (Str × Json φ))
deriving Repr

/-- How the interpreter writes numbers. -/
structure Numerals (φ : Type*) where
  /-- `repr` of a float. -/
  repr : φ → String
  /-- `sys.get_int_max_str_digits()`, of which 0 stands for no limit. -/
  limit : ℕ

/-- An int has no more digits than the interpreter writes, or reads. -/
def Numerals.fits {φ : Type*} (ρ : Numerals φ) (n : ℤ) : Bool :=
  ρ.limit = 0 || decide (n.natAbs < 10 ^ ρ.limit)

/-- What `json` raises for a value that it cannot render. -/
inductive DumpError
  | value (className : String)
  | key (className : String)
  | digits (limit : ℕ)
deriving DecidableEq, Repr

/-- Its class. -/
def DumpError.className : DumpError → String
  | value _ => "TypeError"
  | key _ => "TypeError"
  | digits _ => "ValueError"

/-- Its message. -/
def DumpError.message : DumpError → String
  | value className => "Object of type " ++ className ++ " is not JSON serializable"
  | key className => "keys must be str, int, float, bool or None, not " ++ className
  | digits limit => "Exceeds the limit (" ++ toString limit ++ " digits) for integer string " ++
      "conversion; use sys.set_int_max_str_digits() to increase the limit"

variable {φ : Type*} [DecidableEq φ] (ρ : Numerals φ)

/-- `str` of an int. -/
def Numerals.str (n : ℤ) : Except DumpError Str :=
  if ρ.fits n then .ok (toString n) else .error (.digits ρ.limit)

/-- What a key is written as. -/
def Key.text : Key φ → Except DumpError Str
  | none => .ok "null"
  | bool true => .ok "true"
  | bool false => .ok "false"
  | int n => ρ.str n
  | float x => .ok (ρ.repr x)
  | str s => .ok s.joined
  | other className => .error (.key className)

mutual

/-- `json.dumps`. -/
def dumps : Value φ → Except DumpError (Json φ)
  | .none => .ok .null
  | .bool b => .ok (.bool b)
  | .int n => (ρ.str n).map fun _ => .int n
  | .float x => .ok (.float x)
  | .str s => .ok (.str s.joined)
  | .list items => (dumpsAll items).map .array
  | .tuple items => (dumpsAll items).map .array
  | .dict entries => (dumpsEntries entries).map .object
  | .other className => .error (.value className)
termination_by structural v => v

/-- The items of an array. -/
def dumpsAll : List (Value φ) → Except DumpError (List (Json φ))
  | [] => .ok []
  | v :: items =>
    match dumps v with
    | .error e => .error e
    | .ok j => (dumpsAll items).map (j :: ·)
termination_by structural items => items

/-- The members of an object. -/
def dumpsEntries : List (Key φ × Value φ) → Except DumpError (List (Str × Json φ))
  | [] => .ok []
  | (k, v) :: entries =>
    match k.text ρ with
    | .error e => .error e
    | .ok text =>
      match dumps v with
      | .error e => .error e
      | .ok j => (dumpsEntries entries).map ((text, j) :: ·)
termination_by structural entries => entries

end

/-- `d[key] = v`, of a dictionary whose keys are strings. -/
def setEntry (key : Str) (v : Value φ) : List (Key φ × Value φ) → List (Key φ × Value φ)
  | [] => [(.str key, v)]
  | (k, w) :: rest => if k = .str key then (k, v) :: rest else (k, w) :: setEntry key v rest

/-- A dictionary of members in order, of which those that come later overwrite. -/
def fromPairs (members : List (Str × Value φ)) : List (Key φ × Value φ) :=
  members.foldl (fun d e => setEntry e.1 e.2 d) []

mutual

/-- `json.loads`. -/
def loads : Json φ → Value φ
  | .null => .none
  | .bool b => .bool b
  | .int n => .int n
  | .float x => .float x
  | .str s => .str s
  | .array items => .list (loadsAll items)
  | .object members => .dict (fromPairs (loadsMembers members))
termination_by structural j => j

/-- The items of a list. -/
def loadsAll : List (Json φ) → List (Value φ)
  | [] => []
  | j :: items => loads j :: loadsAll items
termination_by structural items => items

/-- The members of a dictionary, as they are written. -/
def loadsMembers : List (Str × Json φ) → List (Str × Value φ)
  | [] => []
  | (k, j) :: members => (k, loads j) :: loadsMembers members
termination_by structural members => members

end

mutual

/-- What a value arrives as. -/
def image : Value φ → Value φ
  | .list items => .list (imageAll items)
  | .tuple items => .list (imageAll items)
  | .dict entries => .dict (fromPairs (imageEntries entries))
  | .none => .none
  | .bool b => .bool b
  | .int n => .int n
  | .float x => .float x
  | .str s => .str s.joined
  | .other className => .other className
termination_by structural v => v

/-- What some items arrive as. -/
def imageAll : List (Value φ) → List (Value φ)
  | [] => []
  | v :: items => image v :: imageAll items
termination_by structural items => items

/-- What some entries arrive as, before those of one key are put together. -/
def imageEntries : List (Key φ × Value φ) → List (Str × Value φ)
  | [] => []
  | (k, v) :: entries =>
    match k.text ρ with
    | .error _ => imageEntries entries
    | .ok text => (text, image v) :: imageEntries entries
termination_by structural entries => entries

end

variable {ρ : Numerals φ}

/-! ## What arrives -/

theorem map_eq_ok {ε α β : Type*} {f : α → β} {x : Except ε α} {b : β} :
    x.map f = .ok b ↔ ∃ a, x = .ok a ∧ f a = b := by
  cases x with
  | error e => simp [Except.map]
  | ok a => simp [Except.map]

theorem dumpsAll_cons {v : Value φ} {items : List (Value φ)} {js : List (Json φ)} :
    dumpsAll ρ (v :: items) = .ok js ↔
      ∃ j js', dumps ρ v = .ok j ∧ dumpsAll ρ items = .ok js' ∧ js = j :: js' := by
  rw [dumpsAll]
  cases dumps ρ v with
  | error e => simp
  | ok j => cases dumpsAll ρ items <;> simp [Except.map, eq_comm]

theorem dumpsEntries_cons {k : Key φ} {v : Value φ} {entries : List (Key φ × Value φ)}
    {ms : List (Str × Json φ)} : dumpsEntries ρ ((k, v) :: entries) = .ok ms ↔
      ∃ text j ms', k.text ρ = .ok text ∧ dumps ρ v = .ok j ∧
        dumpsEntries ρ entries = .ok ms' ∧ ms = (text, j) :: ms' := by
  rw [dumpsEntries]
  cases k.text ρ with
  | error e => simp
  | ok text =>
    cases dumps ρ v with
    | error e => simp
    | ok j => cases dumpsEntries ρ entries <;> simp [Except.map, eq_comm]

mutual

/-- What is written arrives as its image. -/
theorem loads_dumps : ∀ (v : Value φ) {j : Json φ}, dumps ρ v = .ok j → loads j = image ρ v
  | .none, j, h => by
    obtain rfl := Except.ok.inj h
    rfl
  | .bool b, j, h => by
    obtain rfl := Except.ok.inj h
    rfl
  | .int n, j, h => by
    obtain ⟨_, -, rfl⟩ := map_eq_ok.1 h
    rfl
  | .float x, j, h => by
    obtain rfl := Except.ok.inj h
    rfl
  | .str s, j, h => by
    obtain rfl := Except.ok.inj h
    rfl
  | .list items, j, h => by
    obtain ⟨js, hjs, rfl⟩ := map_eq_ok.1 h
    rw [loads, image, loadsAll_dumpsAll items hjs]
  | .tuple items, j, h => by
    obtain ⟨js, hjs, rfl⟩ := map_eq_ok.1 h
    rw [loads, image, loadsAll_dumpsAll items hjs]
  | .dict entries, j, h => by
    obtain ⟨ms, hms, rfl⟩ := map_eq_ok.1 h
    rw [loads, image, loadsMembers_dumpsEntries entries hms]
  | .other className, j, h => by cases h

theorem loadsAll_dumpsAll : ∀ (items : List (Value φ)) {js : List (Json φ)},
    dumpsAll ρ items = .ok js → loadsAll js = imageAll ρ items
  | [], js, h => by
    obtain rfl := Except.ok.inj h
    rfl
  | v :: items, js, h => by
    obtain ⟨j, js', hv, hitems, rfl⟩ := dumpsAll_cons.1 h
    rw [loadsAll, imageAll, loads_dumps v hv, loadsAll_dumpsAll items hitems]

theorem loadsMembers_dumpsEntries : ∀ (entries : List (Key φ × Value φ))
    {ms : List (Str × Json φ)}, dumpsEntries ρ entries = .ok ms →
      loadsMembers ms = imageEntries ρ entries
  | [], ms, h => by
    obtain rfl := Except.ok.inj h
    rfl
  | (k, v) :: entries, ms, h => by
    obtain ⟨text, j, ms', hk, hv, hentries, rfl⟩ := dumpsEntries_cons.1 h
    rw [loadsMembers, imageEntries, hk, loads_dumps v hv,
      loadsMembers_dumpsEntries entries hentries]

end

/-! ## Which values arrive equal -/

/-- `v == w`, where numbers are of the same types. -/
inductive Equals (nan : φ → Prop) : Value φ → Value φ → Prop
  | none : Equals nan .none .none
  | bool (b : Bool) : Equals nan (.bool b) (.bool b)
  | int (n : ℤ) : Equals nan (.int n) (.int n)
  | float {x : φ} (h : ¬ nan x) : Equals nan (.float x) (.float x)
  | str (s : Str) : Equals nan (.str s) (.str s)
  | list {items items' : List (Value φ)} (hlength : items.length = items'.length)
    (h : ∀ p ∈ items.zip items', Equals nan p.1 p.2) : Equals nan (.list items) (.list items')
  | tuple {items items' : List (Value φ)} (hlength : items.length = items'.length)
    (h : ∀ p ∈ items.zip items', Equals nan p.1 p.2) : Equals nan (.tuple items) (.tuple items')
  | dict {entries entries' : List (Key φ × Value φ)} (hlength : entries.length = entries'.length)
    (hkeys : ∀ e ∈ entries, e.1 ∈ entries'.map Prod.fst)
    (h : ∀ e ∈ entries, ∀ e' ∈ entries', e.1 = e'.1 → Equals nan e.2 e'.2) :
    Equals nan (.dict entries) (.dict entries')

/-- No tuple in it, no NaN, and no string with a pair of surrogates; and all keys strings, each one
there once. -/
inductive Plain (nan : φ → Prop) : Value φ → Prop
  | none : Plain nan .none
  | bool (b : Bool) : Plain nan (.bool b)
  | int (n : ℤ) : Plain nan (.int n)
  | float {x : φ} (h : ¬ nan x) : Plain nan (.float x)
  | str {s : Str} (h : s.Whole) : Plain nan (.str s)
  | list {items : List (Value φ)} (h : ∀ v ∈ items, Plain nan v) : Plain nan (.list items)
  | dict {entries : List (Key φ × Value φ)}
    (hkeys : ∀ e ∈ entries, ∃ s : Str, s.Whole ∧ e.1 = .str s)
    (hnodup : (entries.map Prod.fst).Nodup) (h : ∀ e ∈ entries, Plain nan e.2) :
    Plain nan (.dict entries)

variable {nan : φ → Prop}

theorem imageAll_eq_map (items : List (Value φ)) :
    imageAll ρ items = items.map (image ρ) := by
  induction items with
  | nil => rfl
  | cons v items ih => rw [imageAll, ih, List.map_cons]

/-- What a key is written as is read as it is written. -/
theorem Key.whole_text {k : Key φ} {text : Str} (h : k.text ρ = .ok text) : text.Whole := by
  unfold Key.text Numerals.str at h
  repeat' split at h
  all_goals cases h
  case h_6 s => exact s.whole_joined
  all_goals exact Str.whole_ofString _

theorem mem_imageEntries {m : Str × Value φ} {entries : List (Key φ × Value φ)} :
    m ∈ imageEntries ρ entries ↔
      ∃ e ∈ entries, e.1.text ρ = .ok m.1 ∧ m.2 = image ρ e.2 := by
  induction entries with
  | nil => simp [imageEntries]
  | cons e entries ih =>
    obtain ⟨k, v⟩ := e
    rw [imageEntries, List.exists_mem_cons_iff, ← ih]
    cases k.text ρ with
    | error _ => simp
    | ok text => simp [Prod.ext_iff, eq_comm]

theorem mem_keys_setEntry {key : Str} {v : Value φ} {d : List (Key φ × Value φ)} {k : Key φ} :
    k ∈ (setEntry key v d).map Prod.fst ↔ k = .str key ∨ k ∈ d.map Prod.fst := by
  induction d with
  | nil => simp [setEntry]
  | cons e d ih =>
    obtain ⟨k', w⟩ := e
    simp only [setEntry]
    split_ifs with heq
    · subst heq
      simp
    · simp only [List.map_cons, List.mem_cons, ih]
      tauto

theorem nodup_setEntry {key : Str} {v : Value φ} :
    ∀ {d : List (Key φ × Value φ)}, (d.map Prod.fst).Nodup →
      ((setEntry key v d).map Prod.fst).Nodup
  | [], _ => by simp [setEntry]
  | (k, w) :: d, h => by
    rw [List.map_cons, List.nodup_cons] at h
    simp only [setEntry]
    split_ifs with heq
    · exact List.nodup_cons.2 h
    · refine List.nodup_cons.2 ⟨fun hmem => ?_, nodup_setEntry h.2⟩
      rcases mem_keys_setEntry.1 hmem with hk | hk
      · exact heq hk
      · exact h.1 hk

/-- A key that is not there is added at the end. -/
theorem setEntry_of_notMem {key : Str} {v : Value φ} :
    ∀ {d : List (Key φ × Value φ)}, .str key ∉ d.map Prod.fst →
      setEntry key v d = d ++ [(.str key, v)]
  | [], _ => rfl
  | (k, w) :: d, h => by
    rw [List.map_cons, List.mem_cons, not_or] at h
    simp only [setEntry]
    rw [if_neg (Ne.symm h.1), setEntry_of_notMem h.2, List.cons_append]

/-- The keys of a dictionary are those of its members. -/
theorem mem_keys_fromPairs {members : List (Str × Value φ)} {k : Key φ} :
    k ∈ (fromPairs members).map Prod.fst ↔ ∃ m ∈ members, k = .str m.1 := by
  have hfold : ∀ (members : List (Str × Value φ)) (d : List (Key φ × Value φ)),
      k ∈ (members.foldl (fun d e => setEntry e.1 e.2 d) d).map Prod.fst ↔
        k ∈ d.map Prod.fst ∨ ∃ m ∈ members, k = .str m.1 := by
    intro members
    induction members with
    | nil => simp
    | cons m members ih =>
      intro d
      rw [List.foldl_cons, ih, mem_keys_setEntry, List.exists_mem_cons_iff]
      tauto
  exact (hfold members []).trans (by simp)

/-- Each is there once. -/
theorem nodup_fromPairs (members : List (Str × Value φ)) :
    ((fromPairs members).map Prod.fst).Nodup := by
  have hfold : ∀ (members : List (Str × Value φ)) (d : List (Key φ × Value φ)),
      (d.map Prod.fst).Nodup →
        ((members.foldl (fun d e => setEntry e.1 e.2 d) d).map Prod.fst).Nodup := by
    intro members
    induction members with
    | nil => exact fun d h => h
    | cons m members ih => exact fun d h => ih _ (nodup_setEntry h)
  exact hfold members [] List.nodup_nil

/-- Members of different keys make a dictionary in their order. -/
theorem fromPairs_of_nodup {members : List (Str × Value φ)}
    (h : (members.map Prod.fst).Nodup) :
    fromPairs members = members.map fun e => (.str e.1, e.2) := by
  have hfold : ∀ (members : List (Str × Value φ)) (d : List (Key φ × Value φ)),
      (members.map Prod.fst).Nodup → (∀ e ∈ members, .str e.1 ∉ d.map Prod.fst) →
      members.foldl (fun d e => setEntry e.1 e.2 d) d =
        d ++ members.map fun e => (.str e.1, e.2) := by
    intro members
    induction members with
    | nil => simp
    | cons e members ih =>
      intro d hnodup hnew
      rw [List.map_cons, List.nodup_cons] at hnodup
      rw [List.foldl_cons, setEntry_of_notMem (hnew e List.mem_cons_self),
        ih _ hnodup.2 fun e' he' => ?_, List.map_cons, List.append_assoc, List.singleton_append]
      have hne : e'.1 ≠ e.1 := fun heq => hnodup.1 (heq ▸ List.mem_map_of_mem he')
      simpa [hne] using hnew e' (List.mem_cons_of_mem _ he')
  exact hfold members [] h (by simp)

/-- The entries of a dictionary whose keys are strings arrive in their places. -/
theorem fromPairs_imageEntries {entries : List (Key φ × Value φ)}
    (hkeys : ∀ e ∈ entries, ∃ s : Str, s.Whole ∧ e.1 = .str s)
    (hnodup : (entries.map Prod.fst).Nodup) :
    fromPairs (imageEntries ρ entries) = entries.map fun e => (e.1, image ρ e.2) := by
  have hmap : ∀ {entries : List (Key φ × Value φ)},
      (∀ e ∈ entries, ∃ s : Str, s.Whole ∧ e.1 = .str s) →
      (imageEntries ρ entries).map (fun e => ((.str e.1, e.2) : Key φ × Value φ)) =
        entries.map fun e => (e.1, image ρ e.2) := by
    intro entries hkeys
    induction entries with
    | nil => rfl
    | cons e entries ih =>
      obtain ⟨k, v⟩ := e
      obtain ⟨s, hs, rfl⟩ := hkeys _ List.mem_cons_self
      have hrest := ih fun e he => hkeys e (List.mem_cons_of_mem _ he)
      simpa [imageEntries, Key.text, hs.joined_eq] using hrest
  have hfst : ((imageEntries ρ entries).map Prod.fst).map (Key.str : Str → Key φ) =
      entries.map Prod.fst := by
    have h := congrArg (List.map Prod.fst) (hmap hkeys)
    simpa only [List.map_map, Function.comp_def] using h
  rw [fromPairs_of_nodup (List.Nodup.of_map _ (hfst ▸ hnodup)), hmap hkeys]

theorem map_eq_self {α : Type*} {f : α → α} {l : List α} : l.map f = l ↔ ∀ a ∈ l, f a = a := by
  have h : l.map f = l.map id ↔ ∀ a ∈ l, f a = id a := List.map_inj_left
  rwa [List.map_id] at h

/-- A plain value arrives as it is. -/
theorem Plain.image_eq {v : Value φ} (h : Plain nan v) : image ρ v = v := by
  induction h with
  | none => rfl
  | bool b => rfl
  | int n => rfl
  | float _ => rfl
  | str h => rw [image, h.joined_eq]
  | list _ ih => rw [image, imageAll_eq_map, map_eq_self.2 ih]
  | dict hkeys hnodup _ ih =>
    rw [image, fromPairs_imageEntries hkeys hnodup]
    exact congrArg Value.dict (map_eq_self.2 fun e he => Prod.ext rfl (ih e he))

theorem zip_map_self {α β : Type*} {f : α → β} {l : List α} :
    l.zip (l.map f) = l.map fun a => (a, f a) := by
  simpa using List.zip_map' (f := id) (g := f) (l := l)

/-- And is equal to itself. -/
theorem Plain.equals_self {v : Value φ} (h : Plain nan v) : Equals nan v v := by
  induction h with
  | none => exact .none
  | bool b => exact .bool b
  | int n => exact .int n
  | float h => exact .float h
  | str _ => exact .str _
  | @list items _ ih =>
    have hzip : items.zip items = items.map fun v => (v, v) := by
      simpa using zip_map_self (f := id) (l := items)
    refine .list rfl fun p hp => ?_
    obtain ⟨v, hv, rfl⟩ := List.mem_map.1 (hzip ▸ hp)
    exact ih v hv
  | dict _ hnodup _ ih =>
    refine .dict rfl (fun e he => List.mem_map_of_mem he) fun e he e' he' hkey => ?_
    obtain rfl := List.inj_on_of_nodup_map hnodup he he' hkey
    exact ih e he

/-- A dictionary that arrives with as many entries, under its own keys, has strings for keys. -/
theorem keys_of_equals {entries : List (Key φ × Value φ)}
    (hlength : entries.length = (fromPairs (imageEntries ρ entries)).length)
    (hkeys : ∀ e ∈ entries, e.1 ∈ (fromPairs (imageEntries ρ entries)).map Prod.fst) :
    (∀ e ∈ entries, ∃ s : Str, s.Whole ∧ e.1 = .str s) ∧ (entries.map Prod.fst).Nodup := by
  have hwhole : ∀ e ∈ entries, ∃ s : Str, s.Whole ∧ e.1 = .str s := by
    intro e he
    obtain ⟨m, hm, hk⟩ := mem_keys_fromPairs.1 (hkeys e he)
    obtain ⟨e', -, htext, -⟩ := mem_imageEntries.1 hm
    exact ⟨m.1, Key.whole_text htext, hk⟩
  refine ⟨hwhole, ?_⟩
  -- the keys that arrive are among those that left, and as many, and each is there once
  have hsub : (fromPairs (imageEntries ρ entries)).map Prod.fst ⊆ entries.map Prod.fst := by
    intro k hk
    obtain ⟨m, hm, rfl⟩ := mem_keys_fromPairs.1 hk
    obtain ⟨e, he, htext, -⟩ := mem_imageEntries.1 hm
    obtain ⟨s, hs, hkey⟩ := hwhole e he
    rw [hkey, Key.text, hs.joined_eq] at htext
    obtain rfl := Except.ok.inj htext
    exact hkey ▸ List.mem_map_of_mem he
  have hnodup := nodup_fromPairs (imageEntries ρ entries)
  have hperm := (hnodup.subperm hsub).perm_of_length_le (by simp [hlength])
  exact hperm.nodup_iff.1 hnodup

mutual

/-- What is written, and arrives equal, is plain. -/
theorem plain_of_equals : ∀ (v : Value φ) {j : Json φ}, dumps ρ v = .ok j →
    Equals nan v (image ρ v) → Plain nan v
  | .none, _, _, _ => .none
  | .bool b, _, _, _ => .bool b
  | .int n, _, _, _ => .int n
  | .float x, _, _, h => by
    cases h with
    | float hnan => exact .float hnan
  | .str s, _, _, h => by
    rw [image] at h
    generalize ht : s.joined = t at h
    cases h
    exact .str (Str.joined_eq_iff.1 ht)
  | .list items, j, hj, h => by
    obtain ⟨js, hjs, -⟩ := map_eq_ok.1 hj
    rw [image, imageAll_eq_map] at h
    cases h with
    | list _ h =>
      refine .list (plainAll_of_equals items hjs fun v hv => h (v, image ρ v) ?_)
      rw [zip_map_self]
      exact List.mem_map.2 ⟨v, hv, rfl⟩
  | .tuple items, j, _, h => by
    rw [image] at h
    cases h
  | .dict entries, j, hj, h => by
    obtain ⟨ms, hms, -⟩ := map_eq_ok.1 hj
    rw [image] at h
    cases h with
    | dict hlength hkeys h =>
      obtain ⟨hwhole, hnodup⟩ := keys_of_equals hlength hkeys
      refine .dict hwhole hnodup (plainEntries_of_equals entries hms fun e he => ?_)
      refine h e he (e.1, image ρ e.2) ?_ rfl
      rw [fromPairs_imageEntries hwhole hnodup]
      exact List.mem_map.2 ⟨e, he, rfl⟩
  | .other className, j, h, _ => by cases h

theorem plainAll_of_equals : ∀ (items : List (Value φ)) {js : List (Json φ)},
    dumpsAll ρ items = .ok js → (∀ v ∈ items, Equals nan v (image ρ v)) → ∀ v ∈ items, Plain nan v
  | [], _, _, _ => by simp
  | v :: items, js, hjs, h => by
    obtain ⟨j, js', hv, hitems, -⟩ := dumpsAll_cons.1 hjs
    rintro w (_ | ⟨_, hw⟩)
    · exact plain_of_equals v hv (h v List.mem_cons_self)
    · exact plainAll_of_equals items hitems (fun w hw => h w (List.mem_cons_of_mem _ hw)) w hw

theorem plainEntries_of_equals : ∀ (entries : List (Key φ × Value φ))
    {ms : List (Str × Json φ)}, dumpsEntries ρ entries = .ok ms →
      (∀ e ∈ entries, Equals nan e.2 (image ρ e.2)) → ∀ e ∈ entries, Plain nan e.2
  | [], _, _, _ => by simp
  | (k, v) :: entries, ms, hms, h => by
    obtain ⟨text, j, ms', -, hv, hentries, -⟩ := dumpsEntries_cons.1 hms
    rintro e (_ | ⟨_, he⟩)
    · exact plain_of_equals v hv (h (k, v) List.mem_cons_self)
    · exact plainEntries_of_equals entries hentries
        (fun e he => h e (List.mem_cons_of_mem _ he)) e he

end

/-- What is written arrives equal exactly if it is plain. -/
theorem equals_image_iff {v : Value φ} {j : Json φ} (h : dumps ρ v = .ok j) :
    Equals nan v (image ρ v) ↔ Plain nan v := by
  refine ⟨plain_of_equals v h, fun hplain => ?_⟩
  rw [hplain.image_eq]
  exact hplain.equals_self

variable (ρ) in
/-- `encode` renders it, rather than raise. -/
def Rendered (v : Value φ) : Prop :=
  ∃ j, dumps ρ v = .ok j

theorem exists_dumpsAll {items : List (Value φ)} :
    (∃ js, dumpsAll ρ items = .ok js) ↔ ∀ v ∈ items, Rendered ρ v := by
  induction items with
  | nil => simp [dumpsAll]
  | cons v items ih =>
    rw [List.forall_mem_cons, ← ih]
    constructor
    · rintro ⟨js, h⟩
      obtain ⟨j, js', hv, hitems, -⟩ := dumpsAll_cons.1 h
      exact ⟨⟨j, hv⟩, js', hitems⟩
    · rintro ⟨⟨j, hv⟩, js', hitems⟩
      exact ⟨_, dumpsAll_cons.2 ⟨j, js', hv, hitems, rfl⟩⟩

theorem exists_dumpsEntries {entries : List (Key φ × Value φ)} :
    (∃ ms, dumpsEntries ρ entries = .ok ms) ↔
      ∀ e ∈ entries, (∃ text, e.1.text ρ = .ok text) ∧ Rendered ρ e.2 := by
  induction entries with
  | nil => simp [dumpsEntries]
  | cons e entries ih =>
    rw [List.forall_mem_cons, ← ih]
    constructor
    · rintro ⟨ms, h⟩
      obtain ⟨text, j, ms', hk, hv, hentries, -⟩ := dumpsEntries_cons.1 h
      exact ⟨⟨⟨text, hk⟩, j, hv⟩, ms', hentries⟩
    · rintro ⟨⟨⟨text, hk⟩, j, hv⟩, ms', hentries⟩
      exact ⟨_, dumpsEntries_cons.2 ⟨text, j, ms', hk, hv, hentries, rfl⟩⟩

theorem rendered_list {items : List (Value φ)} :
    Rendered ρ (.list items) ↔ ∀ v ∈ items, Rendered ρ v := by
  rw [← exists_dumpsAll]
  constructor
  · rintro ⟨j, h⟩
    obtain ⟨js, hjs, -⟩ := map_eq_ok.1 h
    exact ⟨js, hjs⟩
  · rintro ⟨js, hjs⟩
    exact ⟨_, map_eq_ok.2 ⟨js, hjs, rfl⟩⟩

theorem rendered_dict {entries : List (Key φ × Value φ)} : Rendered ρ (.dict entries) ↔
    ∀ e ∈ entries, (∃ text, e.1.text ρ = .ok text) ∧ Rendered ρ e.2 := by
  rw [← exists_dumpsEntries]
  constructor
  · rintro ⟨j, h⟩
    obtain ⟨ms, hms, -⟩ := map_eq_ok.1 h
    exact ⟨ms, hms⟩
  · rintro ⟨ms, hms⟩
    exact ⟨_, map_eq_ok.2 ⟨ms, hms, rfl⟩⟩

/-! ## Failures -/

/-- What `failure_to_wire` reads off an exception : the name of its class, and `str` of it. -/
structure Failure where
  type : Str
  message : Str
deriving DecidableEq, Repr

/-- What `failure_from_wire` makes of it. -/
inductive Rebuilt
  /-- An exception of this package, of the class of that name. -/
  | known (name message : Str)
  | remoteError (typeName message : Str)
deriving DecidableEq, Repr

/-- The classes of `_REBUILDABLE`. -/
def rebuildable : List Str :=
  ["DeadlineExceeded", "ConcurrentChange", "NoSuchGrainMethodError", "GrainNotRegisteredError"]

/-- Renders an exception as the little a wire can carry. -/
def failureToWire (exc : Failure) : Value φ :=
  .dict [(.str "type", .str exc.type), (.str "message", .str exc.message)]

/-- `d.get(key, default)`, of strings. -/
def Value.getString (v : Value φ) (key default : Str) : Str :=
  match v with
  | .dict entries =>
    match entries.find? fun e => e.1 = .str key with
    | some (_, .str s) => s
    | _ => default
  | _ => default

/-- Rebuilds what crossed, or wraps what could not. -/
def failureFromWire (rendered : Value φ) : Rebuilt :=
  let name := rendered.getString "type" "Exception"
  let message := rendered.getString "message" ""
  if name ∈ rebuildable then .known name message else .remoteError name message

/-- A failure crosses with its name and its message. -/
theorem failureFromWire_failureToWire (exc : Failure) :
    failureFromWire (failureToWire exc : Value φ) =
      if exc.type ∈ rebuildable then .known exc.type exc.message
      else .remoteError exc.type exc.message := by
  simp [failureFromWire, failureToWire, Value.getString]

end Nigrains
