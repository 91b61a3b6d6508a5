import Mathlib.Algebra.BigOperators.Group.Finset.Basic
import Mathlib.Algebra.BigOperators.Intervals
import Mathlib.Algebra.BigOperators.Group.Finset.Piecewise
import Mathlib.Algebra.Order.BigOperators.Group.Finset
import Mathlib.Algebra.Order.BigOperators.Group.List
import Mathlib.Tactic.Abel

/-!
# Tasks on one event loop

A task is a stack of coroutine frames, the innermost first. At most one task runs at a
time, and it runs alone until its innermost frame suspends : a frame runs one segment,
from where it was resumed to its next `await`, and the segment's `Next` says what follows.
Awaiting a coroutine does not suspend the task. It puts the coroutine on the stack and
the task runs on.

`cancel` asks a task to be interrupted. The request is kept until the task is resumed,
and the innermost frame is then sent the interruption in place of what it awaited.

`Loop.work w` is the sum of a weight `w` over every frame of every task. Landing a
segment replaces the weight of the frame that ran by that of the frames it leaves
(`work_land`), whatever the other tasks are doing. `Loop.Stacked` says that every frame
stands on one that awaits it, which landing keeps if segments do (`Stacked.land`).
-/

open Finset

namespace Nigrains

/-- What a frame is given when it runs on : nothing, or the outcome it awaited. -/
inductive Resume (ω : Type*)
  | send
  | got (o : ω)
deriving DecidableEq

/-- What a segment ends with. -/
inductive Next (φ ω : Type*)
  /-- The frame awaits a coroutine, which runs next. -/
  | await (self callee : φ)
  /-- The frame runs on as another one : a jump, or a coroutine returned in its place. -/
  | goto (frame : φ)
  /-- The task is suspended. -/
  | park (self : φ)
  /-- The frame has returned or raised. -/
  | done (o : ω)

/-- A task, with the context its frames share. -/
structure Task (φ ω κ : Type*) where
  /-- The frames, the innermost first. A task with none has ended. -/
  stack : List φ
  /-- The values of its context variables. -/
  context : κ
  /-- Cancellation requests that have not been withdrawn. -/
  cancelling : ℕ
  /-- Whether the next resumption is an interruption. -/
  mustCancel : Bool
  /-- What the outermost frame returned. -/
  result : Option ω

/-- The tasks, and the one that is running. -/
structure Loop (φ ω κ : Type*) where
  tasks : ℕ → Task φ ω κ
  /-- How many tasks there have been : the next task's number. -/
  spawned : ℕ
  running : Option (ℕ × Resume ω)

variable {φ ω κ M : Type*}

namespace Loop

/-- Replace one task's record. -/
def setTask (L : Loop φ ω κ) (t : ℕ) (x : Task φ ω κ) : Loop φ ω κ :=
  { L with tasks := Function.update L.tasks t x }

/-- `create_task` : a new task about to start `f`, with a copy of a context. -/
def spawn (L : Loop φ ω κ) (f : φ) (c : κ) : Loop φ ω κ :=
  { L with
    tasks := Function.update L.tasks L.spawned ⟨[f], c, 0, false, none⟩
    spawned := L.spawned + 1 }

/-- `task.cancel()`. A task that has ended takes no notice. -/
def cancel (L : Loop φ ω κ) (t : ℕ) : Loop φ ω κ :=
  if (L.tasks t).stack.isEmpty then L
  else L.setTask t
    { L.tasks t with cancelling := (L.tasks t).cancelling + 1, mustCancel := true }

/-- Task `t` has a new stack, and `r` is what runs. -/
def setStack (L : Loop φ ω κ) (t : ℕ) (stack : List φ) (r : Option (ℕ × Resume ω)) :
    Loop φ ω κ :=
  { L.setTask t { L.tasks t with stack := stack } with running := r }

/-- Task `t`, whose innermost frame stood above `rest`, ends a segment. -/
def land (L : Loop φ ω κ) (t : ℕ) (rest : List φ) : Next φ ω → Loop φ ω κ
  | .await self callee => L.setStack t (callee :: self :: rest) (some (t, .send))
  | .goto frame => L.setStack t (frame :: rest) (some (t, .send))
  | .park self => L.setStack t (self :: rest) none
  | .done o =>
    match rest with
    | [] => { L.setTask t { L.tasks t with stack := [], result := some o } with running := none }
    | _ :: _ => L.setStack t rest (some (t, .got o))

end Loop

@[simp] theorem Loop.stack_cancel (L : Loop φ ω κ) (t u : ℕ) :
    ((L.cancel t).tasks u).stack = (L.tasks u).stack := by
  unfold cancel
  split_ifs
  · rfl
  · by_cases h : u = t
    · subst h
      simp [setTask]
    · simp [setTask, Function.update_of_ne h]

@[simp] theorem Loop.context_cancel (L : Loop φ ω κ) (t u : ℕ) :
    ((L.cancel t).tasks u).context = (L.tasks u).context := by
  unfold cancel
  split_ifs
  · rfl
  · by_cases h : u = t
    · subst h
      simp [setTask]
    · simp [setTask, Function.update_of_ne h]

@[simp] theorem Loop.result_cancel (L : Loop φ ω κ) (t u : ℕ) :
    ((L.cancel t).tasks u).result = (L.tasks u).result := by
  unfold cancel
  split_ifs
  · rfl
  · by_cases h : u = t
    · subst h
      simp [setTask]
    · simp [setTask, Function.update_of_ne h]

/-- A new task changes no other. -/
theorem Loop.context_spawn (L : Loop φ ω κ) (f : φ) (c : κ) {u : ℕ} (hu : u < L.spawned) :
    ((L.spawn f c).tasks u).context = (L.tasks u).context := by
  simp [spawn, Function.update_of_ne hu.ne]

/-- A request stays when there is another. -/
theorem Loop.mustCancel_cancel {L : Loop φ ω κ} {u : ℕ} (t : ℕ)
    (h : (L.tasks u).mustCancel = true) : ((L.cancel t).tasks u).mustCancel = true := by
  unfold cancel
  split_ifs
  · exact h
  · by_cases hu : u = t
    · subst hu
      simp [setTask]
    · simpa [setTask, Function.update_of_ne hu] using h

theorem Loop.mustCancel_spawn (L : Loop φ ω κ) (f : φ) (c : κ) {u : ℕ} (hu : u < L.spawned) :
    ((L.spawn f c).tasks u).mustCancel = (L.tasks u).mustCancel := by
  simp [spawn, Function.update_of_ne hu.ne]

@[simp] theorem Loop.mustCancel_land (L : Loop φ ω κ) (t u : ℕ) (rest : List φ) (n : Next φ ω) :
    ((L.land t rest n).tasks u).mustCancel = (L.tasks u).mustCancel := by
  by_cases h : u = t
  · subst h
    cases n with
    | done o => cases rest <;> simp [land, setStack, setTask]
    | _ => simp [land, setStack, setTask]
  · cases n with
    | done o => cases rest <;> simp [land, setStack, setTask, Function.update_of_ne h]
    | _ => simp [land, setStack, setTask, Function.update_of_ne h]

/-- Landing changes no context. -/
@[simp] theorem Loop.context_land (L : Loop φ ω κ) (t u : ℕ) (rest : List φ) (n : Next φ ω) :
    ((L.land t rest n).tasks u).context = (L.tasks u).context := by
  by_cases h : u = t
  · subst h
    cases n with
    | done o => cases rest <;> simp [land, setStack, setTask]
    | _ => simp [land, setStack, setTask]
  · cases n with
    | done o => cases rest <;> simp [land, setStack, setTask, Function.update_of_ne h]
    | _ => simp [land, setStack, setTask, Function.update_of_ne h]

@[simp] theorem Loop.spawned_cancel (L : Loop φ ω κ) (t : ℕ) :
    (L.cancel t).spawned = L.spawned := by
  unfold cancel
  split_ifs <;> rfl

@[simp] theorem Loop.running_cancel (L : Loop φ ω κ) (t : ℕ) :
    (L.cancel t).running = L.running := by
  unfold cancel
  split_ifs <;> rfl

/-- Landing leaves the other tasks alone. -/
theorem Loop.stack_land (L : Loop φ ω κ) {t u : ℕ} (hu : u ≠ t) (rest : List φ)
    (n : Next φ ω) : ((L.land t rest n).tasks u).stack = (L.tasks u).stack := by
  cases n with
  | await self callee | goto frame | park self =>
    simp [land, setStack, setTask, Function.update_of_ne hu]
  | done o => cases rest <;> simp [land, setStack, setTask, Function.update_of_ne hu]

/-- Landing leaves the results of the other tasks alone. -/
theorem Loop.result_land (L : Loop φ ω κ) {t u : ℕ} (hu : u ≠ t) (rest : List φ)
    (n : Next φ ω) : ((L.land t rest n).tasks u).result = (L.tasks u).result := by
  cases n with
  | await self callee | goto frame | park self =>
    simp [land, setStack, setTask, Function.update_of_ne hu]
  | done o => cases rest <;> simp [land, setStack, setTask, Function.update_of_ne hu]

@[simp] theorem Loop.spawned_land (L : Loop φ ω κ) (t : ℕ) (rest : List φ) (n : Next φ ω) :
    (L.land t rest n).spawned = L.spawned := by
  cases n with
  | done o => cases rest <;> rfl
  | _ => rfl

/-- The frames a segment leaves in place of its own, the innermost first. -/
def Next.frames : Next φ ω → List φ
  | .await self callee => [callee, self]
  | .goto frame => [frame]
  | .park self => [self]
  | .done _ => []

@[simp] theorem Loop.stack_land_self (L : Loop φ ω κ) (t : ℕ) (rest : List φ) (n : Next φ ω) :
    ((L.land t rest n).tasks t).stack = n.frames ++ rest := by
  cases n with
  | done o => cases rest <;> simp [land, setStack, setTask, Next.frames]
  | _ => simp [land, setStack, setTask, Next.frames]

/-! ## The work in the stacks -/

section Work

variable [AddCancelCommMonoid M] (w : φ → M)

/-- The sum of `w` over the frames a segment leaves. -/
def Next.work : Next φ ω → M
  | .await self callee => w callee + w self
  | .goto frame => w frame
  | .park self => w self
  | .done _ => 0

/-- The sum of `w` over the frames of every task. -/
def Loop.work (L : Loop φ ω κ) : M :=
  ∑ t ∈ range L.spawned, ((L.tasks t).stack.map w).sum

variable {w} {L : Loop φ ω κ} {t : ℕ}

theorem Loop.work_setTask (ht : t < L.spawned) (x : Task φ ω κ) :
    (L.setTask t x).work w + ((L.tasks t).stack.map w).sum =
      L.work w + (x.stack.map w).sum := by
  have hmem : t ∈ range L.spawned := mem_range.2 ht
  have hx := add_sum_erase _ (fun u => ((Function.update L.tasks t x u).stack.map w).sum) hmem
  have hL := add_sum_erase _ (fun u => ((L.tasks u).stack.map w).sum) hmem
  have hrest : ∑ u ∈ (range L.spawned).erase t,
      ((Function.update L.tasks t x u).stack.map w).sum =
      ∑ u ∈ (range L.spawned).erase t, ((L.tasks u).stack.map w).sum :=
    sum_congr rfl fun u hu => by rw [Function.update_of_ne (ne_of_mem_erase hu)]
  simp only [Function.update_self] at hx hL
  show ∑ u ∈ range L.spawned, ((Function.update L.tasks t x u).stack.map w).sum + _ =
    ∑ u ∈ range L.spawned, ((L.tasks u).stack.map w).sum + _
  rw [← hx, ← hL, hrest]
  abel

/-- Landing a segment replaces the frame that ran by the frames it leaves, beside the
work `R` of everything else. -/
theorem Loop.exists_work {f : φ} {rest : List φ} (ht : t < L.spawned)
    (hs : (L.tasks t).stack = f :: rest) :
    ∃ R : M, L.work w = w f + R ∧ ∀ n : Next φ ω, (L.land t rest n).work w = n.work w + R := by
  have hset : ∀ x : Task φ ω κ, (L.setTask t x).work w + (w f + (rest.map w).sum) =
      L.work w + (x.stack.map w).sum := fun x => by
    have h := work_setTask (w := w) ht x
    rwa [hs, List.map_cons, List.sum_cons] at h
  refine ⟨(L.setTask t { L.tasks t with stack := rest }).work w, ?_, fun n => ?_⟩
  · have h := hset { L.tasks t with stack := rest }
    rw [← add_assoc, add_right_cancel_iff] at h
    rw [← h, add_comm]
  · have hrest := hset { L.tasks t with stack := rest }
    have key : ∀ (x : Task φ ω κ) (m : M), (x.stack.map w).sum = m + (rest.map w).sum →
        (L.setTask t x).work w = m + (L.setTask t { L.tasks t with stack := rest }).work w := by
      intro x m hx
      have h := hset x
      rw [hx] at h
      refine add_right_cancel (h.trans ?_)
      rw [add_assoc m, hrest]
      abel
    cases n with
    | await self callee => exact key _ _ (by simp [Next.work, add_assoc])
    | goto frame => exact key _ _ (by simp [Next.work])
    | park self => exact key _ _ (by simp [Next.work])
    | done o =>
      cases rest with
      | nil => exact key _ _ (by simp [Next.work])
      | cons f' rest => exact key _ _ (by simp [Next.work])

/-- A frame may change to one of the same weight. -/
theorem Loop.work_set {f : φ} (f' : φ) {i : ℕ} (ht : t < L.spawned)
    (hs : (L.tasks t).stack[i]? = some f) (hw : w f = w f') (x : Task φ ω κ)
    (hx : x.stack = (L.tasks t).stack.set i f') : (L.setTask t x).work w = L.work w := by
  have hmap : x.stack.map w = (L.tasks t).stack.map w := by
    rw [hx, List.map_set, ← hw]
    refine List.ext_getElem? fun j => ?_
    rw [List.getElem?_set]
    split_ifs with hj hlt
    · subst hj
      simp [hs]
    · subst hj
      simp at hlt
      simp [hlt]
    · rfl
  have h := work_setTask (w := w) ht x
  rw [hmap] at h
  exact add_right_cancel h

/-- What the weights of a loop have, the weight of some frame has. -/
theorem Loop.mem_work {α : Type*} {w : φ → Multiset α} {x : α} :
    x ∈ L.work w ↔ ∃ t < L.spawned, ∃ f ∈ (L.tasks t).stack, x ∈ w f := by
  have hsum : ∀ l : List φ, x ∈ (l.map w).sum ↔ ∃ f ∈ l, x ∈ w f := by
    intro l
    induction l with
    | nil => simp
    | cons f l ih => simp [ih]
  simp [work, Multiset.mem_sum, hsum]

/-- The work of one task is part of the whole. -/
theorem Loop.stack_le_work {w : φ → ℕ} (ht : t < L.spawned) :
    ((L.tasks t).stack.map w).sum ≤ L.work w :=
  single_le_sum (f := fun u => ((L.tasks u).stack.map w).sum) (fun _ _ => Nat.zero_le _)
    (mem_range.2 ht)

theorem Loop.le_work {w : φ → ℕ} {f : φ} (ht : t < L.spawned) (hf : f ∈ (L.tasks t).stack) :
    w f ≤ L.work w :=
  (List.le_sum_of_mem (List.mem_map_of_mem hf)).trans (stack_le_work ht)

/-- A stack of weight one has one frame of weight one. -/
theorem index_unique {w : φ → ℕ} : ∀ {l : List φ} {i j : ℕ} {f f' : φ}, (l.map w).sum ≤ 1 →
    l[i]? = some f → l[j]? = some f' → w f = 1 → w f' = 1 → i = j
  | [], _, _, _, _, _, hi, _, _, _ => by cases hi
  | g :: l, 0, 0, _, _, _, _, _, _, _ => rfl
  | g :: l, 0, j + 1, f, f', hl, hi, hj, hf, hf' => by
    obtain rfl : g = f := by simpa using hi
    have hmem : w f' ≤ (l.map w).sum :=
      List.le_sum_of_mem (List.mem_map_of_mem (List.mem_of_getElem? hj))
    rw [List.map_cons, List.sum_cons] at hl
    omega
  | g :: l, i + 1, 0, f, f', hl, hi, hj, hf, hf' => by
    obtain rfl : g = f' := by simpa using hj
    have hmem : w f ≤ (l.map w).sum :=
      List.le_sum_of_mem (List.mem_map_of_mem (List.mem_of_getElem? hi))
    rw [List.map_cons, List.sum_cons] at hl
    omega
  | g :: l, i + 1, j + 1, _, _, hl, hi, hj, hf, hf' => by
    rw [List.map_cons, List.sum_cons] at hl
    rw [index_unique (l := l) (by omega) hi hj hf hf']

/-- In a loop of weight one, one frame of one task weighs one. -/
theorem Loop.place_unique {w : φ → ℕ} (h : L.work w ≤ 1) {u i j : ℕ} {f f' : φ}
    (ht : t < L.spawned) (hu : u < L.spawned) (hi : (L.tasks t).stack[i]? = some f)
    (hj : (L.tasks u).stack[j]? = some f') (hf : w f = 1) (hf' : w f' = 1) : t = u ∧ i = j := by
  have hle : ∀ {v k : ℕ} {g : φ}, (L.tasks v).stack[k]? = some g → w g = 1 →
      1 ≤ ((L.tasks v).stack.map w).sum := fun hk hg =>
    hg ▸ List.le_sum_of_mem (List.mem_map_of_mem (List.mem_of_getElem? hk))
  obtain rfl : t = u := by
    by_contra hne
    have hsum := add_le_sum (f := fun v => ((L.tasks v).stack.map w).sum)
      (fun _ _ => Nat.zero_le _) (mem_range.2 ht) (mem_range.2 hu) hne
    have ht1 := hle hi hf
    have hu1 := hle hj hf'
    unfold Loop.work at h
    omega
  exact ⟨rfl, index_unique ((stack_le_work ht).trans h) hi hj hf hf'⟩

end Work

/-! ## What stands on what -/

section Stacked

/-- Every frame stands on one that awaits it, or at the bottom of its task. -/
def Stacked (below : Option φ → φ → Bool) : List φ → Prop
  | [] => True
  | f :: rest => below rest.head? f = true ∧ Stacked below rest

/-- Whatever awaits `f` awaits `f'`. -/
def Follows (below : Option φ → φ → Bool) (f f' : φ) : Prop :=
  ∀ p, below p f = true → below p f' = true

/-- A segment of `f` leaves frames that may stand where `f` stood. -/
def Next.Fits (below : Option φ → φ → Bool) (f : φ) : Next φ ω → Prop
  | .await self callee => Follows below f self ∧ below (some self) callee = true
  | .goto frame => Follows below f frame
  | .park self => Follows below f self
  | .done _ => True

variable {below : Option φ → φ → Bool} {L : Loop φ ω κ} {t : ℕ}

/-- A frame may change to one that the frames above and below do not tell apart. -/
theorem Stacked.set {f f' : φ} (hp : ∀ p, below p f = below p f')
    (hc : ∀ c, below (some f) c = below (some f') c) :
    ∀ {l : List φ} {i : ℕ}, l[i]? = some f → Stacked below l → Stacked below (l.set i f')
  | [], _, h, _ => by simp at h
  | g :: rest, 0, h, hs => by
    obtain rfl : g = f := by simpa using h
    exact ⟨(hp _).symm.trans hs.1, hs.2⟩
  | g :: rest, i + 1, h, hs => by
    have h' : rest[i]? = some f := by simpa using h
    refine ⟨?_, set hp hc h' hs.2⟩
    have hb := hs.1
    cases rest with
    | nil => exact hb
    | cons g' rest =>
      cases i with
      | zero =>
        obtain rfl : g' = f := by simpa using h'
        exact (hc g).symm.trans hb
      | succ i => exact hb

theorem Stacked.land {f : φ} {rest : List φ} (hs : (L.tasks t).stack = f :: rest)
    (h : ∀ u, Stacked below (L.tasks u).stack) {n : Next φ ω} (hn : n.Fits below f) (u : ℕ) :
    Stacked below ((L.land t rest n).tasks u).stack := by
  have ht := h t
  rw [hs] at ht
  obtain ⟨hf, hrest⟩ := ht
  by_cases hu : u = t
  · subst hu
    cases n with
    | await self callee => simpa [Loop.land, Loop.setStack, Loop.setTask, Stacked] using
        ⟨hn.2, hn.1 _ hf, hrest⟩
    | goto frame => simpa [Loop.land, Loop.setStack, Loop.setTask, Stacked] using
        ⟨hn _ hf, hrest⟩
    | park self => simpa [Loop.land, Loop.setStack, Loop.setTask, Stacked] using
        ⟨hn _ hf, hrest⟩
    | done o =>
      cases rest with
      | nil => simp [Loop.land, Loop.setTask, Stacked]
      | cons f' rest => simpa [Loop.land, Loop.setStack, Loop.setTask] using hrest
  · rw [Loop.stack_land L hu]
    exact h u

end Stacked

/-! ## What a segment does to the other tasks -/

/-- The stacks and the results are kept, and every new task is about to start a frame in
`fresh`. -/
structure Loop.Keeps (fresh : φ → Prop) (L L' : Loop φ ω κ) : Prop where
  spawned_le : L.spawned ≤ L'.spawned
  running_eq : L'.running = L.running
  result_eq : ∀ u < L.spawned, (L'.tasks u).result = (L.tasks u).result
  stack_eq : ∀ u, u < L.spawned ∨ L'.spawned ≤ u → (L'.tasks u).stack = (L.tasks u).stack
  stack_new : ∀ u, L.spawned ≤ u → u < L'.spawned → ∃ f, fresh f ∧ (L'.tasks u).stack = [f]

namespace Loop.Keeps

variable {fresh : φ → Prop} {L L' L'' : Loop φ ω κ}

theorem refl (L : Loop φ ω κ) : Keeps fresh L L :=
  ⟨le_rfl, rfl, fun _ _ => rfl, fun _ _ => rfl, fun _ h h' => absurd h' h.not_gt⟩

theorem mono {fresh' : φ → Prop} (hf : ∀ f, fresh f → fresh' f) (h : Keeps fresh L L') :
    Keeps fresh' L L' :=
  ⟨h.spawned_le, h.running_eq, h.result_eq, h.stack_eq, fun u hu hu' =>
    (h.stack_new u hu hu').imp fun _ hs => ⟨hf _ hs.1, hs.2⟩⟩

theorem trans (h : Keeps fresh L L') (h' : Keeps fresh L' L'') : Keeps fresh L L'' where
  spawned_le := h.spawned_le.trans h'.spawned_le
  running_eq := h'.running_eq.trans h.running_eq
  result_eq u hu := (h'.result_eq u (hu.trans_le h.spawned_le)).trans (h.result_eq u hu)
  stack_eq u hu := by
    have h1 : u < L'.spawned ∨ L''.spawned ≤ u := hu.imp_left fun hu => hu.trans_le h.spawned_le
    have h2 : u < L.spawned ∨ L'.spawned ≤ u := hu.imp_right fun hu => h'.spawned_le.trans hu
    exact (h'.stack_eq u h1).trans (h.stack_eq u h2)
  stack_new u hu hu' := by
    rcases Nat.lt_or_ge u L'.spawned with hlt | hge
    · obtain ⟨f, hf, hs⟩ := h.stack_new u hu hlt
      exact ⟨f, hf, (h'.stack_eq u (.inl hlt)).trans hs⟩
    · exact h'.stack_new u hge hu'

theorem spawn {f : φ} (hf : fresh f) (c : κ) : Keeps fresh L (L.spawn f c) where
  spawned_le := Nat.le_succ _
  running_eq := rfl
  result_eq u hu := by simp [Loop.spawn, Function.update_of_ne hu.ne]
  stack_eq u hu := by
    have hne : u ≠ L.spawned := hu.elim (fun hu => hu.ne) fun hu => (Nat.lt_of_succ_le hu).ne'
    simp [Loop.spawn, Function.update_of_ne hne]
  stack_new u hu hu' := by
    obtain rfl : u = L.spawned := Nat.le_antisymm (Nat.lt_succ_iff.1 hu') hu
    exact ⟨f, hf, by simp [Loop.spawn]⟩

theorem setTask {t : ℕ} {x : Task φ ω κ} (hx : x.stack = (L.tasks t).stack)
    (hr : x.result = (L.tasks t).result) : Keeps fresh L (L.setTask t x) where
  spawned_le := le_rfl
  running_eq := rfl
  result_eq u _ := by
    by_cases h : u = t
    · subst h
      simpa [Loop.setTask] using hr
    · simp [Loop.setTask, Function.update_of_ne h]
  stack_eq u _ := by
    by_cases h : u = t
    · subst h
      simpa [Loop.setTask] using hx
    · simp [Loop.setTask, Function.update_of_ne h]
  stack_new _ h h' := absurd h' h.not_gt

theorem cancel (t : ℕ) : Keeps fresh L (L.cancel t) :=
  ⟨(spawned_cancel L t).ge, running_cancel L t, fun u _ => result_cancel L t u,
    fun u _ => stack_cancel L t u,
    fun _ h h' => absurd (h'.trans_eq (spawned_cancel L t)) h.not_gt⟩

/-- A stack is as it was, or a new task's. -/
theorem stack_cases (h : Keeps fresh L L') (u : ℕ) : (L'.tasks u).stack = (L.tasks u).stack ∨
    ∃ f, fresh f ∧ L.spawned ≤ u ∧ u < L'.spawned ∧ (L'.tasks u).stack = [f] := by
  by_cases hu : u < L.spawned ∨ L'.spawned ≤ u
  · exact .inl (h.stack_eq u hu)
  · obtain ⟨hle, hlt⟩ : L.spawned ≤ u ∧ u < L'.spawned := by
      rwa [not_or, not_lt, not_le] at hu
    obtain ⟨f, hf, hs⟩ := h.stack_new u hle hlt
    exact .inr ⟨f, hf, hle, hlt, hs⟩

/-- What no fresh frame carries is kept. -/
theorem work_eq [AddCancelCommMonoid M] {w : φ → M} (h : Keeps fresh L L')
    (hw : ∀ f, fresh f → w f = 0) : L'.work w = L.work w := by
  unfold work
  rw [← Finset.sum_range_add_sum_Ico _ h.spawned_le, Finset.sum_congr rfl fun u hu => by
    rw [h.stack_eq u (.inl (mem_range.1 hu))], Finset.sum_eq_zero (s := Ico _ _), add_zero]
  intro u hu
  obtain ⟨hle, hlt⟩ := mem_Ico.1 hu
  obtain ⟨f, hf, hs⟩ := h.stack_new u hle hlt
  simp [hs, hw f hf]

end Loop.Keeps

end Nigrains
