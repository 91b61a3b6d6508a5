import Nigrains.Caching
import Nigrains.Overshoot

/-!
# Which activation goes first

Calls may overlap, activations may fail, and sweeps and shutdowns may take activations out : the
table of a bounded runtime lists its identities by how long ago they were used (`Aged`). An
identity is used when an activation enters the table under it where none stood, and whenever a
call of an activation that was built for it ends, also of one that has been replaced since
(`State.freshens`). So what `_make_room` takes out is idle, and its identity has gone without a
use for longer than any other under which an idle activation stands (`evicts_oldest`). Each
activation that it has taken out has been deactivated before it is counted as evicted
(`evictions_deactivated`).
-/

namespace Nigrains

open Lru

/-- The identity that an event uses, and puts at the recent end of the table. An activation that
replaces another one takes its place there. -/
def State.freshens (s : State) : Event → Option GrainId
  | .published g _ none => some g
  | .answered _ a _ _ => some (s.identity a)
  | _ => none

/-- The identities that have been used, the latest first. -/
def State.uses (s : State) : List GrainId :=
  s.trace.filterMap s.freshens

/-- The table is in the order of the last uses. -/
structure Aged (s : State) : Prop where
  onBuilt : OnBuilt s
  keys : Ordered s.uses s.activations.keys

section

variable {cfg : Config} {s s' : State} {t : TaskId} {n : Next Frame Outcome} {c : Choice}
  {f : Frame} {r : Resume Outcome} {g : GrainId} {a : ActId}

theorem aged_init (isMine : Option (GrainId → Bool)) : Aged (.init isMine) where
  onBuilt a ha := by cases ha
  keys := List.Pairwise.nil

/-- Nothing moves that is not in the table. -/
theorem moveToEnd_of_notMem {d : OrderedDict GrainId ActId} (h : g ∉ d) : d.moveToEnd g = d := by
  unfold OrderedDict.moveToEnd
  rw [AList.lookup_eq_none.2 h]

/-- What has been used stays what was used. -/
theorem freshens_eq {l : Label} (hA : OnBuilt s) (h : step cfg s l = some s') :
    s.trace.filterMap s'.freshens = s.uses := by
  refine List.filterMap_congr fun e he => ?_
  unfold State.freshens
  split
  · rfl
  · next c a inside o =>
    have ha : a ∈ s.answered := List.mem_filterMap.2 ⟨_, he, rfl⟩
    rw [step_identity h (hA a ha)]
  · rfl

theorem uses_of_log {l : Label} {e : Event} (hA : OnBuilt s) (h : step cfg s l = some s')
    (he : s'.trace = e :: s.trace) : s'.uses = (s'.freshens e).toList ++ s.uses := by
  unfold State.uses
  rw [he, List.filterMap_cons, freshens_eq hA h]
  cases s'.freshens e <;> rfl

theorem Aged.step {l : Label} (hA : Aged s) (hI : Reached s)
    (hbound : cfg.maxActivations.isSome = true) (h : Nigrains.step cfg s l = some s') :
    Aged s' where
  onBuilt := hA.onBuilt.step hI h
  keys := by
    have hkeys := hA.keys
    rcases hI.step_view h with hv | ⟨e, hv⟩
    · have htrace : s'.trace = s.trace := congrArg Protocol.trace hv
      have huses : s'.uses = s.uses := by
        rw [← freshens_eq hA.onBuilt h, ← htrace]
        rfl
      rw [huses, (same_of_view h hv).activations]
      exact hkeys
    · obtain ⟨htable, -⟩ := (step_reordered h).of_log hv.trace
      rw [uses_of_log hA.onBuilt h hv.trace, htable]
      cases e with
      | published g a old =>
        have hold : old = s.activations.get g := by
          generalize s'.view = P' at hv
          cases hv
          rfl
        by_cases hg : g ∈ s.activations
        · -- a key that is there keeps its place
          obtain ⟨b, hb⟩ := OrderedDict.mem_iff_exists_get.1 hg
          rw [hold, hb]
          show Ordered s.uses (s.activations.set g a).keys
          unfold OrderedDict.set
          rw [if_pos hg, AList.keys_replace]
          exact hkeys
        · have hnone : s.activations.get g = none := AList.lookup_eq_none.2 hg
          rw [hold, hnone]
          show Ordered (g :: s.uses) (s.activations.set g a).keys
          rw [OrderedDict.keys_set hg]
          exact hkeys.use hg
      | answered i a inside o =>
        have hid : s'.identity a = s.identity a :=
          step_identity h (hI.sound.about_lt (.use a) (hv.use_of_answers rfl) a rfl)
        show Ordered (s'.identity a :: s.uses) (if cfg.maxActivations.isSome then
          s.activations.moveToEnd (s.identity a) else s.activations).keys
        rw [hid, if_pos hbound]
        by_cases hg : s.identity a ∈ s.activations
        · rw [OrderedDict.keys_moveToEnd hg]
          exact (hkeys.erase _).use (AList.keys_nodup s.activations).not_mem_erase
        · rw [moveToEnd_of_notMem hg]
          exact hkeys.use_other hg
      | failed g a e popped | taken who g a =>
        show Ordered s.uses (s.activations.pop g).keys
        rw [OrderedDict.keys_pop]
        exact hkeys.erase g
      | _ => exact hkeys

theorem keys_eq_items (s : State) :
    s.activations.keys = (s.activations.items.map Prod.fst).reverse := by
  rw [show s.activations.items.map Prod.fst = s.activations.keyList from rfl,
    OrderedDict.keyList_eq, List.reverse_reverse]

/-- The identity of whatever is idle and stands in the table after the first that is has been used
since. -/
theorem Aged.lt_of_find (hA : Aged s) {g' : GrainId} {a' : ActId}
    (hfind : s.activations.items.find? (fun e => s.idle e.2) = some (g, a))
    (hget : s.activations.get g' = some a') (hidle : s.idle a' = true) (hne : g' ≠ g) :
    s.uses.idxOf g' < s.uses.idxOf g := by
  obtain ⟨-, before, rest, hitems, hbusy⟩ := List.find?_eq_some_iff_append.1 hfind
  have hmem : (g', a') ∈ rest := by
    have hmem : (g', a') ∈ s.activations.items := OrderedDict.mem_items.2 hget
    rw [hitems, List.mem_append, List.mem_cons] at hmem
    rcases hmem with hb | he | hrest
    · have hidle' := hbusy _ hb
      simp [hidle] at hidle'
    · exact absurd (congrArg Prod.fst he) hne
    · exact hrest
  have hkeys := hA.keys
  rw [keys_eq_items, hitems] at hkeys
  have hpair := (List.pairwise_reverse.1 hkeys)
  rw [List.map_append, List.pairwise_append, List.map_cons, List.pairwise_cons] at hpair
  exact hpair.2.1.1 g' (List.mem_map.2 ⟨_, hmem, rfl⟩)

/-- What a bounded runtime evicts is in the table and idle, and every other identity under which an
idle activation stands has been used since. -/
theorem evicts_oldest {ok : State → State → Prop} {isMine : Option (GrainId → Bool)} {l : Label}
    (hbound : cfg.maxActivations.isSome = true) (h : Run (step cfg) ok (.init isMine) s)
    (hl : step cfg s l = some s') (he : s'.trace = .taken .makeRoom g a :: s.trace) :
    s.activations.get g = some a ∧ s.idle a = true ∧
      ∀ g' a', s.activations.get g' = some a' → s.idle a' = true → g' ≠ g →
        s.uses.idxOf g' < s.uses.idxOf g := by
  have hI := h.invariant (I := fun s => Reached s ∧ Evicting s ∧ Aged s)
    ⟨reached_init _, evicting_init _, aged_init _⟩ fun s l s' ⟨hI, hE, hA⟩ hl _ =>
      ⟨hI.step hl, hE.step hI.nested hl, hA.step hI hbound hl⟩
  obtain ⟨t, r, f, rest, c, s1, n, hr, hs, hx, rfl, hlogs⟩ := step_logs hl he
  cases hlogs
  obtain ⟨b, hfind⟩ := hI.2.1 t _ g rest hr hs
  have hget := get_of_find hfind
  obtain rfl : b = a := by
    simp only [exec, deactivate, hget] at hx
    cases hx
    have htrace : (List.foldl State.cancel (s.take .makeRoom g b) (s.heap b).timers).trace =
        .taken .makeRoom g b :: s.trace := trace_cancel_all _ _
    rw [htrace] at he
    cases he
    rfl
  exact ⟨hget, by simpa using List.find?_some hfind, fun g' a' hget' hidle hne =>
    hI.2.2.lt_of_find hfind hget' hidle hne⟩

/-! ## What has been evicted has been deactivated -/

/-- What is evicted is deactivated first. -/
structure Evicted (s : State) : Prop where
  le : s.evictions ≤ s.deactivations
  /-- An eviction that is about to be counted is one more. -/
  lt : ∀ t v rest, s.running = some (t, .got (.ok v)) →
    (s.tasks t).stack = .makeRoom .evicting :: rest → s.evictions < s.deactivations

/-- Only `_make_room` counts evictions, after a removal that has not raised, and nothing that has
been deactivated is forgotten. -/
theorem exec_counted (h : exec cfg s t c f r = some (s', n)) :
    s.deactivations ≤ s'.deactivations ∧
      (s'.evictions = s.evictions ∨
        f = .makeRoom .evicting ∧ (∃ v, r = .got (.ok v)) ∧ s'.evictions = s.evictions + 1) := by
  cases exec_effect h
  case evicts v => exact ⟨le_rfl, .inr ⟨rfl, ⟨v, rfl⟩, rfl⟩⟩
  case counts | countsRaised =>
    exact ⟨(Int.lt_succ _).le, .inl rfl⟩
  case takes who g a hentry =>
    obtain ⟨L, hL⟩ := cancel_all_eq (s.heap a).timers (s.take who g a)
    rw [hL]
    exact ⟨le_rfl, .inl rfl⟩
  case activates g a v =>
    obtain ⟨L, timers, hL⟩ := startTimers_eq (t := t) a s
    unfold State.activate
    rw [hL]
    exact ⟨le_rfl, .inl rfl⟩
  case begins =>
    obtain ⟨L, sweeper, scanner, hL⟩ := startBackground_eq cfg s t
    rw [hL]
    exact ⟨le_rfl, .inl rfl⟩
  all_goals exact ⟨le_rfl, .inl rfl⟩

theorem step_deactivations {l : Label} (h : step cfg s l = some s') :
    s.deactivations ≤ s'.deactivations := by
  by_cases hrun : ∃ c, l = .run c
  · obtain ⟨c, rfl⟩ := hrun
    obtain ⟨t, r, f, rest, s1, n, -, -, hx, rfl⟩ := run_cases h
    exact (exec_counted hx).1
  · obtain ⟨L, now, isMine, rfl⟩ := step_outside (not_exists.1 hrun) h
    exact le_rfl

/-- A removal that finds something and does not raise is counted. -/
theorem deactivate_counted {v : Ret} {pc : DeactivateAt}
    (hfound : pc = .start → s.activations.get g ≠ none)
    (h : deactivate s .makeRoom g pc r = some (s', .done (.ok v))) :
    s'.deactivations = s.deactivations + 1 := by
  unfold deactivate at h
  split at h
  case h_1 =>
    split at h
    · next hnone => exact absurd hnone (hfound rfl)
    · cases h
  case h_6 =>
    cases h
    rfl
  case h_7 =>
    split_ifs at h
    · cases h
      rfl
    · cases h
  all_goals
    repeat' split at h
    all_goals cases h

theorem Evicted.step {l : Label} (hC : Evicted s) (hI : Reached s) (hE : Evicting s)
    (h : Nigrains.step cfg s l = some s') : Evicted s' where
  le := by
    by_cases hrun : ∃ c, l = .run c
    · obtain ⟨c, rfl⟩ := hrun
      obtain ⟨t, r, f, rest, s1, n, hr, hs, hx, rfl⟩ := run_cases h
      obtain ⟨hdeactivations, hevictions⟩ := exec_counted hx
      show s1.evictions ≤ s1.deactivations
      rcases hevictions with heq | ⟨rfl, ⟨v, rfl⟩, heq⟩
      · exact heq.trans_le (hC.le.trans hdeactivations)
      · have hlt := hC.lt t v rest hr hs
        omega
    · obtain ⟨L, now, isMine, rfl⟩ := step_outside (not_exists.1 hrun) h
      exact hC.le
  lt t v rest hr' hs' := by
    rcases given_cases hI.nested h hr' hs' with ⟨r, f, c, s1, hr, hs, hb, hx, rfl⟩ |
      ⟨-, hcancelled⟩ | ⟨hw, -, hr, hs⟩
    · obtain ⟨hdeactivations, hevictions⟩ := exec_counted hx
      have hawaits := awaits_of_below hb
      cases hawaits
      next g pc =>
      have hcounted := deactivate_counted (fun hpc => by
        subst hpc
        obtain ⟨a, hfind⟩ := hE t r g _ hr hs
        rw [get_of_find hfind]
        exact Option.some_ne_none a) hx
      show s1.evictions < s1.deactivations
      rcases hevictions with heq | ⟨heq, -⟩
      · rw [heq, hcounted]
        exact Int.lt_add_one_of_le hC.le
      · cases heq
    · cases hcancelled
    · have hlt := hC.lt t v rest hr hs
      have hdeactivations := step_deactivations h
      rcases step_reordered h with ⟨-, -, heq⟩ | ⟨e, he, -⟩
      · omega
      · exact absurd (he.symm.trans hw.trace) (List.cons_ne_self _ _)

/-- In every reachable state, what has been counted as evicted has been deactivated. -/
theorem evictions_deactivated {ok : State → State → Prop} {isMine : Option (GrainId → Bool)}
    (h : Run (step cfg) ok (.init isMine) s) : s.evictions ≤ s.deactivations := by
  have hI := h.invariant (I := fun s => Reached s ∧ Evicting s ∧ Evicted s)
    ⟨reached_init _, evicting_init _, le_rfl, fun _ _ _ hr => by cases hr⟩
    fun s l s' ⟨hI, hE, hC⟩ hl _ => ⟨hI.step hl, hE.step hI.nested hl, hC.step hI hE hl⟩
  exact hI.2.2.le

end

/-- Two activations on a runtime of two. A call of the second one begins before the last call of the
first, and ends after it. Then a third one needs room. -/
def overlapping : List Label :=
  [.arrive, .resume 0] ++ Label.invoke ⟨"counter", "a"⟩ ++ Label.serve ++
  Label.invoke ⟨"counter", "b"⟩ ++ Label.gos 2 ++ [Label.returns] ++ Label.gos 3 ++
  [.run .suspend, .arrive, .resume 1] ++ Label.invoke ⟨"counter", "a"⟩ ++ Label.gos 2 ++
  [Label.returns, .run .go, .run .suspend, .resume 0, Label.returns, .run .go] ++
  Label.invoke ⟨"counter", "c"⟩ ++ Label.gos 1

/-- The first one goes. -/
theorem evicts_oldest_overlapping : ∃ s s' : State,
    step (.small (some 2)) s (.run .go) = some s' ∧
    s'.trace = .taken .makeRoom ⟨"counter", "a"⟩ 0 :: s.trace ∧
    s.activations.get ⟨"counter", "b"⟩ = some 1 ∧ s.idle 1 = true ∧
    s.uses.idxOf ⟨"counter", "b"⟩ < s.uses.idxOf ⟨"counter", "a"⟩ := by
  obtain ⟨s, hrun, hp⟩ := exists_free_run (.small (some 2)) none overlapping
    (fun s => decide (s.activations.get ⟨"counter", "b"⟩ = some 1 ∧ s.idle 1 = true) &&
      (step (.small (some 2)) s (.run .go)).any fun s' : State =>
        decide (s'.trace = .taken .makeRoom ⟨"counter", "a"⟩ 0 :: s.trace)) (by decide +kernel)
  simp only [Bool.and_eq_true, Option.any_eq_true, decide_eq_true_eq] at hp
  obtain ⟨⟨hget, hidle⟩, s', hl, he⟩ := hp
  obtain ⟨-, -, holdest⟩ := evicts_oldest rfl hrun hl he
  exact ⟨s, s', hl, he, hget, hidle, holdest _ _ hget hidle (by decide)⟩

/-- And is counted when it has been deactivated. -/
theorem evictions_deactivated_overlapping : ∃ s : State, s.evictions = 1 ∧
    s.evictions ≤ s.deactivations := by
  obtain ⟨s, hrun, hp⟩ := exists_free_run (.small (some 2)) none
    (overlapping ++ Label.gos 2 ++ [Label.returns] ++ Label.gos 2)
    (fun s => decide (s.evictions = 1)) (by decide +kernel)
  exact ⟨s, of_decide_eq_true hp, evictions_deactivated hrun⟩

end Nigrains
