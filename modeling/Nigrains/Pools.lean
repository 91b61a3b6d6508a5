import Nigrains.Firing
import Mathlib.Algebra.Order.Floor.Div
import Mathlib.Data.Int.CardIntervalMod

/-!
# Whom a pool answers with

The calls to an identity of a kind with a pool of size `p` go to its activations in turn : the
`j`-th to the one numbered `j % p`, whatever other identities are called in between
(`Turns`). All counters are in one dictionary, which only `_route` writes. The number follows the
last `#` of the key it is put on, so no two identities share an activation, whatever characters
callers have put in their keys (`pooled_inj`).
-/

namespace Nigrains

/-! ## Names -/

theorem toList_pooled (g : GrainId) (turn : ℕ) :
    (g.pooled turn).key.toList = g.key.toList ++ '#' :: Nat.toDigits 10 turn := by
  simp [GrainId.pooled, Nat.toString_eq_repr, Nat.repr]

/-- A number has no `#` in it. -/
theorem notMem_toDigits (n : ℕ) : '#' ∉ Nat.toDigits 10 n := by
  intro h
  have hdigit := Nat.isDigit_of_mem_toDigits (by omega) (by omega) h
  exact absurd hdigit (by decide)

/-- A list splits in one way at the last of a letter. -/
theorem append_cons_inj_of_notMem_right {α : Type*} {a : α} {x y u v : List α} (hu : a ∉ u)
    (hv : a ∉ v) : x ++ a :: u = y ++ a :: v ↔ x = y ∧ u = v := by
  constructor
  · intro h
    rcases List.append_eq_append_iff.1 h with ⟨w, rfl, hw⟩ | ⟨w, rfl, hw⟩
    · cases w with
      | nil => exact ⟨(List.append_nil x).symm, List.tail_eq_of_cons_eq hw⟩
      | cons b w =>
        refine (hu ?_).elim
        rw [List.tail_eq_of_cons_eq hw]
        exact List.mem_append_right w List.mem_cons_self
    · cases w with
      | nil => exact ⟨List.append_nil y, (List.tail_eq_of_cons_eq hw).symm⟩
      | cons b w =>
        refine (hv ?_).elim
        rw [List.tail_eq_of_cons_eq hw]
        exact List.mem_append_right w List.mem_cons_self
  · rintro ⟨rfl, rfl⟩
    rfl

/-- Different identities have different pools, whose activations are different. -/
theorem pooled_inj {g g' : GrainId} {i j : ℕ} : g.pooled i = g'.pooled j ↔ g = g' ∧ i = j := by
  constructor
  · intro h
    have htype : (g.pooled i).type = (g'.pooled j).type := congrArg GrainId.type h
    have hlist := congrArg (fun g : GrainId => g.key.toList) h
    simp only [toList_pooled] at hlist
    obtain ⟨hkey, hdigits⟩ :=
      (append_cons_inj_of_notMem_right (notMem_toDigits i) (notMem_toDigits j)).1 hlist
    refine ⟨?_, ?_⟩
    · obtain ⟨type, key⟩ := g
      obtain ⟨type', key'⟩ := g'
      exact GrainId.mk.injEq .. ▸ ⟨htype, String.toList_inj.1 hkey⟩
    · rw [← Nat.ofDigitChars_ten_toDigits (n := i), hdigits, Nat.ofDigitChars_ten_toDigits]
  · rintro ⟨rfl, rfl⟩
    rfl

/-! ## What is routed -/

/-- A runtime, and what its `_route` has been given and has returned, the latest first. -/
structure Routing where
  state : State
  routed : List (GrainId × GrainId)

/-- What a step routes, and where. -/
def State.routing (cfg : Config) (s : State) : Label → Option (GrainId × GrainId)
  | .run _ =>
    match s.running with
    | some (t, .send) =>
      match (s.tasks t).stack with
      | .dispatch call :: _ => some (call.grain, route cfg s call.grain)
      | _ => none
    | _ => none
  | _ => none

/-- One step of a runtime whose routing is watched. -/
def routingStep (cfg : Config) (x : Routing) (l : Label) : Option Routing :=
  (step cfg x.state l).map fun s => ⟨s, (x.state.routing cfg l).toList ++ x.routed⟩

namespace Routing

/-- Nothing has been routed. -/
def init (isMine : Option (GrainId → Bool)) : Routing :=
  ⟨.init isMine, []⟩

/-- Where the calls to `g` have been routed, the latest first. -/
def targets (x : Routing) (g : GrainId) : List GrainId :=
  (x.routed.filter fun e => e.1 = g).map Prod.snd

theorem targets_cons_self (s : State) (g r : GrainId) (l : List (GrainId × GrainId)) :
    targets ⟨s, (g, r) :: l⟩ g = r :: targets ⟨s, l⟩ g := by
  simp [targets]

theorem targets_cons_of_ne (s : State) {g g' : GrainId} (hne : g ≠ g') (r : GrainId)
    (l : List (GrainId × GrainId)) : targets ⟨s, (g', r) :: l⟩ g = targets ⟨s, l⟩ g := by
  simp [targets, hne.symm]

end Routing

section

variable {cfg : Config} {s s' : State} {t : TaskId} {n : Next Frame Outcome}

/-- Only `_route` writes whose turn it is. -/
theorem exec_nextActivation {c : Choice} {f : Frame} {r : Resume Outcome}
    (h : exec cfg s t c f r = some (s', n)) :
    (∃ call, f = .dispatch call ∧ r = .send ∧
      s'.nextActivation = (s.advance cfg call.grain).nextActivation) ∨
    (∀ call, f = .dispatch call → r ≠ .send) ∧ s'.nextActivation = s.nextActivation := by
  by_cases hf : ∃ call, f = .dispatch call ∧ r = .send
  · obtain ⟨call, rfl, rfl⟩ := hf
    left
    simp only [exec, dispatch] at h
    split_ifs at h <;> cases h <;> exact ⟨call, rfl, rfl, rfl⟩
  · refine .inr ⟨fun call hc hr => hf ⟨call, hc, hr⟩, ?_⟩
    cases exec_effect h
    case routes call turns | forwards call turns => exact (hf ⟨call, rfl, rfl⟩).elim
    case takes who g a hentry =>
      obtain ⟨L, heq⟩ := cancel_all_eq (s.heap a).timers (s.take who g a)
      rw [heq]
      rfl
    case activates g a o =>
      obtain ⟨L, timers, heq⟩ := startTimers_eq (t := t) a s
      unfold State.activate
      rw [heq]
      rfl
    case begins =>
      obtain ⟨L, sweeper, scanner, heq⟩ := startBackground_eq cfg s t
      rw [heq]
    all_goals rfl

/-- A step routes a call as the pool of its identity says, or leaves all pools alone. -/
theorem step_routing {l : Label} (h : step cfg s l = some s') :
    (∃ g, s.routing cfg l = some (g, route cfg s g) ∧
      s'.nextActivation = (s.advance cfg g).nextActivation) ∨
    s.routing cfg l = none ∧ s'.nextActivation = s.nextActivation := by
  by_cases hrun : ∃ c, l = .run c
  · obtain ⟨c, rfl⟩ := hrun
    obtain ⟨t, r, f, rest, s1, n, hr, hs, he, rfl⟩ := run_cases h
    unfold State.routing
    rw [hr]
    rcases exec_nextActivation he with ⟨call, rfl, rfl, hnext⟩ | ⟨hne, hnext⟩
    · exact .inl ⟨call.grain, by simp only [hs], hnext⟩
    · refine .inr ⟨?_, hnext⟩
      cases r with
      | got o => rfl
      | send =>
        simp only [hs]
        cases f with
        | dispatch call => exact (hne call rfl rfl).elim
        | _ => rfl
  · obtain ⟨L, now, isMine, rfl⟩ := step_outside (not_exists.1 hrun) h
    refine .inr ⟨?_, rfl⟩
    cases l with
    | run c => exact (hrun ⟨c, rfl⟩).elim
    | _ => rfl

/-! ## Turns -/

/-- The pool of an identity of a kind with a pool. -/
theorem pool_eq {g : GrainId} {p : ℕ} (hk : cfg.kinds g.type = some ⟨p⟩) (hp : 0 < p) :
    pool cfg s g = some (p, (s.nextActivation.get g).getD 0) := by
  simp [pool, hk, hp.ne']

theorem nextActivation_advance_self {g : GrainId} {p : ℕ} (hk : cfg.kinds g.type = some ⟨p⟩)
    (hp : 0 < p) : ((s.advance cfg g).nextActivation.get g).getD 0 =
      ((s.nextActivation.get g).getD 0 + 1) % p := by
  unfold State.advance
  rw [pool_eq hk hp]
  simp [OrderedDict.get_set]

/-- Whose turn it is in one pool does not depend on the others. -/
theorem nextActivation_advance_of_ne {g g' : GrainId} (hne : g ≠ g') :
    (s.advance cfg g').nextActivation.get g = s.nextActivation.get g := by
  unfold State.advance
  split
  · rfl
  · simp [OrderedDict.get_set, hne]

/-- Pools have answered in turn, and other identities for themselves. -/
structure Routing.Turns (cfg : Config) (x : Routing) : Prop where
  turn : ∀ g p, cfg.kinds g.type = some ⟨p⟩ → 0 < p →
    (x.state.nextActivation.get g).getD 0 = (x.targets g).length % p
  targets : ∀ g p, cfg.kinds g.type = some ⟨p⟩ → 0 < p →
    (x.targets g).reverse = (List.range (x.targets g).length).map fun j => g.pooled (j % p)
  routed : ∀ e ∈ x.routed, e.2 = e.1 ∧ cfg.pools e.1 = false ∨
    cfg.pools e.1 = true ∧ ∃ turn, e.2 = e.1.pooled turn

namespace Routing.Turns

variable {x x' : Routing}

theorem init (isMine : Option (GrainId → Bool)) : Routing.Turns cfg (.init isMine) where
  turn g p _ _ := (Nat.zero_mod p).symm
  targets _ _ _ _ := rfl
  routed _ h := by cases h

theorem step {l : Label} (hx : x.Turns cfg) (h : routingStep cfg x l = some x') :
    x'.Turns cfg := by
  obtain ⟨s', hs', rfl⟩ := Option.map_eq_some_iff.1 h
  rcases step_routing hs' with ⟨g', hrouting, hnext⟩ | ⟨hrouting, hnext⟩
  · rw [hrouting]
    constructor
    · intro g p hk hp
      have hturn := hx.turn g p hk hp
      show (s'.nextActivation.get g).getD 0 =
        (Routing.targets ⟨s', (g', _) :: x.routed⟩ g).length % p
      rw [hnext]
      by_cases hg : g = g'
      · subst hg
        rw [nextActivation_advance_self hk hp, hturn, targets_cons_self, Nat.mod_add_mod]
        rfl
      · rw [nextActivation_advance_of_ne hg, hturn, targets_cons_of_ne s' hg]
        rfl
    · intro g p hk hp
      have htargets := hx.targets g p hk hp
      show (Routing.targets ⟨s', (g', _) :: x.routed⟩ g).reverse =
        (List.range (Routing.targets ⟨s', (g', _) :: x.routed⟩ g).length).map fun j =>
          g.pooled (j % p)
      by_cases hg : g = g'
      · subst hg
        have hroute : route cfg x.state g = g.pooled ((x.targets g).length % p) := by
          unfold route
          rw [pool_eq hk hp, hx.turn g p hk hp]
          rfl
        rw [targets_cons_self, List.reverse_cons, List.length_cons, List.range_succ,
          List.map_append,
          hroute]
        exact congrArg (· ++ _) htargets
      · rw [targets_cons_of_ne s' hg]
        exact htargets
    · rintro e he
      rcases List.mem_cons.1 he with rfl | he
      · exact route_cases cfg x.state g'
      · exact hx.routed e he
  · rw [hrouting]
    constructor
    · intro g p hk hp
      show (s'.nextActivation.get g).getD 0 = _
      rw [hnext]
      exact hx.turn g p hk hp
    · exact hx.targets
    · exact hx.routed

end Routing.Turns

theorem Routing.turns {isMine : Option (GrainId → Bool)} {x : Routing}
    (h : Run (routingStep cfg) (fun _ _ => True) (.init isMine) x) : x.Turns cfg :=
  h.invariant (I := Routing.Turns cfg) (.init isMine) fun _ _ _ hI hl _ => hI.step hl

/-- How often a number below `p` is a remainder of the first `n`. -/
theorem count_map_mod {g : GrainId} {n p i : ℕ} (hi : i < p) :
    ((List.range n).map fun j => g.pooled (j % p)).count (g.pooled i) =
      n / p + if i < n % p then 1 else 0 := by
  have hcount := Nat.count_modEq_card n (Nat.zero_lt_of_lt hi) i
  rw [Nat.mod_eq_of_lt hi] at hcount
  rw [← hcount, Nat.count, List.count, List.countP_map]
  refine List.countP_congr fun j _ => ?_
  simp [pooled_inj, Nat.ModEq, Nat.mod_eq_of_lt hi]

theorem ceilDiv_eq {n p : ℕ} (hp : 0 < p) : n ⌈/⌉ p = n / p + if n % p = 0 then 0 else 1 := by
  have hn : n / p * p + n % p = n := by rw [mul_comm, Nat.div_add_mod]
  have hlt := Nat.mod_lt n hp
  rw [Nat.ceilDiv_eq_add_pred_div]
  refine Nat.div_eq_of_lt_le ?_ ?_ <;> split_ifs <;>
    simp only [add_mul, add_zero, one_mul] <;> omega

/-- On one node, over any run : calls to an identity of a kind with a pool go to its activations
in turn, which therefore get as many each, up to one; and two identities are never routed to the
same one. -/
theorem pools_in_turn {isMine : Option (GrainId → Bool)} {x : Routing}
    (h : Run (routingStep cfg) (fun _ _ => True) (.init isMine) x) :
    (∀ g p, cfg.kinds g.type = some ⟨p⟩ → 0 < p →
      (x.targets g).reverse = (List.range (x.targets g).length).map (fun j => g.pooled (j % p)) ∧
      ∀ i < p, (x.targets g).count (g.pooled i) = (x.targets g).length / p ∨
        (x.targets g).count (g.pooled i) = (x.targets g).length ⌈/⌉ p) ∧
    ∀ e ∈ x.routed, ∀ e' ∈ x.routed, e.1 ≠ e'.1 → e.2 ≠ e'.2 := by
  have hx := Routing.turns h
  refine ⟨fun g p hk hp => ⟨hx.targets g p hk hp, fun i hi => ?_⟩, ?_⟩
  · rw [← List.count_reverse, hx.targets g p hk hp, count_map_mod hi, ceilDiv_eq hp]
    split_ifs with h1 h2
    · omega
    · exact .inr rfl
    · exact .inl rfl
    · exact .inl rfl
  · intro e he e' he' hne heq
    -- an activation of a pool is of the kind it is spread over, which does not answer for itself
    have hkind : ∀ (g : GrainId) (turn : ℕ), cfg.pools (g.pooled turn) = cfg.pools g :=
      fun _ _ => rfl
    rcases hx.routed e he with ⟨h, hpool⟩ | ⟨hpool, turn, h⟩ <;>
      rcases hx.routed e' he' with ⟨h', hpool'⟩ | ⟨hpool', turn', h'⟩
    · exact hne (h.symm.trans (heq.trans h'))
    · have hg : e.1 = e'.1.pooled turn' := h.symm.trans (heq.trans h')
      rw [hg, hkind, hpool'] at hpool
      cases hpool
    · have hg : e'.1 = e.1.pooled turn := h'.symm.trans (heq.symm.trans h)
      rw [hg, hkind, hpool] at hpool'
      cases hpool'
    · exact hne (pooled_inj.1 (h.symm.trans (heq.trans h'))).1

/-- A runtime whose only kind has a pool. -/
def Config.spread (activationsPerKey : ℕ) : Config :=
  { Config.small none with kinds := fun _ => some ⟨activationsPerKey⟩ }

/-- Three calls to a pool of two, with a call between them whose key looks like one of it. -/
theorem pools_in_turn_three : ∃ x : Routing,
    (x.targets ⟨"worker", "a"⟩).reverse =
      [⟨"worker", "a#0"⟩, ⟨"worker", "a#1"⟩, ⟨"worker", "a#0"⟩] := by
  obtain ⟨x, hrun, hp⟩ := exists_run_free (routingStep (.spread 2)) (.init none)
    ([.arrive, .resume 0] ++ Label.invoke ⟨"worker", "a"⟩ ++ Label.serve ++
      Label.invoke ⟨"worker", "a#0"⟩ ++ Label.serve ++ Label.invoke ⟨"worker", "a"⟩ ++
      Label.serve ++ Label.invoke ⟨"worker", "a"⟩)
    (fun x => decide ((x.targets ⟨"worker", "a"⟩).length = 3)) (by decide +kernel)
  have htargets := ((pools_in_turn hrun).1 ⟨"worker", "a"⟩ 2 rfl (by omega)).1
  rw [of_decide_eq_true hp] at htargets
  exact ⟨x, htargets⟩

end

end Nigrains
