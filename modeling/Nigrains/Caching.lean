import Nigrains.Bound
import Nigrains.Lru
import Nigrains.Outcome
import Nigrains.Sweeping

/-!
# A bounded runtime is a cache

While calls come one after another, and nothing else goes on between them, a bounded runtime
keeps the activations that were called last. `called` and `published` read off the log whose
activations were looked up and whose were built. The table follows the log (`step_reordered`), and
only a caller that makes room does something between its lookup and its call that the log does not
tell : `Making` says where it stands. After each call the table holds the identities that
`Lru.kept` says, in that order, and what has been built are `Lru.misses` (`caches`).
-/

namespace Nigrains

/-- Whose activation a lookup looks for. -/
def Event.looksUp : Event → Option GrainId
  | .found g _ => some g
  | .joined g _ => some g
  | .missed g => some g
  | _ => none

/-- Whom an activation is built for. -/
def Event.builds : Event → Option GrainId
  | .published g _ _ => some g
  | _ => none

/-- What a call has run on that ends. -/
def Event.answers : Event → Option ActId
  | .answered _ a _ _ => some a
  | _ => none

/-- An eviction is counted when it is over. -/
def Event.evictions (evictions : ℤ) : Event → ℤ
  | .evicted => evictions + 1
  | _ => evictions

namespace State

/-- The identities that calls have looked up, the latest first. -/
def called (s : State) : List GrainId :=
  s.trace.filterMap Event.looksUp

/-- The identities that activations have been built for, the latest first. -/
def published (s : State) : List GrainId :=
  s.trace.filterMap Event.builds

/-- The activations that calls have run on, the latest call first. -/
def answered (s : State) : List ActId :=
  s.trace.filterMap Event.answers

/-- What an event does to the table. -/
def reorder (cfg : Config) (s : State) : Event → OrderedDict GrainId ActId
  | .published g a _ => s.activations.set g a
  | .failed g _ _ _ => s.activations.pop g
  | .taken _ g _ => s.activations.pop g
  | .answered _ a _ _ =>
    if cfg.maxActivations.isSome then s.activations.moveToEnd (s.identity a) else s.activations
  | _ => s.activations

end State

/-- Whether an activity is part of a call or a tick. -/
def Activity.inCall : Activity → Bool
  | .down .. => false
  | .closing .. => false
  | _ => true

/-- The calls and ticks that are going on. -/
def Protocol.active (P : Protocol) : Multiset Activity :=
  P.pending.filter fun x => x.inCall

/-- A call looks its activation up only when nothing else goes on, no timer ticks, only callers
that make room take activations out, and whatever is looked up is activated and has the method
it is called by. -/
def Protocol.OneByOne (P : Protocol) : Event → Prop
  | .found .. | .joined .. | .missed _ => P.pending = 0
  | .taken who _ _ => who = .makeRoom
  | .ticked _ | .failed .. | .gaveUp _ | .refused .. => False
  | _ => True

instance {P : Protocol} {e : Event} : Decidable (P.OneByOne e) :=
  decidableOr (match e with
    | .found .. | .joined .. | .missed _ => some (inferInstanceAs (Decidable (P.pending = 0)))
    | .taken .. => some (inferInstanceAs (Decidable (_ = _)))
    | .ticked _ | .failed .. | .gaveUp _ | .refused .. => some (.isFalse id)
    | _ => none) (by cases e <;> simp [Protocol.OneByOne])

/-- Calls come one after another. -/
def OneByOne (s : State) : Event → Prop :=
  s.view.OneByOne

instance {s : State} {e : Event} : Decidable (OneByOne s e) :=
  inferInstanceAs (Decidable (s.view.OneByOne e))

section

variable {cfg : Config} {s s' : State} {t : TaskId} {n : Next Frame Outcome} {c : Choice}
  {f : Frame} {r : Resume Outcome} {g : GrainId} {a : ActId}

/-! ## The table follows the log -/

/-- The table and the count of evictions after a step, by what it logs. -/
def Reordered (cfg : Config) (s s' : State) : Prop :=
  (s'.trace = s.trace ∧ s'.activations = s.activations ∧ s'.evictions = s.evictions) ∨
  ∃ e, s'.trace = e :: s.trace ∧ s'.activations = s.reorder cfg e ∧
    s'.evictions = e.evictions s.evictions

/-- A lock that is given back, or queued for no more, moves nothing. -/
theorem reordered_leave {call : CallId} {o : Outcome} {lock : Lock → Lock} :
    Reordered cfg s ((s.setLock a lock).leave cfg call a o) := by
  refine .inr ⟨_, rfl, ?_, rfl⟩
  have hid : ((s.setLock a lock).heap a).grain.id = s.identity a := by
    simp [State.setLock, heap_modify, State.identity]
  simp only [State.leave, State.reorder, hid]
  rfl

theorem exec_reordered (h : exec cfg s t c f r = some (s', n)) : Reordered cfg s s' := by
  cases exec_effect h
  case takes who g a hentry =>
    obtain ⟨L, heq⟩ := cancel_all_eq (s.heap a).timers (s.take who g a)
    rw [heq]
    exact .inr ⟨.taken who g a, rfl, rfl, rfl⟩
  case activates g a o =>
    obtain ⟨L, timers, heq⟩ := startTimers_eq (t := t) a s
    refine .inr ⟨.activated g a, ?_, ?_, ?_⟩
    all_goals simp [State.activate, State.emit, State.modify, State.reorder, Event.evictions,
      heq]
  case begins =>
    obtain ⟨L, sweeper, scanner, heq⟩ := startBackground_eq cfg s t
    rw [heq]
    exact .inl ⟨rfl, rfl, rfl⟩
  case forsakes | unlocks => exact reordered_leave
  all_goals
    first
      | exact .inl ⟨rfl, rfl, rfl⟩
      | exact .inr ⟨_, rfl, rfl, rfl⟩

/-- The table changes by what is logged. -/
theorem step_reordered {l : Label} (h : step cfg s l = some s') : Reordered cfg s s' := by
  by_cases hrun : ∃ c, l = .run c
  · obtain ⟨c, rfl⟩ := hrun
    obtain ⟨t, r, f, rest, s1, n, -, -, he, rfl⟩ := run_cases h
    have hs1 : Reordered cfg s s1 := exec_reordered he
    exact hs1
  · obtain ⟨L, now, isMine, rfl⟩ := step_outside (not_exists.1 hrun) h
    exact .inl ⟨rfl, rfl, rfl⟩

/-! ## What is going on -/

/-- Events that have nothing to do with the table, and look nothing up. -/
def Event.still : Event → Bool
  | .found .. => false
  | .joined .. => false
  | .missed _ => false
  | .published .. => false
  | .failed .. => false
  | .taken .. => false
  | .answered .. => false
  | .evicted => false
  | _ => true

/-- An event that may leave the table otherwise than it was, though no call goes on. -/
def Event.quiet (e : Event) : Prop :=
  e.still = true ∨ (∃ g a, e = .taken .makeRoom g a) ∨ e = .evicted

/-- Events by which a call goes on. -/
def Event.ofCall : Event → Prop
  | .found .. | .joined .. | .missed _ | .woke _ | .unjoined _ | .published .. | .activated ..
  | .entered .. | .answered .. | .tocked _ => True
  | _ => False

/-- The table, and what has been counted, are as they were. -/
structure Same (s s' : State) : Prop where
  activations : s'.activations = s.activations
  evictions : s'.evictions = s.evictions
  called : s'.called = s.called
  published : s'.published = s.published
  answered : s'.answered = s.answered

/-- A step that logs nothing, or a still event. -/
theorem Reordered.same (h : Reordered cfg s s')
    (hstill : ∀ e, s'.trace = e :: s.trace → e.still = true) : Same s s' := by
  rcases h with ⟨htrace, hact, hev⟩ | ⟨e, htrace, hact, hev⟩
  · refine ⟨hact, hev, ?_, ?_, ?_⟩
    · rw [State.called, htrace, State.called]
    · rw [State.published, htrace, State.published]
    · rw [State.answered, htrace, State.answered]
  · have he := hstill e htrace
    have hcalled : s'.called = (e :: s.trace).filterMap Event.looksUp :=
      congrArg (List.filterMap Event.looksUp) htrace
    have hpublished : s'.published = (e :: s.trace).filterMap Event.builds :=
      congrArg (List.filterMap Event.builds) htrace
    have hanswered : s'.answered = (e :: s.trace).filterMap Event.answers :=
      congrArg (List.filterMap Event.answers) htrace
    cases e <;> first | exact ⟨hact, hev, hcalled, hpublished, hanswered⟩ | cases he

/-- A step that nothing of the protocol happens in. -/
theorem same_of_view {l : Label} (h : step cfg s l = some s') (hv : s'.view = s.view) :
    Same s s' :=
  (step_reordered h).same fun _ he =>
    absurd (he.symm.trans (congrArg Protocol.trace hv)) (List.cons_ne_self _ _)

/-- The table, and what has been counted, after an event. -/
theorem Reordered.of_log {e : Event} (h : Reordered cfg s s') (he : s'.trace = e :: s.trace) :
    s'.activations = s.reorder cfg e ∧ s'.evictions = e.evictions s.evictions ∧
      s'.called = e.looksUp.toList ++ s.called ∧
      s'.published = e.builds.toList ++ s.published ∧
      s'.answered = e.answers.toList ++ s.answered := by
  have hlists : s'.called = e.looksUp.toList ++ s.called ∧
      s'.published = e.builds.toList ++ s.published ∧
      s'.answered = e.answers.toList ++ s.answered := by
    rw [State.called, State.published, State.answered, he]
    cases e <;> exact ⟨rfl, rfl, rfl⟩
  rcases h with ⟨htrace, -⟩ | ⟨e', he', hact, hev⟩
  · exact absurd (he.symm.trans htrace) (List.cons_ne_self _ _)
  · obtain rfl := (List.cons.inj (he.symm.trans he')).1
    exact ⟨hact, hev, hlists⟩

section

variable {P P' : Protocol} {e : Event} {x : Activity} {M : Multiset Activity}

theorem filter_cons (hcall : x.inCall = true) :
    (x ::ₘ M).filter (fun x => x.inCall) = x ::ₘ M.filter fun x => x.inCall :=
  Multiset.filter_cons_of_pos _ hcall

theorem filter_cons_leaving (hcall : x.inCall = false) :
    (x ::ₘ M).filter (fun x => x.inCall) = M.filter fun x => x.inCall :=
  Multiset.filter_cons_of_neg _ (by simp [hcall])

/-- The only call that goes on. -/
theorem eq_of_active {y : Activity} (hactive : P.active = {x}) (hy : y ∈ P.pending)
    (hcall : y.inCall = true) : y = x :=
  Multiset.mem_singleton.1 (hactive ▸ Multiset.mem_filter.2 ⟨hy, hcall⟩)

theorem rest_of_active (hactive : P.active = {x}) (hp : P.pending = x ::ₘ M)
    (hcall : x.inCall = true) : (M.filter fun x => x.inCall) = 0 := by
  rw [Protocol.active, hp, filter_cons hcall] at hactive
  exact (Multiset.cons_inj_right x).1 hactive

/-- An event is part of a call, or leaves the calls that go on. -/
theorem Protocol.Step.around (h : P.Step e P') (hok : P.OneByOne e) :
    P'.active = P.active ∧ e.quiet ∨ e.ofCall := by
  cases h
  case gaveUp | ticked | failed | refused => exact hok.elim
  case started => exact .inl ⟨rfl, .inl rfl⟩
  case taken who he hidle hhold =>
    cases hok
    exact .inl ⟨filter_cons_leaving rfl, .inr (.inl ⟨_, _, rfl⟩)⟩
  case deactivating M who a hp =>
    refine .inl ⟨?_, .inl rfl⟩
    rw [Protocol.active, Protocol.active, hp, filter_cons_leaving rfl]
    exact filter_cons_leaving rfl
  case abandoned M who a hp | deactivated M who a hp =>
    refine .inl ⟨?_, .inl rfl⟩
    rw [Protocol.active, Protocol.active, hp, filter_cons_leaving rfl]
    rfl
  case evicted => exact .inl ⟨rfl, .inr (.inr rfl)⟩
  case drained | listed | left => exact .inl ⟨rfl, .inl rfl⟩
  all_goals exact .inr trivial

/-- What one caller does while it makes room. -/
theorem Protocol.Step.of_room (h : P.Step e P') (hok : P.OneByOne e)
    (hactive : P.active = {.room g}) :
    (∃ b old, e = .published g b old ∧ P'.active = {.build g b}) ∨
    P'.active = {.room g} ∧ e.quiet := by
  have hnone {y : Activity} {M : Multiset Activity} (hp : P.pending = y ::ₘ M)
      (hcall : y.inCall = true) : y = .room g :=
    eq_of_active hactive (hp ▸ Multiset.mem_cons_self ..) hcall
  have hlookup (hp : P.pending = 0) : False := by
    rw [Protocol.active, hp] at hactive
    exact Multiset.singleton_ne_zero _ hactive.symm
  rcases h.around hok with ⟨hsame, hquiet⟩ | hcall
  · exact .inr ⟨hsame.trans hactive, hquiet⟩
  cases h
  case found | joined | missed => exact (hlookup hok).elim
  case published M g' hp =>
    cases hnone hp rfl
    refine .inl ⟨_, _, rfl, ?_⟩
    show Multiset.filter _ (.build g P.built ::ₘ M) = _
    rw [filter_cons rfl, rest_of_active hactive hp rfl]
    rfl
  case woke hp _ _ | unjoined hp | activated hp | entered hp | answered hp | tocked hp =>
    cases hnone hp rfl
  all_goals exact hcall.elim

/-- What a call does once it has an activation, or is building one. -/
theorem Protocol.Step.of_serving {b : ActId} (h : P.Step e P') (hok : P.OneByOne e)
    (hx : x = .build g b ∨ x = .hold b ∨ x = .use b) (hactive : P.active = {x}) :
    P'.active = {x} ∧ e.quiet ∨
    e.still = true ∧ (P'.active = {.hold b} ∨ P'.active = {.use b}) ∨
    ∃ c inside outcome, e = .answered c b inside outcome ∧ P'.active = 0 := by
  have hnone {y : Activity} {M : Multiset Activity} (hp : P.pending = y ::ₘ M)
      (hcall : y.inCall = true) : y = x :=
    eq_of_active hactive (hp ▸ Multiset.mem_cons_self ..) hcall
  have hlookup (hp : P.pending = 0) : False := by
    rw [Protocol.active, hp] at hactive
    exact Multiset.singleton_ne_zero _ hactive.symm
  rcases h.around hok with ⟨hsame, hquiet⟩ | hcall
  · exact .inl ⟨hsame.trans hactive, hquiet⟩
  cases h
  case found | joined | missed => exact (hlookup hok).elim
  case woke hp _ _ | unjoined hp | published hp | tocked hp =>
    rcases hx with rfl | rfl | rfl <;> cases hnone hp rfl
  case activated M g' b' hp =>
    have hbx := hnone hp rfl
    rcases hx with rfl | rfl | rfl <;> cases hbx
    refine .inr (.inl ⟨rfl, .inl ?_⟩)
    refine (filter_cons rfl).trans ?_
    rw [rest_of_active hactive hp rfl]
    rfl
  case entered M c b' hp =>
    have hbx := hnone hp rfl
    rcases hx with rfl | rfl | rfl <;> cases hbx
    refine .inr (.inl ⟨rfl, .inr ?_⟩)
    refine (filter_cons rfl).trans ?_
    rw [rest_of_active hactive hp rfl]
    rfl
  case answered M c b' inside outcome hp =>
    have hbx := hnone hp rfl
    rcases hx with rfl | rfl | rfl <;> cases hbx
    exact .inr (.inr ⟨c, inside, outcome, rfl, rest_of_active hactive hp rfl⟩)
  all_goals exact hcall.elim

/-- What happens between two calls. -/
theorem Protocol.Step.of_idle (h : P.Step e P') (hok : P.OneByOne e) (hs : P.Sound)
    (hactive : P.active = 0) :
    P'.active = 0 ∧ e.quiet ∨
    (∃ g b, e = .found g b ∧ P.entry g = some b ∧ P'.active = {.hold b}) ∨
    ∃ g, e = .missed g ∧ P.entry g = none ∧ P'.active = {.room g} := by
  have hnone {y : Activity} {M : Multiset Activity} (hp : P.pending = y ::ₘ M)
      (hcall : y.inCall = true) : False := by
    have hy : y ∈ P.active := Multiset.mem_filter.2 ⟨hp ▸ Multiset.mem_cons_self .., hcall⟩
    rw [hactive] at hy
    exact Multiset.notMem_zero y hy
  rcases h.around hok with ⟨hsame, hquiet⟩ | hcall
  · exact .inl ⟨hsame.trans hactive, hquiet⟩
  cases h
  case found g b he hr =>
    refine .inr (.inl ⟨g, b, rfl, he, (filter_cons rfl).trans ?_⟩)
    rw [show P.pending = 0 from hok]
    rfl
  case joined g b he hr =>
    -- nobody builds it, so it has failed, and is not in the table
    have hpending : P.pending = 0 := hok
    rcases hs.staged b (hs.entry_lt g b he) with ⟨⟨g', hb⟩, -⟩ | ⟨-, hr', -⟩ | ⟨-, -, -, hf⟩
    · rw [hpending] at hb
      exact (Multiset.notMem_zero _ hb).elim
    · rw [hr] at hr'
      cases hr'
    · rw [hs.entry_live g b he] at hf
      cases hf
  case missed g he =>
    refine .inr (.inr ⟨g, rfl, he, (filter_cons rfl).trans ?_⟩)
    rw [show P.pending = 0 from hok]
    rfl
  case woke hp _ _ | unjoined hp | published hp | activated hp | entered hp | answered hp
    | tocked hp => exact (hnone hp rfl).elim
  all_goals exact hcall.elim

end

/-! ## Where a caller makes room -/

/-- `_make_room` and its `_deactivate` stand where a caller makes room. -/
theorem room_under {u : TaskId} {rest : List Frame} (hn : Nested s)
    (hs : (s.tasks u).stack = f :: rest) :
    (∀ pc, f = .makeRoom pc → ∃ g₁ rest', rest = .activated g₁ .room :: rest') ∧
    ∀ g₀ pc, f = .deactivate .makeRoom g₀ pc →
      ∃ g₁ rest', rest = .makeRoom .evicting :: .activated g₁ .room :: rest' := by
  have hst := hn.stacked u
  rw [hs] at hst
  obtain ⟨hb, hst⟩ := hst
  have hmake {p : Option Frame} {pc : MakeRoomAt} (hb : below p (.makeRoom pc) = true) :
      ∃ g₁, p = some (.activated g₁ .room) := by
    cases p with
    | none => cases hb
    | some p =>
      cases awaits_of_below hb
      case room => exact ⟨_, rfl⟩
      case outside hf => cases hf
      case timeout hf => cases hf
      case scope hf => rcases hf with hf | hf <;> cases hf
  have hdeactivate {p : Option Frame} {g₀ : GrainId} {pc : DeactivateAt}
      (hb : below p (.deactivate .makeRoom g₀ pc) = true) : p = some (.makeRoom .evicting) := by
    cases p with
    | none => cases hb
    | some p =>
      cases awaits_of_below hb
      case evicting => rfl
      case outside hf => cases hf
      case timeout hf => cases hf
      case scope hf => rcases hf with hf | hf <;> cases hf
  constructor
  · rintro pc rfl
    obtain ⟨g₁, hp⟩ := hmake hb
    obtain ⟨rest', rfl⟩ := List.head?_eq_some_iff.1 hp
    exact ⟨g₁, rest', rfl⟩
  · rintro g₀ pc rfl
    obtain ⟨rest', rfl⟩ := List.head?_eq_some_iff.1 (hdeactivate hb)
    obtain ⟨g₁, hp⟩ := hmake hst.1
    obtain ⟨rest'', rfl⟩ := List.head?_eq_some_iff.1 hp
    exact ⟨g₁, rest'', rfl⟩

/-- Where a segment stands that changes the table while a caller makes room. -/
def Turns (i : ℕ) (f : Frame) : Prop :=
  (i = 0 ∧ ∃ g, f = .activated g .room) ∨ (i = 1 ∧ f = .makeRoom .evicting) ∨
    i = 2 ∧ ∃ g₀, f = .deactivate .makeRoom g₀ .start

/-- Only where a caller makes room is an activation published, or taken out for it. -/
theorem step_turns {l : Label} {e : Event} (hn : Nested s) (h : step cfg s l = some s')
    (he : s'.trace = e :: s.trace) (hturn : (∃ g b old, e = .published g b old) ∨
      (∃ g₀ b, e = .taken .makeRoom g₀ b) ∨ e = .evicted) :
    ∃ t r f rest c i g₁, l = .run c ∧ s.running = some (t, r) ∧ (s.tasks t).stack = f :: rest ∧
      (s.tasks t).stack[i]? = some (.activated g₁ .room) ∧ Turns i f := by
  obtain ⟨t, r, f, rest, c, s1, n, hl, hr, hs, hx, -, hlogged⟩ := run_logs h he
  obtain ⟨hmake, hdeactivate⟩ := room_under hn hs
  rcases hturn with ⟨g, b, old, rfl⟩ | ⟨g₀, b, rfl⟩ | rfl <;> cases hlogged
  · exact ⟨t, _, _, rest, c, 0, g, hl, hr, hs, by rw [hs]; rfl, .inl ⟨rfl, g, rfl⟩⟩
  · obtain ⟨g₁, rest', rfl⟩ := hdeactivate _ _ rfl
    exact ⟨t, _, _, _, c, 2, g₁, hl, hr, hs, by rw [hs]; rfl, .inr (.inr ⟨rfl, g₀, rfl⟩)⟩
  · obtain ⟨g₁, rest', rfl⟩ := hmake _ rfl
    exact ⟨t, _, _, _, c, 1, g₁, hl, hr, hs, by rw [hs]; rfl, .inr (.inl ⟨rfl, rfl⟩)⟩

/-- Who makes room is going on. -/
theorem room_pending {u : TaskId} {i : ℕ} {g₁ : GrainId} (hn : Nested s)
    (hi : (s.tasks u).stack[i]? = some (.activated g₁ .room)) : .room g₁ ∈ s.view.pending :=
  hn.mem_pending (List.mem_of_getElem? hi) (Multiset.mem_singleton_self _)

/-- While one caller makes room, it does so in one place. -/
theorem room_place {u : TaskId} {i j : ℕ} {g₁ g₂ : GrainId} (hn : Nested s)
    (hactive : s.view.active = {.room g})
    (hi : (s.tasks t).stack[i]? = some (.activated g₁ .room))
    (hj : (s.tasks u).stack[j]? = some (.activated g₂ .room)) : t = u ∧ i = j := by
  have hone : s.toLoop.work (fun f => f.activity.count (.room g)) ≤ 1 := by
    rw [← count_pending fun a h => by cases h]
    have hcount : s.view.active.count (.room g) = s.pending.count (.room g) :=
      Multiset.count_filter_of_pos (by rfl)
    rw [← hcount, hactive, Multiset.count_singleton_self]
  have hw {v k : ℕ} {g₃ : GrainId} (hk : (s.tasks v).stack[k]? = some (.activated g₃ .room)) :
      (Frame.activity (.activated g₃ .room)).count (.room g) = 1 := by
    cases eq_of_active hactive (room_pending hn hk) rfl
    exact Multiset.count_singleton_self _
  exact Loop.place_unique hone (hn.lt_of_mem (List.mem_of_getElem? hi))
    (hn.lt_of_mem (List.mem_of_getElem? hj)) hi hj (hw hi) (hw hj)

/-- Where nobody makes room, a quiet event leaves the table. -/
theorem same_of_quiet {l : Label} {e : Event} (hn : Nested s) (h : step cfg s l = some s')
    (he : s'.trace = e :: s.trace) (hquiet : e.quiet)
    (hroom : ∀ g₁, .room g₁ ∉ s.view.active) : Same s s' := by
  refine (step_reordered h).same fun e' he' => ?_
  obtain rfl := (List.cons.inj (he.symm.trans he')).1
  refine hquiet.resolve_right fun hturn => ?_
  obtain ⟨t, r, f, rest, c, i, g₁, -, -, -, hi, -⟩ := step_turns hn h he (.inr hturn)
  exact hroom g₁ (Multiset.mem_filter.2 ⟨room_pending hn hi, rfl⟩)

/-- While a caller makes room, whatever happens elsewhere leaves the table. -/
theorem same_of_elsewhere {l : Label} {i : ℕ} (hn : Nested s) (h : step cfg s l = some s')
    (hview : s'.view = s.view ∨ ∃ e, s.view.Step e s'.view)
    (hok : Logs State.trace OneByOne s s') (hactive : s.view.active = {.room g})
    (hi : (s.tasks t).stack[i]? = some (.activated g .room))
    (helse : ∀ r f rest c, l = .run c → s.running = some (t, r) → (s.tasks t).stack = f :: rest →
      ¬Turns i f) : Same s s' ∧ s'.view.active = {.room g} := by
  rcases hview with hv | ⟨e, hv⟩
  · exact ⟨same_of_view h hv, hv ▸ hactive⟩
  · have he : s'.trace = e :: s.trace := hv.trace
    have hnot (hturn : (∃ g b old, e = .published g b old) ∨
        (∃ g₀ b, e = .taken .makeRoom g₀ b) ∨ e = .evicted) : False := by
      obtain ⟨u, r, f, rest, c, j, g₁, hl, hr, hs, hj, hturns⟩ := step_turns hn h he hturn
      obtain ⟨rfl, rfl⟩ := room_place hn hactive hi hj
      exact helse r f rest c hl hr hs hturns
    rcases hv.of_room (hok e he) hactive with ⟨b, old, rfl, -⟩ | ⟨hactive', hquiet⟩
    · exact (hnot (.inl ⟨g, b, old, rfl⟩)).elim
    · refine ⟨(step_reordered h).same fun e' he' => ?_, hactive'⟩
      obtain rfl := (List.cons.inj (he.symm.trans he')).1
      exact hquiet.resolve_right fun hturn => hnot (.inr hturn)

/-! ## The calls that have ended -/

/-- Calls have run on activations that have been built. -/
def OnBuilt (s : State) : Prop :=
  ∀ a ∈ s.answered, a < s.built

theorem Protocol.Step.use_of_answers {P P' : Protocol} {e : Event} (h : P.Step e P')
    (ha : e.answers = some a) : .use a ∈ P.pending := by
  cases h
  case answered hp =>
    cases ha
    exact hp ▸ Multiset.mem_cons_self ..
  all_goals cases ha

theorem OnBuilt.step {l : Label} (hA : OnBuilt s) (hI : Reached s)
    (h : Nigrains.step cfg s l = some s') : OnBuilt s' := by
  intro a ha
  rcases hI.step_view h with hv | ⟨e, hv⟩
  · have htrace : s'.trace = s.trace := congrArg Protocol.trace hv
    rw [State.answered, htrace] at ha
    exact (hA a ha).trans_le (hI.built_le h)
  · obtain ⟨-, -, -, -, hanswered⟩ := (step_reordered h).of_log hv.trace
    rw [hanswered, List.mem_append, Option.mem_toList] at ha
    refine lt_of_lt_of_le ?_ (hI.built_le h)
    rcases ha with ha | ha
    · exact hI.sound.about_lt (.use a) (hv.use_of_answers ha) a rfl
    · exact hA a ha

/-- And they keep their identities. -/
theorem OnBuilt.identities {l : Label} (hA : OnBuilt s) (h : Nigrains.step cfg s l = some s') :
    s.answered.map s'.identity = s.answered.map s.identity :=
  List.map_congr_left fun a ha => step_identity h (hA a ha)

/-! ## One call after another -/

open Lru

/-- Where task `t` stands with the room it makes for `g`, after the calls `history`. -/
inductive Making (m : ℕ) (history : List GrainId) (g : GrainId) (t : TaskId) (s : State) : Prop
  /-- About to look whether there is room. -/
  | looking {rest : List Frame} (hr : s.running = some (t, .send))
      (hs : (s.tasks t).stack = .makeRoom .start :: .activated g .room :: rest)
      (hkeys : s.activations.keys = kept m history)
      (hevictions : s.evictions = evictions m history)
  /-- About to take out what was called last longest ago. -/
  | evicting {rest : List Frame} {g₀ : GrainId} (hr : s.running = some (t, .send))
      (hs : (s.tasks t).stack =
        .deactivate .makeRoom g₀ .start :: .makeRoom .evicting :: .activated g .room :: rest)
      (hkeys : s.activations.keys = kept m history)
      (hlast : (kept m history).dropLast ++ [g₀] = kept m history)
      (hfull : (kept m history).length = m)
      (hevictions : s.evictions = evictions m history)
  /-- In its deactivation, or given what that has come to. -/
  | waiting {above rest : List Frame}
      (hs : (s.tasks t).stack = above ++ .makeRoom .evicting :: .activated g .room :: rest)
      (habove : above = [] ∨ ∃ above' g₀ pc,
        above = above' ++ [.deactivate .makeRoom g₀ pc] ∧ pc ≠ .start)
      (hkeys : s.activations.keys = (kept m history).dropLast)
      (hfull : (kept m history).length = m)
      (hevictions : s.evictions = evictions m history)
  /-- There is room, unless making it has failed. -/
  | roomy {rest : List Frame} {o : Outcome} (hr : s.running = some (t, .got o))
      (hs : (s.tasks t).stack = .activated g .room :: rest)
      (hkeys : ∀ v, o = .ok v → g :: s.activations.keys = kept m (g :: history) ∧
        s.evictions = evictions m (g :: history))

/-- A bounded runtime is a cache of what has been called. -/
inductive Caching (m : ℕ) (s : State) : Prop
  /-- Between two calls. -/
  | idle (hactive : s.view.active = 0) (hkeys : s.activations.keys = kept m s.called)
      (hpublished : s.published = misses m s.called)
      (hevictions : s.evictions = evictions m s.called)
      (hanswered : s.answered.map s.identity = s.called)
  /-- A call has found no activation. -/
  | making {g : GrainId} {history : List GrainId} {t : TaskId} (hcalled : s.called = g :: history)
      (hactive : s.view.active = {.room g}) (hmiss : g ∉ kept m history)
      (hpublished : s.published = misses m history)
      (hanswered : s.answered.map s.identity = history) (hmaking : Making m history g t s)
  /-- A call has found one, or is building one. -/
  | serving {x : Activity} {g : GrainId} {a : ActId}
      (hx : x = .build g a ∨ x = .hold a ∨ x = .use a) (hactive : s.view.active = {x})
      (hget : s.activations.get g = some a)
      (hkeys : g :: s.activations.keys.erase g = kept m s.called)
      (hpublished : s.published = misses m s.called)
      (hevictions : s.evictions = evictions m s.called)
      (hanswered : g :: s.answered.map s.identity = s.called)

theorem caching_init (m : ℕ) (isMine : Option (GrainId → Bool)) : Caching m (.init isMine) := by
  refine .idle ?_ List.take_nil.symm rfl rfl rfl
  rw [view_init]
  rfl

section

variable {m : ℕ} {l : Label}

/-- A call that finds no activation is about to make room. -/
theorem making_missed {history : List GrainId} (h : step cfg s l = some s')
    (he : s'.trace = .missed g :: s.trace) (hnone : s.activations.get g = none)
    (hkeys : s'.activations.keys = kept m history)
    (hevictions : s'.evictions = evictions m history) : ∃ t, Making m history g t s' := by
  obtain ⟨t, r, f, rest, c, s1, n, hr, hs, hx, hs', hlogged⟩ := step_logs h he
  cases hlogged
  have hland := stack_landed hs'
  simp only [exec, activated, hnone] at hx
  split at hx <;> cases hx
  · rw [hs'] at he
    exact absurd he.symm (List.cons_ne_self _ _)
  · exact ⟨t, .looking (by rw [hs']; rfl) hland hkeys hevictions⟩

/-- Between two calls, a call may look its activation up. -/
theorem caching_idle (hI : Reached s) (hA : OnBuilt s) (hactive : s.view.active = 0)
    (hkeys : s.activations.keys = kept m s.called)
    (hpublished : s.published = misses m s.called)
    (hevictions : s.evictions = evictions m s.called)
    (hanswered : s.answered.map s.identity = s.called)
    (h : step cfg s l = some s') (hok : Logs State.trace OneByOne s s') : Caching m s' := by
  have hroom : ∀ g₁, .room g₁ ∉ s.view.active := by
    rw [hactive]
    exact fun g₁ => Multiset.notMem_zero _
  rw [← hA.identities h] at hanswered
  have hkeep (hsame : Same s s') (hactive' : s'.view.active = 0) : Caching m s' := by
    refine .idle hactive' ?_ ?_ ?_ ?_
    · rw [hsame.activations, hsame.called, hkeys]
    · rw [hsame.published, hsame.called, hpublished]
    · rw [hsame.evictions, hsame.called, hevictions]
    · rw [hsame.answered, hsame.called, hanswered]
  rcases hI.step_view h with hv | ⟨e, hv⟩
  · exact hkeep (same_of_view h hv) (hv ▸ hactive)
  have he : s'.trace = e :: s.trace := hv.trace
  rcases hv.of_idle (hok e he) hI.sound hactive with ⟨hactive', hquiet⟩ |
    ⟨g, a, rfl, hget, hactive'⟩ | ⟨g, rfl, hnone, hactive'⟩
  · exact hkeep (same_of_quiet hI.nested h he hquiet hroom) hactive'
  · obtain ⟨hact, hev, hcalled, hpub, hans⟩ := (step_reordered h).of_log he
    replace hact : s'.activations = s.activations := hact
    replace hcalled : s'.called = g :: s.called := hcalled
    have hg : g ∈ kept m s.called := by
      rw [← hkeys]
      exact OrderedDict.mem_iff_exists_get.2 ⟨a, hget⟩
    refine .serving (.inr (.inl rfl)) hactive' (by rw [hact]; exact hget) ?_ ?_ ?_ ?_
    · rw [hact, hcalled, hkeys, kept_hit hg]
    · rw [hcalled, misses_hit hg, ← hpublished]
      exact hpub
    · rw [hcalled, evictions_else (.inl hg), ← hevictions]
      exact hev
    · rw [hcalled, ← hanswered]
      exact congrArg (fun l => g :: l.map s'.identity) hans
  · obtain ⟨hact, hev, hcalled, hpub, hans⟩ := (step_reordered h).of_log he
    replace hact : s'.activations = s.activations := hact
    replace hev : s'.evictions = s.evictions := hev
    replace hcalled : s'.called = g :: s.called := hcalled
    replace hans : s'.answered = s.answered := hans
    have hg : g ∉ kept m s.called := by
      rw [← hkeys]
      intro hmem
      obtain ⟨a, ha⟩ := OrderedDict.mem_iff_exists_get.1 hmem
      rw [show s.activations.get g = none from hnone] at ha
      cases ha
    obtain ⟨t, hmaking⟩ := making_missed h he hnone (by rw [hact, hkeys]) (by rw [hev, hevictions])
    exact .making hcalled hactive' hg (hpub.trans hpublished) (by rw [hans, hanswered]) hmaking

/-- A call that has found an activation, or is building one, leaves the table until it has ended,
and then its activation stands at the recent end. -/
theorem caching_serving {x : Activity} (hbound : cfg.maxActivations.isSome = true)
    (hid : Identified s) (hI : Reached s) (hA : OnBuilt s)
    (hx : x = .build g a ∨ x = .hold a ∨ x = .use a) (hactive : s.view.active = {x})
    (hget : s.activations.get g = some a)
    (hkeys : g :: s.activations.keys.erase g = kept m s.called)
    (hpublished : s.published = misses m s.called)
    (hevictions : s.evictions = evictions m s.called)
    (hanswered : g :: s.answered.map s.identity = s.called)
    (h : step cfg s l = some s') (hok : Logs State.trace OneByOne s s') : Caching m s' := by
  have hroom : ∀ g₁, .room g₁ ∉ s.view.active := by
    intro g₁ hmem
    rw [hactive, Multiset.mem_singleton] at hmem
    rcases hx with rfl | rfl | rfl <;> cases hmem
  rw [← hA.identities h] at hanswered
  have hserving {y : Activity} (hsame : Same s s') (hy : y = .build g a ∨ y = .hold a ∨ y = .use a)
      (hactive' : s'.view.active = {y}) : Caching m s' := by
    refine .serving hy hactive' (by rw [hsame.activations, hget]) ?_ ?_ ?_ ?_
    · rw [hsame.activations, hsame.called, hkeys]
    · rw [hsame.published, hsame.called, hpublished]
    · rw [hsame.evictions, hsame.called, hevictions]
    · rw [hsame.answered, hsame.called, hanswered]
  rcases hI.step_view h with hv | ⟨e, hv⟩
  · exact hserving (same_of_view h hv) hx (hv ▸ hactive)
  have he : s'.trace = e :: s.trace := hv.trace
  rcases hv.of_serving (hok e he) hx hactive with ⟨hactive', hquiet⟩ | ⟨hstill, hactive'⟩ |
    ⟨c, inside, outcome, rfl, hactive'⟩
  · exact hserving (same_of_quiet hI.nested h he hquiet hroom) hx hactive'
  · have hsame : Same s s' := (step_reordered h).same fun e' he' => by
      obtain rfl := (List.cons.inj (he.symm.trans he')).1
      exact hstill
    rcases hactive' with hactive' | hactive'
    · exact hserving hsame (.inr (.inl rfl)) hactive'
    · exact hserving hsame (.inr (.inr rfl)) hactive'
  · obtain ⟨hact, hev, hcalled, hpub, hans⟩ := (step_reordered h).of_log he
    replace hans : s'.answered = a :: s.answered := hans
    replace hact : s'.activations = s.activations.moveToEnd g := by
      rw [hact, State.reorder, if_pos hbound, hid.entry g a hget]
    replace hev : s'.evictions = s.evictions := hev
    replace hcalled : s'.called = s.called := hcalled
    replace hpub : s'.published = s.published := hpub
    have ha : s'.identity a = g :=
      (step_identity h (hI.sound.entry_lt g a hget)).trans (hid.entry g a hget)
    refine .idle hactive' ?_ ?_ ?_ ?_
    · rw [hact, OrderedDict.keys_moveToEnd (OrderedDict.mem_iff_exists_get.2 ⟨a, hget⟩), hcalled,
        hkeys]
    · rw [hpub, hcalled, hpublished]
    · rw [hev, hcalled, hevictions]
    · rw [hans, hcalled, List.map_cons, ha, hanswered]

section

variable {history : List GrainId} {c : Choice} {rest : List Frame} {s1 : State}

/-- Where `_activated` stands below. -/
theorem Making.place (hM : Making m history g t s) :
    ∃ i : ℕ, (s.tasks t).stack[i]? = some (.activated g .room) := by
  cases hM with
  | looking hr hs => exact ⟨1, by rw [hs]; rfl⟩
  | evicting hr hs => exact ⟨2, by rw [hs]; rfl⟩
  | @waiting above rest hs => exact ⟨above.length + 1, by rw [hs]; simp⟩
  | roomy hr hs => exact ⟨0, by rw [hs]; rfl⟩

/-- While nothing has been called since, every entry may be evicted. -/
theorem idle_of_room (hI : Reached s) (hactive : s.view.active = {.room g}) {g₀ : GrainId}
    {b : ActId} (hget : s.activations.get g₀ = some b) : s.idle b = true := by
  by_contra hidle
  rw [Bool.not_eq_true] at hidle
  rcases hI.busy_of_not_idle hget hidle with hb | hb | hb <;>
    cases eq_of_active hactive (show _ ∈ s.view.pending from hb) rfl

/-- With room, there is room; without, the entry that was used longest ago is to be evicted. -/
theorem making_looking (hI : Reached s) (hactive : s.view.active = {.room g})
    (hbound : cfg.maxActivations = some (m : ℤ)) (hm : 1 ≤ m) (hmiss : g ∉ kept m history)
    (hkeys : s.activations.keys = kept m history)
    (hevictions : s.evictions = evictions m history)
    (hx : makeRoom cfg s .start .send = some (s1, n))
    (hs' : s' = { s1 with toLoop := s1.toLoop.land t (.activated g .room :: rest) n }) :
    Making m history g t s' := by
  have hland := stack_landed hs'
  have hlen : s.activations.len = (kept m history).length := by
    rw [OrderedDict.len_eq_length_keys, hkeys]
  unfold makeRoom at hx
  rw [hbound] at hx
  simp only [Option.all_some, decide_eq_true_eq, Int.ofNat_lt] at hx
  split_ifs at hx with hroom
  · cases hx
    rw [hlen] at hroom
    refine .roomy (running_of_told hland (told_landed hs' rfl)) hland fun _ _ => ⟨?_, ?_⟩
    · rw [kept_room hmiss hroom, hs', hkeys]
    · rw [evictions_else (.inr hroom.ne), hs', hevictions]
  -- every entry may be evicted, so the first one is
  have hkeyList : s.activations.items.map Prod.fst = (kept m history).reverse := by
    rw [← hkeys, ← OrderedDict.keyList_eq]
    rfl
  have hfull : (kept m history).length = m :=
    length_kept_le.antisymm (by rw [← hlen]; exact Nat.not_lt.1 hroom)
  cases hitems : s.activations.items with
  | nil =>
    rw [hitems] at hkeyList
    have h0 := congrArg List.length hkeyList
    simp at h0
    omega
  | cons e items =>
    have hidle : s.idle e.2 = true :=
      idle_of_room hI hactive (OrderedDict.mem_items.1 (hitems ▸ List.mem_cons_self))
    simp only [hitems, List.find?_cons, hidle] at hx
    rw [hitems, List.map_cons] at hkeyList
    cases hx
    refine .evicting ?_ hland ?_ ?_ hfull ?_
    · rw [hs']
      rfl
    · rw [hs', hkeys]
    · rw [← List.reverse_reverse (kept m history), ← hkeyList, List.reverse_cons,
        List.dropLast_concat]
    · rw [hs', hevictions]

/-- The entry that was used longest ago is taken out. -/
theorem making_evicting {g₀ : GrainId} (hkeys : s.activations.keys = kept m history)
    (hlast : (kept m history).dropLast ++ [g₀] = kept m history)
    (hfull : (kept m history).length = m) (hevictions : s.evictions = evictions m history)
    (hx : deactivate s .makeRoom g₀ .start .send = some (s1, n))
    (hs' : s' = { s1 with
      toLoop := s1.toLoop.land t (.makeRoom .evicting :: .activated g .room :: rest) n }) :
    Making m history g t s' := by
  have hmem : g₀ ∈ s.activations := by
    show g₀ ∈ s.activations.keys
    rw [hkeys, ← hlast]
    exact List.mem_append_right _ (List.mem_singleton_self _)
  obtain ⟨a, hget⟩ := OrderedDict.mem_iff_exists_get.1 hmem
  have hkeys' : (s.activations.pop g₀).keys = (kept m history).dropLast := by
    have hnodup : g₀ ∉ (kept m history).dropLast := by
      have hn : (kept m history).Nodup := nodup_kept
      rw [← hlast, List.nodup_append] at hn
      exact fun h => hn.2.2 g₀ h g₀ (List.mem_singleton_self _) rfl
    rw [OrderedDict.keys_pop, hkeys]
    conv_lhs => rw [← hlast]
    rw [List.erase_append_right _ hnodup, List.erase_cons_head, List.append_nil]
  have hland := stack_landed hs'
  unfold deactivate at hx
  rw [hget] at hx
  cases hx
  obtain ⟨L, heq⟩ := cancel_all_eq (s.heap a).timers (s.take .makeRoom g₀ a)
  rw [heq] at hs'
  have hland' : (s'.tasks t).stack = [.deactivate .makeRoom g₀ (.timers a (s.heap a).timers)] ++
      .makeRoom .evicting :: .activated g .room :: rest := hland
  refine .waiting hland' (.inr ⟨[], g₀, _, rfl, by simp⟩) ?_ hfull ?_
  · rw [hs']
    exact hkeys'
  · rw [hs']
    exact hevictions

/-- When its deactivation is over, it is counted. -/
theorem making_counted {o : Outcome} (hm : 1 ≤ m) (hmiss : g ∉ kept m history)
    (hkeys : s.activations.keys = (kept m history).dropLast)
    (hfull : (kept m history).length = m) (hevictions : s.evictions = evictions m history)
    (hx : makeRoom cfg s .evicting (.got o) = some (s1, n))
    (hs' : s' = { s1 with toLoop := s1.toLoop.land t (.activated g .room :: rest) n }) :
    Making m history g t s' := by
  have hland := stack_landed hs'
  cases o with
  | ok v =>
    cases hx
    refine .roomy (running_of_told hland (told_landed hs' rfl)) hland fun _ _ => ⟨?_, ?_⟩
    · rw [kept_full hm hmiss hfull, hs']
      exact congrArg (List.cons g) hkeys
    · rw [evictions_full hmiss hfull, hs', Nat.cast_succ, ← hevictions]
      rfl
  | error e =>
    cases hx
    exact .roomy (running_of_told hland (told_landed hs' rfl)) hland fun _ h => by cases h

/-- What is above `_make_room` while it waits for a deactivation does not start another one. -/
theorem making_above {above : List Frame} {f : Frame} {top : List Frame}
    (hstack : f :: top = above ++ .makeRoom .evicting :: .activated g .room :: rest)
    (habove : ∃ above' g₀ pc, above = above' ++ [.deactivate .makeRoom g₀ pc] ∧ pc ≠ .start) :
    ¬Turns (above.length + 1) f := by
  obtain ⟨above', g₀, pc, rfl, hpc⟩ := habove
  rintro (⟨hi, -⟩ | ⟨hi, -⟩ | ⟨hi, g₁, rfl⟩)
  · exact absurd hi (Nat.succ_ne_zero _)
  · simp at hi
  · have hnil : above' = [] := by
      rw [List.length_append, List.length_singleton] at hi
      exact List.eq_nil_of_length_eq_zero (by omega)
    subst hnil
    cases hstack
    exact hpc rfl

/-- A deactivation that makes room goes on, or is over. -/
theorem making_waiting {above : List Frame} {f : Frame} {top : List Frame}
    (hs : (s.tasks t).stack = f :: top) (hx : exec cfg s t c f r = some (s1, n))
    (hs' : s' = { s1 with toLoop := s1.toLoop.land t top n })
    (hstack : f :: top = above ++ .makeRoom .evicting :: .activated g .room :: rest)
    (habove : ∃ above' g₀ pc, above = above' ++ [.deactivate .makeRoom g₀ pc] ∧ pc ≠ .start)
    (hkeys : s'.activations.keys = (kept m history).dropLast)
    (hfull : (kept m history).length = m) (hevictions : s'.evictions = evictions m history) :
    Making m history g t s' := by
  obtain ⟨above, g₀, pc, rfl, hpc⟩ := habove
  have hland := stack_landed hs'
  cases above with
  | nil =>
    cases hstack
    refine .waiting hland ?_ hkeys hfull hevictions
    rcases deactivate_frames hx with h | ⟨above, pc', h, hpc'⟩
    · exact .inl h
    · exact .inr ⟨above, g₀, pc', h, hpc'⟩
  | cons f' above =>
    cases hstack
    have hland' : (s'.tasks t).stack = n.frames ++ above ++ [.deactivate .makeRoom g₀ pc] ++
        .makeRoom .evicting :: .activated g .room :: rest := by
      rw [hland]
      simp
    exact .waiting hland' (.inr ⟨_, g₀, pc, rfl, hpc⟩) hkeys hfull hevictions

/-- While the task of a caller runs, only its own segments move it. -/
theorem Making.of_still {r : Resume Outcome} (hM : Making m history g t s)
    (hr : s.running = some (t, r)) (ht : t < s.spawned) (hl : ∀ c, l ≠ .run c)
    (h : step cfg s l = some s') : Making m history g t s' := by
  obtain ⟨hs', hr'⟩ := step_still hr ht hl h
  obtain ⟨L, now, isMine, heq⟩ := step_outside hl h
  have hact : s'.activations = s.activations := by rw [heq]
  have hev : s'.evictions = s.evictions := by rw [heq]
  have hrun : s'.running = s.running := hr'.trans hr.symm
  cases hM with
  | looking hsend hs hkeys hevictions =>
    exact .looking (hrun.trans hsend) (hs'.trans hs) (by rw [hact, hkeys]) (by rw [hev, hevictions])
  | evicting hsend hs hkeys hlast hfull hevictions =>
    exact .evicting (hrun.trans hsend) (hs'.trans hs) (by rw [hact, hkeys]) hlast hfull
      (by rw [hev, hevictions])
  | waiting hs habove hkeys hfull hevictions =>
    exact .waiting (hs'.trans hs) habove (by rw [hact, hkeys]) hfull (by rw [hev, hevictions])
  | roomy hgot hs hroom =>
    refine .roomy (hrun.trans hgot) (hs'.trans hs) fun v hv => ?_
    rw [hact, hev]
    exact hroom v hv

/-- There is room, so the caller publishes what it builds. -/
theorem roomy_publishes {o : Outcome} (hx : activated cfg s t g .room (.got o) = some (s1, n))
    (hok : ∀ e, s1.trace = e :: s.trace → OneByOne s e) :
    ∃ b old, s1.trace = .published g b old :: s.trace := by
  unfold activated at hx
  cases o with
  | ok v =>
    dsimp only at hx
    repeat' split at hx
    all_goals cases hx
    · exact ⟨_, _, rfl⟩
    · exact ⟨_, _, rfl⟩
    · exact (hok _ rfl).elim
  | error e =>
    cases hx
    exact (hok _ rfl).elim

/-- A caller goes on making room until it publishes. -/
theorem Making.step (hM : Making m history g t s) (hI : Reached s)
    (hactive : s.view.active = {.room g}) (hbound : cfg.maxActivations = some (m : ℤ))
    (hm : 1 ≤ m) (hmiss : g ∉ kept m history) (h : Nigrains.step cfg s l = some s')
    (hok : Logs State.trace OneByOne s s')
    (hnot : ∀ b old, s'.trace ≠ .published g b old :: s.trace) : Making m history g t s' := by
  have ht : t < s.spawned := by
    obtain ⟨i, hi⟩ := hM.place
    exact hI.nested.lt_of_mem (List.mem_of_getElem? hi)
  rcases step_at h ht with ⟨c, r, f, top, s1, n, rfl, hr, hs, hx, hs'⟩ | ⟨hother, hages, -⟩
  · cases hM with
    | looking hsend hstack hkeys hevictions =>
      obtain ⟨rfl, rfl⟩ := List.cons.inj (hs.symm.trans hstack)
      cases hr.symm.trans hsend
      exact making_looking hI hactive hbound hm hmiss hkeys hevictions hx hs'
    | evicting hsend hstack hkeys hlast hfull hevictions =>
      obtain ⟨rfl, rfl⟩ := List.cons.inj (hs.symm.trans hstack)
      cases hr.symm.trans hsend
      exact making_evicting hkeys hlast hfull hevictions hx hs'
    | @waiting above rest hstack habove hkeys hfull hevictions =>
      rcases habove with rfl | habove
      · obtain ⟨rfl, rfl⟩ := List.cons.inj (hs.symm.trans hstack)
        cases r with
        | send => cases hx
        | got o => exact making_counted hm hmiss hkeys hfull hevictions hx hs'
      · have hstack' := hs.symm.trans hstack
        obtain ⟨hsame, -⟩ := same_of_elsewhere (t := t) (i := above.length + 1) hI.nested h
          (hI.step_view h) hok hactive (by rw [hstack]; simp) fun r' f' rest' c' _ _ hs'' => by
            obtain ⟨rfl, rfl⟩ := List.cons.inj (hs.symm.trans hs'')
            exact making_above hstack' habove
        exact making_waiting hs hx hs' hstack' habove (by rw [hsame.activations, hkeys]) hfull
          (by rw [hsame.evictions, hevictions])
    | roomy hgot hstack hroom =>
      obtain ⟨rfl, rfl⟩ := List.cons.inj (hs.symm.trans hstack)
      cases hr.symm.trans hgot
      obtain ⟨b, old, hlog⟩ := roomy_publishes hx fun e he => hok e (by rw [hs', he])
      exact (hnot b old (by rw [hs', hlog])).elim
  · cases hM with
    | @waiting above rest hstack habove hkeys hfull hevictions =>
      obtain ⟨hsame, -⟩ := same_of_elsewhere (t := t) (i := above.length + 1) hI.nested h
        (hI.step_view h) hok hactive (by rw [hstack]; simp) fun r' f' rest' c' hl hr _ =>
          (hother c' r' hl hr).elim
      rw [hstack] at hages
      obtain ⟨above', l', hs', habove', hl'⟩ := ages_append hages
      obtain ⟨low, rest', rfl, hlow, -⟩ :=
        ages_append (a := [.makeRoom .evicting, .activated g .room]) hl'
      obtain rfl := ages_eq hlow (by simp)
      refine .waiting hs' ?_ (by rw [hsame.activations, hkeys]) hfull
        (by rw [hsame.evictions, hevictions])
      rcases habove with rfl | ⟨above, g₀, pc, rfl, hpc⟩
      · cases habove'
        exact .inl rfl
      · obtain ⟨above2, last, rfl, -, hlast⟩ := ages_append habove'
        obtain rfl := ages_eq hlast (by simp)
        exact .inr ⟨above2, g₀, pc, rfl, hpc⟩
    | looking hsend hstack hkeys hevictions =>
      exact (Making.looking hsend hstack hkeys hevictions).of_still hsend ht
        (fun c hc => hother c _ hc hsend) h
    | evicting hsend hstack hkeys hlast hfull hevictions =>
      exact (Making.evicting hsend hstack hkeys hlast hfull hevictions).of_still hsend ht
        (fun c hc => hother c _ hc hsend) h
    | roomy hgot hstack hroom =>
      exact (Making.roomy hgot hstack hroom).of_still hgot ht (fun c hc => hother c _ hc hgot) h

/-- Who is about to publish has been told of the room. -/
theorem Making.told (hM : Making m history g t s) (hn : Nested s)
    (hactive : s.view.active = {.room g}) {u : TaskId} {g₁ : GrainId}
    (hs : (s.tasks u).stack = .activated g₁ .room :: rest) :
    t = u ∧ ∃ o, s.running = some (t, .got o) ∧
      ∀ v, o = .ok v → g :: s.activations.keys = kept m (g :: history) ∧
        s.evictions = evictions m (g :: history) := by
  have hplace {i : ℕ} (hi : (s.tasks t).stack[i]? = some (.activated g .room)) : t = u ∧ i = 0 :=
    room_place hn hactive hi (by rw [hs]; rfl)
  cases hM with
  | looking hr hstack =>
    obtain ⟨-, h⟩ := hplace (i := 1) (by rw [hstack]; rfl)
    cases h
  | evicting hr hstack =>
    obtain ⟨-, h⟩ := hplace (i := 2) (by rw [hstack]; rfl)
    cases h
  | @waiting above rest hstack =>
    obtain ⟨-, h⟩ := hplace (i := above.length + 1) (by rw [hstack]; simp)
    cases h
  | roomy hr hstack hroom =>
    exact ⟨(hplace (i := 0) (by rw [hstack]; rfl)).1, _, hr, hroom⟩

/-- A call that has found no activation makes room, and then builds one. -/
theorem caching_making (hbound : cfg.maxActivations = some (m : ℤ)) (hm : 1 ≤ m) (hI : Reached s)
    (hA : OnBuilt s) (hcalled : s.called = g :: history) (hactive : s.view.active = {.room g})
    (hmiss : g ∉ kept m history) (hpublished : s.published = misses m history)
    (hanswered : s.answered.map s.identity = history)
    (hM : Making m history g t s) (h : step cfg s l = some s')
    (hok : Logs State.trace OneByOne s s') : Caching m s' := by
  rw [← hA.identities h] at hanswered
  have hkeep (hcalled' : s'.called = s.called) (hpub : s'.published = s.published)
      (hans : s'.answered = s.answered) (hactive' : s'.view.active = {.room g})
      (hnot : ∀ b old, s'.trace ≠ .published g b old :: s.trace) : Caching m s' :=
    .making (hcalled'.trans hcalled) hactive' hmiss (hpub.trans hpublished)
      (by rw [hans, hanswered]) (hM.step hI hactive hbound hm hmiss h hok hnot)
  rcases hI.step_view h with hv | ⟨e, hv⟩
  · have hsame := same_of_view h hv
    exact hkeep hsame.called hsame.published hsame.answered (hv ▸ hactive) fun b old he =>
      List.cons_ne_self _ _ (he.symm.trans (congrArg Protocol.trace hv))
  have he : s'.trace = e :: s.trace := hv.trace
  obtain ⟨hact, hev, hcalled', hpub, hans⟩ := (step_reordered h).of_log he
  rcases hv.of_room (hok e he) hactive with ⟨b, old, rfl, hactive'⟩ | ⟨hactive', hquiet⟩
  · obtain ⟨u, r, f, rest, c, s1, n, hr, hs, -, -, hlogged⟩ := step_logs h he
    cases hlogged
    obtain ⟨rfl, o, hgot, hroom⟩ := hM.told hI.nested hactive hs
    cases hr.symm.trans hgot
    obtain ⟨hkeys, hevictions⟩ := hroom _ rfl
    replace hact : s'.activations = s.activations.set g b := hact
    replace hev : s'.evictions = s.evictions := hev
    replace hcalled' : s'.called = s.called := hcalled'
    replace hpub : s'.published = g :: s.published := hpub
    replace hans : s'.answered = s.answered := hans
    have hnodup : g ∉ s.activations := by
      have hn : (g :: s.activations.keys).Nodup := by
        rw [hkeys]
        exact nodup_kept
      exact (List.nodup_cons.1 hn).1
    refine .serving (a := b) (.inl rfl) hactive' ?_ ?_ ?_ ?_ ?_
    · rw [hact, OrderedDict.get_set, if_pos rfl]
    · rw [hact, OrderedDict.keys_set hnodup, List.erase_cons_head, hcalled', hcalled, hkeys]
    · rw [hpub, hcalled', hcalled, misses_miss hmiss, hpublished]
    · rw [hev, hcalled', hcalled, hevictions]
    · rw [hans, hcalled', hcalled, hanswered]
  · obtain ⟨hcalled', hpub, hans⟩ : s'.called = s.called ∧ s'.published = s.published ∧
        s'.answered = s.answered := by
      rcases hquiet with hstill | ⟨g₀, b, rfl⟩ | rfl
      · cases e <;> first | exact ⟨hcalled', hpub, hans⟩ | cases hstill
      · exact ⟨hcalled', hpub, hans⟩
      · exact ⟨hcalled', hpub, hans⟩
    refine hkeep hcalled' hpub hans hactive' fun b old he' => ?_
    obtain rfl := (List.cons.inj (he.symm.trans he')).1
    rcases hquiet with hstill | ⟨g₀, b, hne⟩ | hne
    · cases hstill
    · cases hne
    · cases hne

end

/-- One step of a bounded runtime. -/
theorem Caching.step (hC : Caching m s) (hbound : cfg.maxActivations = some (m : ℤ)) (hm : 1 ≤ m)
    (hid : Identified s) (hI : Reached s) (hA : OnBuilt s)
    (h : Nigrains.step cfg s l = some s') (hok : Logs State.trace OneByOne s s') :
    Caching m s' := by
  cases hC with
  | idle hactive hkeys hpublished hevictions hanswered =>
    exact caching_idle hI hA hactive hkeys hpublished hevictions hanswered h hok
  | making hcalled hactive hmiss hpublished hanswered hmaking =>
    exact caching_making hbound hm hI hA hcalled hactive hmiss hpublished hanswered hmaking h hok
  | serving hx hactive hget hkeys hpublished hevictions hanswered =>
    exact caching_serving (by rw [hbound]; rfl) hid hI hA hx hactive hget hkeys hpublished
      hevictions hanswered h hok

/-- While calls come one after another, what a runtime bounded by `m` holds, has built and has
evicted is what a cache of `m` entries would, that gives up what was used longest ago. When no
call is going on, those that were looked up have all been answered, on an activation of the
identity that was called, and the table holds the last `m` of the identities called, distinct and
in the order of their latest call. -/
theorem caches {isMine : Option (GrainId → Bool)} (hcfg : cfg.Honest)
    (hbound : cfg.maxActivations = some (m : ℤ)) (hm : 1 ≤ m)
    (h : Run (Nigrains.step cfg) (Logs State.trace OneByOne) (.init isMine) s)
    (hidle : s.pending = 0) :
    s.answered.map s.identity = s.called ∧
      s.activations.keyList = s.called.reverse.dedup.rtake m ∧
      s.published = misses m s.called ∧ s.evictions = evictions m s.called := by
  have hI := h.invariant (I := fun s => Reached s ∧ Identified s ∧ OnBuilt s ∧ Caching m s)
    ⟨reached_init _, identified_init _, fun a ha => absurd ha List.not_mem_nil, caching_init m _⟩
    fun s l s' hI hl hok => ⟨hI.1.step hl, hI.2.1.step hcfg hI.1 hl, hI.2.2.1.step hI.1 hl,
      hI.2.2.2.step hbound hm hI.2.1 hI.1 hI.2.2.1 hl hok⟩
  have hactive : s.view.active = 0 := by
    show Multiset.filter _ s.pending = 0
    rw [hidle]
    rfl
  cases hI.2.2.2 with
  | idle _ hkeys hpublished hevictions hanswered =>
    refine ⟨hanswered, ?_, hpublished, hevictions⟩
    rw [OrderedDict.keyList_eq, hkeys, reverse_kept]
  | making _ hactive' => exact (Multiset.singleton_ne_zero _ (hactive'.symm.trans hactive)).elim
  | serving _ hactive' => exact (Multiset.singleton_ne_zero _ (hactive'.symm.trans hactive)).elim

end

end

/-- Six calls on a runtime of two. The second call of `counter/a` makes `counter/b` the one that
the call of `counter/c` evicts, and the last call has `counter/b` built again. -/
def leastRecentlyUsed : List Label :=
  let hit := Label.gos 2 ++ [Label.returns] ++ Label.gos 1
  let evict := Label.gos 3 ++ [Label.returns] ++ Label.gos 1 ++ Label.serve
  [.arrive, .resume 0] ++ Label.invoke ⟨"counter", "a"⟩ ++ Label.serve ++
  Label.invoke ⟨"counter", "b"⟩ ++ Label.serve ++ Label.invoke ⟨"counter", "a"⟩ ++ hit ++
  Label.invoke ⟨"counter", "c"⟩ ++ evict ++ Label.invoke ⟨"counter", "a"⟩ ++ hit ++
  Label.invoke ⟨"counter", "b"⟩ ++ evict

/-- What has been called is kept in the order of its use. -/
theorem caches_two : ∃ s : State,
    s.called.reverse = ["a", "b", "a", "c", "a", "b"].map (GrainId.mk "counter") ∧
    s.activations.keyList = ["a", "b"].map (GrainId.mk "counter") ∧
    s.published.reverse = ["a", "b", "c", "b"].map (GrainId.mk "counter") ∧ s.evictions = 2 := by
  obtain ⟨s, hrun, hp⟩ := exists_logged_run (.small (some 2)) none OneByOne leastRecentlyUsed
    (fun s => decide (s.pending = 0 ∧
      s.called.reverse = ["a", "b", "a", "c", "a", "b"].map (GrainId.mk "counter")))
    (by decide +kernel)
  obtain ⟨hidle, hcalled⟩ := of_decide_eq_true hp
  obtain ⟨-, hkeys, hpublished, hevictions⟩ := caches (m := 2) (small_honest _) rfl (by decide)
    hrun hidle
  have hlist := List.reverse_eq_iff.1 hcalled
  refine ⟨s, hcalled, ?_, ?_, ?_⟩
  · rw [hkeys, hcalled]
    decide
  · rw [hpublished, hlist]
    decide
  · rw [hevictions, hlist]
    decide

end Nigrains
