import Nigrains.Publication

/-!
# The story of an activation

The trace of a runtime is everybody's. `Story` reads off it what it says of one activation : under
which identity it has been entered, how its building has ended, whether it still stands in the
table and how far it has come out of it, and how many wait for it, hold it, call it and tick on it.
A story has an order (`Story.own`), which no event of any run breaks, whatever is lost on the way :
an activation may be overwritten in the table, or popped by another one that failed
(`Event.displaces`), and its callers go on with it. And what the table and the record say of an
activation is what its story says (`story_told`).
-/

namespace Nigrains

/-- How far the building of an activation has come. -/
inductive Growth
  | building
  | live
  | failed
deriving DecidableEq, Repr

/-- How far an activation that has been taken out has come. -/
inductive Leaving
  | staying
  /-- Its timers are awaited. -/
  | down (who : Remover)
  /-- Its `deactivate` runs. -/
  | closing (who : Remover)
  | over
deriving DecidableEq, Repr

/-- What has become of an activation. -/
structure Story where
  /-- The identity it has been entered under. -/
  entered : Option GrainId
  growth : Growth
  /-- Whether it stands in the table. -/
  inside : Bool
  leaving : Leaving
  /-- How many callers wait for it. -/
  waiting : ℕ
  /-- How many have been given it and have not entered it. -/
  holding : ℕ
  calls : ℕ
  ticks : ℕ
deriving DecidableEq, Repr

/-- Nothing has become of it. -/
def Story.blank : Story :=
  ⟨none, .building, false, .staying, 0, 0, 0, 0⟩

/-- The activation an event is of. -/
def Event.subject : Event → Option ActId
  | .found _ a => some a
  | .joined _ a => some a
  | .woke a => some a
  | .unjoined a => some a
  | .published _ a _ => some a
  | .activated _ a => some a
  | .failed _ a _ _ => some a
  | .refused _ a => some a
  | .entered _ a => some a
  | .started _ a => some a
  | .answered _ a _ _ => some a
  | .ticked a => some a
  | .tocked a => some a
  | .taken _ _ a => some a
  | .deactivating _ a => some a
  | .deactivated _ a => some a
  | .abandoned _ a => some a
  | _ => none

/-- The activation that an event of another one puts out of the table. -/
def Event.displaces : Event → Option ActId
  | .published _ _ old => old
  | .failed _ _ _ popped => popped
  | _ => none

/-- Whether a story may go on with an event of its own. -/
def Story.Allows (x : Story) : Event → Prop
  | .published _ _ _ => x = .blank
  | .found g _ => x.inside = true ∧ x.entered = some g ∧ x.growth = .live
  | .joined g _ => x.inside = true ∧ x.entered = some g ∧ x.growth = .building
  | .woke _ => x.growth = .live ∧ 0 < x.waiting
  | .unjoined _ => 0 < x.waiting
  | .activated g _ => x.entered = some g ∧ x.growth = .building
  | .failed g _ _ _ => x.entered = some g ∧ x.growth = .building
  | .refused _ _ => 0 < x.holding
  | .entered _ _ => 0 < x.holding
  | .started _ _ => 0 < x.calls
  | .answered _ _ _ _ => 0 < x.calls
  | .ticked _ => x.entered.isSome = true
  | .tocked _ => 0 < x.ticks
  | .taken who g _ =>
    -- leaving the runtime takes out what is still being built, and what is in use
    x.inside = true ∧ x.entered = some g ∧ x.leaving = .staying ∧ x.holding = 0 ∧
      (who = .aexit ∨ x.growth = .live ∧ x.calls = 0 ∧ x.ticks = 0)
  | .deactivating who _ => x.leaving = .down who
  | .abandoned who _ => x.leaving = .down who
  | .deactivated who _ => x.leaving = .closing who
  | _ => False

instance (x : Story) (e : Event) : Decidable (x.Allows e) := by
  unfold Story.Allows
  split <;> infer_instance

/-- How it goes on. -/
def Story.after (x : Story) : Event → Story
  | .published g _ _ => { x with entered := some g, inside := true }
  | .found _ _ => { x with holding := x.holding + 1 }
  | .joined _ _ => { x with waiting := x.waiting + 1 }
  | .woke _ => { x with waiting := x.waiting - 1, holding := x.holding + 1 }
  | .unjoined _ => { x with waiting := x.waiting - 1 }
  | .activated _ _ => { x with growth := .live, holding := x.holding + 1 }
  | .failed _ _ _ _ => { x with growth := .failed, inside := false }
  | .refused _ _ => { x with holding := x.holding - 1 }
  | .entered _ _ => { x with holding := x.holding - 1, calls := x.calls + 1 }
  | .answered _ _ _ _ => { x with calls := x.calls - 1 }
  | .ticked _ => { x with ticks := x.ticks + 1 }
  | .tocked _ => { x with ticks := x.ticks - 1 }
  | .taken who _ _ => { x with inside := false, leaving := .down who }
  | .deactivating who _ => { x with leaving := .closing who }
  | .abandoned _ _ => { x with leaving := .over }
  | .deactivated _ _ => { x with leaving := .over }
  | _ => x

/-- How the story of `a` goes on. -/
def Story.next (a : ActId) (x : Story) (e : Event) : Option Story :=
  if e.subject = some a then
    if x.Allows e then some (x.after e) else none
  else if e.displaces = some a then
    if x.inside = true then some { x with inside := false } else none
  else some x

/-- The story of `a` by a trace, if it keeps its order. -/
def storyOf (a : ActId) : List Event → Option Story
  | [] => some .blank
  | e :: trace => (storyOf a trace).bind fun x => x.next a e

/-- What is going on, by a story. -/
def Story.count (x : Story) : Activity → ℕ
  | .room _ => 0
  | .build g _ => if x.entered = some g ∧ x.growth = .building then 1 else 0
  | .wait _ => x.waiting
  | .hold _ => x.holding
  | .use _ => x.calls
  | .tick _ => x.ticks
  | .down who _ => if x.leaving = .down who then 1 else 0
  | .closing who _ => if x.leaving = .closing who then 1 else 0

/-- What the protocol says of `a` is what the story says. -/
structure Protocol.Tells (P : Protocol) (a : ActId) (x : Story) : Prop where
  blank : P.built ≤ a → x = .blank
  born : a < P.built → x.entered.isSome = true
  entry : ∀ g, P.entry g = some a ↔ x.inside = true ∧ x.entered = some g
  staying : x.inside = true → x.leaving = .staying
  going : ∀ z, z.about = some a → P.pending.count z = x.count z
  ready : a < P.built → ((P.life a).ready = false ↔ x.growth = .live)
  failed : a < P.built → ((P.life a).failed = true ↔ x.growth = .failed)

section

variable {P P' : Protocol} {e : Event} {a : ActId} {x x' : Story}

/-- What an event ends is of its own activation. -/
theorem Event.subject_of_takes {z : Activity} (h : e.takes = some z) (ha : z.about = some a) :
    e.subject = some a := by
  cases e <;> cases h <;> first | exact ha | cases ha

theorem Event.subject_of_gives {z : Activity} (h : e.gives = some z) (ha : z.about = some a) :
    e.subject = some a := by
  cases e <;> cases h <;> exact ha

/-- A record changes by events of its own. -/
theorem Event.life_of_subject_ne {y : Life} (h : e.subject ≠ some a) : e.life a y = y := by
  cases e
  all_goals
    dsimp only [Event.life, Event.subject] at h ⊢
    try split_ifs with hb
    all_goals first | rfl | exact absurd (by rw [hb]) h

/-- What is going on changes with an event of another activation by nothing. -/
theorem Protocol.Step.count_of_subject_ne (h : Step P e P') (he : e.subject ≠ some a)
    {z : Activity} (hz : z.about = some a) : P'.pending.count z = P.pending.count z := by
  have hc := h.count_pending z
  have ht : Event.counts e.takes z = 0 := if_neg fun ht => he (Event.subject_of_takes ht hz)
  have hg : Event.counts e.gives z = 0 := if_neg fun hg => he (Event.subject_of_gives hg hz)
  omega

/-- An event of its own changes what is going on by what it ends and begins. -/
theorem Story.count_after (h : x.Allows e) {z : Activity} (ha : e.subject = some a)
    (hz : z.about = some a) :
    (x.after e).count z + Event.counts e.takes z = x.count z + Event.counts e.gives z := by
  cases e <;> cases ha <;> simp only [Story.Allows] at h
  all_goals
    cases z <;> cases hz
    all_goals
      simp_all [Story.count, Story.after, Event.counts, Event.takes, Event.gives, Story.blank]
    all_goals first | rfl | omega

/-- Only its own event enters an activation. -/
theorem Protocol.Step.built_of_subject_ne (h : Step P e P') (he : e.subject ≠ some a) :
    a < P'.built ↔ a < P.built := by
  cases h
  case published =>
    have hne : a ≠ P.built := fun ha => he (by rw [ha]; rfl)
    exact Nat.lt_succ_iff.trans ⟨fun hle => lt_of_le_of_ne hle hne, le_of_lt⟩
  all_goals rfl

/-- An activation that stands in the table after an event of another one stood there before. -/
theorem Protocol.Step.entry_of_subject_ne (h : Step P e P') (he : e.subject ≠ some a)
    {g : GrainId} (ha : P'.entry g = some a) : P.entry g = some a := by
  rcases h.entry_of ha with hP | ⟨⟨old, rfl⟩, -⟩
  · exact hP
  · exact absurd rfl he

/-- It stays there, unless the event puts it out. -/
theorem Protocol.Step.entry_of_displaces_ne (h : Step P e P') (he : e.subject ≠ some a)
    (hd : e.displaces ≠ some a) {g : GrainId} (ha : P.entry g = some a) :
    P'.entry g = some a := by
  have hentry := h.entry_eq g
  cases h
  case published | failed =>
    dsimp only [Event.entry] at hentry
    split_ifs at hentry with hg
    · exact absurd (by rw [← hg]; exact ha) hd
    · exact hentry.trans ha
  case taken htaken _ _ =>
    dsimp only [Event.entry] at hentry
    split_ifs at hentry with hg
    · rw [← hg, ha] at htaken
      exact absurd htaken.symm he
    · exact hentry.trans ha
  all_goals exact hentry.trans ha

theorem of_ite_pos {c : Prop} [Decidable c] (h : 0 < if c then 1 else 0) : c := by
  by_contra hc
  rw [if_neg hc] at h
  exact lt_irrefl _ h

namespace Protocol.Tells

variable (hs : P.Sound) (hT : P.Tells a x) (h : Step P e P')

/-- What is going on is in the story. -/
theorem count_pos (hT : P.Tells a x) {z : Activity} (hz : z ∈ P.pending)
    (ha : z.about = some a) : 0 < x.count z := by
  rw [← hT.going z ha]
  exact Multiset.count_pos.2 hz

/-- What stands in the table and is not ready is being built. -/
theorem building_of (hT : P.Tells a x) (ha : a < P.built) (hr : (P.life a).ready = true)
    (hf : (P.life a).failed = false) : x.growth = .building := by
  cases hx : x.growth with
  | building => rfl
  | live =>
    rw [(hT.ready ha).2 hx] at hr
    cases hr
  | failed =>
    rw [(hT.failed ha).2 hx] at hf
    cases hf

include hT h

/-- An event of another activation changes no more of a story than where `a` stands. -/
theorem other {b : Bool} (he : e.subject ≠ some a)
    (hentry : ∀ g, P'.entry g = some a ↔ b = true ∧ x.entered = some g)
    (hb : b = true → x.inside = true) : P'.Tells a { x with inside := b } where
  blank ha := by
    have hblank := hT.blank (not_lt.1 ((h.built_of_subject_ne he).not.1 (not_lt.2 ha)))
    subst hblank
    cases b
    · rfl
    · cases hb rfl
  born ha := hT.born ((h.built_of_subject_ne he).1 ha)
  entry := hentry
  staying hinside := hT.staying (hb hinside)
  going z hz := by
    rw [h.count_of_subject_ne he hz, hT.going z hz]
    cases z <;> rfl
  ready ha := by
    rw [h.life_eq, Event.life_of_subject_ne he]
    exact hT.ready ((h.built_of_subject_ne he).1 ha)
  failed ha := by
    rw [h.life_eq, Event.life_of_subject_ne he]
    exact hT.failed ((h.built_of_subject_ne he).1 ha)

/-- An event that is not about `a` leaves its story. -/
theorem untouched (he : e.subject ≠ some a) (hd : e.displaces ≠ some a) : P'.Tells a x :=
  hT.other h he (fun g => Iff.trans
    ⟨h.entry_of_subject_ne he, h.entry_of_displaces_ne he hd⟩ (hT.entry g)) id

/-- What is put out of the table stood there, and stands there no more. -/
theorem displaced (hs : P.Sound) (he : e.subject ≠ some a) (hd : e.displaces = some a) :
    x.inside = true ∧ P'.Tells a { x with inside := false } := by
  obtain ⟨g, hg, hg'⟩ : ∃ g, P.entry g = some a ∧ P'.entry g ≠ some a := by
    have hentry := h.entry_eq
    cases h
    case published M g hp =>
      refine ⟨g, hd, fun h' => he ?_⟩
      rw [hentry, Event.entry, if_pos rfl] at h'
      exact h'
    case failed M g b x hp =>
      refine ⟨g, hd, fun h' => ?_⟩
      rw [hentry, Event.entry, if_pos rfl] at h'
      cases h'
    all_goals cases hd
  have hin := ((hT.entry g).1 hg).1
  refine ⟨hin, hT.other h he (fun g' => ?_) fun hb => hin⟩
  refine iff_of_false (fun h' => hg' ?_) (by simp)
  obtain rfl := hs.entry_inj g g' a hg (h.entry_of_subject_ne he h')
  exact h'

/-- An event of an activation comes where its story allows it. -/
theorem allowed (hs : P.Sound) (he : e.subject = some a) : x.Allows e := by
  have hpos := fun {z : Activity} (hz : e.takes = some z) (ha : z.about = some a) =>
    hT.count_pos (h.takes_mem hz) ha
  cases h
  case published M g hp =>
    cases he
    exact hT.blank le_rfl
  case found g b hentry hr =>
    cases he
    obtain ⟨hin, hg⟩ := (hT.entry g).1 hentry
    exact ⟨hin, hg, (hT.ready (hs.entry_lt g a hentry)).1 hr⟩
  case joined g b hentry hr =>
    cases he
    obtain ⟨hin, hg⟩ := (hT.entry g).1 hentry
    exact ⟨hin, hg, hT.building_of (hs.entry_lt g a hentry) hr (hs.entry_live g a hentry)⟩
  case woke M b hp hset hf =>
    cases he
    have hlt := hs.about_lt (.wait a) (by rw [hp]; exact Multiset.mem_cons_self _ _) a rfl
    refine ⟨(hT.ready hlt).1 ?_, hpos rfl rfl⟩
    rcases hs.staged a hlt with hst | hst | hst
    · rw [hst.2.2.1] at hset
      cases hset
    · exact hst.2.1
    · rw [hst.2.2.2] at hf
      cases hf
  case started c b hp =>
    cases he
    exact hT.count_pos hp rfl
  case ticked b ha =>
    cases he
    exact hT.born ha
  case taken g b who hentry hidle hhold =>
    cases he
    obtain ⟨hin, hg⟩ := (hT.entry g).1 hentry
    have hlt := hs.entry_lt g a hentry
    have hnone : x.holding = 0 :=
      (hT.going (.hold a) rfl).symm.trans (Multiset.count_eq_zero.2 (hhold a))
    refine ⟨hin, hg, hT.staying hin, hnone, ?_⟩
    by_cases hwho : who = .aexit
    · exact .inl hwho
    · obtain ⟨hzero, hr⟩ := hidle hwho
      have hcalls : P.pending.count (.use a) = x.calls := hT.going _ rfl
      have hticks : P.pending.count (.tick a) = x.ticks := hT.going _ rfl
      have hflight := hs.inFlight a
      exact .inr ⟨(hT.ready hlt).1 hr, by omega, by omega⟩
  case activated M g b hp =>
    cases he
    exact of_ite_pos (hpos rfl rfl)
  case failed M g b exc hp =>
    cases he
    exact of_ite_pos (hpos rfl rfl)
  case deactivating M who b hp =>
    cases he
    exact of_ite_pos (hpos rfl rfl)
  case abandoned M who b hp =>
    cases he
    exact of_ite_pos (hpos rfl rfl)
  case deactivated M who b hp =>
    cases he
    exact of_ite_pos (hpos rfl rfl)
  case unjoined | refused | entered | answered | tocked =>
    cases he
    exact hpos rfl rfl
  all_goals cases he

/-- What an event of an activation begins and ends, its story counts. -/
theorem going_after (he : e.subject = some a) (hx : x.Allows e) {z : Activity}
    (hz : z.about = some a) : P'.pending.count z = (x.after e).count z := by
  have hc := h.count_pending z
  have hafter := Story.count_after hx he hz
  rw [hT.going z hz] at hc
  omega

/-- A story begins when its activation is entered into the table. -/
theorem begun (hs : P.Sound) {g : GrainId} {old : Option ActId} (he : e = .published g a old) :
    P'.Tells a (x.after e) := by
  subst he
  have hx := hT.allowed h hs rfl
  have hgoing := fun {z : Activity} => hT.going_after (z := z) h rfl hx
  have hbuilt := h.built_eq
  have hlife := h.life_eq a
  have hentry := h.entry_eq
  obtain rfl : a = P.built := by
    cases h
    rfl
  obtain rfl : x = .blank := hx
  refine ⟨fun ha => ?_, fun _ => rfl, fun g' => ?_, fun _ => rfl, fun _ => hgoing,
    fun _ => ?_, fun _ => ?_⟩
  · rw [hbuilt] at ha
    exact absurd ha (Nat.not_succ_le_self _)
  · rw [hentry, Event.entry]
    split_ifs with hg
    · simp [Story.after, hg]
    · refine iff_of_false (fun h' => lt_irrefl _ (hs.entry_lt g' _ h')) ?_
      rintro ⟨-, h'⟩
      exact hg (Option.some.inj h').symm
  · simp [hlife, Event.life, Life.new, Story.after, Story.blank]
  · simp [hlife, Event.life, Life.new, Story.after, Story.blank]

/-- It goes on with the events that come later. -/
theorem goes_on (hs : P.Sound) (he : e.subject = some a)
    (hlater : ∀ g old, e ≠ .published g a old) : P'.Tells a (x.after e) := by
  have hx := hT.allowed h hs he
  have hlt : a < P.built := by
    by_contra hge
    obtain rfl := hT.blank (not_lt.1 hge)
    cases e <;> cases he <;> simp [Story.Allows, Story.blank] at hx
    exact hlater _ _ rfl
  have hbuilt : P'.built = P.built := by
    rw [h.built_eq]
    cases e <;> first | rfl | (cases he; exact absurd rfl (hlater _ _))
  refine ⟨fun ha => absurd hlt (not_lt.2 (hbuilt ▸ ha)), fun _ => ?_, fun g => ?_, ?_,
    fun _ => hT.going_after h he hx, fun _ => ?_, fun _ => ?_⟩
  · have hborn := hT.born hlt
    cases e <;> cases he <;> first | exact hborn | rfl
  · have hT' := hT.entry g
    rw [h.entry_eq]
    -- what leaves the table stood there under the identity of the event
    have hout {g'} (hentered : x.entered = some g') (hg : ¬ g = g') : P.entry g ≠ some a :=
      fun h' => hg (Option.some.inj ((hT'.1 h').2.symm.trans hentered))
    cases e <;> cases he
    case failed.refl =>
      dsimp only [Event.entry, Story.after]
      split_ifs with hg
      · simp
      · simpa using hout hx.1 hg
    case taken.refl =>
      dsimp only [Event.entry, Story.after]
      split_ifs with hg
      · simp
      · simpa using hout hx.2.1 hg
    case published.refl => exact absurd rfl (hlater _ _)
    all_goals exact hT'
  · have hstaying := hT.staying
    cases e <;> cases he <;> simp_all [Story.Allows, Story.after]
  · have hready := hT.ready hlt
    rw [h.life_eq]
    cases e <;> cases he <;> simp_all [Event.life, Story.Allows, Story.after]
  · have hfailed := hT.failed hlt
    rw [h.life_eq]
    cases e <;> cases he <;> simp_all [Event.life, Story.Allows, Story.after]

/-- Each event of a run is the next one of the story of `a`, or none of it. -/
theorem step (hs : P.Sound) : ∃ x', x.next a e = some x' ∧ P'.Tells a x' := by
  unfold Story.next
  by_cases he : e.subject = some a
  · rw [if_pos he, if_pos (hT.allowed h hs he)]
    by_cases hpublished : ∃ g old, e = .published g a old
    · obtain ⟨g, old, hpublished⟩ := hpublished
      exact ⟨_, rfl, hT.begun h hs hpublished⟩
    · exact ⟨_, rfl, hT.goes_on h hs he fun g old h' => hpublished ⟨g, old, h'⟩⟩
  · rw [if_neg he]
    by_cases hd : e.displaces = some a
    · obtain ⟨hin, hT'⟩ := hT.displaced h hs he hd
      rw [if_pos hd, if_pos hin]
      exact ⟨_, rfl, hT'⟩
    · rw [if_neg hd]
      exact ⟨x, rfl, hT.untouched h he hd⟩

end Protocol.Tells

theorem tells_init (a : ActId) : Protocol.init.Tells a .blank where
  blank _ := rfl
  born h := absurd h (Nat.not_lt_zero _)
  entry g := by simp [Protocol.init, Story.blank]
  staying _ := rfl
  going z _ := by cases z <;> rfl
  ready h := absurd h (Nat.not_lt_zero _)
  failed h := absurd h (Nat.not_lt_zero _)

end

/-- In every run, whatever its schedule, the trace tells a story of each activation. By it the
activation stands in the table under one identity or nowhere, its record says how its building has
ended and counts its calls and its ticks. -/
theorem story_told {cfg : Config} {ok : State → State → Prop} {isMine : Option (GrainId → Bool)}
    {s : State} (h : Run (step cfg) ok (.init isMine) s) (a : ActId) :
    ∃ x, storyOf a s.trace = some x ∧
      (∀ g, s.activations.get g = some a ↔ x.inside = true ∧ x.entered = some g) ∧
      (s.heap a).inFlight = x.calls + x.ticks ∧
      (a < s.built → ((s.heap a).ready = false ↔ x.growth = .live) ∧
        ((s.heap a).failure.isSome = true ↔ x.growth = .failed)) := by
  have hI := h.invariant
    (I := fun s => Reached s ∧ ∃ x, storyOf a s.trace = some x ∧ s.view.Tells a x)
    ⟨reached_init _, .blank, rfl, view_init isMine ▸ tells_init a⟩ ?_
  · obtain ⟨hI, x, hx, hT⟩ := hI
    refine ⟨x, hx, hT.entry, ?_, fun ha => ⟨hT.ready ha, hT.failed ha⟩⟩
    have hcalls : s.pending.count (.use a) = x.calls := hT.going _ rfl
    have hticks : s.pending.count (.tick a) = x.ticks := hT.going _ rfl
    have hflight := hI.sound.inFlight a
    rw [← hcalls, ← hticks]
    exact hflight
  · rintro s l s' ⟨hI, x, hx, hT⟩ hl -
    refine ⟨hI.step hl, ?_⟩
    rcases hI.step_view hl with hv | ⟨e, hv⟩
    · have htrace : s'.trace = s.trace := congrArg Protocol.trace hv
      exact ⟨x, htrace ▸ hx, hv ▸ hT⟩
    · obtain ⟨x', hx', hT'⟩ := hT.step hv hI.sound
      have htrace : s'.trace = e :: s.trace := hv.trace
      refine ⟨x', ?_, hT'⟩
      rw [htrace, storyOf, hx]
      exact hx'

/-- An activation that is overwritten while it is being built is built on, outside the table. -/
theorem story_told_herd : ∃ s : State,
    storyOf 1 s.trace = some ⟨some ⟨"counter", "y"⟩, .building, false, .staying, 0, 0, 0, 0⟩ ∧
    ∃ x, storyOf 1 s.trace = some x ∧
      (∀ g, s.activations.get g = some 1 ↔ x.inside = true ∧ x.entered = some g) ∧
      (s.heap 1).inFlight = x.calls + x.ticks ∧
      (1 < s.built → ((s.heap 1).ready = false ↔ x.growth = .live) ∧
        ((s.heap 1).failure.isSome = true ↔ x.growth = .failed)) := by
  obtain ⟨s, hrun, hp⟩ := exists_free_run (.small (some 1)) none herd
    (fun s => decide (storyOf 1 s.trace =
      some ⟨some ⟨"counter", "y"⟩, .building, false, .staying, 0, 0, 0, 0⟩)) (by decide +kernel)
  exact ⟨s, of_decide_eq_true hp, story_told hrun 1⟩

end Nigrains
