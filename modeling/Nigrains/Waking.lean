import Nigrains.Blocks
import Nigrains.Tickers

/-!
# Whose deadline a tick works under

`create_task` copies the context of the task that starts a timer, which is the task of the call
that has woken the grain. A timer never sets a deadline of its own, so every tick works under
the deadline that was in force for that call, narrowed by the blocks in which filters have awaited
their `next` (`Woken.inForce`), long after the call is over. Two runs in which the grain is woken
under different deadlines therefore differ in every tick, unless a filter on the way has asked for
less than either leaves (`tick_deadline_iff`).
-/

namespace Nigrains

section

variable {cfg : Config} {isMine : Option (GrainId → Bool)} {s s' : State} {t u : TaskId}
  {n : Next Frame Outcome}

/-! ## The deadline of a call on its way -/

/-- What a `with deadline` block has asked for. -/
def Frame.asked : Frame → Option Time
  | .scope asked _ => some asked
  | _ => none

/-- A deadline, narrowed by each of those that are asked for. -/
def earliest (c : Option Time) (asked : List Time) : Option Time :=
  asked.foldr (fun asked c => narrowed c asked) c

theorem narrowedBy_eq_earliest (c : Option Time) (above : List Frame) :
    narrowedBy c above = earliest c (above.filterMap Frame.asked) := by
  induction above with
  | nil => rfl
  | cons f above ih =>
    have hcons : narrowedBy c (f :: above) = f.narrows (narrowedBy c above) := rfl
    rw [hcons, ih]
    cases f <;> rfl

theorem narrowed_inj_iff {c₁ c₂ : Option Time} {d : Time} :
    narrowed c₁ d = narrowed c₂ d ↔ c₁ = c₂ ∨ NoLater (some d) c₁ ∧ NoLater (some d) c₂ := by
  cases c₁ <;> cases c₂ <;> simp only [narrowed, NoLater] <;> grind

theorem noLater_narrowed_iff {c : Option Time} {d d' : Time} :
    NoLater (some d) (narrowed c d') ↔ NoLater (some d) c ∧ d ≤ d' := by
  cases c <;> simp [narrowed, NoLater, and_comm]

theorem noLater_earliest_iff {c : Option Time} {d : Time} {asked : List Time} :
    NoLater (some d) (earliest c asked) ↔ NoLater (some d) c ∧ ∀ d' ∈ asked, d ≤ d' := by
  induction asked with
  | nil => simp [earliest]
  | cons d' asked ih =>
    have hcons : earliest c (d' :: asked) = narrowed (earliest c asked) d' := rfl
    rw [hcons, noLater_narrowed_iff, ih, List.forall_mem_cons, and_assoc, and_comm (b := d ≤ d')]

/-- Narrowed by the same, two deadlines are the same if they were, or if one of those that are
asked for comes no later than either. -/
theorem earliest_eq_iff {c₁ c₂ : Option Time} {asked : List Time} :
    earliest c₁ asked = earliest c₂ asked ↔
      c₁ = c₂ ∨ ∃ d ∈ asked, NoLater (some d) c₁ ∧ NoLater (some d) c₂ := by
  induction asked with
  | nil => simp [earliest]
  | cons d asked ih =>
    have hcons (c) : earliest c (d :: asked) = narrowed (earliest c asked) d := rfl
    rw [hcons, hcons, narrowed_inj_iff, ih, noLater_earliest_iff, noLater_earliest_iff]
    constructor
    · rintro ((heq | ⟨d', hmem, hd'⟩) | ⟨⟨h₁, -⟩, h₂, -⟩)
      · exact .inl heq
      · exact .inr ⟨d', List.mem_cons_of_mem d hmem, hd'⟩
      · exact .inr ⟨d, List.mem_cons_self, h₁, h₂⟩
    · rintro (heq | ⟨d', hmem, h₁, h₂⟩)
      · exact .inl (.inl heq)
      · rcases List.mem_cons.1 hmem with rfl | hmem
        · -- either this one is the earliest, or one that comes before it is no later either
          by_cases hall : ∀ d ∈ asked, d' ≤ d
          · exact .inr ⟨⟨h₁, hall⟩, h₂, hall⟩
          · obtain ⟨d, hd, hlt⟩ : ∃ d ∈ asked, d < d' := by simpa using hall
            have hle : NoLater (some d) (some d') := fun x hx =>
              ⟨d, rfl, hlt.le.trans_eq (Option.some.inj hx)⟩
            exact .inl (.inr ⟨d, hd, hle.trans h₁, hle.trans h₂⟩)
        · exact .inl (.inr ⟨d', hmem, h₁, h₂⟩)

/-! ## The deadline of a timer -/

/-- Timers copy the deadline of the task that starts them. -/
theorem context_startTimers_new (a : ActId) (s : State) (ht : t < s.spawned)
    (hu : s.spawned ≤ u) (hu' : u < (s.startTimers t a).spawned) :
    ((s.startTimers t a).tasks u).context = (s.tasks t).context := by
  unfold State.startTimers at hu' ⊢
  generalize (s.heap a).schedules = schedules at hu' ⊢
  induction schedules generalizing s with
  | nil => exact absurd hu' hu.not_gt
  | cons seconds schedules ih =>
    have ht' : ((s.startTimer t a).tasks t).context = (s.tasks t).context :=
      Loop.context_spawn s.toLoop _ _ ht
    rcases hu.lt_or_eq with hlt | rfl
    · exact (ih (s.startTimer t a) (Nat.lt_succ_of_lt ht) hlt hu').trans ht'
    · -- the timer just started is no longer new, and what follows leaves it alone
      have hkeep : ∀ (l : List Time) (x : State), s.spawned < x.spawned →
          ((l.foldl (fun s _ => s.startTimer t a) x).tasks s.spawned).context =
            (x.tasks s.spawned).context := by
        intro l
        induction l with
        | nil => exact fun _ _ => rfl
        | cons _ l ihl =>
          intro x hx
          exact (ihl (x.startTimer t a) (Nat.lt_succ_of_lt hx)).trans
            (Loop.context_spawn x.toLoop _ _ hx)
      refine (hkeep schedules (s.startTimer t a) (Nat.lt_succ_self _)).trans ?_
      simp [State.startTimer, State.modify, State.spawn, Loop.spawn]

/-- What the coroutine that has activated a grain starts are its timers, under its deadline. -/
theorem hook_starts {c : Choice} {g : GrainId} {a : ActId} {r : Resume Outcome}
    (h : exec cfg s t c (.activated g (.hook a)) r = some (s', n)) (ht : t < s.spawned)
    (hu : s.spawned ≤ u) (hu' : u < s'.spawned) :
    (s'.tasks u).context = (s.tasks t).context ∧ (s'.tasks u).stack = [.tick a .start] := by
  have hstack : (s'.tasks u).stack = [.tick a .start] := by
    obtain ⟨f, hf, hs⟩ := (exec_starts h).stack_new u hu hu'
    obtain rfl : f = .tick a .start := (hf.2 a).2 ⟨g, rfl⟩
    exact hs
  refine ⟨?_, hstack⟩
  rcases r with _ | e | v
  · cases h
  · cases h
    exact absurd hu' hu.not_gt
  · cases h
    exact context_startTimers_new a s ht hu hu'

/-- A call that begins in task `t` under the deadline `c` wakes a grain : the call is still there
when `activate` has returned, and task `u` is one of the timers that are started then. The filters
that have the call await their `next` in blocks that ask for `asked`, or in none. The run goes on
to `s`. -/
inductive Woken (cfg : Config) (isMine : Option (GrainId → Bool)) (c : Option Time)
    (asked : List Time) (u : TaskId) (a : ActId) (s : State) : Prop
  | intro (s₀ s₁ s₂ : State) (t : TaskId) (low mid : List Frame) (call : Call)
    (terminal : Terminal) (g : GrainId) (r : Resume Outcome)
    (reached : Run (step cfg) (fun _ _ => True) (.init isMine) s₀)
    (begins : (s₀.tasks t).stack = callFrame cfg call terminal :: low)
    (context : (s₀.tasks t).context = c)
    (during : Run (step cfg) (fun s _ => low.length < (s.tasks t).stack.length) s₀ s₁)
    (running : s₁.running = some (t, r))
    (returns : (s₁.tasks t).stack = .activated g (.hook a) :: (mid ++ low))
    (carried : ∀ f ∈ mid, f.carries = true ∨ f.asked.isSome = true)
    (blocks : mid.filterMap Frame.asked = asked)
    (activates : step cfg s₁ (.run .go) = some s₂)
    (starts : s₁.spawned ≤ u) (started : u < s₂.spawned)
    (later : Run (step cfg) (fun _ _ => True) s₂ s)

/-- A timer goes on under the deadline it has. -/
theorem Ticker.inForce_step {l : Label} (hC : Clocked s) (hu : u < s.spawned) (ht : Ticker s u)
    (h : Nigrains.step cfg s l = some s') : s'.inForce u 0 = s.inForce u 0 := by
  rcases ht with ⟨a, pc, hlast⟩ | ⟨hnil, -⟩
  · refine inForce_steady hC.reached.nested h ?_
    obtain ⟨above, hs⟩ := List.getLast?_eq_some_iff.1 hlast
    exact steady_iff.2 ⟨above, .tick a pc, [], hs, rfl, rfl⟩
  · have hnil' : (s'.tasks u).stack = [] :=
      List.isEmpty_iff.1 (ended_step h hu (List.isEmpty_iff.2 hnil))
    have hctx : (s'.tasks u).context = (s.tasks u).context :=
      step_context h hu fun r f rest _ hs => by rw [hnil] at hs; cases hs
    unfold State.inForce State.under
    rw [hnil, hnil', hctx]

/-- A tick works under the deadline of the call that has woken its grain, narrowed by the blocks on
its way. -/
theorem Woken.inForce {c : Option Time} {asked : List Time} {a : ActId}
    (h : Woken cfg isMine c asked u a s) : s.inForce u 0 = earliest c asked := by
  obtain ⟨s₀, s₁, s₂, t, low, mid, call, terminal, g, r, hreached, hbegins, rfl, hduring, hrunning,
    hreturns, -, rfl, hactivates, hstarts, hstarted, hlater⟩ := h
  have hC₀ : Clocked s₀ := hreached.clocked
  have hC₁ : Clocked s₁ := hduring.invariant hC₀ fun _ _ _ hC hl _ => hC.step hl
  have ht : t < s₁.spawned := (hC₁.reached.nested.running t r hrunning).1
  -- the call has come as far as the hook under the deadline it began under, but for the blocks
  have hcall : (s₁.tasks t).context =
      earliest (s₀.tasks t).context (mid.filterMap Frame.asked) := by
    have hnests := (hduring.allNest hC₀.reached.nested
      (hreached.allNest (nested_init isMine) (allNest_init isMine)).2).2 t
    rw [hreturns] at hnests
    have hbegin : (s₀.tasks t).context = s₀.under t low.length :=
      context_eq_under_top hbegins (outer_callFrame cfg call terminal)
    have hunder : s₁.under t low.length = beneath (s₁.tasks t).context mid := by
      unfold State.under
      have hlen : (.activated g (.hook a) :: (mid ++ low)).length - low.length =
          mid.length + 1 := by
        simp only [List.length_cons, List.length_append]
        omega
      rw [hreturns, hlen, List.take_succ_cons, List.take_left]
      rfl
    rw [hbegin, ← under_run hC₀.reached.nested hduring, hunder, ← narrowedBy_eq_earliest]
    exact hnests.2.narrowedBy
  -- the timer starts with a copy of it
  have htimer : (s₂.tasks u).context = (s₁.tasks t).context ∧
      (s₂.tasks u).stack = [.tick a .start] := by
    obtain ⟨t', r', f, rest, s₃, n, hr, hs, he, rfl⟩ := run_cases hactivates
    obtain ⟨rfl, rfl⟩ := Prod.mk.inj (Option.some.inj (hrunning.symm.trans hr))
    obtain ⟨rfl, rfl⟩ := List.cons.inj (hreturns.symm.trans hs)
    obtain ⟨hctx, hstack⟩ := hook_starts he ht hstarts (by simpa using hstarted)
    refine ⟨(Loop.context_land _ _ _ _ _).trans hctx, ?_⟩
    rw [Loop.stack_land _ (ht.trans_le hstarts).ne']
    exact hstack
  -- and keeps it
  have hlast : Ticker s₂ u := .inl ⟨a, .start, by rw [htimer.2]; rfl⟩
  have hfirst : s₂.inForce u 0 = (s₂.tasks u).context := inForce_top htimer.2
  refine (hlater.invariant (I := fun x => Clocked x ∧ u < x.spawned ∧ Ticker x u ∧
    x.inForce u 0 = earliest (s₀.tasks t).context (mid.filterMap Frame.asked))
    ⟨hC₁.step hactivates, hstarted, hlast, ?_⟩ ?_).2.2.2
  · rw [hfirst, htimer.1, hcall]
  · rintro x l x' ⟨hC, hu, hticker, hx⟩ hl -
    exact ⟨hC.step hl, hu.trans_le (spawned_le_step hl), hticker.step hC hu hl,
      (hticker.inForce_step hC hu hl).trans hx⟩

/-! ## Calls made from a tick -/

/-- Task `u` runs the code of a tick. -/
def Works (s : State) (u : TaskId) (a : ActId) : Prop :=
  (s.tasks u).stack = [.user (.work a), .tick a .working]

instance {a : ActId} : Decidable (Works s u a) :=
  inferInstanceAs (Decidable (_ = _))

/-- The call that code in task `u` makes. -/
def State.calling (s : State) (u : TaskId) (g : GrainId) (method : String) (args kwargs : Obj) :
    Call :=
  ⟨g, method, args, kwargs, (s.tasks u).context⟩

/-- At the end of the chain, a call is refused because no time is left. -/
def State.refuses (s : State) (u : TaskId) (call : Call) : Prop :=
  chain s u 0 call .dispatch .send =
    some (s, .done (.error (.deadlineExceeded call.grain.str call.method)))

/-- A call is refused when its deadline has passed. -/
theorem refuses_iff {call : Call} : s.refuses u call ↔ overdue call.deadline s.now = true := by
  unfold State.refuses chain overdue
  cases hd : call.deadline with
  | none => simp
  | some d =>
    simp only [sub_nonpos, Option.any_some, decide_eq_true_eq]
    split_ifs with hle
    · simp [hle]
    · simp [hle]

/-- Every later tick works under the same deadline in two runs exactly if what the two callers had
in force comes to the same, narrowed by what the filters on the way asked for : where these asked
for the same in both runs, if the callers' deadlines are the same, or neither comes before one that
was asked for. The calls a tick makes carry that deadline : at each reading of the clock they are
refused in both runs or in neither exactly if it has passed for both or for neither. -/
theorem tick_deadline_iff {cfg₁ cfg₂ : Config} {isMine₁ isMine₂ : Option (GrainId → Bool)}
    {c₁ c₂ : Option Time} {asked₁ asked₂ : List Time} {u₁ u₂ : TaskId} {a₁ a₂ : ActId}
    {s₁ s₂ : State} (h₁ : Woken cfg₁ isMine₁ c₁ asked₁ u₁ a₁ s₁)
    (h₂ : Woken cfg₂ isMine₂ c₂ asked₂ u₂ a₂ s₂) :
    (s₁.inForce u₁ 0 = s₂.inForce u₂ 0 ↔ earliest c₁ asked₁ = earliest c₂ asked₂) ∧
    (asked₁ = asked₂ → (s₁.inForce u₁ 0 = s₂.inForce u₂ 0 ↔
      c₁ = c₂ ∨ ∃ d ∈ asked₁, NoLater (some d) c₁ ∧ NoLater (some d) c₂)) ∧
    ∀ g method args kwargs, Works s₁ u₁ a₁ → Works s₂ u₂ a₂ → s₁.now = s₂.now →
      ((s₁.refuses u₁ (s₁.calling u₁ g method args kwargs) ↔
          s₂.refuses u₂ (s₂.calling u₂ g method args kwargs)) ↔
        overdue (earliest c₁ asked₁) s₁.now = overdue (earliest c₂ asked₂) s₁.now) := by
  rw [h₁.inForce, h₂.inForce]
  refine ⟨.rfl, ?_, fun g method args kwargs hw₁ hw₂ hnow => ?_⟩
  · rintro rfl
    exact earliest_eq_iff
  have hctx₁ : (s₁.tasks u₁).context = earliest c₁ asked₁ :=
    (context_eq_under_top hw₁ fun _ => rfl).trans h₁.inForce
  have hctx₂ : (s₂.tasks u₂).context = earliest c₂ asked₂ :=
    (context_eq_under_top hw₂ fun _ => rfl).trans h₂.inForce
  rw [refuses_iff, refuses_iff]
  simp only [State.calling, hctx₁, hctx₂, ← hnow]
  exact Bool.eq_iff_iff.symm

/-! ## Runs on fixed inputs -/

/-- A caller gives its calls so many seconds and calls a cold identity. -/
def callWithin (seconds : Time) : List Label :=
  [.arrive, .resume 0, .run (.within seconds), .run .go, .run (.call ⟨"counter", "x"⟩ "get" 0 0)]

/-- The grain is built, and asks for a timer in its `activate`. -/
def wakeWithTimer : List Label :=
  Label.gos 6 ++ [.run (.every 5), Label.returns]

/-- A runtime alone, whose filter awaits its `next` within five seconds, if it has one. -/
def Config.narrow (filters : ℕ) : Config :=
  { Config.small none with filters := filters }

/-- The filter hands the call on. -/
def inward (seconds : Time) : ℕ → List Label
  | 0 => []
  | _ + 1 =>
    [.run .go, .run (.nextWithin 5 ⟨⟨"counter", "x"⟩, "get", 0, 0, some seconds⟩), .run .go]

/-- It returns. -/
def outward : ℕ → List Label
  | 0 => []
  | _ + 1 => [.run .go, Label.returns]

/-- What stands between the caller and the dispatch. -/
def wayIn (seconds : Time) : ℕ → List Frame
  | 0 => []
  | _ + 1 => [.scope 5 (some seconds),
    .user (.filter 0 ⟨⟨"counter", "x"⟩, "get", 0, 0, some seconds⟩ .dispatch)]

/-- The call ends, and 20 seconds later the timer ticks. -/
def tickAfter (filters : ℕ) : List Label :=
  Label.gos 2 ++ [Label.returns] ++ Label.gos 2 ++ outward filters ++ [Label.returns] ++
  Label.gos 1 ++ [.run .suspend, .resume 1, .run .go, .clock 20, .resume 1, .run .go]

/-- The run that these make up, with what is to be checked on its way. -/
def checkWoken (filters : ℕ) (seconds : Time) (p : State → Bool) : Bool :=
  let call : Call := ⟨⟨"counter", "x"⟩, "get", 0, 0, some seconds⟩
  let low : List Frame := [.user .block, .scope seconds none, .user .client]
  (execute (step (.narrow filters)) (fun _ _ => true) (.init none) (callWithin seconds)).any
    fun s₀ : State =>
      decide ((s₀.tasks 0).stack = callFrame (.narrow filters) call .dispatch :: low ∧
        (s₀.tasks 0).context = some seconds) &&
      (execute (step (.narrow filters)) (fun s _ => decide (low.length < (s.tasks 0).stack.length))
        s₀ (inward seconds filters ++ wakeWithTimer)).any fun s₁ : State =>
          decide (s₁.running = some (0, .got (.ok (.obj 0))) ∧ (s₁.tasks 0).stack =
            .activated ⟨"counter", "x"⟩ (.hook 0) ::
              (.dispatchHere call (.activating 0) :: .timeout call 0 false ::
                wayIn seconds filters ++ low)) &&
          (step (.narrow filters) s₁ (.run .go)).any fun s₂ : State =>
            decide (s₁.spawned ≤ 1 ∧ 1 < s₂.spawned) &&
            (execute (step (.narrow filters)) (fun _ _ => true) s₂ (tickAfter filters)).any p

theorem exists_woken (filters : ℕ) (seconds : Time) (p : State → Bool)
    (h : checkWoken filters seconds p = true) :
    ∃ s, Woken (.narrow filters) none (some seconds)
      ((wayIn seconds filters).filterMap Frame.asked) 1 0 s ∧ p s = true := by
  unfold checkWoken at h
  obtain ⟨s₀, he₀, h⟩ := (Option.any_eq_true ..).1 h
  obtain ⟨hbegins, h⟩ := Bool.and_eq_true_iff.1 h
  obtain ⟨s₁, he₁, h⟩ := (Option.any_eq_true ..).1 h
  obtain ⟨hreturns, h⟩ := Bool.and_eq_true_iff.1 h
  obtain ⟨s₂, he₂, h⟩ := (Option.any_eq_true ..).1 h
  obtain ⟨hstarts, h⟩ := Bool.and_eq_true_iff.1 h
  obtain ⟨s, he, hp⟩ := (Option.any_eq_true ..).1 h
  obtain ⟨hbegins, hcontext⟩ := of_decide_eq_true hbegins
  obtain ⟨hrunning, hreturns⟩ := of_decide_eq_true hreturns
  obtain ⟨hstarts, hstarted⟩ := of_decide_eq_true hstarts
  refine ⟨s, ⟨s₀, s₁, s₂, 0, _, _, _, .dispatch, _, _, run_of_execute (fun _ _ _ => trivial) he₀,
    hbegins, hcontext, run_of_execute (fun _ _ hc => of_decide_eq_true hc) he₁, hrunning, hreturns,
    ?_, ?_, he₂, hstarts, hstarted, run_of_execute (fun _ _ _ => trivial) he⟩, hp⟩
  · cases filters <;> simp [wayIn, Frame.carries, Frame.asked]
  · rfl

/-- Two runs in which the grain is woken within 10 seconds and within 100 : the same tick, under
two deadlines, unless a filter has asked for five seconds in both. -/
theorem tick_deadline_iff_apart :
    (∃ s₁ s₂ : State, Works s₁ 1 0 ∧ Works s₂ 1 0 ∧ s₁.inForce 1 0 ≠ s₂.inForce 1 0) ∧
    ∃ s₁ s₂ : State, Works s₁ 1 0 ∧ Works s₂ 1 0 ∧ s₁.inForce 1 0 = s₂.inForce 1 0 := by
  constructor
  · obtain ⟨s₁, h₁, hp₁⟩ := exists_woken 0 10 (fun s => decide (Works s 1 0)) (by decide +kernel)
    obtain ⟨s₂, h₂, hp₂⟩ := exists_woken 0 100 (fun s => decide (Works s 1 0)) (by decide +kernel)
    refine ⟨s₁, s₂, of_decide_eq_true hp₁, of_decide_eq_true hp₂, fun heq => ?_⟩
    have hten := (tick_deadline_iff h₁ h₂).1.1 heq
    exact absurd hten (by decide)
  · obtain ⟨s₁, h₁, hp₁⟩ := exists_woken 1 10 (fun s => decide (Works s 1 0)) (by decide +kernel)
    obtain ⟨s₂, h₂, hp₂⟩ := exists_woken 1 100 (fun s => decide (Works s 1 0)) (by decide +kernel)
    exact ⟨s₁, s₂, of_decide_eq_true hp₁, of_decide_eq_true hp₂,
      ((tick_deadline_iff h₁ h₂).2.1 rfl).2 (.inr ⟨5, by decide, by decide, by decide⟩)⟩

/-- The two runs differ only in the caller's deadline. A tick 20 seconds after the call works
under that deadline, and a call it makes is refused in the one run and accepted in the other. -/
theorem wokenInHaste_refuses : ∃ s₁ s₂ : State,
    Woken (.narrow 0) none (some 10) [] 1 0 s₁ ∧ Woken (.narrow 0) none (some 100) [] 1 0 s₂ ∧
    Works s₁ 1 0 ∧ Works s₂ 1 0 ∧ s₁.now = s₂.now ∧
    s₁.inForce 1 0 = some 10 ∧ s₂.inForce 1 0 = some 100 ∧
    s₁.refuses 1 (s₁.calling 1 ⟨"counter", "y"⟩ "get" 0 0) ∧
    ¬s₂.refuses 1 (s₂.calling 1 ⟨"counter", "y"⟩ "get" 0 0) := by
  obtain ⟨s₁, h₁, hp₁⟩ := exists_woken 0 10 (fun s => decide (Works s 1 0 ∧ s.now = 20 ∧
      (s.tasks 1).context = some 10 ∧ s.inForce 1 0 = some 10)) (by decide +kernel)
  obtain ⟨s₂, h₂, hp₂⟩ := exists_woken 0 100 (fun s => decide (Works s 1 0 ∧ s.now = 20 ∧
      (s.tasks 1).context = some 100 ∧ s.inForce 1 0 = some 100)) (by decide +kernel)
  obtain ⟨hw₁, hnow₁, hctx₁, hin₁⟩ := of_decide_eq_true hp₁
  obtain ⟨hw₂, hnow₂, hctx₂, hin₂⟩ := of_decide_eq_true hp₂
  refine ⟨s₁, s₂, h₁, h₂, hw₁, hw₂, hnow₁.trans hnow₂.symm, hin₁, hin₂, ?_, ?_⟩
  · rw [refuses_iff]
    simp only [State.calling, hctx₁, hnow₁]
    decide
  · rw [refuses_iff]
    simp only [State.calling, hctx₂, hnow₂]
    decide

end

end Nigrains
