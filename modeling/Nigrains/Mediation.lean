import Nigrains.Nesting
import Nigrains.Grounded

/-!
# Nothing gets past the filters

The filters of a runtime wrap every call, outermost first, and what they wrap is the dispatch
itself. So on the stack of a task a call that is being served, or sent to another node, stands on
all of the filters in their order, with the innermost next to it, and between them and it, if the
call has a deadline, the timeout of that deadline (`mediated`). This holds of a call that starts
here and of one that another node has placed here, of the calls that filters and hooks make, and
whatever any filter passes on.
-/

namespace Nigrains

/-- The filter with `k` inside it stands at the top of a stack. -/
def Facing (terminal : Terminal) (k : ℕ) (rest : List Frame) : Prop :=
  ∃ call, rest.head? = some (.user (.filter k call terminal))

/-- The filters with `k` and more inside them stand at the top of a stack, in their order, each of
them in the `with deadline` block that it may be awaiting its `next` in. -/
def Behind (filters : ℕ) (terminal : Terminal) : ℕ → List Frame → Prop
  | k, [] => k = filters
  | k, f :: rest => k = filters ∨
    (∃ call, f = .user (.filter k call terminal)) ∧ Behind filters terminal (k + 1) rest ∨
    (∃ asked saved, f = .scope asked saved) ∧ Facing terminal k rest ∧
      Behind filters terminal k rest

/-- A call has come through all filters, and is under its deadline if it has one. -/
def Through (filters : ℕ) (terminal : Terminal) (call : Call) (rest : List Frame) : Prop :=
  call.deadline = none ∧ Behind filters terminal 0 rest ∨
    ∃ reached saved expired outer, rest = .timeout reached saved expired :: outer ∧
      reached.deadline = call.deadline ∧ call.deadline.isSome = true ∧
      Behind filters terminal 0 outer

/-- What the frames that take a call to its grain need of what is under them. -/
def Mediated (filters : ℕ) : Frame → List Frame → Prop
  | .chain k _ terminal, rest => Behind filters terminal k rest
  | .user (.filter k _ terminal), rest => Behind filters terminal (k + 1) rest
  | .within _ (.next k _ terminal), rest => Facing terminal k rest ∧ Behind filters terminal k rest
  | .dispatch call, rest => Through filters .dispatch call rest
  | .user (.transport call _), rest => Through filters .dispatch call rest
  | .dispatchHere call _, rest => ∃ terminal, Through filters terminal call rest
  | .user (.body c a), rest =>
    ∃ call locked outer, rest = .dispatchHere call (.running c a locked) :: outer
  | _, _ => True

section

variable {cfg : Config} {s s' : State} {t : TaskId} {n : Next Frame Outcome} {filters : ℕ}
  {terminal : Terminal} {call : Call} {rest : List Frame}

theorem behind_all (filters : ℕ) (terminal : Terminal) (rest : List Frame) :
    Behind filters terminal filters rest := by
  cases rest with
  | nil => exact rfl
  | cons f rest => exact .inl rfl

theorem Facing.expire {k saved : ℕ} {above : List Frame}
    (h : Facing terminal k (above ++ .timeout call saved false :: rest)) :
    Facing terminal k (above ++ .timeout call saved true :: rest) := by
  obtain ⟨_, hhead⟩ := h
  cases above with
  | nil => cases hhead
  | cons f above => exact ⟨_, hhead⟩

/-- Whether a timeout has expired makes no difference to the filters. -/
theorem Behind.expire {saved : ℕ} : ∀ {k : ℕ} {above : List Frame},
    Behind filters terminal k (above ++ .timeout call saved false :: rest) →
    Behind filters terminal k (above ++ .timeout call saved true :: rest)
  | _, [], h => by
    rcases h with hk | ⟨⟨_, hf⟩, -⟩ | ⟨⟨_, _, hf⟩, -⟩
    · exact .inl hk
    · cases hf
    · cases hf
  | _, _ :: _, h => h.imp_right <| Or.imp (fun ⟨hf, h⟩ => ⟨hf, h.expire⟩)
    fun ⟨hf, hfacing, h⟩ => ⟨hf, hfacing.expire, h.expire⟩

theorem Through.expire {reached : Call} {saved : ℕ} : ∀ {above : List Frame},
    Through filters terminal call (above ++ .timeout reached saved false :: rest) →
    Through filters terminal call (above ++ .timeout reached saved true :: rest)
  | _, .inl ⟨hnone, h⟩ => .inl ⟨hnone, h.expire⟩
  | [], .inr ⟨_, _, _, _, hrest, hsame, hsome, h⟩ => by
    cases hrest
    exact .inr ⟨_, _, _, _, rfl, hsame, hsome, h⟩
  | _ :: _, .inr ⟨_, _, _, _, hrest, hsame, hsome, h⟩ => by
    cases hrest
    exact .inr ⟨_, _, _, _, rfl, hsame, hsome, h.expire⟩

theorem Mediated.expire {reached : Call} {saved : ℕ} {g : Frame} {above : List Frame}
    (h : Mediated filters g (above ++ .timeout reached saved false :: rest)) :
    Mediated filters g (above ++ .timeout reached saved true :: rest) := by
  unfold Mediated at h ⊢
  split at h
  · exact Behind.expire h
  · exact Behind.expire h
  · exact h.imp Facing.expire Behind.expire
  · exact Through.expire h
  · exact Through.expire h
  · exact h.imp fun _ => Through.expire
  · obtain ⟨_, _, _, hrest⟩ := h
    cases above with
    | nil => cases hrest
    | cons f above =>
      cases hrest
      exact ⟨_, _, _, rfl⟩
  · trivial

/-- The dispatch at the end of a chain. -/
theorem mediated_terminalFrame (h : Through filters terminal call rest) :
    Mediated filters (terminal.frame call) rest := by
  cases terminal with
  | dispatch => exact h
  | dispatchHere => exact ⟨.dispatchHere, h⟩

/-- A call that starts has all filters before it, or there are none. -/
theorem mediated_callFrame : Mediated cfg.filters (callFrame cfg call terminal) rest := by
  unfold callFrame
  split_ifs with hfast
  · refine mediated_terminalFrame (.inl ⟨hfast.2, ?_⟩)
    rw [hfast.1]
    exact behind_all ..
  · exact behind_all ..

/-- Every segment leaves frames that have come through what its own frame had. -/
theorem exec_stands {c : Choice} {f : Frame} {r : Resume Outcome}
    (h : exec cfg s t c f r = some (s', n)) : n.Stands (Mediated cfg.filters) f := by
  cases exec_passage h
  case ends => trivial
  case calls => exact fun rest h => ⟨h, mediated_callFrame⟩
  case handsOn call' k call terminal =>
    exact fun rest h => ⟨h, .inr (.inl ⟨⟨call, rfl⟩, h⟩)⟩
  case handsOnWithin seconds call' k call terminal =>
    exact fun rest h => ⟨h, ⟨call, rfl⟩, .inr (.inl ⟨⟨call, rfl⟩, h⟩)⟩
  case blocks seconds inside =>
    cases inside with
    | block => exact fun rest _ => ⟨trivial, trivial⟩
    | next k call terminal => exact fun rest h => ⟨trivial, .inr (.inr ⟨⟨_, _, rfl⟩, h⟩)⟩
  case delivers => exact fun rest _ => mediated_callFrame
  case deliversWithin => exact fun rest _ => ⟨trivial, mediated_callFrame⟩
  case reaches call terminal hnone =>
    exact fun rest h => mediated_terminalFrame (.inl ⟨hnone, h⟩)
  case reachesWithin call terminal deadline hsome =>
    refine fun rest h => ⟨trivial, mediated_terminalFrame (.inr ?_)⟩
    exact ⟨_, _, _, _, rfl, rfl, by simp [hsome], h⟩
  case keeps => exact fun rest h => ⟨.dispatch, h⟩
  case serves => exact fun rest h => ⟨h, _, _, _, rfl⟩
  all_goals
    first
      | exact fun rest h => h
      | exact fun rest h => ⟨h, trivial⟩

/-- The frames of a new task have nothing to come through. -/
theorem mediated_of_new {f : Frame} (h : f.fresh ∨ f.hosted) : Mediated filters f [] := by
  rcases h with h | h
  · unfold Frame.fresh at h
    split at h <;> trivial
  · unfold Frame.hosted at h
    split at h <;> trivial

theorem standing_step {l : Label} (hn : Nested s)
    (hs : ∀ u, Grounded (Mediated cfg.filters) (s.tasks u).stack) (h : step cfg s l = some s')
    (u : TaskId) : Grounded (Mediated cfg.filters) (s'.tasks u).stack := by
  rcases step_cases h with ⟨t, r, f, rest, c, s1, n, hr, hstack, he, rfl⟩ |
    ⟨t, r, f, rest, hr, ht, hstack, -, rfl⟩ | ⟨t, i, call, saved, hr, hstack, hdue, rfl⟩ | hw
  · have hk := exec_keeps he
    refine Grounded.land ?_ (Grounded.keeps hk hs fun f hf => mediated_of_new (.inl hf))
      (exec_stands he) u
    rw [hk.stack_eq t (.inl (hn.running t r hr).1), hstack]
  · rw [stack_runTask]
    exact hs u
  · rw [stack_expireTask]
    split_ifs
    · exact Grounded.set (fun _ _ => trivial) (fun _ _ _ => Mediated.expire) hstack (hs t)
    · exact hs u
  · exact Grounded.keeps hw.keeps hs (fun f hf => mediated_of_new (.inr hf)) u

/-- In every reachable state, every frame has come through what it should have. -/
theorem standing_of_run {isMine : Option (GrainId → Bool)}
    (hrun : Run (step cfg) (fun _ _ => True) (.init isMine) s) :
    Nested s ∧ ∀ u, Grounded (Mediated cfg.filters) (s.tasks u).stack :=
  hrun.invariant (I := fun s => Nested s ∧ ∀ u, Grounded (Mediated cfg.filters) (s.tasks u).stack)
    ⟨nested_init isMine, fun _ => trivial⟩
    fun _ _ _ hs h _ => ⟨nested_step hs.1 h, standing_step hs.1 hs.2 h⟩

end

/-- In every reachable state, whatever has been going on : a method body that has started, and a
call that has been given to a transport, stand on every filter of the runtime, the outermost at
the bottom, and within the deadline of the call if it has one. -/
theorem mediated (cfg : Config) (isMine : Option (GrainId → Bool)) (s : State)
    (hrun : Run (step cfg) (fun _ _ => True) (.init isMine) s) (t : TaskId)
    (above under : List Frame) :
    (∀ c a, (s.tasks t).stack = above ++ .user (.body c a) :: under →
      ∃ call locked outer terminal, under = .dispatchHere call (.running c a locked) :: outer ∧
        Through cfg.filters terminal call outer) ∧
    ∀ call left, (s.tasks t).stack = above ++ .user (.transport call left) :: under →
      Through cfg.filters .dispatch call under := by
  have hstanding := (standing_of_run hrun).2 t
  refine ⟨fun c a hstack => ?_, fun call left hstack => ?_⟩
  · rw [hstack] at hstanding
    obtain ⟨call, locked, outer, rfl⟩ := hstanding.of_append
    have hunder : Grounded (Mediated cfg.filters)
        ((above ++ [.user (.body c a)]) ++
          .dispatchHere call (.running c a locked) :: outer) := by
      simpa using hstanding
    obtain ⟨terminal, hthrough⟩ := hunder.of_append
    exact ⟨call, locked, outer, terminal, rfl, hthrough⟩
  · rw [hstack] at hstanding
    exact hstanding.of_append

/-- A call with a deadline, and two filters that pass it on. -/
def filteredCall : List Label :=
  let call : Call := ⟨⟨"basket", "7"⟩, "get", 0, 0, some 5⟩
  [.arrive, .resume 0, .run (.within 5), .run .go, .run (.call ⟨"basket", "7"⟩ "get" 0 0), .run .go,
    .run (.next call), .run .go, .run (.next call)] ++ Label.gos 6 ++ [.returns] ++ Label.gos 3

/-- It is served behind both. -/
theorem mediated_filteredCall : ∃ s under, Run (step { Config.small none with filters := 2 })
      (fun _ _ => True) (.init none) s ∧
    (s.tasks 0).stack = .user (.body 0 0) :: under ∧
    ∃ call locked outer terminal, under = .dispatchHere call (.running 0 0 locked) :: outer ∧
      Through 2 terminal call outer := by
  obtain ⟨s, hrun, hs⟩ := exists_free_run { Config.small none with filters := 2 } none filteredCall
    (fun s => decide ((s.tasks 0).stack.head? = some (.user (.body 0 0)))) (by decide +kernel)
  obtain ⟨under, hunder⟩ := List.head?_eq_some_iff.1 (of_decide_eq_true hs)
  exact ⟨s, under, hrun, hunder, (mediated _ none s hrun 0 [] under).1 0 0 hunder⟩

end Nigrains
