import Nigrains.Network

/-!
# The identity a call is for

From its caller to its method a call is carried by one frame after another, each with the identity
it has so far : before `_dispatch` the one that was named, after it the one the pool has given it.
`Frame.bears` says of each what it carries, and a step keeps it if callers, filters and the pool
do (`Network.Bears.step`).
-/

namespace Nigrains

/-- What is said of an identity before the dispatch at the bottom of a chain : `pre` if that routes,
and `post` if it does not. -/
def Terminal.takes (pre post : GrainId → Prop) (g : GrainId) : Terminal → Prop
  | .dispatch => pre g
  | .dispatchHere => post g

/-- What is said of the identity of the call a frame carries : `pre` if it is still to be routed,
and `post` if it has been. -/
def Frame.bears (pre post : GrainId → Prop) : Frame → Prop
  | .chain _ call terminal => terminal.takes pre post call.grain
  | .user (.filter _ call terminal) => terminal.takes pre post call.grain
  | .within _ (.next _ call terminal) => terminal.takes pre post call.grain
  | .dispatch call => pre call.grain
  | .deliver call _ => post call.grain
  | .dispatchHere call _ => post call.grain
  | .activated g _ => post g
  | _ => True

section

variable {cfg : Config} {s s' : State} {t : TaskId} {n : Next Frame Outcome} {c : Choice}
  {f f' : Frame} {r : Resume Outcome} {pre post pre' post' : GrainId → Prop}

theorem bears_terminalFrame {call : Call} {terminal : Terminal}
    (h : terminal.takes pre post call.grain) : (terminal.frame call).bears pre post := by
  cases terminal <;> exact h

theorem bears_callFrame {call : Call} {terminal : Terminal}
    (h : terminal.takes pre post call.grain) : (callFrame cfg call terminal).bears pre post := by
  unfold callFrame
  split_ifs
  · exact bears_terminalFrame h
  · exact h

/-- What a block awaits first bears what the block does. -/
theorem bears_inside {seconds : Time} {inside : Inside}
    (h : (Frame.within seconds inside).bears pre post) : inside.frame.bears pre post := by
  cases inside with
  | block => trivial
  | next rest call terminal => exact h

theorem Terminal.takes.mono {terminal : Terminal} {g : GrainId} (h : terminal.takes pre post g)
    (hpre : ∀ g, pre g → pre' g) (hpost : ∀ g, post g → post' g) : terminal.takes pre' post' g := by
  cases terminal with
  | dispatch => exact hpre g h
  | dispatchHere => exact hpost g h

theorem Frame.bears.mono (h : f.bears pre post) (hpre : ∀ g, pre g → pre' g)
    (hpost : ∀ g, post g → post' g) : f.bears pre' post' := by
  unfold Frame.bears at h ⊢
  split at h <;> first | exact h.mono hpre hpost | exact hpre _ h | exact hpost _ h | trivial

theorem bears_of_fresh (h : f.fresh) : f.bears pre post := by
  unfold Frame.fresh at h
  split at h <;> trivial

/-- What a segment leaves bears an identity as its own frame does, if filters and the pool name
such, unless it makes a call. -/
theorem exec_bears (h : exec cfg s t c f r = some (s', n)) (hf : f.bears pre post)
    (hcall : ∀ role g method args kwargs, f = .user role → c ≠ .call g method args kwargs)
    (hnext : ∀ rest call terminal call', f = .user (.filter rest call terminal) →
      c.handed = some call' → terminal.takes pre post call'.grain)
    (hserve : ∀ call, f = .dispatch call → r = .send →
      (s.isMine.any fun isMine => !isMine (route cfg s call.grain)) = false →
      post (route cfg s call.grain)) (hf' : f' ∈ n.frames) : f'.bears pre post := by
  cases exec_passage h
  all_goals
    simp only [Next.frames, List.mem_cons, List.not_mem_nil, or_false] at hf'
    try obtain rfl | rfl := hf'
    all_goals
      try subst hf'
      first
        | trivial
        | exact hf
        | exact bears_terminalFrame hf
        | exact bears_callFrame hf
        | exact bears_inside hf
        | exact (hcall _ _ _ _ _ rfl rfl).elim
        | exact hnext _ _ _ _ rfl rfl
        | exact hserve _ rfl rfl ‹_›

end

/-! ## What a node activates -/

section

variable {cfg : Config} {s s' : State} {t : TaskId} {n : Next Frame Outcome} {c : Choice}
  {f f' : Frame} {r : Resume Outcome} {g : GrainId} {a : ActId}

theorem activations_cancel_all (τs : List TaskId) (s : State) :
    (τs.foldl State.cancel s).activations = s.activations := by
  obtain ⟨L, h⟩ := cancel_all_eq τs s
  rw [h]

theorem activations_startTimers (a : ActId) (s : State) :
    (s.startTimers t a).activations = s.activations := by
  obtain ⟨L, timers, h⟩ := startTimers_eq (t := t) a s
  rw [h]
  rfl

theorem activations_startBackground : (s.startBackground cfg t).activations = s.activations := by
  obtain ⟨L, sweeper, scanner, h⟩ := startBackground_eq cfg s t
  rw [h]

/-- The end of a call moves entries and changes none. -/
theorem get_leave {call : CallId} {b : ActId} {o : Outcome} :
    (s.leave cfg call b o).activations.get g = s.activations.get g := by
  show (if cfg.maxActivations.isSome then s.activations.moveToEnd (s.heap b).grain.id
    else s.activations).get g = _
  split_ifs
  · exact OrderedDict.get_moveToEnd
  · rfl

theorem get_of_pop {g' : GrainId} (h : (s.activations.pop g').get g = some a) :
    s.activations.get g = some a := by
  rw [OrderedDict.get_pop] at h
  split_ifs at h
  exact h

theorem entry_publish {g' : GrainId} {grain : Grain}
    (h : (s.publish g' grain).activations.get g = some a) :
    s.activations.get g = some a ∨ g = g' ∧ a = s.built := by
  replace h : (s.activations.set g' s.built).get g = some a := h
  rw [OrderedDict.get_set] at h
  split_ifs at h with hg
  · exact .inr ⟨hg, (Option.some.inj h).symm⟩
  · exact .inl h

/-- An entry of the table has been there, or has just been built. -/
theorem exec_entry (h : exec cfg s t c f r = some (s', n)) (ha : s'.activations.get g = some a) :
    s.activations.get g = some a ∨
      ∃ grain, build cfg g = some (.ok grain) ∧ a = s.built ∧ s' = s.publish g grain := by
  cases exec_effect h
  case forsakes | unlocks | leaves =>
    rw [get_leave] at ha
    exact .inl ha
  case publishes g' grain o hbuild =>
    refine (entry_publish ha).imp_right ?_
    rintro ⟨rfl, rfl⟩
    exact ⟨grain, hbuild, rfl, rfl⟩
  case failsReading | fails => exact .inl (get_of_pop ha)
  case activates g' a' o => rw [← activations_startTimers a' s]; exact .inl ha
  case takes who g' a' hentry =>
    rw [activations_cancel_all] at ha
    exact .inl (get_of_pop ha)
  case begins =>
    rw [activations_startBackground] at ha
    exact .inl ha
  all_goals exact .inl ha

theorem NodeStep.entry (h : NodeStep cfg s s') (ha : s'.activations.get g = some a) :
    s.activations.get g = some a ∨ ∃ old, s'.trace = .published g a old :: s.trace := by
  cases h with
  | step l h =>
    rcases step_cases h with ⟨t, r, f, rest, c, s1, n, hr, hs, he, rfl⟩ |
      ⟨t, r, f, rest, hr, ht, hs, hf, rfl⟩ | ⟨t, i, call, saved, hr, hs, hdue, rfl⟩ | hw
    · refine (exec_entry he ha).imp_right ?_
      rintro ⟨grain, -, rfl, rfl⟩
      exact ⟨_, rfl⟩
    · exact .inl ha
    · exact .inl ha
    · exact .inl (hw.activations ▸ ha)
  | refuse t call rest hr hs =>
    obtain ⟨turns, h⟩ := refuse_eq cfg s t call.grain rest
    rw [h] at ha
    exact .inl ha
  | arrive call timeout c hr => exact .inl ha

theorem NodeStep.trace (h : NodeStep cfg s s') :
    s'.trace = s.trace ∨ ∃ e t r f rest, s'.trace = e :: s.trace ∧ s.running = some (t, r) ∧
      (s.tasks t).stack = f :: rest ∧ f.Logs r e := by
  cases h with
  | step l h =>
    rcases step_cases h with ⟨t, r, f, rest, c, s1, n, hr, hs, he, rfl⟩ |
      ⟨t, r, f, rest, hr, ht, hs, hf, rfl⟩ | ⟨t, i, call, saved, hr, hs, hdue, rfl⟩ | hw
    · rcases exec_log he with hsame | ⟨e, he', hlogs⟩
      · exact .inl hsame
      · exact .inr ⟨e, t, r, f, rest, he', hr, hs, hlogs⟩
    · exact .inl rfl
    · exact .inl rfl
    · exact .inl hw.trace
  | refuse t call rest hr hs =>
    obtain ⟨turns, h⟩ := refuse_eq cfg s t call.grain rest
    rw [h]
    exact .inl rfl
  | arrive call timeout c hr => exact .inl rfl

theorem logs_published {old : Option ActId} (h : f.Logs r (.published g a old)) :
    f = .activated g .room := by
  cases logged_of_logs h
  rfl

/-- Who publishes an activation has been asked for its identity. -/
theorem NodeStep.published {old : Option ActId} (h : NodeStep cfg s s')
    (hmem : .published g a old ∈ s'.trace) :
    .published g a old ∈ s.trace ∨ ∃ t rest, (s.tasks t).stack = .activated g .room :: rest := by
  rcases h.trace with hsame | ⟨e, t, r, f, rest, htrace, -, hs, hlogs⟩
  · exact .inl (hsame ▸ hmem)
  · rw [htrace, List.mem_cons] at hmem
    rcases hmem with rfl | hmem
    · exact .inr ⟨t, rest, logs_published hlogs ▸ hs⟩
    · exact .inl hmem

theorem NodeStep.mem_trace {e : Event} (h : NodeStep cfg s s') (he : e ∈ s.trace) :
    e ∈ s'.trace := by
  rcases h.trace with hsame | ⟨e', -, -, -, -, htrace, -⟩
  · exact hsame ▸ he
  · exact htrace ▸ List.mem_cons_of_mem _ he

end

/-! ## The calls under way -/

/-- What is said of the identities of the calls under way, on a node and on the errand of a reminder
or of none. -/
structure Network.Bears (pre post : NodeId → Option GrainId → GrainId → Prop) (net : Network) :
    Prop where
  nested : net.AllNested
  frames : ∀ n u d f, (net.nodes n).stands u d f →
    f.bears (pre n (net.errands n u d).reminder) (post n (net.errands n u d).reminder)
  messages : ∀ i < net.sent, post (net.messages i).target (net.messages i).errand.reminder
    (net.messages i).call.grain

variable {D : Deployment} {first : NodeId → Option (List NodeId)} {net net' : Network}
  {pre post pre' post' : NodeId → Option GrainId → GrainId → Prop}

theorem bears_init : (Network.init D first).Bears pre post where
  nested := allNested_init
  frames n u d f h := by cases mem_of_stands h
  messages i hi := by cases hi

/-- A step keeps what is said of identities if it holds of those that callers, scans, filters and
the pool name. -/
theorem Network.Bears.step (hB : net.Bears pre post) (h : NetStep D net net')
    (hpre : ∀ n o g, pre n o g → pre' n o g) (hpost : ∀ n o g, post n o g → post' n o g)
    (hcall : ∀ n g, net'.log = .called n g :: net.log → pre' n none g)
    (hfire : ∀ n reminder, reminder ∈ net.reminders →
      net'.log = .fired n reminder.grain :: net.log → pre' n (some reminder.grain) reminder.grain)
    (hhand : ∀ n (terminal : Terminal) o g g', net'.log = .handed n terminal o g g' :: net.log →
      terminal.takes (pre n o) (post n o) g → terminal.takes (pre' n o) (post' n o) g')
    (hserve : ∀ n o g, ((net.nodes n).isMine.any fun isMine =>
        !isMine (route (D.config n) (net.nodes n) g)) = false → pre n o g →
      post' n o (route (D.config n) (net.nodes n) g))
    (hsend : ∀ n o g owner,
      D.ownerOf n (net.members n) (route (D.config n) (net.nodes n) g) = .ok owner → pre n o g →
      post' owner o (route (D.config n) (net.nodes n) g)) : net'.Bears pre' post' where
  nested := h.nested hB.nested
  frames := by
    refine h.stands (Φ := fun n _ e f => f.bears (pre n e.reminder) (post n e.reminder)) hB.nested
      hB.frames (fun n _ e f hf => hf.mono (hpre n _) (hpost n _)) ?_
      (fun _ _ _ _ => bears_of_fresh) ?_ fun _ _ _ _ _ _ => trivial
    · intro n t r f rest c woken s next hturn hnode hlog
      have hf := hB.frames n t rest.length f (stands_top hturn.stack)
      have hnext : ∀ k call terminal call', f = .user (.filter k call terminal) →
          c.handed = some call' → terminal.takes (pre' n (net.errands n t rest.length).reminder)
            (post' n (net.errands n t rest.length).reminder) call'.grain := by
        rintro k call terminal call' rfl hcall'
        refine hhand n terminal _ call.grain call'.grain (hlog.trans ?_) hf
        cases c <;> cases hcall' <;> rfl
      have hplace : ∀ call, f = .dispatch call → r = .send → ((net.nodes n).isMine.any fun isMine =>
          !isMine (route (D.config n) (net.nodes n) call.grain)) = false →
          post' n (net.errands n t rest.length).reminder
            (route (D.config n) (net.nodes n) call.grain) := by
        rintro call rfl - hmine
        exact hserve n _ call.grain hmine hf
      by_cases hcalls : ∃ role g method args kwargs, f = .user role ∧ c = .call g method args kwargs
      · -- a caller's call is on an errand of its own
        obtain ⟨role, g, method, args, kwargs, rfl, rfl⟩ := hcalls
        obtain ⟨-, rfl⟩ := Prod.mk.inj (Option.some.inj hturn.exec)
        refine ⟨fun f' hf' => ?_, fun f' hf' => ?_⟩
        · obtain rfl : .user role = f' := by simpa [Next.frames] using hf'
          exact hf.mono (hpre n _) (hpost n _)
        · simp only [Next.frames, List.reverse_cons, List.reverse_nil, List.nil_append,
            List.cons_append, List.getElem?_cons_succ, List.getElem?_cons_zero,
            Option.some.injEq] at hf'
          subst hf'
          refine bears_callFrame ?_
          show pre' n woken g
          cases woken with
          | none => exact hcall n g hlog
          | some g' =>
            obtain ⟨reminder, hmem, args', kwargs', rfl, hcall'⟩ := hturn.fires g' rfl
            rw [(Choice.call.inj hcall').1]
            exact hfire n reminder hmem hlog
      · have herrand : f.errand woken (net.errands n t rest.length) c =
            net.errands n t rest.length := by
          unfold Frame.errand
          split
          · exact (hcalls ⟨_, _, _, _, _, rfl, rfl⟩).elim
          · rfl
        have hframes : ∀ f' ∈ next.frames, f'.bears (pre' n (net.errands n t rest.length).reminder)
            (post' n (net.errands n t rest.length).reminder) := fun f' =>
          exec_bears hturn.exec (hf.mono (hpre n _) (hpost n _))
            (fun role g method args kwargs h1 h2 => hcalls ⟨role, g, method, args, kwargs, h1, h2⟩)
            hnext hplace
        rw [herrand]
        exact ⟨fun f' hf' => hframes f' (mem_frames_of_getElem? hf').1,
          fun f' hf' => hframes f' (mem_frames_of_getElem? hf').1⟩
    · exact fun i u hi => hpost _ _ _ (hB.messages i hi)
  messages := by
    refine h.sent (p := fun m => post' m.target m.errand.reminder m.call.grain)
      (fun i hi => hpost _ _ _ (hB.messages i hi)) fun n t call rest owner hsends => ?_
    exact hsend n _ call.grain owner hsends.owned
      (hB.frames n t rest.length _ (stands_top hsends.stack))

end Nigrains
