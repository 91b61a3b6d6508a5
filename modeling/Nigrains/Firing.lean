import Nigrains.Identities
import Nigrains.Publication

/-!
# Whom a reminder wakes

A reminder is written down under the identity its activation was entered under, which the pool of
its kind has already given it. `fire_due_reminders` calls that identity like any other, so the pool
is asked again : a kind without one gives back the identity it is asked for (`route_eq_iff`), and a
pooled kind never does. In a run that fires reminders of kinds without a pool, `on_reminder` runs on
an activation of the identity that asked (`wakes_asker`).
-/

namespace Nigrains

/-! ## The identity an activation was entered under -/

/-- An activation has been published under an identity. -/
def State.filed (s : State) (g : GrainId) (a : ActId) : Prop :=
  ∃ old, .published g a old ∈ s.trace

/-- The activation a frame works on was published under the identity the frame is for. -/
def Frame.files (s : State) : Frame → Prop
  | .activated g (.waiting a) => s.filed g a
  | .activated g (.reading a) => s.filed g a
  | .activated g (.hook a) => s.filed g a
  | .dispatchHere call (.entered _ a) => s.filed call.grain a
  | .dispatchHere call (.queued _ a) => s.filed call.grain a
  | .dispatchHere call (.running _ a _) => s.filed call.grain a
  | _ => True

section

variable {cfg : Config} {s s' : State} {t : TaskId} {n : Next Frame Outcome} {c : Choice}
  {f f' : Frame} {r : Resume Outcome} {g : GrainId} {a : ActId}

theorem files_of_called (h : f.called) : f.files s := by
  unfold Frame.files
  unfold Frame.called Frame.entry at h
  split <;> simp_all

theorem files_of_new (h : f.fresh ∨ f.hosted) : f.files s := by
  unfold Frame.fresh Frame.hosted at h
  unfold Frame.files
  split <;> simp_all

theorem Frame.files.mono (h : f.files s) (hfiled : ∀ g a, s.filed g a → s'.filed g a) :
    f.files s' := by
  unfold Frame.files at h ⊢
  split at h <;> first | trivial | exact hfiled _ _ h

/-- Every activation that the table, a call or its caller has was published under the identity it
is had for. -/
structure Filing (s : State) : Prop where
  frames : ∀ u f, f ∈ (s.tasks u).stack → f.files s
  entry : ∀ g a, s.activations.get g = some a → s.filed g a
  given : ∀ t call c rest a, s.running = some (t, .got (.ok (.activation a))) →
    (s.tasks t).stack = .dispatchHere call (.activating c) :: rest → s.filed call.grain a

theorem filing_init (isMine : Option (GrainId → Bool)) : Filing (.init isMine) where
  frames _ _ h := by cases h
  entry _ _ h := by cases h
  given _ _ _ _ _ h := by cases h

theorem exec_filed (h : exec cfg s t c f r = some (s', n)) (ha : s.filed g a) : s'.filed g a := by
  obtain ⟨old, hold⟩ := ha
  rcases exec_log h with hsame | ⟨e, htrace, -⟩
  · exact ⟨old, hsame ▸ hold⟩
  · exact ⟨old, htrace ▸ List.mem_cons_of_mem _ hold⟩

theorem activated_files {pc : ActivatedAt} (hf : Frame.files s (.activated g pc))
    (hentry : ∀ a, s.activations.get g = some a → s.filed g a)
    (hfiled : ∀ a, s.filed g a → s'.filed g a)
    (h : activated cfg s t g pc r = some (s', n)) :
    (∀ f' ∈ n.frames, f'.files s') ∧
      ∀ a, n = .done (.ok (.activation a)) → s'.filed g a := by
  unfold activated at h
  split at h
  · split at h
    · next b hb =>
      have hb' := hfiled b (hentry b hb)
      split_ifs at h <;> cases h
      · exact ⟨by simpa [Next.frames, Frame.files] using hb', fun _ h => by cases h⟩
      · exact ⟨by simp [Next.frames], by rintro _ ⟨⟩; exact hb'⟩
    · split at h <;> cases h
      · exact ⟨by simp [Next.frames], fun _ h => by cases h⟩
      · exact ⟨by simp [Next.frames, Frame.files], fun _ h => by cases h⟩
  · next b =>
    have hb' := hfiled b hf
    split at h
    · cases h
      exact ⟨by simp [Next.frames], by rintro _ ⟨⟩; exact hb'⟩
    · split_ifs at h <;> cases h
      · exact ⟨by simp [Next.frames, Frame.files], fun _ h => by cases h⟩
      · exact ⟨by simp [Next.frames], fun _ h => by cases h⟩
  · cases h
    exact ⟨by simp [Next.frames], fun _ h => by cases h⟩
  · split at h
    · next grain hg =>
      have hnew : (s.publish g grain).filed g s.built := ⟨_, List.mem_cons_self⟩
      split_ifs at h <;> cases h
      · exact ⟨by simpa [Next.frames, Frame.files] using hnew, fun _ h => by cases h⟩
      · exact ⟨by simpa [Next.frames, Frame.files] using hnew, fun _ h => by cases h⟩
    · cases h
      exact ⟨by simp [Next.frames], fun _ h => by cases h⟩
    · cases h
  · cases h
    exact ⟨by simp [Next.frames], fun _ h => by cases h⟩
  · cases h
    exact ⟨by simpa [Next.frames, Frame.files] using hf, fun _ h => by cases h⟩
  · cases h
    exact ⟨by simp [Next.frames], fun _ h => by cases h⟩
  · next b _ =>
    cases h
    exact ⟨by simp [Next.frames], by rintro _ ⟨⟩; exact hfiled b hf⟩
  · cases h
    exact ⟨by simp [Next.frames], fun _ h => by cases h⟩
  · cases h

theorem dispatchHere_files {call : Call} {pc : DispatchAt}
    (hf : Frame.files s (.dispatchHere call pc))
    (hgiven : ∀ c a, pc = .activating c → r = .got (.ok (.activation a)) → s.filed call.grain a)
    (hfiled : ∀ a, s.filed call.grain a → s'.filed call.grain a)
    (h : dispatchHere cfg s call pc r = some (s', n)) : ∀ f' ∈ n.frames, f'.files s' := by
  unfold dispatchHere interrupted at h
  split at h
  · cases h
    simp [Next.frames, Frame.files]
  · split at h <;> cases h
    simp [Next.frames]
  · next c a =>
    have ha := hfiled a (hgiven c a rfl rfl)
    split_ifs at h <;> cases h
    · simpa [Next.frames, Frame.files] using ha
    · simp [Next.frames]
  · cases h
    simp [Next.frames]
  · next c a =>
    have ha := hfiled a hf
    split_ifs at h <;> cases h
    · simpa [Next.frames, Frame.files] using ha
    · simpa [Next.frames, Frame.files] using ha
    · simpa [Next.frames, Frame.files] using ha
  · next c a =>
    have ha := hfiled a hf
    cases h
    simpa [Next.frames, Frame.files] using ha
  all_goals
    cases h
    try simp [Next.frames]

theorem exec_files {rest : List Frame} (hF : Filing s) (hr : s.running = some (t, r))
    (hs : (s.tasks t).stack = f :: rest) (h : exec cfg s t c f r = some (s', n))
    (hf' : f' ∈ n.frames) : f'.files s' := by
  have hf : f.files s := hF.frames t f (by rw [hs]; exact List.mem_cons_self)
  rcases exec_left h hf' with he | hcalled
  · cases f
    case activated g pc =>
      exact (activated_files hf (hF.entry g) (fun a => exec_filed h) h).1 f' hf'
    case dispatchHere call pc =>
      refine dispatchHere_files hf (fun c a hpc hgot => ?_) (fun a => exec_filed h) h f' hf'
      subst hpc hgot
      exact hF.given t call c rest a hr hs
    all_goals
      cases f' <;> simp [Frame.entry] at he
      all_goals trivial
  · exact files_of_called hcalled

/-- Whoever a call awaits its activation from has been asked for the identity of the call. -/
theorem below_activating {call : Call} {c₀ : CallId}
    (h : below (some (.dispatchHere call (.activating c₀))) f = true) :
    ∃ pc, f = .activated call.grain pc := by
  cases awaits_of_below h
  exact ⟨_, rfl⟩

namespace Filing

variable (hF : Filing s) (hn : Nested s) (h : NodeStep cfg s s')

include h in
theorem filed_mono (ha : s.filed g a) : s'.filed g a := by
  obtain ⟨old, hold⟩ := ha
  exact ⟨old, h.mem_trace hold⟩

include hF h in
theorem step_frames : ∀ u f, f ∈ (s'.tasks u).stack → f.files s' := by
  have hkeep : ∀ (f : Frame), f.files s → f.files s' := fun f hf =>
    hf.mono fun g a => filed_mono h
  cases h with
  | step l h =>
    refine frames_step (Φ := fun _ f => f.files s) (Ψ := fun _ f => f.files s') h hF.frames
      (fun _ f => hkeep f) ?_ (fun _ f hf => files_of_new (.inr hf)) fun _ _ _ _ _ => trivial
    rintro t r f rest c s1 n hr hs he rfl
    refine ⟨fun f' hf' => ?_, fun _ f' _ _ hf' => files_of_new (.inl hf'.1)⟩
    have hfiles : f'.files s1 := exec_files hF hr hs he hf'
    exact hfiles.mono fun _ _ h => h
  | refuse t call rest hr hs =>
    intro u f hf
    rw [stack_refuse] at hf
    refine hkeep f (hF.frames u f ?_)
    split_ifs at hf with hut
    · rw [hut, hs]
      exact List.mem_cons_of_mem _ hf
    · exact hf
  | arrive call timeout c hr =>
    intro u f hf
    by_cases hu : u = s.spawned
    · subst hu
      obtain rfl : f = .deliver call timeout := by simpa [State.spawn, Loop.spawn] using hf
      trivial
    · refine hkeep f (hF.frames u f ?_)
      simpa [State.spawn, Loop.spawn, Function.update_of_ne hu] using hf

include hF h in
theorem step_entry (ha : s'.activations.get g = some a) : s'.filed g a := by
  rcases h.entry ha with hold | ⟨old, htrace⟩
  · exact filed_mono h (hF.entry g a hold)
  · exact ⟨old, htrace ▸ List.mem_cons_self⟩

include hF hn h in
theorem step_given {call : Call} {c₀ : CallId} {rest₀ : List Frame}
    (hr' : s'.running = some (t, .got (.ok (.activation a))))
    (hs' : (s'.tasks t).stack = .dispatchHere call (.activating c₀) :: rest₀) :
    s'.filed call.grain a := by
  cases h with
  | step l h =>
    rcases given_cases hn h hr' hs' with ⟨r, f, c, s1, hr, hs, hb, he, rfl⟩ | ⟨-, ho⟩ |
      ⟨hw, hlt, hr, hs⟩
    · obtain ⟨pc, rfl⟩ := below_activating hb
      have hf := hF.frames t (.activated call.grain pc) (by rw [hs]; exact List.mem_cons_self)
      exact (activated_files hf (hF.entry _) (fun a => exec_filed he) he).2 a rfl
    · cases ho
    · exact filed_mono (.step l h) (hF.given t call c₀ rest₀ a hr hs)
  | refuse t call rest hr hs =>
    obtain ⟨turns, he⟩ := refuse_eq cfg s t call.grain rest
    rw [he] at hr'
    cases rest <;> cases hr'
  | arrive call timeout c hr =>
    rw [show (s.spawn (.deliver call timeout) c).running = s.running from rfl, hr] at hr'
    cases hr'

include hF hn h in
theorem step : Filing s' :=
  ⟨hF.step_frames h, fun _ _ => hF.step_entry h, fun _ _ _ _ _ => hF.step_given hn h⟩

end Filing

end

/-! ## The pool -/

/-- Whether a kind is spread over a pool. -/
def Config.pools (cfg : Config) (g : GrainId) : Bool :=
  (cfg.kinds g.type).any fun kind => decide (0 < kind.activationsPerKey)

/-- An activation of the pool of an identity. -/
def GrainId.pooled (g : GrainId) (turn : ℕ) : GrainId :=
  ⟨g.type, g.key ++ "#" ++ toString turn⟩

section

variable {cfg : Config} {s : State} {g : GrainId}

theorem pool_eq_none_iff : pool cfg s g = none ↔ cfg.pools g = false := by
  unfold pool Config.pools
  cases cfg.kinds g.type with
  | none => simp
  | some kind => simp

theorem pooled_ne (turn : ℕ) : g.pooled turn ≠ g := by
  intro h
  have hkey : (g.key ++ "#" ++ toString turn).length = g.key.length :=
    congrArg String.length (congrArg GrainId.key h)
  rw [String.length_append, String.length_append] at hkey
  have hone : "#".length = 1 := rfl
  omega

variable (cfg s g) in
/-- What the pool makes of an identity. -/
theorem route_cases : route cfg s g = g ∧ cfg.pools g = false ∨
    cfg.pools g = true ∧ ∃ turn, route cfg s g = g.pooled turn := by
  unfold route
  cases hpool : pool cfg s g with
  | none => exact .inl ⟨rfl, pool_eq_none_iff.1 hpool⟩
  | some p =>
    refine .inr ⟨?_, p.2, rfl⟩
    by_contra hfalse
    rw [pool_eq_none_iff.2 (Bool.eq_false_of_not_eq_true hfalse)] at hpool
    cases hpool

/-- Only a kind without a pool gives back the identity it is asked for. -/
theorem route_eq_iff : route cfg s g = g ↔ cfg.pools g = false := by
  rcases route_cases cfg s g with ⟨h, hpools⟩ | ⟨hpools, turn, h⟩
  · exact iff_of_true h hpools
  · rw [h]
    exact iff_of_false (pooled_ne turn) (by simp [hpools])

end

/-! ## What has been named -/

/-- A caller has named an identity, or a filter of a caller's call has. -/
def Named (log : List NetEvent) (g : GrainId) : Prop :=
  ∃ n, .called n g ∈ log ∨ ∃ terminal g', .handed n terminal none g' g ∈ log

/-- An identity is one that has been named, or one that a pool makes of it. -/
def Answers (log : List NetEvent) (g : GrainId) : Prop :=
  ∃ g', Named log g' ∧ (g = g' ∨ ∃ turn, g = g'.pooled turn)

variable {log log' : List NetEvent} {g : GrainId}

theorem Named.mono (h : Named log g) (hlog : ∀ e ∈ log, e ∈ log') : Named log' g := by
  obtain ⟨n, h⟩ := h
  exact ⟨n, h.imp (hlog _) fun ⟨terminal, g', h⟩ => ⟨terminal, g', hlog _ h⟩⟩

theorem Answers.mono (h : Answers log g) (hlog : ∀ e ∈ log, e ∈ log') : Answers log' g := by
  obtain ⟨g', h, hg⟩ := h
  exact ⟨g', h.mono hlog, hg⟩

theorem Named.answers (h : Named log g) : Answers log g :=
  ⟨g, h, .inl rfl⟩

theorem Named.route (h : Named log g) (cfg : Config) (s : State) : Answers log (route cfg s g) := by
  refine ⟨g, h, ?_⟩
  rcases route_cases cfg s g with ⟨h, -⟩ | ⟨-, turn, h⟩
  · exact .inl h
  · exact .inr ⟨turn, h⟩

/-- The reminders that are fired are of kinds without a pool where they are fired, and filters hand
their calls on under the identity they are for. -/
def Faithful (D : Deployment) : Network → NetEvent → Prop
  | _, .fired n g => (D.config n).pools g = false
  | _, .handed _ _ (some g) _ g' => g' = g
  | _, _ => True

/-- The identity of a call that is to be routed : one that has been named, or that of the reminder
that has set the call off. -/
def Asked (D : Deployment) (log : List NetEvent) (n : NodeId) : Option GrainId → GrainId → Prop
  | none, g => Named log g
  | some g', g => g = g' ∧ Answers log g' ∧ (D.config n).pools g' = false

/-- The identity of a call that has been routed. -/
def Routed (log : List NetEvent) : Option GrainId → GrainId → Prop
  | none, g => Answers log g
  | some g', g => g = g' ∧ Answers log g'

variable {D : Deployment} {first : NodeId → Option (List NodeId)} {net net' : Network}

theorem NetStep.log_mono (h : NetStep D net net') : ∀ e ∈ net.log, e ∈ net'.log := by
  intro e he
  cases h with
  | run hr hs h hw hkeeps => exact List.mem_append_right _ he
  | send hr hs h hw hmine howner hne => exact List.mem_append_right _ he
  | regroup n members h => exact List.mem_cons_of_mem _ he
  | _ => exact he

/-- Every call that is on its way is for an identity it may be for, and every identity that has been
activated has been named or is one a pool makes of it. -/
structure Network.Heeds (D : Deployment) (net : Network) : Prop where
  bears : net.Bears (Asked D net.log) fun _ => Routed net.log
  filing : ∀ n, Filing (net.nodes n)
  published : ∀ n g a old, .published g a old ∈ (net.nodes n).trace → Answers net.log g
  reminders : ∀ reminder ∈ net.reminders, Answers net.log reminder.grain

theorem heeds_init : (Network.init D first).Heeds D where
  bears := bears_init
  filing _ := filing_init _
  published _ _ _ _ h := by cases h
  reminders _ h := by cases h

theorem Routed.answers {o : Option GrainId} (h : Routed log o g) : Answers log g := by
  cases o with
  | none => exact h
  | some g' => exact h.1 ▸ h.2

theorem Routed.mono {o : Option GrainId} (h : Routed log o g) (hlog : ∀ e ∈ log, e ∈ log') :
    Routed log' o g := by
  cases o with
  | none => exact Answers.mono h hlog
  | some g' => exact ⟨h.1, h.2.mono hlog⟩

theorem Asked.mono {n : NodeId} {o : Option GrainId} (h : Asked D log n o g)
    (hlog : ∀ e ∈ log, e ∈ log') : Asked D log' n o g := by
  cases o with
  | none => exact Named.mono h hlog
  | some g' => exact ⟨h.1, h.2.1.mono hlog, h.2.2⟩

/-- The pool leaves a reminder's identity alone. -/
theorem Asked.route {n : NodeId} {o : Option GrainId} (h : Asked D log n o g) (s : State) :
    Routed log o (route (D.config n) s g) := by
  cases o with
  | none => exact Named.route h _ s
  | some g' =>
    obtain ⟨rfl, hanswers, hpools⟩ := h
    exact ⟨route_eq_iff.2 hpools, hanswers⟩

namespace Network.Heeds

variable (hH : net.Heeds D) (h : NetStep D net net')
  (hlog : Logs Network.log (Faithful D) net net')

include hH h hlog in
theorem step_bears : net'.Bears (Asked D net'.log) fun _ => Routed net'.log := by
  have hmono := h.log_mono
  refine hH.bears.step h (fun _ _ _ hg => hg.mono hmono) (fun _ _ _ hg => hg.mono hmono) ?_ ?_ ?_
    (fun n o g _ hg => (hg.mono hmono).route _) fun n o g owner _ hg => (hg.mono hmono).route _
  · intro n g he
    exact ⟨n, .inl (he ▸ List.mem_cons_self)⟩
  · intro n reminder hmem he
    exact ⟨rfl, (hH.reminders reminder hmem).mono hmono, hlog _ he⟩
  · intro n terminal o g g' he hg
    have hmem : NetEvent.handed n terminal o g g' ∈ net'.log := he ▸ List.mem_cons_self
    cases o with
    | none =>
      have hnamed : Named net'.log g' := ⟨n, .inr ⟨terminal, g, hmem⟩⟩
      cases terminal with
      | dispatch => exact hnamed
      | dispatchHere => exact hnamed.answers
    | some g₀ =>
      obtain rfl : g' = g₀ := hlog _ he
      cases terminal with
      | dispatch => exact ⟨rfl, hg.2.1.mono hmono, hg.2.2⟩
      | dispatchHere => exact ⟨rfl, hg.2.mono hmono⟩

include hH h hlog in
theorem step : net'.Heeds D := by
  have hmono := h.log_mono
  refine ⟨hH.step_bears h hlog, fun n => ?_, fun n g a old hmem => ?_, ?_⟩
  · rcases h.node n with he | hnode
    · rw [he]
      exact hH.filing n
    · exact (hH.filing n).step (hH.bears.nested n) hnode
  · rcases h.node n with he | hnode
    · exact (hH.published n g a old (he ▸ hmem)).mono hmono
    · rcases hnode.published hmem with hold | ⟨t, rest, hs⟩
      · exact (hH.published n g a old hold).mono hmono
      · exact (Routed.answers (hH.bears.frames n t rest.length _ (stands_top hs))).mono hmono
  · cases h with
    | ask n reminder h =>
      intro reminder' hmem
      rcases List.mem_cons.1 hmem with rfl | hmem
      · exact hH.published _ _ _ _ h
      · exact hH.reminders reminder' hmem
    | _ => exact fun reminder hmem => (hH.reminders reminder hmem).mono hmono

end Network.Heeds

/-- In every run that fires reminders only of kinds without a pool, and whose filters hand their
calls on under the identity they are for : the call that a reminder has set off runs its method on
an activation that was entered under the identity that asked. And no identity has been activated
but one that a caller, or a filter of a caller's call, has named, or that a pool makes of it. -/
theorem wakes_asker (h : Run (netStep D) (Logs Network.log (Faithful D)) (.init D first) net) :
    (∀ n u d call c a locked g,
      (net.nodes n).stands u d (.dispatchHere call (.running c a locked)) →
      (net.errands n u d).reminder = some g → ∃ old, .published g a old ∈ (net.nodes n).trace) ∧
    ∀ n g a old, .published g a old ∈ (net.nodes n).trace → Answers net.log g := by
  have hH : net.Heeds D :=
    h.invariant heeds_init fun _ _ _ hH hl hlog => hH.step (netStep_cases hl) hlog
  refine ⟨fun n u d call c a locked g hs hg => ?_, hH.published⟩
  have hfiled : (net.nodes n).filed call.grain a := (hH.filing n).frames u _ (mem_of_stands hs)
  have hrouted : Routed net.log (net.errands n u d).reminder call.grain :=
    hH.bears.frames n u d _ hs
  rw [hg] at hrouted
  exact hrouted.1 ▸ hfiled

/-! ## Runs on fixed inputs -/

/-- A runtime alone, with a reminder store, whose grains answer `on_reminder`. -/
def Deployment.reminding (activationsPerKey : ℕ) : Deployment where
  position := String.length
  config _ := { Config.small none with
    reminders := true
    kinds := fun _ => some ⟨activationsPerKey⟩
    factories := fun _ => some fun g => .ok ⟨g, false, false, ["get", "on_reminder"]⟩ }
  replicas _ := 1

/-- A caller calls `x`. Its activation asks, in `activate`, under the identity `g` that it was
entered under, and is fired when the call is over. -/
def askThenFire (g : GrainId) : List NetLabel :=
  Label.on "one" ([.arrive, .resume 0, .run (.call ⟨"digest", "x"⟩ "get" 0 0)] ++ Label.gos 5) ++
  .ask "one" ⟨g, "send", 10, some 10⟩ ::
  Label.on "one" ([Label.returns] ++ Label.gos 3 ++ [Label.returns] ++ Label.gos 1) ++
  [.fire "one" ⟨g, "send", 10, some 10⟩ 0 0]

/-- A run of one runtime on fixed labels, each of whose steps meets a condition on what it logs. -/
theorem exists_alone_run (D : Deployment) (ok : Network → Network → Prop)
    (check : Network → Network → Bool) (hcheck : ∀ net net', check net net' = true → ok net net')
    (ls : List NetLabel) (p : Network → Bool)
    (h : (execute (netStep D) check (.init D fun _ => none) ls).any p = true) :
    ∃ net, Run (netStep D) ok (.init D fun _ => none) net ∧ p net = true :=
  exists_run _ check hcheck _ ls p h

/-- Without a pool the reminder runs on the activation that asked. -/
theorem wakes_asker_alone : ∃ net : Network,
    (net.nodes "one").stands 0 1
      (.dispatchHere ⟨⟨"digest", "x"⟩, "on_reminder", 0, 0, none⟩ (.running 1 0 true)) ∧
    ∃ old, .published ⟨"digest", "x"⟩ 0 old ∈ (net.nodes "one").trace := by
  -- filters there are none, and no kind has a pool
  have hcheck : ∀ net net' : Network, (net'.log.all fun e => match e with
      | .handed .. => false
      | _ => true) = true → Logs Network.log (Faithful (.reminding 0)) net net' := by
    intro net net' hall e he
    have hplain := List.all_eq_true.1 hall e (he ▸ List.mem_cons_self)
    cases e <;> trivial
  obtain ⟨net, hrun, hp⟩ := exists_alone_run (.reminding 0) _ _ hcheck
    (askThenFire ⟨"digest", "x"⟩ ++ Label.on "one" (Label.gos 5))
    (fun net => decide (((net.nodes "one").tasks 0).stack.reverse[1]? =
      some (Frame.dispatchHere ⟨⟨"digest", "x"⟩, "on_reminder", 0, 0, none⟩ (.running 1 0 true)) ∧
      (net.errands "one" 0 1).reminder = some ⟨"digest", "x"⟩)) (by decide +kernel)
  obtain ⟨hs, hg⟩ := of_decide_eq_true hp
  exact ⟨net, hs, (wakes_asker hrun).1 "one" 0 1 _ 1 0 true _ hs hg⟩

/-- With a pool of two, `x` is served by `x#0`, which asks, and the reminder is served by an
activation of `x#0#0`. -/
theorem pooled_wakes_another : ∃ net : Network,
    Run (netStep (.reminding 2)) (fun _ _ => True) (.init (.reminding 2) fun _ => none) net ∧
    ⟨⟨"digest", "x#0"⟩, "send", 10, some 10⟩ ∈ net.reminders ∧
    (net.nodes "one").stands 0 1
      (.dispatchHere ⟨⟨"digest", "x#0#0"⟩, "on_reminder", 0, 0, none⟩ (.running 1 1 true)) ∧
    (net.errands "one" 0 1).reminder = some ⟨"digest", "x#0"⟩ ∧
    .published ⟨"digest", "x#0#0"⟩ 1 none ∈ (net.nodes "one").trace ∧
    ¬ ∃ old, .published ⟨"digest", "x#0"⟩ 1 old ∈ (net.nodes "one").trace := by
  obtain ⟨net, hrun, hp⟩ := exists_alone_run (.reminding 2) _ (fun _ _ => true)
    (fun _ _ _ => trivial) (askThenFire ⟨"digest", "x#0"⟩ ++ Label.on "one"
      (Label.gos 5 ++ [Label.returns] ++ Label.gos 3))
    (fun net => decide ((⟨⟨"digest", "x#0"⟩, "send", 10, some 10⟩ : Reminder) ∈ net.reminders ∧
      ((net.nodes "one").tasks 0).stack.reverse[1]? =
        some (Frame.dispatchHere ⟨⟨"digest", "x#0#0"⟩, "on_reminder", 0, 0, none⟩
          (.running 1 1 true)) ∧
      (net.errands "one" 0 1).reminder = some ⟨"digest", "x#0"⟩ ∧
      Event.published ⟨"digest", "x#0#0"⟩ 1 none ∈ (net.nodes "one").trace ∧
      ((net.nodes "one").trace.all fun e => !e.enters ⟨"digest", "x#0"⟩ 1) = true))
    (by decide +kernel)
  obtain ⟨hreminder, hs, hg, hpublished, hnone⟩ := of_decide_eq_true hp
  refine ⟨net, hrun, hreminder, hs, hg, hpublished, ?_⟩
  rintro ⟨old, hold⟩
  simpa [Event.enters] using List.all_eq_true.1 hnone _ hold

end Nigrains
