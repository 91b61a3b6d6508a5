import Nigrains.Reminders
import Nigrains.Ring
import Nigrains.Scopes

/-!
# Runtimes that reach one another

A `Network` is one runtime a node, each with its own clock and its own membership, and the
messages their transports carry. A segment of `_dispatch` looks the routed identity up in the
ring of its node's membership, once in `is_mine` and again in `owner_of`, with no await between
(`Deployment.ownerOf`; a cluster that caches its ring answers the same, `Cluster.ownerOf_eq`).
What it forwards becomes a `Message`, which is delivered on the node it names : over a wire, or by
`LoopbackTransport` inside the sender's context. Messages may be delivered late, out of order, more
than once or never.

Three things are not part of the program. An `Errand` goes with a call along its way and counts its
hops. A task that serves a message, and those it starts, know which (`serving`). The `log` says what
the code outside has named.
-/

namespace Nigrains

/-- A message, by the order in which they were sent. -/
abbrev MessageId := ℕ

/-- What goes with a call on its way. -/
structure Errand where
  /-- How often it has been sent from node to node. -/
  hops : ℕ
  /-- The identity whose reminder has set it off, if one has. -/
  reminder : Option GrainId
deriving DecidableEq, Repr

/-- A call that `transport.send` carries. -/
structure Message where
  source : NodeId
  target : NodeId
  call : Call
  /-- The seconds remaining. -/
  timeout : Option Time
  /-- The deadline in the context it is sent from, and the reading of the sender's clock. -/
  context : Option Time
  sentAt : Time
  errand : Errand
  /-- The message the sender was serving. -/
  cause : Option MessageId
deriving DecidableEq, Repr

/-- What the code outside has named. -/
inductive NetEvent
  /-- A caller calls an identity. -/
  | called (node : NodeId) (grain : GrainId)
  /-- A scan fires a reminder of an identity. -/
  | fired (node : NodeId) (grain : GrainId)
  /-- A filter hands on a call, which a reminder of `reminder` has set off, under another identity
  or the same. -/
  | handed (node : NodeId) (terminal : Terminal) (reminder : Option GrainId)
    (grain grain' : GrainId)
  /-- The membership of a node has another snapshot. -/
  | regrouped (node : NodeId) (members : List NodeId)
deriving DecidableEq, Repr

/-- What the nodes are built with. -/
structure Deployment where
  position : String → ℕ
  config : NodeId → Config
  replicas : NodeId → ℤ

/-- What a cluster's `owner_of` answers, on a node and with a membership. -/
def Deployment.ownerOf (D : Deployment) (n : NodeId) (members : List NodeId) (g : GrainId) :
    Except RingError NodeId :=
  freshOwner D.position members (D.replicas n) g

/-- What a cluster's `is_mine` answers, where it does. -/
def Deployment.isMine (D : Deployment) (n : NodeId) (members : List NodeId) (g : GrainId) : Bool :=
  match D.ownerOf n members g with
  | .ok owner => owner = n
  | .error _ => false

/-- The runtimes, and what their transports carry. -/
structure Network where
  nodes : NodeId → State
  members : NodeId → List NodeId
  messages : MessageId → Message
  /-- How many messages have been sent. -/
  sent : ℕ
  /-- The errand of the call that a frame carries, by the frame's height in its task. -/
  errands : NodeId → TaskId → ℕ → Errand
  serving : NodeId → TaskId → Option MessageId
  /-- What grains have asked for. -/
  reminders : List Reminder
  log : List NetEvent

/-- A message that is not there. -/
def noMessage : Message :=
  ⟨"", "", ⟨⟨"", ""⟩, "", 0, 0, none⟩, none, none, 0, ⟨0, none⟩, none⟩

/-- The nodes as they are built, in a cluster or alone. -/
def Network.init (D : Deployment) (members : NodeId → Option (List NodeId)) : Network where
  nodes n := .init ((members n).map fun members => D.isMine n members)
  members n := (members n).getD []
  messages _ := noMessage
  sent := 0
  errands _ _ _ := ⟨0, none⟩
  serving _ _ := none
  reminders := []
  log := []

/-- A `ValueError`, as the ring raises. -/
def valueError : Exc :=
  .other ⟨"ValueError", false, true, nofun⟩ 0

/-- The errand of what a frame calls : a caller's call is a new one. -/
def Frame.errand (woken : Option GrainId) (e : Errand) : Frame → Choice → Errand
  | .user _, .call .. => ⟨0, woken⟩
  | _, _ => e

/-- What a segment of code outside the runtime names. -/
def Frame.names (n : NodeId) (woken : Option GrainId) (e : Errand) :
    Frame → Choice → Option NetEvent
  | .user _, .call g .. =>
    match woken with
    | none => some (.called n g)
    | some g' => some (.fired n g')
  | .user (.filter _ call terminal), c =>
    c.handed.map fun call' => .handed n terminal e.reminder call.grain call'.grain
  | _, _ => none

/-- `_dispatch` raises what the ring raises. -/
def State.refuse (cfg : Config) (s : State) (t : TaskId) (g : GrainId) (rest : List Frame) :
    State :=
  { s.advance cfg g with
    toLoop := (s.advance cfg g).toLoop.land t rest (.done (.error valueError)) }

namespace Network

variable (D : Deployment) (net : Network)

/-- Write to a node. -/
def setNode (n : NodeId) (s : State) : Network :=
  { net with nodes := Function.update net.nodes n s }

/-- What the ring answers a segment that asks it. -/
def lookup (n : NodeId) : Frame → Resume Outcome → Option (Except RingError NodeId)
  | .dispatch call, .send =>
    if (net.nodes n).isMine.isSome then
      some (D.ownerOf n (net.members n) (route (D.config n) (net.nodes n) call.grain))
    else none
  | _, _ => none

/-- Task `t` of a node has run a segment of `f`, which stands on `rest` : what that has called goes
on its errand, the tasks it has started serve what it serves, and what the code outside has named
is noted. -/
def ran (n : NodeId) (t : TaskId) (f : Frame) (rest : List Frame) (c : Choice)
    (woken : Option GrainId) (s : State) : Network :=
  { net.setNode n s with
    errands := fun m u k =>
      if m = n ∧ u = t ∧ k = rest.length + 1 then f.errand woken (net.errands n t rest.length) c
      else net.errands m u k
    serving := fun m u =>
      if m = n ∧ (net.nodes n).spawned ≤ u ∧ u < s.spawned then net.serving n t
      else net.serving m u
    log := (f.names n woken (net.errands n t rest.length) c).toList ++ net.log }

/-- The message a segment of `_forward` sends. -/
def message (n : NodeId) (t : TaskId) (d : ℕ) (call : Call) (owner : NodeId) : Message where
  source := n
  target := owner
  call := { call with grain := route (D.config n) (net.nodes n) call.grain, deadline := none }
  timeout := ((net.nodes n).tasks t).context.map fun deadline => deadline - (net.nodes n).now
  context := ((net.nodes n).tasks t).context
  sentAt := (net.nodes n).now
  errand := { net.errands n t d with hops := (net.errands n t d).hops + 1 }
  cause := net.serving n t

/-- A message is sent. -/
def post (m : Message) : Network :=
  { net with
    messages := Function.update net.messages net.sent m
    sent := net.sent + 1 }

/-- The running task of a node runs one segment of its innermost frame. -/
def runNode (n : NodeId) (c : Choice) (woken : Option GrainId) : Option Network :=
  match (net.nodes n).running with
  | none => none
  | some (t, r) =>
    match ((net.nodes n).tasks t).stack with
    | [] => none
    | f :: rest =>
      match step (D.config n) (net.nodes n) (.run c) with
      | none => none
      | some s =>
        match f, net.lookup D n f r with
        | .dispatch call, some (.ok owner) =>
          if owner = n then some (net.ran n t f rest c woken s)
          else some ((net.ran n t f rest c woken s).post
            (net.message D n t rest.length call owner))
        | .dispatch call, some (.error _) =>
          some (net.setNode n ((net.nodes n).refuse (D.config n) t call.grain rest))
        | f, _ => some (net.ran n t f rest c woken s)

/-- A message has arrived at the node it names, where a task begins to serve it. -/
def arrived (i : MessageId) (loopback : Bool) : Network :=
  let m := net.messages i
  let s := net.nodes m.target
  { net.setNode m.target
      (s.spawn (.deliver m.call m.timeout) (if loopback then m.context else none)) with
    errands := fun n u k =>
      if n = m.target ∧ u = s.spawned ∧ k = 0 then m.errand else net.errands n u k
    serving := fun n u =>
      if n = m.target ∧ u = s.spawned then some i else net.serving n u }

/-- A message arrives. -/
def arrive (i : MessageId) (loopback : Bool) : Option Network :=
  if i < net.sent ∧ (net.nodes (net.messages i).target).running = none then
    some (net.arrived i loopback)
  else none

/-- A node has another membership. -/
def regrouped (n : NodeId) (members : List NodeId) (s : State) : Network :=
  { net.setNode n s with
    members := Function.update net.members n members
    log := .regrouped n members :: net.log }

/-- The membership of a node answers with another snapshot. -/
def regroup (n : NodeId) (members : List NodeId) : Option Network :=
  (step (D.config n) (net.nodes n) (.membership (D.isMine n members))).map
    (net.regrouped n members)

/-- An activation asks for a reminder, under the identity it was entered under. -/
def ask (n : NodeId) (reminder : Reminder) : Option Network :=
  if (net.nodes n).trace.any fun
      | .published g _ _ => g = reminder.grain
      | _ => false
  then some { net with reminders := reminder :: net.reminders }
  else none

end Network

/-- What happens next in a network. -/
inductive NetLabel
  /-- A node takes a step of its own. -/
  | own (n : NodeId) (l : Label)
  | ask (n : NodeId) (reminder : Reminder)
  /-- A scan fires a reminder that is asked for : it calls `on_reminder`. Which scan fires which
  reminder when is the matter of `Scanning`. -/
  | fire (n : NodeId) (reminder : Reminder) (args kwargs : Obj)
  | arrive (i : MessageId) (loopback : Bool)
  | regroup (n : NodeId) (members : List NodeId)

/-- What a node does by itself, beside running : no call arrives but by a message, and the
membership is the network's. -/
def Label.internal : Label → Bool
  | .run _ => false
  | .deliver .. => false
  | .membership _ => false
  | _ => true

/-- One step of a network. -/
def netStep (D : Deployment) (net : Network) : NetLabel → Option Network
  | .own n (.run c) => net.runNode D n c none
  | .own n l =>
    if l.internal then (step (D.config n) (net.nodes n) l).map (net.setNode n) else none
  | .ask n reminder => net.ask n reminder
  | .fire n reminder args kwargs =>
    if reminder ∈ net.reminders then
      net.runNode D n (.call reminder.grain "on_reminder" args kwargs) (some reminder.grain)
    else none
  | .arrive i loopback => net.arrive i loopback
  | .regroup n members => net.regroup D n members

/-! ## The kinds of step -/

/-- One step of a node in a network. -/
inductive NodeStep (cfg : Config) (s : State) : State → Prop
  | step {s' : State} (l : Label) (h : step cfg s l = some s') : NodeStep cfg s s'
  | refuse (t : TaskId) (call : Call) (rest : List Frame) (hr : s.running = some (t, .send))
      (hs : (s.tasks t).stack = .dispatch call :: rest) :
    NodeStep cfg s (s.refuse cfg t call.grain rest)
  | arrive (call : Call) (timeout c : Option Time) (hr : s.running = none) :
    NodeStep cfg s (s.spawn (.deliver call timeout) c)

/-- A segment that sends no message : if it asks the ring, the identity is the node's own. -/
def Network.Keeps (D : Deployment) (net : Network) (n : NodeId) (f : Frame) (r : Resume Outcome) :
    Prop :=
  ∀ call, f = .dispatch call → r = .send → (net.nodes n).isMine.isSome = true →
    D.ownerOf n (net.members n) (route (D.config n) (net.nodes n) call.grain) = .ok n

/-- A call that is fired is one of a reminder that is asked for. -/
def Network.Fires (net : Network) (c : Choice) (woken : Option GrainId) : Prop :=
  ∀ g, woken = some g → ∃ reminder ∈ net.reminders, ∃ args kwargs,
    reminder.grain = g ∧ c = .call g "on_reminder" args kwargs

/-- One step of a network, by what it does. -/
inductive NetStep (D : Deployment) (net : Network) : Network → Prop
  | stir (n : NodeId) (l : Label) {s : State} (hl : l.internal = true)
      (h : step (D.config n) (net.nodes n) l = some s) : NetStep D net (net.setNode n s)
  | run {n : NodeId} {t : TaskId} {r : Resume Outcome} {f : Frame} {rest : List Frame} {c : Choice}
      {woken : Option GrainId} {s : State} (hr : (net.nodes n).running = some (t, r))
      (hs : ((net.nodes n).tasks t).stack = f :: rest)
      (h : step (D.config n) (net.nodes n) (.run c) = some s)
      (hw : net.Fires c woken) (hkeeps : net.Keeps D n f r) :
    NetStep D net (net.ran n t f rest c woken s)
  | send {n : NodeId} {t : TaskId} {call : Call} {rest : List Frame} {c : Choice}
      {woken : Option GrainId} {s : State} {owner : NodeId}
      (hr : (net.nodes n).running = some (t, .send))
      (hs : ((net.nodes n).tasks t).stack = .dispatch call :: rest)
      (h : step (D.config n) (net.nodes n) (.run c) = some s) (hw : net.Fires c woken)
      (hmine : (net.nodes n).isMine.isSome)
      (howner : D.ownerOf n (net.members n)
        (route (D.config n) (net.nodes n) call.grain) = .ok owner) (hne : owner ≠ n) :
    NetStep D net ((net.ran n t (.dispatch call) rest c woken s).post
      (net.message D n t rest.length call owner))
  | refuse {n : NodeId} {t : TaskId} {call : Call} {rest : List Frame}
      (hr : (net.nodes n).running = some (t, .send))
      (hs : ((net.nodes n).tasks t).stack = .dispatch call :: rest) :
    NetStep D net (net.setNode n ((net.nodes n).refuse (D.config n) t call.grain rest))
  | arrive (i : MessageId) (loopback : Bool) (hi : i < net.sent)
      (hr : (net.nodes (net.messages i).target).running = none) :
    NetStep D net (net.arrived i loopback)
  | regroup (n : NodeId) (members : List NodeId) {s : State}
      (h : step (D.config n) (net.nodes n) (.membership (D.isMine n members)) = some s) :
    NetStep D net (net.regrouped n members s)
  | ask (n : NodeId) (reminder : Reminder) {a : ActId} {old : Option ActId}
      (h : .published reminder.grain a old ∈ (net.nodes n).trace) :
    NetStep D net { net with reminders := reminder :: net.reminders }

variable {D : Deployment} {net net' : Network}

theorem lookup_dispatch {n : NodeId} {call : Call} {r : Resume Outcome}
    {answer : Except RingError NodeId} (h : net.lookup D n (.dispatch call) r = some answer) :
    r = .send ∧ (net.nodes n).isMine.isSome = true ∧
      D.ownerOf n (net.members n) (route (D.config n) (net.nodes n) call.grain) = answer := by
  cases r with
  | send =>
    simp only [Network.lookup] at h
    split_ifs at h with hmine
    exact ⟨rfl, hmine, Option.some.inj h⟩
  | got o => cases h

theorem runNode_cases {n : NodeId} {c : Choice} {woken : Option GrainId} (hw : net.Fires c woken)
    (h : net.runNode D n c woken = some net') : NetStep D net net' := by
  unfold Network.runNode at h
  split at h
  · cases h
  · next t r hr =>
    split at h
    · cases h
    · next f rest hs =>
      split at h
      · cases h
      · next s hstep =>
        split at h
        · next call owner hlookup =>
          obtain ⟨rfl, hmine, howner⟩ := lookup_dispatch hlookup
          split_ifs at h with hown <;> cases h
          · refine .run hr hs hstep hw fun call' hcall _ _ => ?_
            cases hcall
            rw [howner, hown]
          · exact .send hr hs hstep hw hmine howner hown
        · next call e hlookup =>
          cases h
          obtain ⟨rfl, -, -⟩ := lookup_dispatch hlookup
          exact .refuse hr hs
        · next hok herror =>
          cases h
          refine .run hr hs hstep hw fun call hcall hsend hmine => ?_
          subst hcall hsend
          -- the ring would have answered
          have hlookup : net.lookup D n (.dispatch call) .send = some (D.ownerOf n (net.members n)
              (route (D.config n) (net.nodes n) call.grain)) := if_pos hmine
          cases hask : D.ownerOf n (net.members n)
              (route (D.config n) (net.nodes n) call.grain) with
          | ok owner => exact (hok call owner rfl (hask ▸ hlookup)).elim
          | error e => exact (herror call e rfl (hask ▸ hlookup)).elim

theorem netStep_cases {l : NetLabel} (h : netStep D net l = some net') : NetStep D net net' := by
  cases l with
  | own n l =>
    by_cases hrun : ∃ c, l = .run c
    · obtain ⟨c, rfl⟩ := hrun
      exact runNode_cases (fun _ hg => by cases hg) h
    · have hown : l.internal = true ∧
          (step (D.config n) (net.nodes n) l).map (net.setNode n) = some net' := by
        cases l with
        | run c => exact (hrun ⟨c, rfl⟩).elim
        | _ =>
          simp only [netStep] at h
          split_ifs at h with hl
          exact ⟨hl, h⟩
      obtain ⟨s, hs, rfl⟩ := Option.map_eq_some_iff.1 hown.2
      exact .stir n l hown.1 hs
  | fire n reminder args kwargs =>
    simp only [netStep] at h
    split_ifs at h with hmem
    refine runNode_cases (fun g hg => ?_) h
    cases hg
    exact ⟨reminder, hmem, args, kwargs, rfl, rfl⟩
  | arrive i loopback =>
    simp only [netStep, Network.arrive] at h
    split_ifs at h with hi
    cases h
    exact .arrive i loopback hi.1 hi.2
  | regroup n members =>
    obtain ⟨s, hs, rfl⟩ := Option.map_eq_some_iff.1 h
    exact .regroup n members hs
  | ask n reminder =>
    simp only [netStep, Network.ask] at h
    split_ifs at h with hany
    cases h
    obtain ⟨e, hmem, he⟩ := List.any_eq_true.1 hany
    split at he
    · next g a old =>
      obtain rfl := of_decide_eq_true he
      exact .ask n reminder hmem
    · cases he

/-! ## Frames at their heights -/

/-- A frame stands in a task at a height, counted from the outermost. -/
def State.stands (s : State) (t : TaskId) (d : ℕ) (f : Frame) : Prop :=
  (s.tasks t).stack.reverse[d]? = some f

section

variable {cfg : Config} {s s' : State} {t u : TaskId} {d : ℕ} {f f' : Frame} {rest : List Frame}

theorem stands_top (hs : (s.tasks t).stack = f :: rest) : s.stands t rest.length f := by
  unfold State.stands
  simp [hs]

theorem mem_of_stands (h : s.stands t d f) : f ∈ (s.tasks t).stack :=
  List.mem_reverse.1 (List.mem_of_getElem? h)

/-- What stands in a new stack. -/
theorem getElem?_reverse_append (fs : List Frame) :
    (fs ++ rest).reverse[d]? =
      if d < rest.length then rest.reverse[d]? else fs.reverse[d - rest.length]? := by
  rw [List.reverse_append, List.getElem?_append, List.length_reverse]

/-- After a segment a frame stands where it stood, or has been left by the segment, or is that
of a task the segment has started. -/
theorem stands_run {c : Choice} {r : Resume Outcome} {s1 : State} {n : Next Frame Outcome}
    (hn : Nested s) (hr : s.running = some (t, r)) (hs : (s.tasks t).stack = f :: rest)
    (he : exec cfg s t c f r = some (s1, n))
    (h : State.stands { s1 with toLoop := s1.toLoop.land t rest n } u d f') :
    s.stands u d f' ∧ (u = t → d < rest.length) ∨
    u = t ∧ rest.length ≤ d ∧ n.frames.reverse[d - rest.length]? = some f' ∨
    s.spawned ≤ u ∧ u < s1.spawned ∧ d = 0 ∧ f.starts f' := by
  have hk := exec_starts he
  have ht := (hn.running t r hr).1
  unfold State.stands at h ⊢
  by_cases hut : u = t
  · subst hut
    rw [Loop.stack_land_self, getElem?_reverse_append] at h
    split_ifs at h with hlt
    · refine .inl ⟨?_, fun _ => hlt⟩
      rw [hs, ← List.singleton_append, getElem?_reverse_append, if_pos hlt]
      exact h
    · exact .inr (.inl ⟨rfl, not_lt.1 hlt, h⟩)
  · rw [Loop.stack_land _ hut] at h
    rcases hk.stack_cases u with hs'' | ⟨f'', hf'', hle, hlt, hs''⟩
    · rw [hs''] at h
      exact .inl ⟨h, fun he => (hut he).elim⟩
    · rw [hs''] at h
      cases d with
      | zero =>
        obtain rfl : f'' = f' := by simpa using h
        exact .inr (.inr ⟨hle, hlt, rfl, hf''⟩)
      | succ d => simp at h

/-- What a node does beside running leaves a frame where it stood, or marks it expired, or starts
a task of the host's. -/
theorem stands_stir {l : Label} (hl : l.internal = true) (h : step cfg s l = some s')
    (hf : s'.stands u d f') :
    s.stands u d f' ∨
    (∃ call saved, f' = .timeout call saved true ∧ s.stands u d (.timeout call saved false)) ∨
    s.spawned ≤ u ∧ d = 0 ∧ f' = .user .client := by
  unfold State.stands at hf ⊢
  cases l with
  | run | deliver | membership => cases hl
  | resume t =>
    simp only [step, resume] at h
    split_ifs at h
    split at h
    · cases h
    · obtain ⟨r, -, rfl⟩ := Option.map_eq_some_iff.1 h
      rw [stack_runTask] at hf
      exact .inl hf
  | clock seconds =>
    simp only [step] at h
    split_ifs at h
    cases h
    exact .inl hf
  | arrive =>
    simp only [step] at h
    split_ifs at h
    cases h
    by_cases hu : u = s.spawned
    · subst hu
      refine .inr (.inr ⟨le_rfl, ?_⟩)
      cases d with
      | zero => simpa [State.spawn, Loop.spawn] using hf.symm
      | succ d => simp [State.spawn, Loop.spawn] at hf
    · refine .inl ?_
      simpa [State.spawn, Loop.spawn, Function.update_of_ne hu] using hf
  | cancel t =>
    simp only [step] at h
    split_ifs at h
    cases h
    have hstack : ((s.cancel t).tasks u).stack = (s.tasks u).stack :=
      Loop.stack_cancel s.toLoop t u
    rw [hstack] at hf
    exact .inl hf
  | expire t i =>
    simp only [step, expire] at h
    split at h
    · next call saved hr hs =>
      split_ifs at h
      cases h
      rw [stack_expireTask] at hf
      split_ifs at hf with hu
      · subst hu
        have hd : d < (s.tasks u).stack.length := by
          simpa using (List.getElem?_eq_some_iff.1 hf).1
        rw [List.getElem?_reverse (by simpa using hd), List.length_set, List.getElem?_set] at hf
        rw [List.getElem?_reverse hd]
        split_ifs at hf with hi hlt
        · obtain rfl := Option.some.inj hf
          exact .inr (.inl ⟨call, saved, rfl, hi ▸ hs⟩)
        · exact .inl hf
      · exact .inl hf
    · cases h

/-! ## What a step leaves -/

variable (cfg s) in
theorem refuse_eq (t : TaskId) (g : GrainId) (rest : List Frame) :
    ∃ turns, s.refuse cfg t g rest = { s with
      nextActivation := turns
      toLoop := s.toLoop.land t rest (.done (.error valueError)) } := by
  obtain ⟨turns, h⟩ := advance_eq cfg s g
  unfold State.refuse
  rw [h]
  exact ⟨turns, rfl⟩

theorem NodeStep.nested (hn : Nested s) (h : NodeStep cfg s s') : Nested s' := by
  cases h with
  | step l h => exact nested_step hn h
  | refuse t call rest hr hs =>
    obtain ⟨turns, h⟩ := refuse_eq cfg s t call.grain rest
    rw [h]
    have hn' : Nested { s with nextActivation := turns } :=
      ⟨hn.stacked, hn.unspawned, hn.running, hn.parked⟩
    exact hn'.land (n := .done (.error valueError)) hr hs trivial nofun
  | arrive call timeout c hr =>
    have hk : Loop.Keeps Frame.hosted s.toLoop (s.spawn (.deliver call timeout) c).toLoop :=
      .spawn trivial c
    exact hn.keeps hk fun _ => .inr

theorem NodeStep.now_le (h : NodeStep cfg s s') : s.now ≤ s'.now := by
  cases h with
  | step l h => exact now_le_step h
  | refuse t call rest hr hs =>
    obtain ⟨turns, h⟩ := refuse_eq cfg s t call.grain rest
    rw [h]
  | arrive call timeout c hr => exact le_rfl

theorem context_refuse (g : GrainId) :
    ((s.refuse cfg t g rest).tasks u).context = (s.tasks u).context := by
  obtain ⟨turns, h⟩ := refuse_eq cfg s t g rest
  rw [h]
  exact Loop.context_land _ _ _ _ _

theorem stack_refuse (g : GrainId) :
    ((s.refuse cfg t g rest).tasks u).stack = if u = t then rest else (s.tasks u).stack := by
  obtain ⟨turns, h⟩ := refuse_eq cfg s t g rest
  rw [h]
  split_ifs with hut
  · subst hut
    exact Loop.stack_land_self _ _ _ _
  · exact Loop.stack_land _ hut _ _

/-- A call the ring does not place leaves the frames it stood on. -/
theorem stands_refuse {g : GrainId} (hs : (s.tasks t).stack = f :: rest)
    (h : (s.refuse cfg t g rest).stands u d f') : s.stands u d f' := by
  obtain ⟨turns, he⟩ := refuse_eq cfg s t g rest
  rw [he] at h
  unfold State.stands at h ⊢
  by_cases hut : u = t
  · subst hut
    rw [Loop.stack_land_self, getElem?_reverse_append] at h
    split_ifs at h with hlt
    · rw [hs, ← List.singleton_append, getElem?_reverse_append, if_pos hlt]
      exact h
    · simp [Next.frames] at h
  · rwa [Loop.stack_land _ hut] at h

/-- A task that starts has one frame. -/
theorem stands_spawn {f₀ : Frame} {c : Option Time} (h : (s.spawn f₀ c).stands u d f') :
    s.stands u d f' ∧ u ≠ s.spawned ∨ u = s.spawned ∧ d = 0 ∧ f' = f₀ := by
  unfold State.stands at h ⊢
  by_cases hu : u = s.spawned
  · subst hu
    cases d with
    | zero => exact .inr ⟨rfl, rfl, by simpa [State.spawn, Loop.spawn] using h.symm⟩
    | succ d => simp [State.spawn, Loop.spawn] at h
  · exact .inl ⟨by simpa [State.spawn, Loop.spawn, Function.update_of_ne hu] using h, hu⟩

end

/-! ## One step of a network, seen from a node -/

section

variable {n m : NodeId} {t u : TaskId} {d : ℕ} {f f' : Frame} {rest : List Frame} {c : Choice}
  {woken : Option GrainId} {s : State}

theorem setNode_nodes : (net.setNode n s).nodes m = if m = n then s else net.nodes m :=
  Function.update_apply ..

@[simp] theorem setNode_nodes_self : (net.setNode n s).nodes n = s := by
  simp [setNode_nodes]

theorem node_setNode (h : NodeStep (D.config n) (net.nodes n) s) (m : NodeId) :
    (net.setNode n s).nodes m = net.nodes m ∨
      NodeStep (D.config m) (net.nodes m) ((net.setNode n s).nodes m) := by
  rw [setNode_nodes]
  split_ifs with hm
  · subst hm
    exact .inr h
  · exact .inl rfl

/-- What a node goes through is a step of its own, or nothing. -/
theorem NetStep.node (h : NetStep D net net') (m : NodeId) :
    net'.nodes m = net.nodes m ∨ NodeStep (D.config m) (net.nodes m) (net'.nodes m) := by
  cases h with
  | stir n l hl h => exact node_setNode (.step l h) m
  | run hr hs h hw hkeeps => exact node_setNode (.step _ h) m
  | send hr hs h hw hmine howner hne => exact node_setNode (.step _ h) m
  | refuse hr hs => exact node_setNode (.refuse _ _ _ hr hs) m
  | arrive i loopback hi hr => exact node_setNode (.arrive _ _ _ hr) m
  | regroup n members h => exact node_setNode (.step _ h) m
  | ask n reminder h => exact .inl rfl

/-- The stacks of every node are nested. -/
def Network.AllNested (net : Network) : Prop :=
  ∀ n, Nested (net.nodes n)

theorem NetStep.nested (hn : net.AllNested) (h : NetStep D net net') : net'.AllNested := by
  intro m
  rcases h.node m with he | hm
  · rw [he]
    exact hn m
  · exact hm.nested (hn m)

/-- A segment of the running task of a node, and who it calls for. -/
structure Network.Turn (D : Deployment) (net : Network) (n : NodeId) (t : TaskId)
    (r : Resume Outcome) (f : Frame) (rest : List Frame) (c : Choice) (woken : Option GrainId)
    (s : State) (next : Next Frame Outcome) : Prop where
  running : (net.nodes n).running = some (t, r)
  stack : ((net.nodes n).tasks t).stack = f :: rest
  exec : exec (D.config n) (net.nodes n) t c f r = some (s, next)
  fires : net.Fires c woken
  asks : net.Keeps D n f r ∨ ∃ call owner, f = .dispatch call ∧ r = .send ∧
    (net.nodes n).isMine.isSome = true ∧ owner ≠ n ∧
    D.ownerOf n (net.members n) (route (D.config n) (net.nodes n) call.grain) = .ok owner

theorem mem_frames_of_getElem? {next : Next Frame Outcome} {k : ℕ}
    (h : next.frames.reverse[k]? = some f') : f' ∈ next.frames ∧ k < 2 := by
  refine ⟨List.mem_reverse.1 (List.mem_of_getElem? h), ?_⟩
  obtain ⟨hk, -⟩ := List.getElem?_eq_some_iff.1 h
  rw [List.length_reverse] at hk
  refine hk.trans_le ?_
  cases next <;> simp [Next.frames]

end

/-- Where a node has run a segment : its frame, and one that it awaits, are on the errands that
`Ψ` is shown of, and what does not run is as it was. -/
theorem Network.Turn.stands {Ψ : NodeId → TaskId → Errand → Frame → Prop} {n : NodeId}
    {t : TaskId} {r : Resume Outcome} {f : Frame} {rest : List Frame} {c : Choice}
    {woken : Option GrainId} {s : State} {next : Next Frame Outcome} (hn : net.AllNested)
    (hturn : net.Turn D n t r f rest c woken s next)
    (hnodes : net'.nodes = (net.ran n t f rest c woken
      { s with toLoop := s.toLoop.land t rest next }).nodes)
    (herrands : net'.errands = (net.ran n t f rest c woken
      { s with toLoop := s.toLoop.land t rest next }).errands)
    (hself : ∀ f', next.frames.reverse[0]? = some f' → Ψ n t (net.errands n t rest.length) f')
    (hcallee : ∀ f', next.frames.reverse[1]? = some f' →
      Ψ n t (f.errand woken (net.errands n t rest.length) c) f')
    (hnew : ∀ n u e f, f.fresh → Ψ n u e f) {m : NodeId} {u : TaskId} {d : ℕ} {f0 : Frame}
    (hstay : (net.nodes m).stands u d f0 → Ψ m u (net.errands m u d) f0)
    (hf : (net'.nodes m).stands u d f0) : Ψ m u (net'.errands m u d) f0 := by
  have hnode : net'.nodes n = { s with toLoop := s.toLoop.land t rest next } := by
    rw [hnodes]
    exact setNode_nodes_self
  rw [herrands]
  show Ψ m u (if m = n ∧ u = t ∧ d = rest.length + 1 then
    f.errand woken (net.errands n t rest.length) c else net.errands m u d) f0
  by_cases hm : m = n
  · subst hm
    rw [hnode] at hf
    rcases stands_run (hn m) hturn.running hturn.stack hturn.exec hf with
      ⟨hs, hlow⟩ | ⟨rfl, hle, hf'⟩ | ⟨-, -, -, hstart⟩
    · rw [if_neg fun h => absurd (hlow h.2.1) (by omega)]
      exact hstay hs
    · obtain ⟨-, hlt⟩ := mem_frames_of_getElem? hf'
      obtain hd | hd : d = rest.length ∨ d = rest.length + 1 := by omega
      · subst hd
        rw [if_neg fun h => by omega]
        rw [Nat.sub_self] at hf'
        exact hself f0 hf'
      · subst hd
        rw [if_pos ⟨rfl, rfl, rfl⟩]
        rw [Nat.add_sub_cancel_left] at hf'
        exact hcallee f0 hf'
    · exact hnew m u _ f0 hstart.1
  · rw [if_neg fun h => hm h.1]
    rw [hnodes] at hf
    refine hstay ?_
    rwa [show (net.ran n t f rest c woken _).nodes m = net.nodes m from
      setNode_nodes.trans (if_neg hm)] at hf

/-- A property of the frames of every task, with the errand each is on. A step leaves a frame and
its errand as they are, changes them into what a segment leaves, or starts them : `Φ` holds before
the step and `Ψ` after it. -/
theorem NetStep.stands {Φ Ψ : NodeId → TaskId → Errand → Frame → Prop} (hn : net.AllNested)
    (h : NetStep D net net')
    (hold : ∀ n u d f, (net.nodes n).stands u d f → Φ n u (net.errands n u d) f)
    (hkeep : ∀ n u e f, Φ n u e f → Ψ n u e f)
    (hrun : ∀ n t r f rest c woken s next, net.Turn D n t r f rest c woken s next →
      net'.nodes n = { s with toLoop := s.toLoop.land t rest next } →
      net'.log = (f.names n woken (net.errands n t rest.length) c).toList ++ net.log →
      (∀ f', next.frames.reverse[0]? = some f' → Ψ n t (net.errands n t rest.length) f') ∧
      ∀ f', next.frames.reverse[1]? = some f' →
        Ψ n t (f.errand woken (net.errands n t rest.length) c) f')
    (hnew : ∀ n u e f, f.fresh → Ψ n u e f)
    (harrive : ∀ i u, i < net.sent → Ψ (net.messages i).target u (net.messages i).errand
      (.deliver (net.messages i).call (net.messages i).timeout))
    (hexpire : ∀ n u e call saved,
      Φ n u e (.timeout call saved false) → Ψ n u e (.timeout call saved true)) :
    ∀ n u d f, (net'.nodes n).stands u d f → Ψ n u (net'.errands n u d) f := by
  intro m u d f0 hf
  have hstay : (net.nodes m).stands u d f0 → Ψ m u (net.errands m u d) f0 := fun h0 =>
    hkeep m u _ f0 (hold m u d f0 h0)
  -- a segment, of which the message it may send is no part
  have hran : ∀ (n : NodeId) (t : TaskId) (r : Resume Outcome) (f : Frame) (rest : List Frame)
      (c : Choice) (woken : Option GrainId) (s : State) (next : Next Frame Outcome),
      net.Turn D n t r f rest c woken s next →
      net'.nodes = (net.ran n t f rest c woken
        { s with toLoop := s.toLoop.land t rest next }).nodes →
      net'.errands = (net.ran n t f rest c woken
        { s with toLoop := s.toLoop.land t rest next }).errands →
      net'.log = (net.ran n t f rest c woken
        { s with toLoop := s.toLoop.land t rest next }).log →
      Ψ m u (net'.errands m u d) f0 := by
    intro n t r f rest c woken s next hturn hnodes herrands hlog
    have hnode : net'.nodes n = { s with toLoop := s.toLoop.land t rest next } := by
      rw [hnodes]
      exact setNode_nodes_self
    obtain ⟨hself, hcallee⟩ := hrun n t r f rest c woken s next hturn hnode hlog
    exact hturn.stands hn hnodes herrands hself hcallee hnew hstay hf
  cases h with
  | stir n l hl h =>
    rw [setNode_nodes] at hf
    split_ifs at hf with hm
    · subst hm
      rcases stands_stir hl h hf with h0 | ⟨call, saved, rfl, h0⟩ | ⟨-, -, rfl⟩
      · exact hstay h0
      · exact hexpire m u _ call saved (hold m u d _ h0)
      · exact hnew m u _ _ trivial
    · exact hstay hf
  | run hr hs h hw hkeeps =>
    obtain ⟨t', r', f', rest', s1, next, hr', hs', he, rfl⟩ := run_cases h
    obtain ⟨rfl, rfl⟩ := Prod.mk.inj (Option.some.inj (hr.symm.trans hr'))
    obtain ⟨rfl, rfl⟩ := List.cons.inj (hs.symm.trans hs')
    exact hran _ _ _ _ _ _ _ _ _ ⟨hr, hs, he, hw, .inl hkeeps⟩ rfl rfl rfl
  | send hr hs h hw hmine howner hne =>
    obtain ⟨t', r', f', rest', s1, next, hr', hs', he, rfl⟩ := run_cases h
    obtain ⟨rfl, rfl⟩ := Prod.mk.inj (Option.some.inj (hr.symm.trans hr'))
    obtain ⟨rfl, rfl⟩ := List.cons.inj (hs.symm.trans hs')
    exact hran _ _ _ _ _ _ _ _ _
      ⟨hr, hs, he, hw, .inr ⟨_, _, rfl, rfl, hmine, hne, howner⟩⟩ rfl rfl rfl
  | refuse hr hs =>
    rw [setNode_nodes] at hf
    split_ifs at hf with hm
    · subst hm
      exact hstay (stands_refuse hs hf)
    · exact hstay hf
  | arrive i loopback hi hr =>
    show Ψ m u (if m = (net.messages i).target ∧ u = (net.nodes (net.messages i).target).spawned ∧
      d = 0 then (net.messages i).errand else net.errands m u d) f0
    replace hf : State.stands ((net.setNode (net.messages i).target _).nodes m) u d f0 := hf
    rw [setNode_nodes] at hf
    by_cases hm : m = (net.messages i).target
    · subst hm
      rw [if_pos rfl] at hf
      rcases stands_spawn hf with ⟨h0, hu⟩ | ⟨rfl, rfl, rfl⟩
      · rw [if_neg fun h => hu h.2.1]
        exact hstay h0
      · rw [if_pos ⟨rfl, rfl, rfl⟩]
        exact harrive i _ hi
    · rw [if_neg hm] at hf
      rw [if_neg fun h => hm h.1]
      exact hstay hf
  | regroup n members h =>
    simp only [step] at h
    split_ifs at h
    cases h
    replace hf : State.stands ((net.setNode n _).nodes m) u d f0 := hf
    rw [setNode_nodes] at hf
    split_ifs at hf with hm
    · subst hm
      exact hstay hf
    · exact hstay hf
  | ask n reminder h => exact hstay hf

/-! ## What is sent -/

/-- The running task of a node stands before a `_dispatch` whose call the ring gives another
node. -/
structure Network.Sends (D : Deployment) (net : Network) (n : NodeId) (t : TaskId) (call : Call)
    (rest : List Frame) (owner : NodeId) : Prop where
  running : (net.nodes n).running = some (t, .send)
  stack : ((net.nodes n).tasks t).stack = .dispatch call :: rest
  clustered : (net.nodes n).isMine.isSome = true
  owned : D.ownerOf n (net.members n) (route (D.config n) (net.nodes n) call.grain) = .ok owner
  away : owner ≠ n

/-- A step sends nothing, or one message. -/
theorem NetStep.messages (h : NetStep D net net') :
    net'.sent = net.sent ∧ net'.messages = net.messages ∨
    ∃ n t call rest owner, net.Sends D n t call rest owner ∧ net'.sent = net.sent + 1 ∧
      net'.messages =
        Function.update net.messages net.sent (net.message D n t rest.length call owner) := by
  cases h with
  | send hr hs h hw hmine howner hne =>
    exact .inr ⟨_, _, _, _, _, ⟨hr, hs, hmine, howner, hne⟩, rfl, rfl⟩
  | _ => exact .inl ⟨rfl, rfl⟩

/-- A message stays what it is. -/
theorem NetStep.message_eq (h : NetStep D net net') {i : MessageId} (hi : i < net.sent) :
    net'.messages i = net.messages i := by
  rcases h.messages with ⟨-, he⟩ | ⟨n, t, call, rest, owner, -, -, he⟩
  · rw [he]
  · rw [he, Function.update_of_ne hi.ne]

theorem NetStep.sent_le (h : NetStep D net net') : net.sent ≤ net'.sent := by
  rcases h.messages with ⟨he, -⟩ | ⟨n, t, call, rest, owner, -, he, -⟩
  · exact he.ge
  · exact he.ge.trans' (Nat.le_succ _)

/-- A property of every message that has been sent. -/
theorem NetStep.sent {p : Message → Prop} (h : NetStep D net net')
    (hold : ∀ i < net.sent, p (net.messages i))
    (hnew : ∀ n t call rest owner, net.Sends D n t call rest owner →
      p (net.message D n t rest.length call owner)) : ∀ i < net'.sent, p (net'.messages i) := by
  intro i hi
  rcases h.messages with ⟨hsent, he⟩ | ⟨n, t, call, rest, owner, hsends, hsent, he⟩
  · rw [he]
    exact hold i (hsent ▸ hi)
  · rw [he]
    rcases (Nat.lt_succ_iff.1 (hsent ▸ hi)).lt_or_eq with hlt | rfl
    · rw [Function.update_of_ne hlt.ne]
      exact hold i hlt
    · rw [Function.update_self]
      exact hnew n t call rest owner hsends

/-! ## What a node takes for its own -/

theorem isMine_startTimers {t : TaskId} {a : ActId} (s : State) :
    (s.startTimers t a).isMine = s.isMine := by
  obtain ⟨L, timers, h⟩ := startTimers_eq (t := t) a s
  rw [h]
  rfl

theorem isMine_cancel_all (τs : List TaskId) (s : State) :
    (τs.foldl State.cancel s).isMine = s.isMine := by
  obtain ⟨L, h⟩ := cancel_all_eq τs s
  rw [h]

theorem isMine_startBackground {cfg : Config} {t : TaskId} (s : State) :
    (s.startBackground cfg t).isMine = s.isMine := by
  obtain ⟨L, sweeper, scanner, h⟩ := startBackground_eq cfg s t
  rw [h]

/-- No segment changes the membership. -/
theorem exec_isMine {cfg : Config} {s s' : State} {t : TaskId} {c : Choice} {f : Frame}
    {r : Resume Outcome} {n : Next Frame Outcome} (h : exec cfg s t c f r = some (s', n)) :
    s'.isMine = s.isMine := by
  cases exec_effect h
  case activates => exact isMine_startTimers s
  case takes who g a hentry => exact isMine_cancel_all _ (s.take who g a)
  case begins => exact isMine_startBackground s
  all_goals rfl

/-- Only the membership changes what a node takes for its own. -/
theorem isMine_step {cfg : Config} {s s' : State} {l : Label}
    (hl : ∀ isMine, l ≠ .membership isMine)
    (h : step cfg s l = some s') : s'.isMine = s.isMine := by
  cases l with
  | run c =>
    obtain ⟨t, r, f, rest, s1, n, -, -, he, rfl⟩ := run_cases h
    have hsame : s1.isMine = s.isMine := exec_isMine he
    exact hsame
  | resume t =>
    simp only [step, resume] at h
    split_ifs at h
    split at h
    · cases h
    · obtain ⟨r, -, rfl⟩ := Option.map_eq_some_iff.1 h
      rfl
  | expire t i =>
    simp only [step, expire] at h
    split at h
    · split_ifs at h
      cases h
      rfl
    · cases h
  | membership isMine => exact (hl isMine rfl).elim
  | _ =>
    simp only [step] at h
    split_ifs at h
    cases h
    rfl

/-- A node in a cluster takes for its own what its ring gives it. -/
def Network.Tuned (D : Deployment) (first : NodeId → Option (List NodeId)) (net : Network) : Prop :=
  ∀ n, (net.nodes n).isMine = (first n).map fun _ => D.isMine n (net.members n)

variable {first : NodeId → Option (List NodeId)}

theorem tuned_init : (Network.init D first).Tuned D first := by
  intro n
  show (first n).map _ = (first n).map fun _ => D.isMine n ((first n).getD [])
  cases first n <;> rfl

theorem tuned_setNode {n : NodeId} {s : State} (hT : net.Tuned D first)
    (hs : s.isMine = (net.nodes n).isMine) : (net.setNode n s).Tuned D first := by
  intro m
  rw [setNode_nodes]
  split_ifs with he
  · subst he
    exact hs.trans (hT m)
  · exact hT m

theorem NetStep.tuned (hT : net.Tuned D first) (h : NetStep D net net') : net'.Tuned D first := by
  cases h with
  | stir n l hl h =>
    refine tuned_setNode hT (isMine_step (fun isMine hm => ?_) h)
    subst hm
    cases hl
  | run hr hs h hw hkeeps => exact tuned_setNode hT (isMine_step (by rintro _ ⟨⟩) h)
  | send hr hs h hw hmine howner hne => exact tuned_setNode hT (isMine_step (by rintro _ ⟨⟩) h)
  | @refuse n t call rest hr hs =>
    obtain ⟨turns, h⟩ := refuse_eq (D.config n) (net.nodes n) t call.grain rest
    refine tuned_setNode hT ?_
    rw [h]
  | arrive i loopback hi hr => exact tuned_setNode hT rfl
  | @regroup n members s h =>
    simp only [step] at h
    split_ifs at h with hsome
    cases h
    intro m
    show ((net.setNode n _).nodes m).isMine =
      (first m).map fun _ => D.isMine m (Function.update net.members n members m)
    rw [setNode_nodes, Function.update_apply]
    split_ifs with he
    · subst he
      rw [hT m, Option.isSome_map, Option.isSome_iff_exists] at hsome
      obtain ⟨l, hl⟩ := hsome
      rw [hl]
      rfl
    · exact hT m
  | ask n reminder h => exact hT

theorem allNested_init : (Network.init D first).AllNested :=
  fun _ => nested_init _

/-! ## Two nodes

For runs on fixed inputs. -/

/-- The first node owns every identity but `x`, which is the second's. -/
def Deployment.pair (filters : ℕ) : Deployment where
  position key :=
    if key = "one#0" then 1 else if key = "two#0" then 2 else if key = "counter/x" then 1 else 0
  config _ := { Config.small none with filters := filters }
  replicas _ := 1

/-- The members both nodes hold. -/
def pairMembers : List NodeId :=
  ["one", "two"]

/-- What one node does. -/
def Label.on (n : NodeId) (ls : List Label) : List NetLabel :=
  ls.map (.own n)

/-- A run of two nodes on fixed labels. -/
theorem exists_pair_run (D : Deployment) (ls : List NetLabel) (p : Network → Bool)
    (h : (execute (netStep D) (fun _ _ => true) (.init D fun _ => some pairMembers) ls).any p =
      true) :
    ∃ net, Run (netStep D) (fun _ _ => True) (.init D fun _ => some pairMembers) net ∧
      p net = true :=
  exists_run_free _ _ ls p h

end Nigrains
