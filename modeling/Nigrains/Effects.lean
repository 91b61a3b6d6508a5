import Nigrains.Machine

/-!
# What a segment does

A segment of a frame writes to the state in one of a few ways (`Effect`), and the frame goes on,
awaits another or ends in one of a few ways (`Passage`). Every segment does one of the first and
one of the second (`exec_cases`), so what all segments keep is read off these two lists.
-/

namespace Nigrains

/-- What a segment of task `t` may write, by its frame and what the frame is resumed with. -/
inductive Effect (cfg : Config) (s : State) (t : TaskId) : Frame → Resume Outcome → State → Prop
  /-- Nothing, as most segments. -/
  | nothing (f : Frame) (r : Resume Outcome) : Effect cfg s t f r s
  /-- `Grain.every`. -/
  | asks (a : ActId) (seconds : Time) (r : Resume Outcome) :
      Effect cfg s t (.user (.activate a)) r
        (s.modify a fun x => { x with schedules := x.schedules ++ [seconds] })
  | creates (role : Role) (r : Resume Outcome) :
      Effect cfg s t (.user role) r (s.spawn (.user .client) (s.tasks t).context)
  | within (seconds : Time) (inside : Inside) :
      Effect cfg s t (.within seconds inside) .send
        (s.setDeadline t (narrowed (s.tasks t).context (s.now + seconds)))
  | delivers (call : Call) (seconds : Time) :
      Effect cfg s t (.deliver call (some seconds)) .send
        (s.setDeadline t (narrowed (s.tasks t).context (s.now + seconds)))
  | restores (asked : Time) (saved : Option Time) (o : Outcome) :
      Effect cfg s t (.scope asked saved) (.got o) (s.setDeadline t saved)
  | expires (call : Call) (saved : ℕ) (o : Outcome) :
      Effect cfg s t (.timeout call saved true) (.got o) (s.uncancel t)
  | routes (call : Call) (turns : OrderedDict GrainId ℕ) :
      Effect cfg s t (.dispatch call) .send { s with nextActivation := turns }
  | forwards (call : Call) (turns : OrderedDict GrainId ℕ) :
      Effect cfg s t (.dispatch call) .send
        { s with nextActivation := turns, forwarded := s.forwarded + 1 }
  | serves (call : Call) :
      Effect cfg s t (.dispatchHere call .start) .send { s with served := s.served + 1 }
  | refuses (call : Call) (c : CallId) (a : ActId) :
      Effect cfg s t (.dispatchHere call (.activating c)) (.got (.ok (.activation a)))
        (s.emit (.refused c a))
  | enters (call : Call) (c : CallId) (a : ActId) :
      Effect cfg s t (.dispatchHere call (.activating c)) (.got (.ok (.activation a)))
        (s.enter c a)
  | starts (call : Call) (c : CallId) (a : ActId) :
      Effect cfg s t (.dispatchHere call (.entered c a)) .send (s.emit (.started c a))
  | locks (call : Call) (c : CallId) (a : ActId) :
      Effect cfg s t (.dispatchHere call (.entered c a)) .send
        ((s.setLock a Lock.acquire).emit (.started c a))
  | queues (call : Call) (c : CallId) (a : ActId) :
      Effect cfg s t (.dispatchHere call (.entered c a)) .send (s.setLock a Lock.queue)
  | unqueues (call : Call) (c : CallId) (a : ActId) :
      Effect cfg s t (.dispatchHere call (.queued c a)) .send
        ((s.setLock a fun lock => lock.unqueue.acquire).emit (.started c a))
  | forsakes (call : Call) (c : CallId) (a : ActId) (e : Exc) :
      Effect cfg s t (.dispatchHere call (.queued c a)) (.got (.error e))
        ((s.setLock a Lock.unqueue).leave cfg c a (.error e))
  | unlocks (call : Call) (c : CallId) (a : ActId) (o : Outcome) :
      Effect cfg s t (.dispatchHere call (.running c a true)) (.got o)
        ((s.setLock a Lock.release).leave cfg c a o)
  | leaves (call : Call) (c : CallId) (a : ActId) (o : Outcome) :
      Effect cfg s t (.dispatchHere call (.running c a false)) (.got o) (s.leave cfg c a o)
  | joins (g : GrainId) (a : ActId) :
      Effect cfg s t (.activated g .lookup) .send (s.emit (.joined g a))
  | finds (g : GrainId) (a : ActId) :
      Effect cfg s t (.activated g .lookup) .send (s.emit (.found g a))
  | misses (g : GrainId) : Effect cfg s t (.activated g .lookup) .send (s.emit (.missed g))
  | wakes (g : GrainId) (a : ActId) :
      Effect cfg s t (.activated g (.waiting a)) .send (s.emit (.woke a))
  | unjoins (g : GrainId) (a : ActId) (r : Resume Outcome) :
      Effect cfg s t (.activated g (.waiting a)) r (s.emit (.unjoined a))
  | givesUp (g : GrainId) (r : Resume Outcome) :
      Effect cfg s t (.activated g .room) r (s.emit (.gaveUp g))
  | publishes (g : GrainId) (grain : Grain) (o : Ret) (hbuild : build cfg g = some (.ok grain)) :
      Effect cfg s t (.activated g .room) (.got (.ok o)) (s.publish g grain)
  | failsReading (g : GrainId) (a : ActId) (e : Exc) :
      Effect cfg s t (.activated g (.reading a)) (.got (.error e)) (s.fail g a e)
  | fails (g : GrainId) (a : ActId) (e : Exc) :
      Effect cfg s t (.activated g (.hook a)) (.got (.error e)) (s.fail g a e)
  | activates (g : GrainId) (a : ActId) (o : Ret) :
      Effect cfg s t (.activated g (.hook a)) (.got (.ok o)) (s.activate t g a)
  | ticks (a : ActId) : Effect cfg s t (.tick a .sleeping) .send (s.tick a)
  | tocks (a : ActId) (o : Outcome) : Effect cfg s t (.tick a .working) (.got o) (s.tock a)
  | takes (who : Remover) (g : GrainId) (a : ActId) (hentry : s.activations.get g = some a) :
      Effect cfg s t (.deactivate who g .start) .send
        ((s.heap a).timers.foldl State.cancel (s.take who g a))
  | deactivates (who : Remover) (g : GrainId) (a : ActId) :
      Effect cfg s t (.deactivate who g (.timers a [])) .send
        ((s.modify a fun x => { x with timers := [] }).emit (.deactivating who a))
  | abandons (who : Remover) (g : GrainId) (a : ActId) (τ : TaskId) (rest : List TaskId) :
      Effect cfg s t (.deactivate who g (.joining a τ rest)) .send (s.emit (.abandoned who a))
  | counts (who : Remover) (g : GrainId) (a : ActId) (o : Ret) :
      Effect cfg s t (.deactivate who g (.hook a)) (.got (.ok o))
        ({ s with deactivations := s.deactivations + 1 }.emit (.deactivated who a))
  | countsRaised (who : Remover) (g : GrainId) (a : ActId) (e : Exc)
      (he : e.isException = true) :
      Effect cfg s t (.deactivate who g (.hook a)) (.got (.error e))
        ({ s with deactivations := s.deactivations + 1 }.emit (.deactivated who a))
  | breaks (who : Remover) (g : GrainId) (a : ActId) (e : Exc) (he : ¬ e.isException = true) :
      Effect cfg s t (.deactivate who g (.hook a)) (.got (.error e))
        (s.emit (.deactivated who a))
  | evicts (o : Ret) :
      Effect cfg s t (.makeRoom .evicting) (.got (.ok o))
        ({ s with evictions := s.evictions + 1 }.emit .evicted)
  | begins (pc : AenterAt) (r : Resume Outcome) :
      Effect cfg s t (.aenter pc) r (s.startBackground cfg t)
  | cancels (τ : TaskId) (rest : List TaskId) :
      Effect cfg s t (.aexit (.stopping (τ :: rest))) .send (s.cancel τ)
  | stops :
      Effect cfg s t (.aexit (.stopping [])) .send
        { s with sweeper := none, reminderScanner := none }
  | drains (deadline : Time) (late : Bool) :
      Effect cfg s t (.drain (.looping deadline)) .send (s.emit (.drained late))
  | lists (o : Ret) :
      Effect cfg s t (.aexit .draining) (.got (.ok o))
        (s.emit (.listed s.activations.keyList))
  | ends : Effect cfg s t (.aexit (.deactivating [])) .send (s.emit .left)
  | departs (o : Ret) : Effect cfg s t (.aexit .leaving) (.got (.ok o)) (s.emit .left)

/-- What becomes of a frame of task `t` in a segment. -/
inductive Passage (cfg : Config) (s : State) (t : TaskId) :
    Choice → Frame → Resume Outcome → Next Frame Outcome → Prop
  | ends (c : Choice) (f : Frame) (r : Resume Outcome) (o : Outcome) :
      Passage cfg s t c f r (.done o)
  /-- Code that is not the runtime's awaits something of its own. -/
  | suspends (role : Role) (r : Resume Outcome) :
      Passage cfg s t .suspend (.user role) r (.park (.user role))
  | goesOn (c : Choice) (role : Role) (r : Resume Outcome) :
      Passage cfg s t c (.user role) r (.goto (.user role))
  | calls (g : GrainId) (method : String) (args kwargs : Obj) (role : Role) (r : Resume Outcome) :
      Passage cfg s t (.call g method args kwargs) (.user role) r
        (.await (.user role)
          (callFrame cfg ⟨g, method, args, kwargs, (s.tasks t).context⟩ .dispatch))
  | handsOn (call' : Call) (rest : ℕ) (call : Call) (terminal : Terminal) (r : Resume Outcome) :
      Passage cfg s t (.next call') (.user (.filter rest call terminal)) r
        (.await (.user (.filter rest call terminal)) (.chain rest call' terminal))
  | limits (seconds : Time) (role : Role) (r : Resume Outcome) :
      Passage cfg s t (.within seconds) (.user role) r
        (.await (.user role) (.within seconds .block))
  | handsOnWithin (seconds : Time) (call' : Call) (rest : ℕ) (call : Call) (terminal : Terminal)
      (r : Resume Outcome) :
      Passage cfg s t (.nextWithin seconds call') (.user (.filter rest call terminal)) r
        (.await (.user (.filter rest call terminal)) (.within seconds (.next rest call' terminal)))
  | collects (role : Role) (r : Resume Outcome) :
      Passage cfg s t .collect (.user role) r (.await (.user role) (.collect .start))
  | enters (role : Role) (r : Resume Outcome) :
      Passage cfg s t .enter (.user role) r (.await (.user role) (.aenter .start))
  | leaves (role : Role) (r : Resume Outcome) :
      Passage cfg s t .leave (.user role) r (.await (.user role) (.aexit .start))
  | blocks (c : Choice) (seconds : Time) (inside : Inside) :
      Passage cfg s t c (.within seconds inside) .send
        (.await (.scope (s.now + seconds) (s.tasks t).context) inside.frame)
  | delivers (c : Choice) (call : Call) :
      Passage cfg s t c (.deliver call none) .send
        (.goto (callFrame cfg { call with deadline := (s.tasks t).context } .dispatchHere))
  | deliversWithin (c : Choice) (call : Call) (seconds : Time) :
      Passage cfg s t c (.deliver call (some seconds)) .send
        (.await (.scope (s.now + seconds) (s.tasks t).context) (callFrame cfg
          { call with deadline := narrowed (s.tasks t).context (s.now + seconds) } .dispatchHere))
  | filters (c : Choice) (rest : ℕ) (call : Call) (terminal : Terminal) :
      Passage cfg s t c (.chain (rest + 1) call terminal) .send
        (.goto (.user (.filter rest call terminal)))
  | reaches (c : Choice) (call : Call) (terminal : Terminal) (hnone : call.deadline = none) :
      Passage cfg s t c (.chain 0 call terminal) .send (.goto (terminal.frame call))
  | reachesWithin (c : Choice) (call : Call) (terminal : Terminal) (deadline : Time)
      (hsome : call.deadline = some deadline) :
      Passage cfg s t c (.chain 0 call terminal) .send
        (.await (.timeout call (s.tasks t).cancelling false) (terminal.frame call))
  | forwards (c : Choice) (call : Call) (left : Option Time) :
      Passage cfg s t c (.dispatch call) .send
        (.goto (.user (.transport { call with grain := route cfg s call.grain } left)))
  | keeps (c : Choice) (call : Call)
      (hmine : (s.isMine.any fun isMine => !isMine (route cfg s call.grain)) = false) :
      Passage cfg s t c (.dispatch call) .send
        (.goto (.dispatchHere { call with grain := route cfg s call.grain } .start))
  | activates (c : Choice) (call : Call) :
      Passage cfg s t c (.dispatchHere call .start) .send
        (.await (.dispatchHere call (.activating s.served)) (.activated call.grain .lookup))
  | counts (c : Choice) (call : Call) (i : CallId) (a : ActId) (r : Resume Outcome) :
      Passage cfg s t c (.dispatchHere call (.activating i)) r
        (.goto (.dispatchHere call (.entered i a)))
  | queues (c : Choice) (call : Call) (i : CallId) (a : ActId) :
      Passage cfg s t c (.dispatchHere call (.entered i a)) .send
        (.park (.dispatchHere call (.queued i a)))
  | serves (c : Choice) (call : Call) (pc : DispatchAt) (i : CallId) (a : ActId) (locked : Bool) :
      Passage cfg s t c (.dispatchHere call pc) .send
        (.await (.dispatchHere call (.running i a locked)) (.user (.body i a)))
  | joins (c : Choice) (g : GrainId) (a : ActId) :
      Passage cfg s t c (.activated g .lookup) .send (.park (.activated g (.waiting a)))
  | retries (c : Choice) (g : GrainId) (a : ActId) :
      Passage cfg s t c (.activated g (.waiting a)) .send (.goto (.activated g .lookup))
  | makesRoom (c : Choice) (g : GrainId) :
      Passage cfg s t c (.activated g .lookup) .send
        (.await (.activated g .room) (.makeRoom .start))
  | reads (c : Choice) (g : GrainId) (a : ActId) (r : Resume Outcome) :
      Passage cfg s t c (.activated g .room) r
        (.await (.activated g (.reading a)) (.user (.read a)))
  | hooks (c : Choice) (g : GrainId) (pc : ActivatedAt) (a : ActId) (r : Resume Outcome) :
      Passage cfg s t c (.activated g pc) r (.await (.activated g (.hook a)) (.user (.activate a)))
  | sleeps (c : Choice) (a : ActId) (pc : TickAt) (r : Resume Outcome) :
      Passage cfg s t c (.tick a pc) r (.park (.tick a .sleeping))
  | ticks (c : Choice) (a : ActId) :
      Passage cfg s t c (.tick a .sleeping) .send (.await (.tick a .working) (.user (.work a)))
  | evicts (c : Choice) (g : GrainId) :
      Passage cfg s t c (.makeRoom .start) .send
        (.await (.makeRoom .evicting) (.deactivate .makeRoom g .start))
  | deactivates (c : Choice) (who : Remover) (g : GrainId) (pc : DeactivateAt) (a : ActId)
      (timers : List TaskId) (r : Resume Outcome) :
      Passage cfg s t c (.deactivate who g pc) r (.goto (.deactivate who g (.timers a timers)))
  | releases (c : Choice) (who : Remover) (g : GrainId) (a : ActId) :
      Passage cfg s t c (.deactivate who g (.timers a [])) .send
        (.await (.deactivate who g (.hook a)) (.user (.deactivate a)))
  | joinsEnded (c : Choice) (who : Remover) (g : GrainId) (a : ActId) (τ : TaskId)
      (rest : List TaskId) :
      Passage cfg s t c (.deactivate who g (.timers a (τ :: rest))) .send
        (.goto (.deactivate who g (.joining a τ rest)))
  | joinsTimer (c : Choice) (who : Remover) (g : GrainId) (a : ActId) (τ : TaskId)
      (rest : List TaskId) :
      Passage cfg s t c (.deactivate who g (.timers a (τ :: rest))) .send
        (.park (.deactivate who g (.joining a τ rest)))
  | walks (c : Choice) (pc : CollectAt) (cutoff : Time) (rest : List GrainId)
      (index collected : ℕ) (r : Resume Outcome) :
      Passage cfg s t c (.collect pc) r (.goto (.collect (.walking cutoff rest index collected)))
  | yields (c : Choice) (pc : CollectAt) (cutoff : Time) (rest : List GrainId)
      (index collected : ℕ) (r : Resume Outcome) :
      Passage cfg s t c (.collect pc) r (.park (.collect (.walking cutoff rest index collected)))
  | takes (c : Choice) (cutoff : Time) (g : GrainId) (rest : List GrainId) (index collected : ℕ) :
      Passage cfg s t c (.collect (.walking cutoff (g :: rest) index collected)) .send
        (.await (.collect (.taking cutoff rest index collected)) (.deactivate .collect g .start))
  | rests (c : Choice) (pc : SweepAt) (r : Resume Outcome) :
      Passage cfg s t c (.sweep pc) r (.park (.sweep .sleeping))
  | sweeps (c : Choice) :
      Passage cfg s t c (.sweep .sleeping) .send (.await (.sweep .collecting) (.collect .start))
  | begins (c : Choice) :
      Passage cfg s t c (.aenter .start) .send (.await (.aenter .starting) (.user .membership))
  | drains (c : Choice) (pc : DrainAt) (deadline : Time) :
      Passage cfg s t c (.drain pc) .send (.goto (.drain (.looping deadline)))
  | polls (c : Choice) (deadline : Time) :
      Passage cfg s t c (.drain (.looping deadline)) .send (.park (.drain (.sleeping deadline)))
  | exits (c : Choice) (pc pc' : AexitAt) (r : Resume Outcome) :
      Passage cfg s t c (.aexit pc) r (.goto (.aexit pc'))
  | stops (c : Choice) (τ : TaskId) (rest : List TaskId) :
      Passage cfg s t c (.aexit (.stopping (τ :: rest))) .send (.park (.aexit (.joining τ rest)))
  | awaitsDrain (c : Choice) :
      Passage cfg s t c (.aexit (.stopping [])) .send (.await (.aexit .draining) (.drain .start))
  | empties (c : Choice) (g : GrainId) (rest : List GrainId) :
      Passage cfg s t c (.aexit (.deactivating (g :: rest))) .send
        (.await (.aexit (.deactivating rest)) (.deactivate .aexit g .start))
  | departs (c : Choice) :
      Passage cfg s t c (.aexit (.deactivating [])) .send
        (.await (.aexit .leaving) (.user .membership))

section

variable {cfg : Config} {s s' : State} {t : TaskId} {n : Next Frame Outcome} {c : Choice}
  {f : Frame} {r : Resume Outcome}

variable (cfg s) in
theorem advance_eq (g : GrainId) :
    ∃ turns, s.advance cfg g = { s with nextActivation := turns } := by
  unfold State.advance
  split
  · exact ⟨s.nextActivation, rfl⟩
  · exact ⟨_, rfl⟩

/-- A segment writes one of the things there are to write, and takes its frame one of the ways
there are to go. -/
theorem exec_cases (h : exec cfg s t c f r = some (s', n)) :
    Effect cfg s t f r s' ∧ Passage cfg s t c f r n := by
  cases f <;> simp only [exec] at h
  case dispatch call =>
    -- `_route` writes whose turn it is in the pool, and nothing else
    obtain ⟨turns, hturns⟩ := advance_eq cfg s call.grain
    unfold dispatch interrupted at h
    rw [hturns] at h
    repeat' split at h
    · cases h
      exact ⟨.forwards call turns, .forwards c call _⟩
    · next hmine =>
      cases h
      exact ⟨.routes call turns, .keeps c call (Bool.eq_false_of_not_eq_true hmine)⟩
    · cases h
      exact ⟨.nothing .., .ends ..⟩
    · cases h
  all_goals
    first
      | unfold user at h | unfold within at h | unfold scope at h | unfold deliver at h
      | unfold chain at h | unfold timeout at h | unfold dispatchHere at h | unfold activated at h
      | unfold makeRoom at h | unfold deactivate at h | unfold collect at h | unfold sweep at h
      | unfold tick at h | unfold drain at h | unfold aenter at h | unfold aexit at h
    try unfold interrupted at h
    repeat' split at h
  -- every other branch of the code is one constructor of each list
  all_goals
    first
      | contradiction
      | (cases h
         subst_vars
         refine ⟨?_, ?_⟩ <;> constructor <;> assumption)

theorem exec_effect (h : exec cfg s t c f r = some (s', n)) : Effect cfg s t f r s' :=
  (exec_cases h).1

theorem exec_passage (h : exec cfg s t c f r = some (s', n)) : Passage cfg s t c f r n :=
  (exec_cases h).2

end

end Nigrains
