import Nigrains.Identities

/-!
# One hop, to the owner

Whatever views of the membership the nodes hold, a call is forwarded at most once and never to the
node it is on : what `deliver` serves does not stand before a `_dispatch` again (`Hopped`). When
all nodes hold the same members, a node activates the identities the ring gives it and no others
(`Housed`), unless a filter of the receiving node hands a delivered call on under an identity of
another node's : such a call is not routed again.
-/

namespace Nigrains

/-- What carries a call that is to be routed. -/
def Frame.routes : Frame → Bool
  | .chain _ _ .dispatch => true
  | .user (.filter _ _ .dispatch) => true
  | .within _ (.next _ _ .dispatch) => true
  | .dispatch _ => true
  | _ => false

section

variable {cfg : Config} {s s' : State} {t : TaskId} {n : Next Frame Outcome} {c : Choice}
  {f f' : Frame} {r : Resume Outcome}

@[simp] theorem routes_chain (rest : ℕ) (call : Call) (terminal : Terminal) :
    (Frame.chain rest call terminal).routes = true ↔ terminal = .dispatch := by
  cases terminal <;> simp [Frame.routes]

@[simp] theorem routes_filter (rest : ℕ) (call : Call) (terminal : Terminal) :
    (Frame.user (.filter rest call terminal)).routes = true ↔ terminal = .dispatch := by
  cases terminal <;> simp [Frame.routes]

@[simp] theorem routes_within_next (seconds : Time) (rest : ℕ) (call : Call)
    (terminal : Terminal) :
    (Frame.within seconds (.next rest call terminal)).routes = true ↔ terminal = .dispatch := by
  cases terminal <;> simp [Frame.routes]

/-- What a block awaits first is to be routed as the block is. -/
theorem routes_inside {seconds : Time} {inside : Inside} (h : inside.frame.routes = true) :
    (Frame.within seconds inside).routes = true := by
  cases inside with
  | block => cases h
  | next rest call terminal => simpa [Inside.frame] using h

@[simp] theorem routes_terminalFrame (call : Call) (terminal : Terminal) :
    (terminal.frame call).routes = true ↔ terminal = .dispatch := by
  cases terminal <;> simp [Terminal.frame, Frame.routes]

@[simp] theorem routes_callFrame (call : Call) (terminal : Terminal) :
    (callFrame cfg call terminal).routes = true ↔ terminal = .dispatch := by
  unfold callFrame
  split_ifs
  · exact routes_terminalFrame call terminal
  · exact routes_chain _ _ terminal

/-- A call that is to be routed is carried by what carried it before, or is a caller's. -/
theorem exec_routes {k : ℕ} (h : exec cfg s t c f r = some (s', n))
    (hf' : n.frames.reverse[k]? = some f') (hroutes : f'.routes = true) :
    f.routes = true ∨
      k = 1 ∧ ∃ role g method args kwargs, f = .user role ∧ c = .call g method args kwargs := by
  have hk := (mem_frames_of_getElem? hf').2
  cases exec_passage h
  all_goals
    obtain rfl | rfl : k = 0 ∨ k = 1 := by omega
    all_goals
      simp [Next.frames] at hf'
      try subst hf'
      first
        | done
        | cases hroutes
        | exact .inr ⟨rfl, _, _, _, _, _, rfl, rfl⟩
        | exact .inl hroutes
        | cases (routes_callFrame _ _).1 hroutes
        | exact .inl (routes_inside hroutes)
        | (left; simpa using hroutes)

theorem hops_errand {woken : Option GrainId} {e : Errand} (he : e.hops = 0) :
    (f.errand woken e c).hops = 0 := by
  unfold Frame.errand
  split
  · rfl
  · exact he

end

variable {D : Deployment} {first : NodeId → Option (List NodeId)} {net net' : Network}

/-- What is still to be routed has not been sent, and what has been sent has been sent once, to
another node. -/
structure Network.Hopped (net : Network) : Prop where
  nested : net.AllNested
  routes : ∀ n u d f, (net.nodes n).stands u d f → f.routes = true → (net.errands n u d).hops = 0
  sent : ∀ i < net.sent, (net.messages i).errand.hops = 1 ∧
    (net.messages i).target ≠ (net.messages i).source

theorem hopped_init : (Network.init D first).Hopped where
  nested := allNested_init
  routes n u d f h := by cases mem_of_stands h
  sent i hi := by cases hi

theorem Network.Hopped.step (hH : net.Hopped) (h : NetStep D net net') : net'.Hopped where
  nested := h.nested hH.nested
  routes := by
    refine h.stands (Φ := fun _ _ e f => f.routes = true → e.hops = 0) hH.nested hH.routes
      (fun _ _ _ _ h => h) ?_ ?_ ?_ ?_
    · intro n t r f rest c woken s next hturn hnode hlog
      have hf : f.routes = true → (net.errands n t rest.length).hops = 0 :=
        hH.routes n t rest.length f (stands_top hturn.stack)
      refine ⟨fun f' hf' hroutes => ?_, fun f' hf' hroutes => ?_⟩
      · rcases exec_routes hturn.exec hf' hroutes with h0 | ⟨hk, -⟩
        · exact hf h0
        · cases hk
      · rcases exec_routes hturn.exec hf' hroutes with h0 | ⟨-, role, g, m, a, k, rfl, rfl⟩
        · exact hops_errand (hf h0)
        · rfl
    · intro n u e f hfresh hroutes
      unfold Frame.fresh at hfresh
      split at hfresh <;> first | cases hroutes | exact hfresh.elim
    · intro i u hi hroutes
      cases hroutes
    · intro n u e call saved h hroutes
      cases hroutes
  sent := by
    refine h.sent (p := fun m => m.errand.hops = 1 ∧ m.target ≠ m.source) hH.sent
      fun n t call rest owner hsends => ?_
    refine ⟨?_, hsends.away⟩
    show (net.errands n t rest.length).hops + 1 = 1
    rw [hH.routes n t rest.length _ (stands_top hsends.stack) rfl]

/-! ## To the owner -/

variable {members : List NodeId} {replicas : ℤ}

theorem owner_of_isMine {n : NodeId} {l : List NodeId} {g : GrainId} (h : D.isMine n l g = true) :
    D.ownerOf n l g = .ok n := by
  unfold Deployment.isMine at h
  split at h
  · next owner howner => rw [howner, of_decide_eq_true h]
  · cases h

/-- The members of every node stay those that all have, and a filter hands a delivered call on under
an identity that the ring gives the node it is on. -/
def Agreed (D : Deployment) (members : List NodeId) (replicas : ℤ) : Network → NetEvent → Prop
  | _, .regrouped _ members' => ∀ m, m ∈ members' ↔ m ∈ members
  | _, .handed n .dispatchHere _ _ g' => freshOwner D.position members replicas g' = .ok n
  | _, _ => True

/-- All nodes hold the same members, and have activated only what the ring gives them. -/
structure Network.Housed (D : Deployment) (first : NodeId → Option (List NodeId))
    (members : List NodeId) (replicas : ℤ) (net : Network) : Prop where
  bears : net.Bears (fun _ _ _ => True)
    fun n _ g => freshOwner D.position members replicas g = .ok n
  tuned : net.Tuned D first
  same : ∀ n m, m ∈ net.members n ↔ m ∈ members
  published : ∀ n g a old, .published g a old ∈ (net.nodes n).trace →
    freshOwner D.position members replicas g = .ok n
  entry : ∀ n g a, (net.nodes n).activations.get g = some a →
    freshOwner D.position members replicas g = .ok n

theorem housed_init (hfirst : ∀ n, ∃ l, first n = some l ∧ ∀ m, m ∈ l ↔ m ∈ members) :
    (Network.init D first).Housed D first members replicas where
  bears := bears_init
  tuned := tuned_init
  same n m := by
    obtain ⟨l, hl, hsame⟩ := hfirst n
    show m ∈ (first n).getD [] ↔ m ∈ members
    rw [hl]
    exact hsame m
  published n g a old h := by cases h
  entry n g a h := by cases h

namespace Network.Housed

variable (hH : net.Housed D first members replicas) (hreplicas : ∀ n, D.replicas n = replicas)

include hH hreplicas in
theorem owner_eq (n : NodeId) (g : GrainId) :
    D.ownerOf n (net.members n) g = freshOwner D.position members replicas g := by
  unfold Deployment.ownerOf
  rw [hreplicas n]
  exact congrFun (freshOwner_congr (hH.same n)) g

include hH hreplicas in
theorem step (hfirst : ∀ n, (first n).isSome = true) (h : NetStep D net net')
    (hlog : Logs Network.log (Agreed D members replicas) net net') :
    net'.Housed D first members replicas := by
  have hbears : net'.Bears (fun _ _ _ => True)
      fun n _ g => freshOwner D.position members replicas g = .ok n := by
    refine hH.bears.step h (fun _ _ _ _ => trivial) (fun _ _ _ h => h) (fun _ _ _ => trivial)
      (fun _ _ _ _ => trivial) ?_ ?_ ?_
    · intro n terminal o g g' he hg
      cases terminal with
      | dispatch => trivial
      | dispatchHere => exact hlog _ he
    · rintro n o g hmine -
      obtain ⟨l, hl⟩ := Option.isSome_iff_exists.1 (hfirst n)
      rw [hH.tuned n, hl] at hmine
      rw [← hH.owner_eq hreplicas n]
      exact owner_of_isMine (by simpa using hmine)
    · rintro n o g owner howner -
      rwa [hH.owner_eq hreplicas n] at howner
  have hpublished : ∀ n g a old, .published g a old ∈ (net'.nodes n).trace →
      freshOwner D.position members replicas g = .ok n := by
    intro n g a old hmem
    rcases h.node n with he | hnode
    · exact hH.published n g a old (he ▸ hmem)
    · rcases hnode.published hmem with hold | ⟨t, rest, hs⟩
      · exact hH.published n g a old hold
      · exact hH.bears.frames n t rest.length _ (stands_top hs)
  refine ⟨hbears, h.tuned hH.tuned, ?_, hpublished, fun n g a ha => ?_⟩
  · cases h with
    | regroup n members' h =>
      have hsame : ∀ m, m ∈ members' ↔ m ∈ members := hlog (.regrouped n members') rfl
      intro n' m
      show m ∈ Function.update net.members n members' n' ↔ m ∈ members
      rw [Function.update_apply]
      split_ifs
      · exact hsame m
      · exact hH.same n' m
    | _ => exact hH.same
  · rcases h.node n with he | hnode
    · exact hH.entry n g a (he ▸ ha)
    · rcases hnode.entry ha with hold | ⟨old, htrace⟩
      · exact hH.entry n g a hold
      · exact hpublished n g a old (htrace ▸ List.mem_cons_self)

end Network.Housed

theorem Run.hopped {ok : Network → Network → Prop}
    (h : Run (netStep D) ok (.init D first) net) : net.Hopped :=
  h.invariant hopped_init fun _ _ _ hH hl _ => hH.step (netStep_cases hl)

/-- In every run a call is sent once at most, to another node than it is on, and what has been
delivered is not routed again. And if all nodes hold the same members throughout, and filters hand
delivered calls on under identities of the node they are on, a node activates only what the ring
gives it, so no identity is activated on two nodes. -/
theorem hops_once_to_owner {ok : Network → Network → Prop}
    (h : Run (netStep D) ok (.init D first) net) :
    (∀ i < net.sent, (net.messages i).errand.hops = 1 ∧
      (net.messages i).target ≠ (net.messages i).source) ∧
    (∀ n u d f, (net.nodes n).stands u d f → (net.errands n u d).hops ≠ 0 → f.routes = false) ∧
    ∀ members replicas, (∀ n, D.replicas n = replicas) →
      (∀ n, ∃ l, first n = some l ∧ ∀ m, m ∈ l ↔ m ∈ members) →
      (∀ net net', ok net net' → Logs Network.log (Agreed D members replicas) net net') →
      (∀ n g a, (net.nodes n).activations.get g = some a →
        freshOwner D.position members replicas g = .ok n) ∧
      ∀ n n' g a a' old old', .published g a old ∈ (net.nodes n).trace →
        .published g a' old' ∈ (net.nodes n').trace → n = n' := by
  refine ⟨h.hopped.sent, fun n u d f hf hne => ?_, ?_⟩
  · by_contra hroutes
    exact hne (h.hopped.routes n u d f hf (Bool.eq_true_of_not_eq_false hroutes))
  · intro members replicas hreplicas hfirst hok
    have hH : net.Housed D first members replicas := by
      refine h.invariant (housed_init hfirst) fun s l s' hH hl hs => ?_
      refine hH.step hreplicas (fun n => ?_) (netStep_cases hl) (hok s s' hs)
      obtain ⟨l, hl, -⟩ := hfirst n
      rw [hl]
      rfl
    refine ⟨hH.entry, fun n n' g a a' old old' hg hg' => ?_⟩
    exact Except.ok.inj ((hH.published n g a old hg).symm.trans (hH.published n' g a' old' hg'))

/-- The first node calls `x`, which the second activates. -/
def forwards : List NetLabel :=
  Label.on "one" ([.arrive, .resume 0, .run (.call ⟨"counter", "x"⟩ "get" 0 0)] ++ Label.gos 1 ++
    [.run .suspend]) ++
  .arrive 0 false :: Label.on "two" (.resume 0 :: Label.gos 5)

theorem hops_once_to_owner_forwards : ∃ net : Network, net.sent = 1 ∧
    (net.messages 0).errand.hops = 1 ∧ (net.messages 0).target ≠ (net.messages 0).source ∧
    (net.nodes "two").activations.get ⟨"counter", "x"⟩ = some 0 ∧
    freshOwner (Deployment.pair 0).position pairMembers 1 ⟨"counter", "x"⟩ = .ok "two" := by
  -- nothing but calls is noted
  have hcheck : ∀ net net' : Network, (net'.log.all fun e => match e with
      | .called .. => true
      | _ => false) = true →
      Logs Network.log (Agreed (.pair 0) pairMembers 1) net net' := by
    intro net net' hall e he
    have hcalled := List.all_eq_true.1 hall e (he ▸ List.mem_cons_self)
    cases e <;> trivial
  obtain ⟨net, hrun, hp⟩ := exists_run (netStep (.pair 0)) _ hcheck
    (.init (.pair 0) fun _ => some pairMembers) forwards
    (fun net => decide (net.sent = 1 ∧
      (net.nodes "two").activations.get ⟨"counter", "x"⟩ = some 0)) (by decide +kernel)
  obtain ⟨hsent, hentry⟩ := of_decide_eq_true hp
  obtain ⟨hmessages, -, hplaced⟩ := hops_once_to_owner hrun
  obtain ⟨hhops, haway⟩ := hmessages 0 (by rw [hsent]; exact Nat.one_pos)
  exact ⟨net, hsent, hhops, haway, hentry, (hplaced pairMembers 1 (fun _ => rfl)
    (fun _ => ⟨pairMembers, rfl, fun _ => Iff.rfl⟩) fun _ _ => id).1 "two" _ 0 hentry⟩

/-- The first node calls `x`. A filter of the second hands the call on under `y`, which is the first
node's : the second activates it all the same, and so does the first for a caller of its own. -/
def redirected : List NetLabel :=
  Label.on "one" ([.arrive, .resume 0, .run (.call ⟨"counter", "x"⟩ "get" 0 0)] ++ Label.gos 1 ++
    [.run (.next ⟨⟨"counter", "x"⟩, "get", 0, 0, none⟩)] ++ Label.gos 2 ++ [.run .suspend]) ++
  .arrive 0 false :: Label.on "two" ([.resume 0] ++ Label.gos 2 ++
    [.run (.next ⟨⟨"counter", "y"⟩, "get", 0, 0, none⟩)] ++ Label.gos 5) ++
  Label.on "one" ([.arrive, .resume 1, .run (.call ⟨"counter", "y"⟩ "get" 0 0)] ++ Label.gos 1 ++
    [.run (.next ⟨⟨"counter", "y"⟩, "get", 0, 0, none⟩)] ++ Label.gos 6)

/-- With the same members on both nodes throughout, one identity is activated on both. -/
theorem redirected_twice : ∃ net : Network,
    Run (netStep (.pair 1)) (fun _ _ => True) (.init (.pair 1) fun _ => some pairMembers) net ∧
    (net.log.all fun e => match e with
      | .regrouped .. => false
      | _ => true) = true ∧
    freshOwner (Deployment.pair 1).position pairMembers 1 ⟨"counter", "y"⟩ = .ok "one" ∧
    (net.nodes "two").activations.get ⟨"counter", "y"⟩ = some 0 ∧
    (net.nodes "one").activations.get ⟨"counter", "y"⟩ = some 0 := by
  obtain ⟨net, hrun, hp⟩ := exists_pair_run (.pair 1) redirected
    (fun net => (net.log.all fun e => match e with
      | .regrouped .. => false
      | _ => true) && decide ((net.nodes "two").activations.get ⟨"counter", "y"⟩ = some 0 ∧
      (net.nodes "one").activations.get ⟨"counter", "y"⟩ = some 0)) (by decide +kernel)
  rw [Bool.and_eq_true] at hp
  obtain ⟨htwo, hone⟩ := of_decide_eq_true hp.2
  exact ⟨net, hrun, hp.1, by decide +kernel, htwo, hone⟩

end Nigrains
