import Nigrains.Crossing

/-!
# The deadline a call is dispatched under, and the one its grain sees

At the bottom of a chain of filters a call has a deadline of its own, which filters may have
changed, and `asyncio.timeout` is given that one. The method, the calls it makes in turn, and
`_forward` go by the context variable, which is what it was when the call began. So a method sees
the deadline its call is dispatched under if the context has one no later, and a transport is told
of it if the context has that very one (`deadline_seen_iff`).
-/

namespace Nigrains

/-- There is a deadline, and it leaves no more than so many seconds. -/
def Leaves (c : Option Time) (now seconds : Time) : Prop :=
  ∃ deadline, c = some deadline ∧ deadline - now ≤ seconds

/-- More than `k` frames of task `t` of a node stand. -/
def Standing (n : NodeId) (t : TaskId) (k : ℕ) (net _net' : Network) : Prop :=
  k < ((net.nodes n).tasks t).stack.length

instance {n : NodeId} {t : TaskId} {k : ℕ} {net net' : Network} :
    Decidable (Standing n t k net net') :=
  inferInstanceAs (Decidable (_ < _))

variable {D : Deployment} {first : NodeId → Option (List NodeId)} {net net' : Network} {n : NodeId}
  {t : TaskId}

/-- What will be put back stays what it is while other frames stand there. -/
theorem standing_run {k : ℕ} (hn : net.AllNested) (h : Run (netStep D) (Standing n t k) net net') :
    (net'.nodes n).under t k = (net.nodes n).under t k := by
  refine (h.invariant (I := fun x => x.AllNested ∧
    (x.nodes n).under t k = (net.nodes n).under t k) ⟨hn, rfl⟩ ?_).2
  rintro x l x' ⟨hx, hunder⟩ hl hk
  have hstep := netStep_cases hl
  refine ⟨hstep.nested hx, ?_⟩
  rcases hstep.node n with he | hnode
  · rw [he, hunder]
  · rw [hnode.under (hx n) hk, hunder]

theorem now_le_run {ok : Network → Network → Prop} (h : Run (netStep D) ok net net') (n : NodeId) :
    (net.nodes n).now ≤ (net'.nodes n).now := by
  refine h.invariant (I := fun x => (net.nodes n).now ≤ (x.nodes n).now) le_rfl ?_
  intro x l x' hx hl _
  rcases (netStep_cases hl).node n with he | hnode
  · rw [he]
    exact hx
  · exact hx.trans hnode.now_le

theorem message_eq_run {ok : Network → Network → Prop} {i : MessageId}
    (h : Run (netStep D) ok net net') (hi : i < net.sent) :
    net'.messages i = net.messages i := by
  refine (h.invariant (I := fun x => i < x.sent ∧ x.messages i = net.messages i) ⟨hi, rfl⟩ ?_).2
  rintro x l x' ⟨hlt, hx⟩ hl -
  have hstep := netStep_cases hl
  exact ⟨hlt.trans_le hstep.sent_le, (hstep.message_eq hlt).trans hx⟩

/-- A segment of `_dispatch` whose call is another node's sends it. -/
theorem sends_step {call : Call} {rest : List Frame} {owner : NodeId} {c : Choice}
    (hsends : net.Sends D n t call rest owner)
    (h : netStep D net (.own n (.run c)) = some net') :
    net'.sent = net.sent + 1 ∧
      net'.messages net.sent = net.message D n t rest.length call owner := by
  have hlookup : net.lookup D n (.dispatch call) .send = some (.ok owner) :=
    (if_pos hsends.clustered).trans (congrArg some hsends.owned)
  simp only [netStep, Network.runNode, hsends.running, hsends.stack, hlookup,
    if_neg hsends.away] at h
  split at h
  · cases h
  · cases h
    exact ⟨rfl, Function.update_self ..⟩

/-- Code that stands on what carries a call sees the deadline that was in force for the call. -/
theorem context_standing {f f' : Frame} {mid low : List Frame} (hn : net.AllNested)
    (hs : ((net.nodes n).tasks t).stack = f :: low) (hf : ∀ c, f.outer c = c)
    (h : Run (netStep D) (Standing n t low.length) net net')
    (hs' : ((net'.nodes n).tasks t).stack = f' :: (mid ++ low)) (hf' : ∀ c, f'.outer c = c)
    (hmid : ∀ f ∈ mid, f.carries = true) :
    ((net'.nodes n).tasks t).context = ((net.nodes n).tasks t).context := by
  rw [context_eq_under hs' hf' hmid, context_eq_under_top hs hf]
  exact standing_run hn h

/-- What serves a message sees a deadline that leaves no more than the message says. -/
theorem Network.Timely.leaves {u : TaskId} {i : MessageId} {seconds : Time} {f : Frame}
    {rest : List Frame} (hT : net.Timely) (hi : net.serving n u = some i)
    (hseconds : (net.messages i).timeout = some seconds)
    (hs : ((net.nodes n).tasks u).stack = f :: rest)
    (hf : ∀ call timeout, f ≠ .deliver call timeout) :
    Leaves ((net.nodes n).tasks u).context (net.nodes n).now seconds := by
  rcases hT.bound n u i seconds hi hseconds with ⟨call, timeout, hs'⟩ | ⟨start, hstart, hb⟩
  · exact (hf call timeout (List.cons.inj (hs.symm.trans hs')).1).elim
  · obtain ⟨deadline, hctx, hle⟩ := hb.context hs
    refine ⟨deadline, hctx, ?_⟩
    rw [sub_le_iff_le_add']
    exact hle.trans (add_le_add hstart le_rfl)

/-- In every run, when a call comes to the end of its chain of filters with a deadline that has not
passed. Served here, its method sees a deadline that leaves no more time than that one did exactly
if the context has one no later. Forwarded, the transport is told the seconds that are left of it,
and the method on the other node sees a deadline that leaves no more time, exactly if the context
has that very one. -/
theorem deadline_seen_iff {call : Call} {terminal : Terminal} {low : List Frame} {deadline : Time}
    (h : Run (netStep D) (fun _ _ => True) (.init D first) net)
    (hs : ((net.nodes n).tasks t).stack = .chain 0 call terminal :: low)
    (_hdeadline : call.deadline = some deadline) (_hnow : (net.nodes n).now < deadline) :
    (∀ net₁ c a mid, Run (netStep D) (Standing n t low.length) net net₁ →
      ((net₁.nodes n).tasks t).stack = .user (.body c a) :: (mid ++ low) →
      (∀ f ∈ mid, f.carries = true) →
      (Leaves ((net₁.nodes n).tasks t).context (net.nodes n).now (deadline - (net.nodes n).now) ↔
        ∃ d ≤ deadline, ((net.nodes n).tasks t).context = some d)) ∧
    ∀ net₁ net₂ call' mid owner ch, Run (netStep D) (Standing n t low.length) net net₁ →
      net₁.Sends D n t call' (mid ++ low) owner → (∀ f ∈ mid, f.carries = true) →
      netStep D net₁ (.own n (.run ch)) = some net₂ →
      ((net₂.messages net₁.sent).timeout = some (deadline - (net₁.nodes n).now) ∧
        (∀ net₃ m u c a rest, Run (netStep D) (fun _ _ => True) net₂ net₃ →
          net₃.serving m u = some net₁.sent →
          ((net₃.nodes m).tasks u).stack = .user (.body c a) :: rest →
          Leaves ((net₃.nodes m).tasks u).context (net₃.nodes m).now
            (deadline - (net.nodes n).now)) ↔
        ((net.nodes n).tasks t).context = some deadline) := by
  have hT := h.timely
  refine ⟨fun net₁ c a mid h₁ hs₁ hmid => ?_,
    fun net₁ net₂ call' mid owner ch h₁ hsends hmid h₂ => ?_⟩
  · rw [context_standing hT.nested hs (fun _ => rfl) h₁ hs₁ (fun _ => rfl) hmid]
    refine exists_congr fun d => ?_
    rw [sub_le_sub_iff_right, and_comm]
  · have hctx : ((net₁.nodes n).tasks t).context = ((net.nodes n).tasks t).context :=
      context_standing hT.nested hs (fun _ => rfl) h₁ hsends.stack (fun _ => rfl) hmid
    obtain ⟨hsent, hmessage⟩ := sends_step hsends h₂
    have htimeout : (net₂.messages net₁.sent).timeout = ((net.nodes n).tasks t).context.map
        fun d => d - (net₁.nodes n).now := by
      rw [hmessage, ← hctx]
      rfl
    have hT₂ : net₂.Timely :=
      (h₁.invariant hT fun _ _ _ hT hl _ => hT.step (netStep_cases hl)).step (netStep_cases h₂)
    constructor
    · rintro ⟨htold, -⟩
      obtain ⟨d, hd, hleft⟩ := Option.map_eq_some_iff.1 (htimeout.symm.trans htold)
      rw [hd, sub_left_injective hleft]
    · intro hd
      have htold : (net₂.messages net₁.sent).timeout = some (deadline - (net₁.nodes n).now) := by
        rw [htimeout, hd]
        rfl
      refine ⟨htold, fun net₃ m u c a rest h₃ hserving hs₃ => ?_⟩
      have hT₃ : net₃.Timely := h₃.invariant hT₂ fun _ _ _ hT hl _ => hT.step (netStep_cases hl)
      have hmessage₃ := message_eq_run h₃ (hsent.symm.le.trans' (Nat.lt_succ_self _))
      obtain ⟨d, hd₃, hle⟩ := hT₃.leaves hserving (hmessage₃ ▸ htold) hs₃ nofun
      exact ⟨d, hd₃, hle.trans (sub_le_sub_left (now_le_run h₁ n) deadline)⟩

/-! ## Runs on fixed inputs -/

/-- From the end of its chain of filters a call comes to its method, on a node that builds an
activation for it. -/
def toMethod : List NetLabel :=
  Label.on "one" (Label.gos 6 ++ [Label.returns] ++ Label.gos 3)

/-- The first node runs the method of a call for `y` that stood at the end of its chain on `low`. -/
def RunsMethod (deadline : Time) (low : List Frame) (net : Network) : Prop :=
  ((net.nodes "one").tasks 0).stack = .user (.body 0 0) ::
    ([.dispatchHere ⟨⟨"counter", "y"⟩, "get", 0, 0, some deadline⟩ (.running 0 0 true),
      .timeout ⟨⟨"counter", "y"⟩, "get", 0, 0, some deadline⟩ 0 false] ++ low)

instance {deadline : Time} {low : List Frame} {net : Network} :
    Decidable (RunsMethod deadline low net) :=
  inferInstanceAs (Decidable (_ = _))

/-- A call that comes from the end of its chain of filters to its method. -/
theorem exists_served (filters : ℕ) (ls : List NetLabel) (deadline : Time) (low : List Frame)
    (c : Option Time)
    (h : (execute (netStep (.pair filters)) (fun _ _ => true)
      (.init (.pair filters) fun _ => some pairMembers) ls).any (fun net =>
        decide (((net.nodes "one").tasks 0).stack =
          .chain 0 ⟨⟨"counter", "y"⟩, "get", 0, 0, some deadline⟩ .dispatch :: low ∧
          (net.nodes "one").now < deadline ∧ ((net.nodes "one").tasks 0).context = c) &&
        (execute (netStep (.pair filters)) (fun net net' =>
          decide (Standing "one" 0 low.length net net')) net toMethod).any fun net₁ =>
            decide (RunsMethod deadline low net₁ ∧
              ((net₁.nodes "one").tasks 0).context = c)) = true) :
    ∃ net net₁ : Network,
      Run (netStep (.pair filters)) (fun _ _ => True)
        (.init (.pair filters) fun _ => some pairMembers) net ∧
      ((net.nodes "one").tasks 0).stack =
        .chain 0 ⟨⟨"counter", "y"⟩, "get", 0, 0, some deadline⟩ .dispatch :: low ∧
      (net.nodes "one").now < deadline ∧ ((net.nodes "one").tasks 0).context = c ∧
      Run (netStep (.pair filters)) (Standing "one" 0 low.length) net net₁ ∧
      RunsMethod deadline low net₁ ∧ ((net₁.nodes "one").tasks 0).context = c := by
  obtain ⟨net, hrun, hp⟩ := exists_pair_run (.pair filters) ls _ h
  rw [Bool.and_eq_true, decide_eq_true_eq] at hp
  obtain ⟨⟨hs, hnow, hctx⟩, hlater⟩ := hp
  obtain ⟨net₁, hrun₁, hp₁⟩ := exists_run (netStep (.pair filters)) _
    (fun _ _ => of_decide_eq_true) net toMethod _ hlater
  obtain ⟨hs₁, hctx₁⟩ := of_decide_eq_true hp₁
  exact ⟨net, net₁, hrun, hs, hnow, hctx, hrun₁, hs₁, hctx₁⟩

/-- The first node calls an identity with ten seconds left. -/
def callsWithin (key : String) : List NetLabel :=
  Label.on "one" [.arrive, .resume 0, .run (.within 10), .run .go,
    .run (.call ⟨"counter", key⟩ "get" 0 0)]

/-- Its caller. -/
def tenLeft : List Frame :=
  [.user .block, .scope 10 none, .user .client]

/-- Three seconds later a forwarded call arrives on the second node, over a wire, and comes to its
method there. -/
def toFarMethod : List NetLabel :=
  .own "one" (.clock 3) :: .arrive 0 false ::
    Label.on "two" ([.resume 0] ++ Label.gos 6 ++ [Label.returns] ++ Label.gos 3)

/-- What is to be forwarded. -/
def farCall : Call :=
  ⟨⟨"counter", "x"⟩, "get", 0, 0, some 10⟩

/-- The first node sends a message, and the second one comes to the method it is for. -/
def sendsTen (net₁ : Network) : Bool :=
  decide ((net₁.nodes "one").running = some (0, .send) ∧
    ((net₁.nodes "one").tasks 0).stack =
      .dispatch farCall :: ([.timeout farCall 0 false] ++ tenLeft) ∧
    (net₁.nodes "one").isMine.isSome = true ∧
    (Deployment.pair 0).ownerOf "one" (net₁.members "one")
      (route ((Deployment.pair 0).config "one") (net₁.nodes "one") farCall.grain) = .ok "two") &&
  (netStep (.pair 0) net₁ (.own "one" (.run .go))).any fun net₂ : Network =>
    (execute (netStep (.pair 0)) (fun _ _ => true) net₂ toFarMethod).any fun net₃ : Network =>
      decide (net₃.serving "two" 0 = some net₁.sent ∧
        ((net₃.nodes "two").tasks 0).stack.head? = some (.user (.body 0 0)))

theorem of_sendsTen {net₁ : Network} (h : sendsTen net₁ = true) :
    ∃ mid far : List Frame, ∃ net₂ net₃ : Network,
      net₁.Sends (.pair 0) "one" 0 farCall (mid ++ tenLeft) "two" ∧
      (∀ f ∈ mid, f.carries = true) ∧
      netStep (.pair 0) net₁ (.own "one" (.run .go)) = some net₂ ∧
      Run (netStep (.pair 0)) (fun _ _ => True) net₂ net₃ ∧
      net₃.serving "two" 0 = some net₁.sent ∧
      ((net₃.nodes "two").tasks 0).stack = .user (.body 0 0) :: far := by
  simp only [sendsTen, Bool.and_eq_true, Option.any_eq_true, decide_eq_true_eq] at h
  obtain ⟨⟨hr, hs, hclustered, howned⟩, net₂, h₂, net₃, he₃, hserving, hhead⟩ := h
  obtain ⟨far, hfar⟩ := List.head?_eq_some_iff.1 hhead
  exact ⟨_, far, net₂, net₃, ⟨hr, hs, hclustered, howned, by decide⟩, by decide, h₂,
    run_of_execute (fun _ _ _ => trivial) he₃, hserving, hfar⟩

/-- A call made with ten seconds left : its method sees ten, and if it is forwarded the transport
is told ten and the method on the other node sees no more. -/
theorem deadline_seen_iff_within :
    (∃ net net₁ : Network, ((net.nodes "one").tasks 0).context = some 10 ∧
      RunsMethod 10 tenLeft net₁ ∧
      Leaves ((net₁.nodes "one").tasks 0).context (net.nodes "one").now
        (10 - (net.nodes "one").now)) ∧
    ∃ net net₁ net₂ net₃ : Network, ∃ far : List Frame,
      ((net.nodes "one").tasks 0).context = some 10 ∧
      (net₂.messages net₁.sent).timeout = some (10 - (net₁.nodes "one").now) ∧
      ((net₃.nodes "two").tasks 0).stack = .user (.body 0 0) :: far ∧
      Leaves ((net₃.nodes "two").tasks 0).context (net₃.nodes "two").now
        (10 - (net.nodes "one").now) := by
  constructor
  · obtain ⟨net, net₁, hrun, hs, hnow, hctx, hrun₁, hs₁, -⟩ := exists_served 0 (callsWithin "y")
      10 tenLeft (some 10) (by decide +kernel)
    exact ⟨net, net₁, hctx, hs₁, ((deadline_seen_iff hrun hs rfl hnow).1 net₁ 0 0 _ hrun₁ hs₁
      (by decide)).2 ⟨10, le_rfl, hctx⟩⟩
  · obtain ⟨net, hrun, hp⟩ := exists_pair_run (.pair 0) (callsWithin "x") (fun net : Network =>
      decide (((net.nodes "one").tasks 0).stack = .chain 0 farCall .dispatch :: tenLeft ∧
        (net.nodes "one").now < 10 ∧ ((net.nodes "one").tasks 0).context = some 10) &&
      (execute (netStep (.pair 0)) (fun net net' =>
        decide (Standing "one" 0 tenLeft.length net net')) net (Label.on "one" [.run .go])).any
          sendsTen) (by decide +kernel)
    rw [Bool.and_eq_true, decide_eq_true_eq] at hp
    obtain ⟨⟨hs, hnow, hctx⟩, hlater⟩ := hp
    obtain ⟨net₁, hrun₁, hten⟩ := exists_run (netStep (.pair 0)) _
      (fun _ _ => of_decide_eq_true) net _ _ hlater
    obtain ⟨mid, far, net₂, net₃, hsends, hmid, h₂, hrun₃, hserving, hfar⟩ := of_sendsTen hten
    obtain ⟨htold, hleaves⟩ := ((deadline_seen_iff hrun hs rfl hnow).2 net₁ net₂ _ mid "two" .go
      hrun₁ hsends hmid h₂).2 hctx
    exact ⟨net, net₁, net₂, net₃, far, hctx, htold, hfar,
      hleaves net₃ "two" 0 0 0 far hrun₃ hserving hfar⟩

/-- A filter hands a call on with five seconds left, whose caller has no deadline : its method sees
none. -/
theorem narrowed_unseen : ∃ net net₁ : Network, ∃ low mid : List Frame,
    Run (netStep (.pair 1)) (fun _ _ => True) (.init (.pair 1) fun _ => some pairMembers) net ∧
    ((net.nodes "one").tasks 0).stack =
      .chain 0 ⟨⟨"counter", "y"⟩, "get", 0, 0, some 5⟩ .dispatch :: low ∧
    (net.nodes "one").now < 5 ∧
    Run (netStep (.pair 1)) (Standing "one" 0 low.length) net net₁ ∧
    ((net₁.nodes "one").tasks 0).stack = .user (.body 0 0) :: (mid ++ low) ∧
    (∀ f ∈ mid, f.carries = true) ∧
    ¬ Leaves ((net₁.nodes "one").tasks 0).context (net.nodes "one").now
      (5 - (net.nodes "one").now) := by
  obtain ⟨net, net₁, hrun, hs, hnow, -, hrun₁, hs₁, hctx₁⟩ := exists_served 1
    (Label.on "one" [.arrive, .resume 0, .run (.call ⟨"counter", "y"⟩ "get" 0 0), .run .go,
      .run (.next ⟨⟨"counter", "y"⟩, "get", 0, 0, some 5⟩)])
    5 [.user (.filter 0 ⟨⟨"counter", "y"⟩, "get", 0, 0, none⟩ .dispatch), .user .client] none
    (by decide +kernel)
  refine ⟨net, net₁, _, _, hrun, hs, hnow, hrun₁, hs₁, by decide, ?_⟩
  rintro ⟨deadline, hdeadline, -⟩
  rw [hctx₁] at hdeadline
  cases hdeadline

end Nigrains
