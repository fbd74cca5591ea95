import GridKV.Spec.PingExchange

/-!
# Are incarnations authentic?

Any number of nodes exchange member messages; a message that was sent stays in the pool,
so it can be lost, delivered late and delivered again.  No node should record for another
one an incarnation that the other does not have, or it will ignore what the other really
says.  Every incarnation a node records was in a message, and every message but one speaks
with the incarnation of the node it names: `handleIndirectProbe` sends a ping in its own
name with the incarnation of the node that asked for the probe.
-/

namespace GridKV

open Go Run List

/-! ### Genuine messages -/

/-- The message speaks of no incarnation above `c`, the counters of the nodes. -/
def MemberMsg.Genuine (c : GoString → Int64) : MemberMsg → Prop
  | .ping (some msg) => msg.incarnation ≤ c msg.sender
  | .ack (some msg) => msg.incarnation ≤ c msg.sender
  | .connect (some msg) => msg.incarnation ≤ c msg.nodeID
  | .indirectProbe (some msg) => msg.incarnation ≤ c msg.sender
  | .indirectAck (some msg) => msg.incarnation ≤ c msg.target
  | .clusterSync (some msg) => ∀ info ∈ msg.members, info.incarnation ≤ c info.nodeID
  | _ => True

namespace MemberMgr

variable {c : GoString → Int64} {m m' : MemberMgr} {effects effects' : List MemberEffect}
  {info : NodeInfo} (nodeID address : GoString) {out : MemberMgr × List MemberEffect}

/-- The node has its own counter, and no entry of its table is above the counter of the
    node it is about. -/
structure Honest (c : GoString → Int64) (m : MemberMgr) : Prop where
  counter : c m.nodeID = m.incarnation
  recorded : ∀ {y info}, m.members.lookup y = some info →
    info.nodeID = y ∧ info.incarnation ≤ c y

/-- The node stays honest and sends only genuine messages. -/
structure HonestStep (c : GoString → Int64) (m : MemberMgr) (out : MemberMgr × List MemberEffect) :
    Prop where
  honest : Honest c out.1
  nodeID_eq : out.1.nodeID = m.nodeID
  genuine : ∀ {address msg}, .send address msg ∈ out.2 → msg.Genuine c

theorem Honest.idle (h : Honest c m) : HonestStep c m (m, []) :=
  ⟨h, rfl, fun hmem => nomatch hmem⟩

theorem Honest.own (h : Honest c m) : m.incarnation ≤ c m.nodeID := by
  rw [h.counter]
  exact Int64.le_refl _

/-- A change of state without effects. -/
theorem Honest.become (h : Honest c m') (hid : m'.nodeID = m.nodeID) : HonestStep c m (m', []) :=
  ⟨h, hid, fun hmem => nomatch hmem⟩

/-- Sending a genuine message after a change of state. -/
theorem Honest.send (h : Honest c m') (hid : m'.nodeID = m.nodeID) (address : GoString)
    {msg : MemberMsg} (hmsg : msg.Genuine c) : HonestStep c m (m', m'.send address msg) := by
  refine ⟨h, hid, fun {a x} hmem => ?_⟩
  unfold MemberMgr.send at hmem
  split at hmem
  · simp only [mem_singleton, MemberEffect.send.injEq] at hmem
    exact hmem.2 ▸ hmsg
  · exact nomatch hmem

theorem HonestStep.append (h : HonestStep c m (m', effects)) (h' : HonestStep c m' out) :
    HonestStep c m (out.1, effects ++ out.2) := by
  refine ⟨h'.honest, h'.nodeID_eq.trans h.nodeID_eq, fun hmem => ?_⟩
  obtain hfirst | hrest := mem_append.mp hmem
  · exact h.genuine hfirst
  · exact h'.genuine hrest

section

variable (h : Honest c m)

include h

/-- Storing an entry. -/
theorem Honest.insert (hinfo : info.incarnation ≤ c info.nodeID) :
    Honest c { m with members := m.members.insert info.nodeID info } := by
  refine ⟨h.counter, fun {y info'} hlookup => ?_⟩
  by_cases hy : y = info.nodeID
  · subst hy
    rw [AList.lookup_insert] at hlookup
    cases hlookup
    exact ⟨rfl, hinfo⟩
  · rw [AList.lookup_insert_ne hy] at hlookup
    exact h.recorded hlookup

/-- Storing a changed copy of an entry. -/
theorem Honest.revise {nodeID : GoString} {old : NodeInfo}
    (hold : m.members.lookup nodeID = some old) (hid : info.nodeID = old.nodeID)
    (hinc : info.incarnation = old.incarnation) :
    Honest c { m with members := m.members.insert nodeID info } := by
  obtain ⟨rfl, hle⟩ := h.recorded hold
  rw [← hid] at hle ⊢
  exact h.insert (hinc ▸ hle)

/-! ### The handlers -/

theorem Honest.updateNode (now : Time) {nodeID : GoString} (address : GoString)
    {incarnation : Int64} (state : NodeState) (hinc : incarnation ≤ c nodeID) :
    HonestStep c m (m.updateNode now nodeID address incarnation state) := by
  let info : NodeInfo := { nodeID, address, state, incarnation, lastActive := now }
  have hinfo : info.incarnation ≤ c info.nodeID := hinc
  have hstore : Honest c (m.storeNode now nodeID address incarnation state) := h.insert hinfo
  obtain ⟨-, hupdate⟩ | ⟨-, -, effects, heffects, hupdate⟩ :=
    updateNode_cases m now nodeID address incarnation state
  · rw [hupdate]
    exact h.idle
  · rw [hupdate]
    refine ⟨hstore, rfl, fun hmem => ?_⟩
    -- At most the callback is called.
    obtain rfl | rfl := heffects <;> simp at hmem

theorem Honest.handlePing (now : Time) {msg : Option PingMsg}
    (hmsg : (MemberMsg.ping msg).Genuine c) : HonestStep c m (m.handlePing now msg) := by
  cases msg with
  | none => exact h.idle
  | some msg =>
    simp only [MemberMgr.handlePing]
    split
    · have hupdate := h.updateNode now (m.addressOf msg.sender) NodeState.alive hmsg
      refine hupdate.append (hupdate.honest.send rfl _ ?_)
      -- The ack carries the node's own incarnation.
      exact hupdate.honest.own
    · exact h.idle

theorem Honest.forwardIndirectAck {msg : AckMsg} (hmsg : msg.incarnation ≤ c msg.sender) :
    HonestStep c m (m.forwardIndirectAck msg) := by
  unfold MemberMgr.forwardIndirectAck
  split
  · exact h.idle
  · have herase : Honest c { m with indirectProbes := m.indirectProbes.erase msg.sender } :=
      ⟨h.counter, h.recorded⟩
    dsimp only
    split
    · apply herase.send
      · rfl
      · exact hmsg
    · exact herase.become rfl

theorem Honest.handleAck (now : Time) {msg : Option AckMsg} (hmsg : (MemberMsg.ack msg).Genuine c) :
    HonestStep c m (m.handleAck now msg) := by
  cases msg with
  | none => exact h.idle
  | some msg =>
    simp only [MemberMgr.handleAck]
    split
    · have hupdate := h.updateNode now (m.addressOf msg.sender) NodeState.alive hmsg
      exact hupdate.append (hupdate.honest.forwardIndirectAck hmsg)
    · exact h.idle.append (h.forwardIndirectAck hmsg)

/-- A cluster sync passes on what the node has recorded. -/
theorem Honest.allMembers (hmem : info ∈ m.allMembers) : info.incarnation ≤ c info.nodeID := by
  obtain ⟨entry, hentry, rfl⟩ := mem_map.mp hmem
  have hlookup : m.members.lookup entry.1 = some entry.2 :=
    mem_dlookup m.members.nodupKeys hentry
  obtain ⟨hid, hle⟩ := h.recorded hlookup
  rwa [hid]

theorem Honest.handleConnect (now : Time) {msg : Option ConnectMsg}
    (hmsg : (MemberMsg.connect msg).Genuine c) : HonestStep c m (m.handleConnect now msg) := by
  cases msg with
  | none => exact h.idle
  | some msg =>
    simp only [MemberMgr.handleConnect]
    split
    · exact h.idle
    · have hupdate := h.updateNode now msg.address NodeState.alive hmsg
      refine hupdate.append (hupdate.honest.send rfl _ ?_)
      exact fun info => hupdate.honest.allMembers

theorem Honest.handleIndirectAck (now : Time) {msg : Option IndirectAckMsg}
    (hmsg : (MemberMsg.indirectAck msg).Genuine c) :
    HonestStep c m (m.handleIndirectAck now msg) := by
  cases msg with
  | none => exact h.idle
  | some msg =>
    -- Whether or not the target was updated before, the ack speaks for the target.
    have hanswer : ∀ {out : MemberMgr × List MemberEffect}, HonestStep c m out →
        HonestStep c m (if out.1.addressOf msg.receiver ≠ [] then
          (out.1, out.2 ++ out.1.send (out.1.addressOf msg.receiver) (.ack (some
            { sender := msg.target, receiver := msg.receiver, incarnation := msg.incarnation })))
          else (out.1, out.2)) := by
      intro out hout
      split
      · refine hout.append (hout.honest.send rfl _ ?_)
        exact hmsg
      · exact hout
    simp only [MemberMgr.handleIndirectAck]
    split
    · split
      · exact hanswer (h.updateNode now _ NodeState.alive hmsg)
      · exact hanswer h.idle
    · exact h.idle

theorem Honest.syncMembers (clock : Nat → Time) (i : Nat) {members : List NodeInfo}
    (hmembers : ∀ info ∈ members, info.incarnation ≤ c info.nodeID) :
    HonestStep c m (m.syncMembers clock i members) := by
  -- Each entry is handled in the state the entries before it have left.
  induction members generalizing m i with
  | nil => exact h.idle
  | cons info members ih =>
    have hrest : ∀ info ∈ members, info.incarnation ≤ c info.nodeID :=
      fun info hinfo => hmembers info (mem_cons_of_mem _ hinfo)
    simp only [MemberMgr.syncMembers]
    split
    · have hupdate := h.updateNode (clock i) info.address info.state
        (hmembers info mem_cons_self)
      exact hupdate.append (ih hupdate.honest (i + 1) hrest)
    · exact h.idle.append (ih h (i + 1) hrest)

/-- The one handler that can make a false message: it speaks in its own name with the
    incarnation it was given. -/
theorem Honest.handleIndirectProbe {msg : Option IndirectProbeMsg}
    (hown : ∀ probe, msg = some probe → m.addressOf probe.target ≠ [] →
      probe.incarnation ≤ m.incarnation) : HonestStep c m (m.handleIndirectProbe msg) := by
  cases msg with
  | none => exact h.idle
  | some probe =>
    simp only [MemberMgr.handleIndirectProbe]
    split
    · rename_i hforward
      have hnote : Honest c { m with
          indirectProbes := m.indirectProbes.insert probe.target probe.sender } :=
        ⟨h.counter, h.recorded⟩
      apply hnote.send
      · rfl
      · show probe.incarnation ≤ c m.nodeID
        rw [h.counter]
        exact hown probe rfl hforward.2
    · exact h.idle

/-- A handler turns genuine messages into genuine messages, unless it forwards a probe with
    an incarnation above its own. -/
theorem Honest.handleMessage {clock : Nat → Time} {msg : MemberMsg} (hmsg : msg.Genuine c)
    (hown : ∀ probe, msg = .indirectProbe (some probe) → m.addressOf probe.target ≠ [] →
      probe.incarnation ≤ m.incarnation) (hout : m.handleMessage clock msg = .ok out) :
    HonestStep c m out := by
  cases msg with
  | ping msg =>
    cases hout
    exact h.handlePing (clock 0) hmsg
  | ack msg =>
    cases hout
    exact h.handleAck (clock 0) hmsg
  | connect msg =>
    cases hout
    exact h.handleConnect (clock 0) hmsg
  | leave msg =>
    cases hout
    -- A leave has no address, so it changes nothing.
    cases msg <;> exact h.idle
  | indirectProbe msg =>
    cases hout
    exact h.handleIndirectProbe fun probe hprobe => hown probe (hprobe ▸ rfl)
  | indirectAck msg =>
    cases hout
    exact h.handleIndirectAck (clock 0) hmsg
  | clusterSync msg =>
    cases msg with
    | none => exact nomatch hout
    | some msg =>
      cases hout
      exact h.syncMembers clock 0 hmsg
  | bytes data =>
    cases hout
    exact h.idle

/-! ### Probing and joining -/

theorem Honest.mark (nodeID : GoString) (state : NodeState) :
    HonestStep c m (m.mark nodeID state) := by
  unfold MemberMgr.mark
  split
  · exact h.idle
  · rename_i info hlookup
    split
    · exact h.idle
    · exact ⟨h.revise hlookup rfl rfl, rfl, fun hmem => by simp at hmem⟩

theorem Honest.suspectTimeout (timeout : Int) (now : Time) (nodeID : GoString) :
    HonestStep c m (m.suspectTimeout timeout now nodeID) := by
  unfold MemberMgr.suspectTimeout
  split
  · exact h.idle
  · split
    · exact h.mark nodeID NodeState.dead
    · exact h.idle

theorem Honest.updateLastActive (now : Time) (nodeID : GoString) :
    Honest c (m.updateLastActive now nodeID) ∧
      (m.updateLastActive now nodeID).nodeID = m.nodeID := by
  unfold MemberMgr.updateLastActive
  split
  · exact ⟨h, rfl⟩
  · split
    · exact ⟨h, rfl⟩
    · rename_i info hlookup
      split
      · exact ⟨h, rfl⟩
      · split
        · exact ⟨h, rfl⟩
        · exact ⟨h.revise hlookup rfl rfl, rfl⟩

theorem Honest.tryIndirectProbe (targetID : GoString) (hash : Nat) :
    HonestStep c m (m, m.tryIndirectProbe targetID hash) := by
  simp only [MemberMgr.tryIndirectProbe]
  split
  · exact h.idle
  · split
    · apply h.send
      · rfl
      · exact h.own
    · exact h.idle

theorem Honest.pingMember (failureTimeout : Int) (input : ProbeInput) (nodeID : GoString)
    (info : NodeInfo) : HonestStep c m (m.pingMember failureTimeout input nodeID info) := by
  unfold MemberMgr.pingMember
  split
  · exact h.idle
  · split
    · exact h.idle
    · split
      · -- not heard of for too long
        split
        · exact h.mark nodeID NodeState.dead
        · exact h.mark nodeID NodeState.suspect
      · split
        · -- a suspect is probed through a proxy
          exact h.tryIndirectProbe nodeID input.hash
        · split
          · have hsend : HonestStep c m (m, m.send info.address (.ping (some
                { sender := m.nodeID, receiver := nodeID, incarnation := m.incarnation }))) := by
              apply h.send
              · rfl
              · exact h.own
            split
            · obtain ⟨hactive, hid⟩ := h.updateLastActive input.activeNow nodeID
              exact ⟨hactive, hid, hsend.genuine⟩
            · exact hsend
          · exact h.idle

theorem Honest.pingMembers (failureTimeout : Int) (inputs : GoString → ProbeInput)
    (entries : List (Sigma fun _ : GoString => NodeInfo)) :
    HonestStep c m (m.pingMembers failureTimeout inputs entries) := by
  induction entries generalizing m with
  | nil => exact h.idle
  | cons entry entries ih =>
    have hfirst := h.pingMember failureTimeout (inputs entry.1) entry.1 entry.2
    exact hfirst.append (ih hfirst.honest)

theorem Honest.join (seed : List GoString) : HonestStep c m (m, m.join seed) := by
  refine ⟨h, rfl, fun {address msg} hmem => ?_⟩
  obtain ⟨addr, -, hsent⟩ := mem_flatMap.mp hmem
  split at hsent
  · exact nomatch hsent
  · have hconnect : HonestStep c m (m, m.send addr (.connect (some
        { nodeID := m.nodeID, address := m.address, incarnation := m.incarnation }))) := by
      apply h.send
      · rfl
      · exact h.own
    exact hconnect.genuine hsent

end

theorem honest_new {c : GoString → Int64} (now : Time) (hpos : 0 ≤ c nodeID) :
    Honest c (MemberMgr.new nodeID address (c nodeID) now) := by
  refine ⟨rfl, fun {y info} hlookup => ?_⟩
  obtain ⟨rfl, rfl⟩ := eq_of_lookup_new hlookup
  exact ⟨rfl, hpos⟩

end MemberMgr

/-! ### The nodes together -/

/-- The nodes by their IDs, and every message ever sent with the address it was sent to. -/
structure MemberNet where
  nodes : GoString → MemberMgr
  sent : List (GoString × MemberMsg) := []

namespace MemberNet

/-- What can happen at a node: the `i`-th message arrives, the ping loop makes a round, the
    timer of a suspect fires, or the node joins through some seed addresses. -/
inductive Action where
  | deliver (x : GoString) (i : Nat) (clock : Nat → Time)
  | ping (x : GoString) (inputs : GoString → MemberMgr.ProbeInput)
  | suspectTimeout (x : GoString) (now : Time) (nodeID : GoString)
  | join (x : GoString) (seed : List GoString)

/-- A node moves on, and what it sends joins the messages. -/
def apply (net : MemberNet) (x : GoString) (out : MemberMgr × List MemberEffect) : MemberNet where
  nodes := Function.update net.nodes x out.1
  sent := net.sent ++ Exchange.sends out.2

/-- The timeouts each node is configured with. -/
structure Timeouts where
  failure : Int
  suspect : Int

variable (timeouts : GoString → Timeouts)

def step (net : MemberNet) : Action → Option MemberNet
  | .deliver x i clock =>
    match net.sent[i]? with
    | none => none
    | some (address, msg) =>
      if (net.nodes x).address = address then
        match (net.nodes x).handleMessage clock msg with
        | .ok out => some (net.apply x out)
        | .error _ => none
      else none
  | .ping x inputs => some (net.apply x ((net.nodes x).doPing (timeouts x).failure inputs))
  | .suspectTimeout x now nodeID =>
    some (net.apply x ((net.nodes x).suspectTimeout (timeouts x).suspect now nodeID))
  | .join x seed => some (net.apply x (net.nodes x, (net.nodes x).join seed))

/-- A node forwards a probe only if its own incarnation is at least the one in the probe. -/
def ForwardsOwn (net : MemberNet) : Action → Prop
  | .deliver x i _ =>
    ∀ address probe, net.sent[i]? = some (address, .indirectProbe (some probe)) →
      (net.nodes x).addressOf probe.target ≠ [] → probe.incarnation ≤ (net.nodes x).incarnation
  | _ => True

/-- No node has recorded for another an incarnation above that node's own. -/
def Authentic (net : MemberNet) : Prop :=
  ∀ x y info, (net.nodes x).members.lookup y = some info →
    info.incarnation ≤ (net.nodes y).incarnation

/-- Every node has just been started. -/
def start (address : GoString → GoString) (incarnation : GoString → Int64) (now : GoString → Time) :
    MemberNet where
  nodes x := .new x (address x) (incarnation x) (now x)

/-- The nodes are honest and so are the messages. -/
structure Sincere (c : GoString → Int64) (net : MemberNet) : Prop where
  honest : ∀ x, (net.nodes x).Honest c ∧ (net.nodes x).nodeID = x
  genuine : ∀ sent ∈ net.sent, sent.2.Genuine c

variable {timeouts} {c : GoString → Int64} {net net' : MemberNet} {a : Action}

theorem mem_of_mem_sends {address : GoString} {msg : MemberMsg} {effects : List MemberEffect}
    (h : (address, msg) ∈ Exchange.sends effects) : .send address msg ∈ effects := by
  induction effects with
  | nil => exact nomatch h
  | cons effect effects ih =>
    cases effect with
    | send address' msg' =>
      rw [Exchange.sends, mem_cons, Prod.mk.injEq] at h
      obtain ⟨rfl, rfl⟩ | hrest := h
      · exact mem_cons_self
      · exact mem_cons_of_mem _ (ih hrest)
    | membershipChange => exact mem_cons_of_mem _ (ih h)

theorem Sincere.apply (h : Sincere c net) {x : GoString} {out : MemberMgr × List MemberEffect}
    (hout : MemberMgr.HonestStep c (net.nodes x) out) : Sincere c (net.apply x out) := by
  refine ⟨fun y => ?_, fun sent hsent => ?_⟩
  · by_cases hy : y = x
    · subst hy
      simp only [MemberNet.apply, Function.update_self]
      exact ⟨hout.honest, hout.nodeID_eq.trans (h.honest y).2⟩
    · simp only [MemberNet.apply, Function.update_of_ne hy]
      exact h.honest y
  · obtain hold | hnew := mem_append.mp hsent
    · exact h.genuine sent hold
    · exact hout.genuine (mem_of_mem_sends hnew)

theorem Sincere.step (h : Sincere c net) (hguard : ForwardsOwn net a)
    (hstep : net.step timeouts a = some net') : Sincere c net' := by
  cases a with
  | deliver x i clock =>
    simp only [MemberNet.step] at hstep
    split at hstep
    · exact nomatch hstep
    · rename_i address msg hsent
      split at hstep
      · split at hstep <;> cases hstep
        rename_i out hout
        refine h.apply ((h.honest x).1.handleMessage
          (h.genuine _ (mem_of_getElem? hsent)) (fun probe hprobe => ?_) hout)
        exact hguard address probe (hprobe ▸ hsent)
      · exact nomatch hstep
  | ping x inputs =>
    cases hstep
    exact h.apply ((h.honest x).1.pingMembers _ _ _)
  | suspectTimeout x now nodeID =>
    cases hstep
    exact h.apply ((h.honest x).1.suspectTimeout _ _ _)
  | join x seed =>
    cases hstep
    exact h.apply ((h.honest x).1.join seed)

/-- **Incarnations.**  Along every run of any number of nodes in which no node forwards a
    probe with an incarnation above its own, no node records an incarnation that the node
    it is about does not have. -/
theorem authentic_of_run {address : GoString → GoString} {incarnation : GoString → Int64}
    {now : GoString → Time} {as : List Action} (hpos : ∀ x, 0 ≤ incarnation x)
    (hrun : GuardedRun (step timeouts) ForwardsOwn (start address incarnation now) as net) :
    Authentic net := by
  have hstart : Sincere incarnation (start address incarnation now) :=
    ⟨fun x => ⟨MemberMgr.honest_new x (address x) (now x) (hpos x), rfl⟩, fun _ h => nomatch h⟩
  have hend := hrun.invariant (fun _ _ _ h hguard hstep => h.step hguard hstep) hstart
  intro x y info hlookup
  obtain ⟨hy, hid⟩ := hend.honest y
  have hle := ((hend.honest x).1.recorded hlookup).2
  rwa [← hy.counter, hid]

/-- The proxy p with incarnation 5, the requester r with another one, and further nodes with
    incarnation 7. -/
def trio (requester : Int64) : MemberNet :=
  start (fun x => ascii "tcp:" ++ x)
    (fun x => if x = ascii "p" then 5 else if x = ascii "r" then requester else 7) fun _ => 0

def shortTimeouts (_ : GoString) : Timeouts := { failure := 10, suspect := 10 }

/-- All members are met at one time, and messages to them can be sent. -/
def met (now : Time) (_ : GoString) : MemberMgr.ProbeInput := { now, hash := 0, sent := true }

/-- The proxy joins through t and comes to suspect it; r joins through the proxy, learns of
    the suspicion, and asks the proxy for a probe, which reaches t as a ping. -/
def probing : List Action :=
  [.join (ascii "p") [ascii "tcp:t"], .deliver (ascii "t") 0 fun _ => 0,
    .deliver (ascii "p") 1 fun _ => 0, .ping (ascii "p") (met 20),
    .join (ascii "r") [ascii "tcp:p"], .deliver (ascii "p") 2 fun _ => 20,
    .deliver (ascii "r") 3 fun _ => 20, .ping (ascii "r") (met 21),
    .deliver (ascii "p") 5 fun _ => 21, .deliver (ascii "t") 6 fun _ => 21]

/-- The requester is not ahead of the proxy. -/
theorem authentic_after_probing :
    ∃ net, Runs (step shortTimeouts) (trio 3) probing net ∧ Authentic net := by
  have hrun : ∃ net, GuardedRun (step shortTimeouts) ForwardsOwn (trio 3) probing net := by
    refine ⟨_, .cons trivial rfl (.cons ?_ rfl (.cons ?_ rfl (.cons trivial rfl (.cons trivial rfl
      (.cons ?_ rfl (.cons ?_ rfl (.cons trivial rfl (.cons ?_ rfl (.cons ?_ rfl
        (.nil _))))))))))⟩
    · exact fun _ _ h => nomatch h
    · exact fun _ _ h => nomatch h
    · exact fun _ _ h => nomatch h
    · exact fun _ _ h => nomatch h
    · intro address probe h _
      obtain ⟨-, hprobe⟩ := Prod.mk.inj (Option.some.inj h)
      cases hprobe
      decide
    · exact fun _ _ h => nomatch h
  obtain ⟨net, hrun⟩ := hrun
  refine ⟨net, hrun.runs, authentic_of_run (fun x => ?_) hrun⟩
  split
  · decide
  · split <;> decide

/-- The requester is ahead of the proxy, and t takes the proxy's incarnation for 9. -/
theorem not_authentic_after_probing :
    ∃ net, Runs (step shortTimeouts) (trio 9) probing net ∧ ¬ Authentic net := by
  have hrun : ∃ net, Runs (step shortTimeouts) (trio 9) probing net ∧
      ((net.nodes (ascii "t")).members.lookup (ascii "p")).map NodeInfo.incarnation = some 9 ∧
      (net.nodes (ascii "p")).incarnation = 5 :=
    ⟨_, runs_of_exec rfl, by decide, by decide⟩
  obtain ⟨net, hrun, hrecorded, hown⟩ := hrun
  refine ⟨net, hrun, fun hauthentic => ?_⟩
  obtain ⟨info, hlookup, hinc⟩ := Option.map_eq_some_iff.mp hrecorded
  have hle := hauthentic _ _ info hlookup
  rw [hinc, hown] at hle
  exact absurd hle (by decide)

end MemberNet

end GridKV
