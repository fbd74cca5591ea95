import GridKV.Model.MemberCodec

/-!
# The member manager

Translation of the message handlers of `memberMgr` in `internal/cluster/member.go` and
of the member handlers `setupNetworkHandlers` registers.  A handler returns the new
state and, in order, what it did to the outside: messages passed to `sendFunc` and
calls of the membership callback.  Errors of `sendFunc` are ignored by every handler.
-/

namespace GridKV

open Go

/-- The mutable part of `memberMgr`. -/
structure MemberMgr where
  nodeID : GoString
  address : GoString
  incarnation : Int64
  members : GoMap NodeInfo
  /-- `sendFunc != nil` -/
  hasSendFunc : Bool := true
  indirectProbes : GoMap GoString := ∅

/-- What a handler does to the outside. -/
inductive MemberEffect where
  | send (address : GoString) (msg : MemberMsg)
  | membershipChange
  deriving DecidableEq, Repr

/-- `time.Second` -/
def second : Int := 1000000000

/-- The hash of `tryIndirectProbe`. -/
def runeHash (targetID : GoString) : Int64 :=
  (runes targetID).foldl (fun hash c => hash * 31 + Int64.ofNat c) 0

/-- `hash % len(aliveMembers)`, after a negative hash was negated. -/
def proxyIndex (targetID : GoString) (aliveMembers : List GoString) : Int :=
  let hash := runeHash targetID
  let hash := if hash < 0 then -hash else hash
  hash.toInt.tmod aliveMembers.length

namespace MemberMgr

variable (m : MemberMgr) (now : Time) (clock : Nat → Time)

/-- The address recorded for a node, empty when the node is unknown. -/
def addressOf (nodeID : GoString) : GoString :=
  match m.members.lookup nodeID with
  | some info => info.address
  | none => []

/-- `m.sendFunc(address, msg)`, guarded by the nil test every caller makes. -/
def send (m : MemberMgr) (address : GoString) (msg : MemberMsg) : List MemberEffect :=
  if m.hasSendFunc then [.send address msg] else []

/-- `members.Store` of a fresh `NodeInfo`. -/
def storeNode (nodeID address : GoString) (incarnation : Int64) (state : NodeState) : MemberMgr :=
  let info : NodeInfo := { nodeID, address, state, incarnation, lastActive := now }
  { m with members := m.members.insert nodeID info }

/-- `updateNode` at wall-clock reading `now`. -/
def updateNode (nodeID address : GoString) (incarnation : Int64) (state : NodeState) :
    MemberMgr × List MemberEffect :=
  if address = [] then (m, [])
  else
    match m.members.lookup nodeID with
    | none => (m.storeNode now nodeID address incarnation state, [.membershipChange])
    | some info =>
      if incarnation < info.incarnation then (m, [])
      else if info.state = state ∧ info.address = address ∧ info.incarnation = incarnation then
        if now - info.lastActive > second then
          (m.storeNode now nodeID address incarnation state, [])
        else (m, [])
      else (m.storeNode now nodeID address incarnation state, [.membershipChange])

def handlePing (msg : Option PingMsg) : MemberMgr × List MemberEffect :=
  match msg with
  | none => (m, [])
  | some msg =>
    let address := m.addressOf msg.sender
    if address ≠ [] then
      let (m, effects) := m.updateNode now msg.sender address msg.incarnation NodeState.alive
      (m, effects ++ m.send address
        (.ack (some { sender := m.nodeID, receiver := msg.sender, incarnation := m.incarnation })))
    else (m, [])

/-- The second half of `handleAck`: an ack from the target of an indirect probe is
    forwarded to whoever asked for the probe. -/
def forwardIndirectAck (msg : AckMsg) : MemberMgr × List MemberEffect :=
  match m.indirectProbes.lookup msg.sender with
  | none => (m, [])
  | some originalSender =>
    let m := { m with indirectProbes := m.indirectProbes.erase msg.sender }
    let address := m.addressOf originalSender
    if address ≠ [] then
      (m, m.send address (.indirectAck (some {
        sender := m.nodeID, receiver := originalSender, target := msg.sender
        incarnation := msg.incarnation })))
    else (m, [])

def handleAck (msg : Option AckMsg) : MemberMgr × List MemberEffect :=
  match msg with
  | none => (m, [])
  | some msg =>
    let address := m.addressOf msg.sender
    let (m, effects) :=
      if address ≠ [] then m.updateNode now msg.sender address msg.incarnation NodeState.alive
      else (m, [])
    let (m, forwarded) := m.forwardIndirectAck msg
    (m, effects ++ forwarded)

/-- `Members` -/
def allMembers : List NodeInfo := m.members.entries.map (·.2)

def handleConnect (msg : Option ConnectMsg) : MemberMgr × List MemberEffect :=
  match msg with
  | none => (m, [])
  | some msg =>
    if msg.address = [] ∨ msg.address.length < 3 then (m, [])
    else
      let (m, effects) := m.updateNode now msg.nodeID msg.address msg.incarnation NodeState.alive
      (m, effects ++ m.send msg.address
        (.clusterSync (some { sender := m.nodeID, members := m.allMembers })))

def handleLeave (msg : Option LeaveMsg) : MemberMgr × List MemberEffect :=
  match msg with
  | none => (m, [])
  -- A leave carries no address, and `updateNode` returns at once without one.
  | some msg => m.updateNode now msg.nodeID [] msg.incarnation NodeState.dead

def handleIndirectProbe (msg : Option IndirectProbeMsg) : MemberMgr × List MemberEffect :=
  match msg with
  | none => (m, [])
  | some msg =>
    let address := m.addressOf msg.target
    if m.hasSendFunc ∧ address ≠ [] then
      let m := { m with indirectProbes := m.indirectProbes.insert msg.target msg.sender }
      (m, m.send address
        (.ping (some { sender := m.nodeID, receiver := msg.target, incarnation := msg.incarnation })))
    else (m, [])

def handleIndirectAck (msg : Option IndirectAckMsg) : MemberMgr × List MemberEffect :=
  match msg with
  | none => (m, [])
  | some msg =>
    if m.hasSendFunc then
      let targetAddress := m.addressOf msg.target
      let (m, effects) :=
        if targetAddress ≠ [] then
          m.updateNode now msg.target targetAddress msg.incarnation NodeState.alive
        else (m, [])
      let address := m.addressOf msg.receiver
      if address ≠ [] then
        (m, effects ++ m.send address
          (.ack (some { sender := msg.target, receiver := msg.receiver, incarnation := msg.incarnation })))
      else (m, effects)
    else (m, [])

/-- The loop of `handleClusterSync`; `clock i` is the reading at the `i`-th entry. -/
def syncMembers (m : MemberMgr) (clock : Nat → Time) (i : Nat) :
    List NodeInfo → MemberMgr × List MemberEffect
  | [] => (m, [])
  | member :: members =>
    let (m, effects) :=
      if member.nodeID ≠ m.nodeID ∧ validAddress member.address then
        m.updateNode (clock i) member.nodeID member.address member.incarnation member.state
      else (m, [])
    let (m, rest) := m.syncMembers clock (i + 1) members
    (m, effects ++ rest)

/-- `handleClusterSync`, the one handler without a nil test. -/
def handleClusterSync (msg : Option ClusterSyncMsg) : Exec (MemberMgr × List MemberEffect) := do
  let msg ← deref msg
  return m.syncMembers clock 0 msg.members

/-- `HandleMessage` -/
def handleMessage (msg : MemberMsg) : Exec (MemberMgr × List MemberEffect) :=
  match msg with
  | .ping msg => return m.handlePing (clock 0) msg
  | .ack msg => return m.handleAck (clock 0) msg
  | .connect msg => return m.handleConnect (clock 0) msg
  | .leave msg => return m.handleLeave (clock 0) msg
  | .indirectProbe msg => return m.handleIndirectProbe msg
  | .indirectAck msg => return m.handleIndirectAck (clock 0) msg
  | .clusterSync msg => m.handleClusterSync clock msg
  | .bytes _ => return (m, [])

/-! ### Probing -/

/-- `newMemberMgr` at wall-clock reading `now`, with the incarnation `Start` sets. -/
def new (nodeID address : GoString) (incarnation : Int64) (now : Time) : MemberMgr where
  nodeID := nodeID
  address := address
  incarnation := incarnation
  members := AList.singleton nodeID
    { nodeID, address, state := NodeState.alive, incarnation := 0, lastActive := now }

/-- A new table has the node itself and nothing else. -/
theorem eq_of_lookup_new {nodeID address y : GoString} {incarnation : Int64} {now : Time}
    {info : NodeInfo} (h : (new nodeID address incarnation now).members.lookup y = some info) :
    y = nodeID ∧ info =
      { nodeID, address, state := NodeState.alive, incarnation := 0, lastActive := now } := by
  obtain ⟨hid, hinfo⟩ := Sigma.mk.inj (List.mem_singleton.mp (AList.mem_lookup_iff.mp h))
  exact ⟨hid, eq_of_heq hinfo⟩

/-- The common body of `markSuspect` and `markDead`: a copy of the entry with the new
    state.  The timer `markSuspect` sets is `suspectTimeout`. -/
def mark (nodeID : GoString) (state : NodeState) : MemberMgr × List MemberEffect :=
  match m.members.lookup nodeID with
  | none => (m, [])
  | some info =>
    if info.state = state then (m, [])
    else ({ m with members := m.members.insert nodeID { info with state } }, [.membershipChange])

def markSuspect (nodeID : GoString) : MemberMgr × List MemberEffect :=
  m.mark nodeID NodeState.suspect

def markDead (nodeID : GoString) : MemberMgr × List MemberEffect :=
  m.mark nodeID NodeState.dead

/-- The timer of `markSuspect`, for a configured timeout. -/
def suspectTimeout (timeout : Int) (now : Time) (nodeID : GoString) :
    MemberMgr × List MemberEffect :=
  match m.members.lookup nodeID with
  | none => (m, [])
  | some info =>
    if info.state = NodeState.suspect ∧ now - info.lastActive > timeout then m.markDead nodeID
    else (m, [])

/-- `updateLastActive`, which writes into the entry in place. -/
def updateLastActive (nodeID : GoString) : MemberMgr :=
  if nodeID = [] then m
  else
    match m.members.lookup nodeID with
    | none => m
    | some info =>
      if info.state ≠ NodeState.alive then m
      else if now - info.lastActive < second then m
      else { m with members := m.members.insert nodeID { info with lastActive := now } }

/-- `tryIndirectProbe`; `hash` is the hash of the target's ID, by which the proxy is
    chosen. -/
def tryIndirectProbe (targetID : GoString) (hash : Nat) : List MemberEffect :=
  let aliveMembers := (m.members.entries.filter fun entry =>
    entry.1 ≠ m.nodeID ∧ entry.1 ≠ targetID ∧ entry.2.state = NodeState.alive).map (·.1)
  match aliveMembers[hash % aliveMembers.length]? with
  | none => []
  | some proxyID =>
    let address := m.addressOf proxyID
    if address ≠ [] then
      m.send address (.indirectProbe (some
        { sender := m.nodeID, target := targetID, incarnation := m.incarnation }))
    else []

/-- The members that `tryIndirectProbe` can ask. -/
def aliveMembers (targetID : GoString) : List GoString :=
  (m.members.entries.filter fun entry =>
    entry.1 ≠ m.nodeID ∧ entry.1 ≠ targetID ∧ entry.2.state = NodeState.alive).map (·.1)

/-- `tryIndirectProbe` with the index it computes, which panics if it is negative. -/
def tryIndirectProbeOrPanic (targetID : GoString) : Exec (List MemberEffect) :=
  let aliveMembers := m.aliveMembers targetID
  if aliveMembers = [] then .ok []
  else
    match proxyIndex targetID aliveMembers with
    | .ofNat i => .ok (m.tryIndirectProbe targetID i)
    | .negSucc _ => .error .indexOutOfRange

/-- What `doPing` meets at a member: the time, the hash of the ID, whether `sendFunc` reports
    success, and the time when `updateLastActive` looks at the clock again. -/
structure ProbeInput where
  now : Time
  hash : Nat
  sent : Bool
  activeNow : Time := now

/-- The body of the loop of `doPing`. -/
def pingMember (failureTimeout : Int) (input : ProbeInput) (nodeID : GoString) (info : NodeInfo) :
    MemberMgr × List MemberEffect :=
  if nodeID = m.nodeID then (m, [])
  else if info.state = NodeState.dead then (m, [])
  else if input.now - info.lastActive > failureTimeout then
    if info.state = NodeState.suspect then m.markDead nodeID else m.markSuspect nodeID
  else if info.state = NodeState.suspect then (m, m.tryIndirectProbe nodeID input.hash)
  else if m.hasSendFunc then
    (if input.sent then m.updateLastActive input.activeNow nodeID else m, m.send info.address
      (.ping (some { sender := m.nodeID, receiver := nodeID, incarnation := m.incarnation })))
  else (m, [])

/-- The loop of `doPing` over the members in the order they are visited in.  A visit
    changes at most the entry visited. -/
def pingMembers (m : MemberMgr) (failureTimeout : Int) (inputs : GoString → ProbeInput) :
    List (Sigma fun _ : GoString => NodeInfo) → MemberMgr × List MemberEffect
  | [] => (m, [])
  | entry :: entries =>
    let (m, effects) := m.pingMember failureTimeout (inputs entry.1) entry.1 entry.2
    let (m, rest) := m.pingMembers failureTimeout inputs entries
    (m, effects ++ rest)

/-- `doPing` -/
def doPing (failureTimeout : Int) (inputs : GoString → ProbeInput) :
    MemberMgr × List MemberEffect :=
  m.pingMembers failureTimeout inputs m.members.entries

/-- The messages of `Join`. -/
def join (seed : List GoString) : List MemberEffect :=
  seed.flatMap fun addr =>
    if m.address = [] ∨ m.address.length < 3 then []
    else m.send addr (.connect (some
      { nodeID := m.nodeID, address := m.address, incarnation := m.incarnation }))

/-- `Leave`: the node marks itself as dead and tells the members that are alive. -/
def leave (m : MemberMgr) : MemberMgr × List MemberEffect :=
  let m := { m with incarnation := m.incarnation + 1 }
  let (m, effects) := m.markDead m.nodeID
  (m, effects ++ m.allMembers.flatMap fun info =>
    if info.nodeID ≠ m.nodeID ∧ info.state = NodeState.alive then
      m.send info.address (.leave (some { nodeID := m.nodeID, incarnation := m.incarnation }))
    else [])

/-- The network handler registered for `msgType`: decode, and handle what is not the
    nil interface.  Only the connect handler looks at the length first. -/
def networkHandler (msgType : MessageType) (data : Bytes) : Exec (MemberMgr × List MemberEffect) :=
  if msgType = MessageType.connect ∧ data.length < 2 then return (m, [])
  else do
    match ← decodeMemberMsg data msgType with
    | none => return (m, [])
    | some decoded => m.handleMessage clock decoded

end MemberMgr

end GridKV
