import GridKV.Model.Message

/-!
# SWIM member messages on the wire

Translation of the message types in `internal/cluster/types.go`, of `MemberMsgCodec`
in `internal/cluster/codec.go` and of `decodeMemberMsg` and `getMessageType` in
`internal/cluster/cluster.go`.

Messages travel as Go interface values holding a pointer.  An interface is nil only
when it holds no pointer at all, so a decoder that returns a nil `*clusterSyncMsg`
produces an interface that is *not* nil: `MemberMsg` therefore carries an `Option` in
each constructor, and the nil interface is the outer `none`.
-/

namespace GridKV

open Go Endian

/-- `NodeState`, an open enumeration over `int32`. -/
abbrev NodeState := Int32

namespace NodeState

def unknown : NodeState := 0
def alive : NodeState := 1
def suspect : NodeState := 2
def dead : NodeState := 3

end NodeState

/-- `NodeInfo` -/
structure NodeInfo where
  nodeID : GoString
  address : GoString
  state : NodeState
  incarnation : Int64
  lastActive : Time
  deriving DecidableEq, Repr

/-- `pingMsg`; the fields `From` and `To` of the source are `sender` and `receiver`. -/
structure PingMsg where
  sender : GoString
  receiver : GoString
  incarnation : Int64
  deriving DecidableEq, Repr

structure ConnectMsg where
  nodeID : GoString
  address : GoString
  incarnation : Int64
  deriving DecidableEq, Repr

structure LeaveMsg where
  nodeID : GoString
  incarnation : Int64
  deriving DecidableEq, Repr

structure AckMsg where
  sender : GoString
  receiver : GoString
  incarnation : Int64
  deriving DecidableEq, Repr

structure IndirectProbeMsg where
  sender : GoString
  target : GoString
  incarnation : Int64
  deriving DecidableEq, Repr

structure IndirectAckMsg where
  sender : GoString
  receiver : GoString
  target : GoString
  incarnation : Int64
  deriving DecidableEq, Repr

structure ClusterSyncMsg where
  sender : GoString
  members : List NodeInfo
  deriving DecidableEq, Repr

/-- A non-nil interface value in the member protocol: a typed pointer, which may
    itself be nil, or the raw bytes gossip messages pass through. -/
inductive MemberMsg where
  | ping (msg : Option PingMsg)
  | ack (msg : Option AckMsg)
  | connect (msg : Option ConnectMsg)
  | leave (msg : Option LeaveMsg)
  | indirectProbe (msg : Option IndirectProbeMsg)
  | indirectAck (msg : Option IndirectAckMsg)
  | clusterSync (msg : Option ClusterSyncMsg)
  | bytes (data : Bytes)
  deriving DecidableEq, Repr

/-! ### Encoding -/

/-- `encodeStringTo`: a 16-bit length, then the bytes. -/
def encodeString (s : GoString) : Bytes := leBytes 2 s.length ++ s

/-- `PutUint64` of an `int64`. -/
def encodeInt64 (i : Int64) : Bytes := leBytes 8 i.toUInt64.toNat

/-- The layout ping, ack, connect and indirect-probe messages share: two strings and
    the incarnation. -/
def encodeStringPair (a b : GoString) (incarnation : Int64) : Bytes :=
  encodeString a ++ encodeString b ++ encodeInt64 incarnation

def encodePingMsg (msg : PingMsg) : Bytes := encodeStringPair msg.sender msg.receiver msg.incarnation

def encodeAckMsg (msg : AckMsg) : Bytes := encodeStringPair msg.sender msg.receiver msg.incarnation

def encodeConnectMsg (msg : ConnectMsg) : Bytes :=
  encodeStringPair msg.nodeID msg.address msg.incarnation

def encodeIndirectProbeMsg (msg : IndirectProbeMsg) : Bytes :=
  encodeStringPair msg.sender msg.target msg.incarnation

def encodeLeaveMsg (msg : LeaveMsg) : Bytes := encodeString msg.nodeID ++ encodeInt64 msg.incarnation

def encodeNodeInfo (info : NodeInfo) : Bytes :=
  encodeString info.nodeID ++ encodeString info.address ++ leBytes 4 info.state.toUInt32.toNat ++
    encodeInt64 info.incarnation ++ encodeInt64 (unixNano info.lastActive)

def encodeClusterSyncMsg (msg : ClusterSyncMsg) : Bytes :=
  encodeString msg.sender ++ leBytes 4 msg.members.length ++ msg.members.flatMap encodeNodeInfo

/-- `EncodeMemberMsg`.  A nil pointer is dereferenced by its encoder; an indirect ack
    falls to the default case and yields no bytes. -/
def encodeMemberMsg (msg : MemberMsg) : Exec Bytes :=
  match msg with
  | .ping p => return encodePingMsg (← deref p)
  | .ack p => return encodeAckMsg (← deref p)
  | .connect p => return encodeConnectMsg (← deref p)
  | .leave p => return encodeLeaveMsg (← deref p)
  | .indirectProbe p => return encodeIndirectProbeMsg (← deref p)
  | .clusterSync p => return encodeClusterSyncMsg (← deref p)
  | .indirectAck _ => return []
  | .bytes _ => return []

/-- `getMessageType` -/
def getMessageType (msg : MemberMsg) : MessageType :=
  match msg with
  | .ping _ => MessageType.ping
  | .ack _ => MessageType.ping
  | .connect _ => MessageType.connect
  | .leave _ => MessageType.leave
  | .indirectProbe _ => MessageType.ping
  | .clusterSync _ => MessageType.connect
  | .indirectAck _ => MessageType.unknown
  | .bytes _ => MessageType.unknown

/-! ### Decoding -/

/-- `decodeString`: the string at `offset` and the offset after it, or offset `0` on
    truncated data. -/
def decodeString (data : Bytes) (offset : Nat) : Exec (GoString × Nat) :=
  if offset + 2 > data.length then return ([], 0) else do
    let strLen ← leUint 2 (← sliceFrom data offset)
    let offset := offset + 2
    if offset + strLen > data.length then return ([], 0)
    else if strLen = 0 then return ([], offset)
    else if strLen > data.length ∨ strLen > 65535 then return ([], 0)
    else
      let result ← slice data offset (offset + strLen)
      if result.length ≠ strLen then return ([], 0)
      else return (result, offset + strLen)

/-- The incarnation at `offset`. -/
def decodeInt64 (data : Bytes) (offset : Nat) : Exec Int64 := do
  return (UInt64.ofNat (← leUint 8 (← sliceFrom data offset))).toInt64

/-- The body `decodePingMsg`, `decodeAckMsg` and `decodeIndirectProbeMsg` share. -/
def decodeStringPair (data : Bytes) : Exec (Option (GoString × GoString × Int64)) :=
  if data.length < 2 then return none else do
    let (a, offset) ← decodeString data 0
    if offset = 0 then return none else
      let (b, offset) ← decodeString data offset
      if offset = 0 ∨ offset + 8 > data.length then return none
      else return some (a, b, ← decodeInt64 data offset)

def decodePingMsg (data : Bytes) : Exec (Option PingMsg) := do
  return (← decodeStringPair data).map fun (sender, receiver, incarnation) =>
    { sender, receiver, incarnation }

def decodeAckMsg (data : Bytes) : Exec (Option AckMsg) := do
  return (← decodeStringPair data).map fun (sender, receiver, incarnation) =>
    { sender, receiver, incarnation }

def decodeIndirectProbeMsg (data : Bytes) : Exec (Option IndirectProbeMsg) := do
  return (← decodeStringPair data).map fun (sender, target, incarnation) =>
    { sender, target, incarnation }

/-- The address test of the connect and cluster-sync decoders. -/
def validAddress (address : GoString) : Bool :=
  match address with
  | b :: _ => decide (address.length ≥ 3) && b != 0
  | [] => false

def decodeConnectMsg (data : Bytes) : Exec (Option ConnectMsg) :=
  if data.length < 2 then return none else do
    let (nodeID, offset) ← decodeString data 0
    if offset = 0 then return none
    else if nodeID.length = 0 then return none
    else if offset ≠ 2 + nodeID.length then return none
    else
      let (address, offset) ← decodeString data offset
      if offset = 0 then return none
      else if ¬ validAddress address then return none
      else if offset + 8 > data.length then return none
      else return some { nodeID, address, incarnation := ← decodeInt64 data offset }

def decodeLeaveMsg (data : Bytes) : Exec (Option LeaveMsg) :=
  if data.length < 2 then return none else do
    let (nodeID, offset) ← decodeString data 0
    if offset = 0 ∨ offset + 8 > data.length then return none
    else return some { nodeID, incarnation := ← decodeInt64 data offset }

/-- `decodeNodeInfo`: the entry at `offset`, if complete, and the offset after it. -/
def decodeNodeInfo (data : Bytes) (offset : Nat) : Exec (Option NodeInfo × Nat) :=
  if offset + 2 > data.length then return (none, offset) else do
    let (nodeID, offset) ← decodeString data offset
    if offset = 0 then return (none, offset) else
      let (address, offset) ← decodeString data offset
      if offset = 0 then return (none, offset)
      else if offset + 4 > data.length then return (none, offset)
      else
        let state ← leUint 4 (← sliceFrom data offset)
        let offset := offset + 4
        if offset + 8 > data.length then return (none, offset) else
          let incarnation ← decodeInt64 data offset
          let offset := offset + 8
          if offset + 8 > data.length then return (none, offset) else
            let unixNano ← decodeInt64 data offset
            return (some {
              nodeID, address, state := (UInt32.ofNat state).toInt32, incarnation
              lastActive := unixNano.toInt }, offset + 8)

/-- The member loop of `decodeClusterSyncMsg`: `count` entries from `offset`, all
    complete and with usable addresses. -/
def decodeMembers (data : Bytes) : Nat → Nat → Exec (Option (List NodeInfo))
  | 0, _ => return some []
  | count + 1, offset => do
    match ← decodeNodeInfo data offset with
    | (none, _) => return none
    | (some info, newOffset) =>
      if ¬ validAddress info.address then return none
      else return (← decodeMembers data count newOffset).map (info :: ·)

def decodeClusterSyncMsg (data : Bytes) : Exec (Option ClusterSyncMsg) :=
  if data.length < 2 then return none else do
    let (sender, offset) ← decodeString data 0
    if offset = 0 then return none
    else if offset + 4 > data.length then return none
    else
      let memberCount ← leUint 4 (← sliceFrom data offset)
      if memberCount > 1000 then return none
      else return (← decodeMembers data memberCount (offset + 4)).map fun members =>
        { sender, members }

/-- The guess of the connect case: after the first string stands a 32-bit number that
    could be a member count. -/
def looksLikeClusterSync (data : Bytes) : Exec Bool :=
  if data.length ≥ 10 then do
    let (_, newOffset) ← decodeString data 0
    if newOffset > 0 ∧ newOffset + 4 ≤ data.length then
      return decide ((← leUint 4 (← sliceFrom data newOffset)) ≤ 1000)
    else return false
  else return false

/-- Case 1 of `DecodeMemberMsg`: ping, ack and indirect probe by trial. -/
def decodePingCase (data : Bytes) : Exec (Option MemberMsg) := do
  match ← decodePingMsg data with
  | some msg =>
    if msg.receiver ≠ [] then return some (.ping (some msg)) else decodeAckCase
  | none => decodeAckCase
where
  decodeAckCase : Exec (Option MemberMsg) := do
    match ← decodeAckMsg data with
    | some msg =>
      if msg.receiver ≠ [] then return some (.ack (some msg))
      else return some (.indirectProbe (← decodeIndirectProbeMsg data))
    | none => return some (.indirectProbe (← decodeIndirectProbeMsg data))

/-- Case 2 of `DecodeMemberMsg`: connect or cluster sync. -/
def decodeConnectCase (data : Bytes) : Exec (Option MemberMsg) := do
  if ← looksLikeClusterSync data then
    return some (.clusterSync (← decodeClusterSyncMsg data))
  else
    match ← decodeConnectMsg data with
    | some msg =>
      if msg.nodeID ≠ [] ∧ msg.address ≠ [] then
        if ¬ validAddress msg.address then return none
        else return some (.connect (some msg))
      else return some (.clusterSync (← decodeClusterSyncMsg data))
    | none => return some (.clusterSync (← decodeClusterSyncMsg data))

/-- `decodeMemberMsg`, by network message type; the empty payload and unknown types
    give the nil interface. -/
def decodeMemberMsg (data : Bytes) (msgType : MessageType) : Exec (Option MemberMsg) :=
  if data = [] then return none
  else if msgType = MessageType.ping then decodePingCase data
  else if msgType = MessageType.connect then decodeConnectCase data
  else if msgType = MessageType.leave then do
    return some (.leave (← decodeLeaveMsg data))
  else if msgType = MessageType.gossipPush ∨ msgType = MessageType.gossipPull then
    return some (.bytes data)
  else return none

end GridKV
