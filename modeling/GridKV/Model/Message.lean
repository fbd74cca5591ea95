import GridKV.Model.Compress

/-!
# Network messages

Translation of `Message` in `internal/network/message.go` and of `encodeMessage` and
`decodeMessage` in `internal/network/interface.go`.

Layout: `|type(1)|flags(1)|id(8)|ts(8)|len(4)|payload|`, integers big-endian; bit 0
of the flags marks an LZ4-compressed payload.
-/

namespace GridKV

open Go Endian

/-- `network.MessageType`, an open enumeration over one byte. -/
abbrev MessageType := UInt8

namespace MessageType

def unknown : MessageType := 0
def request : MessageType := 1
def response : MessageType := 2
def oneWay : MessageType := 3
def heartbeat : MessageType := 4
def error : MessageType := 5
def ping : MessageType := 10
def connect : MessageType := 11
def leave : MessageType := 12
def gossipPush : MessageType := 20
def gossipPull : MessageType := 21
def gossipResponse : MessageType := 22
def readRequest : MessageType := 30
def readResponse : MessageType := 31
def syncOperation : MessageType := 40

end MessageType

/-- `network.Message` -/
structure Message where
  type : MessageType
  id : UInt64
  data : Bytes
  timestamp : Int64
  compressed : Bool := false
  deriving DecidableEq, Repr

/-- The errors `decodeMessage` returns. -/
inductive DecodeError where
  | invalidMessage
  | decompressFailed
  deriving DecidableEq, Repr

def msgFlagCompressed : UInt8 := 1

/-- Messages longer than this are offered to the compressor. -/
def networkCompressThreshold : Nat := 256

/-- The 22 header bytes. -/
def messageHeader (msg : Message) (flags : UInt8) (length : Nat) : Bytes :=
  [msg.type, flags] ++ beBytes 8 msg.id.toNat ++ beBytes 8 msg.timestamp.toUInt64.toNat ++
    beBytes 4 length

/-- The block `encodeMessage` sends in place of the payload, when the compressor is
    asked and its output is below 90 percent of the input. -/
def wireBlock (lz4 : LZ4) (msg : Message) : Option Bytes :=
  if ¬ msg.compressed ∧ msg.data.length > networkCompressThreshold then
    match compressTo lz4 msg.data networkCompressThreshold with
    | some block => if block.length < msg.data.length * 90 / 100 then some block else none
    | none => none
  else none

/-- `encodeMessage`.  `scratch i` is the byte at index `i` of the message buffer after
    the compression attempt; it shows through where the payload is sent as it is but
    the buffer was sized for the compressor. -/
def encodeMessage (lz4 : LZ4) (scratch : Nat → UInt8) (msg : Message) : Bytes :=
  if ¬ msg.compressed ∧ msg.data.length > networkCompressThreshold then
    match wireBlock lz4 msg with
    | some block => messageHeader msg msgFlagCompressed block.length ++ block
    | none =>
      let boundSize := lz4.compressBlockBound msg.data.length
      let copied := msg.data.take boundSize
      messageHeader msg 0 msg.data.length ++ copied ++
        (List.range (boundSize - copied.length)).map fun i => scratch (22 + copied.length + i)
  else
    let flags := if msg.compressed then msgFlagCompressed else 0
    messageHeader msg flags msg.data.length ++ msg.data

/-- `decodeMessage`; `cap₁` and `cap₂` are the capacities the buffer pool answers
    with. -/
def decodeMessage (lz4 : LZ4) (cap₁ cap₂ : PooledCap) (data : Bytes) :
    Exec (Except DecodeError Message) :=
  if data.length < 22 then .ok (.error .invalidMessage) else do
    let length ← beUint 4 (← slice data 18 22)
    if 22 + length > data.length then return .error .invalidMessage else
      let flags ← index data 1
      let isCompressed := flags &&& msgFlagCompressed ≠ 0
      let raw ← slice data 22 (22 + length)
      let payload :=
        if isCompressed then decompressTo lz4 cap₁ cap₂ raw 0 (length * 4) else some raw
      match payload with
      | none => return .error .decompressFailed
      | some payload =>
        let type ← index data 0
        let id ← beUint 8 (← slice data 2 10)
        let timestamp ← beUint 8 (← slice data 10 18)
        return .ok {
          type, id := UInt64.ofNat id, timestamp := (UInt64.ofNat timestamp).toInt64
          compressed := isCompressed, data := payload }

end GridKV
