import GridKV.Model.MemberCodec
import GridKV.Model.MemStorage

/-!
# Sync operations on the wire

Translation of `SyncOpsCodec` in `internal/cluster/codec.go`.  A batch is a 32-bit count
and one frame for each operation that has an item: a 32-bit length and the fields.  The
buffer pools only decide where the bytes are collected.
-/

namespace GridKV

open Go Endian

/-- `OpType(b)` -/
def OpType.ofByte (b : UInt8) : OpType :=
  if b = 0 then .set else if b = 1 then .delete else .other b

namespace SyncOpsCodec

/-! ### Encoding -/

/-- `encodeOpStreaming`, for an operation with the item `item`.  The two bytes of the key
    length are `len & 0xFF` and `len >> 8`, each cut to a byte. -/
def encodeOpStreaming (op : SyncOperation) (item : StoredItem) : Bytes :=
  let expireAt : Int64 := if item.expireAt = zeroTime then 0 else unixNano item.expireAt
  let opType : UInt8 := if op.opType = .delete then 1 else 0
  leBytes 2 op.key.length ++ (op.key ++ (encodeInt64 item.version ++ (opType ::
    (encodeInt64 expireAt ++ (leBytes 4 item.value.length ++ item.value)))))

/-- The first loop of `Serialize`, which follows every pointer. -/
def estimatedSize : List (Option SyncOperation) → Exec Nat
  | [] => return 4
  | op :: ops => do
    let op ← deref op
    let valueSize := match op.item with
      | some item => item.value.length
      | none => 0
    return 2 + op.key.length + 8 + 1 + 8 + 4 + valueSize + (← estimatedSize ops)

/-- The second loop: operations without an item are left out. -/
def encodeFrame : Option SyncOperation → Bytes
  | none => []
  | some op =>
    match op.item with
    | none => []
    | some item =>
      let body := encodeOpStreaming op item
      leBytes 4 body.length ++ body

/-- `Serialize`.  The count is that of all operations, with or without an item. -/
def serialize (ops : List (Option SyncOperation)) : Exec Bytes :=
  if ops.length = 0 then return [] else do
    let _ ← estimatedSize ops
    return leBytes 4 ops.length ++ ops.flatMap encodeFrame

/-! ### Decoding -/

/-- `decodeOp`, which answers malformed data with a nil operation and never with an error. -/
def decodeOp (data : Bytes) : Exec (Option SyncOperation) :=
  if data.length < 2 then return none else do
    let keyLen ← leUint 2 (← slice data 0 2)
    let offset := 2
    if offset + keyLen > data.length then return none else
      let key ← slice data offset (offset + keyLen)
      let offset := offset + keyLen
      if offset + 8 > data.length then return none else
        let version := (UInt64.ofNat (← leUint 8 (← slice data offset (offset + 8)))).toInt64
        let offset := offset + 8
        if offset ≥ data.length then return none else
          let opType := OpType.ofByte (← index data offset)
          let offset := offset + 1
          if offset + 8 > data.length then return none else
            let expireAt := (UInt64.ofNat (← leUint 8 (← slice data offset (offset + 8)))).toInt64
            let offset := offset + 8
            if offset + 4 > data.length then return none else
              let valueLen ← leUint 4 (← slice data offset (offset + 4))
              let offset := offset + 4
              if valueLen > 0 ∧ offset + valueLen > data.length then return none else
                -- An empty value stays nil.
                let value ← if valueLen > 0 then slice data offset (offset + valueLen) else pure []
                let expireTime := if expireAt > 0 then expireAt.toInt else zeroTime
                return some
                  { key, opType, item := some { version, expireAt := expireTime, value, key } }

/-- The loop of `Deserialize` from `offset`: it ends early where the data do. -/
def decodeOps (data : Bytes) : Nat → Nat → Exec (List (Option SyncOperation))
  | 0, _ => return []
  | count + 1, offset =>
    if offset + 4 > data.length then return [] else do
      let opLen ← leUint 4 (← slice data offset (offset + 4))
      let offset := offset + 4
      if offset + opLen > data.length then return [] else
        let op ← decodeOp (← slice data offset (offset + opLen))
        return op :: (← decodeOps data count (offset + opLen))

/-- `Deserialize` -/
def deserialize (data : Bytes) : Exec (List (Option SyncOperation)) :=
  if data.length < 4 then return [] else do
    let count ← leUint 4 (← slice data 0 4)
    decodeOps data count 4

end SyncOpsCodec

end GridKV
