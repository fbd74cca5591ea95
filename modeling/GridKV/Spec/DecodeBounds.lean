import GridKV.Model.Checkpoint
import GridKV.Spec.PullMessages

/-!
# What decoding a batch may touch and allocate

`Deserialize` reads only bytes that are there, and every operation it returns has taken at
least the four bytes of its length from the input.  The slice it collects them in is
another matter: its capacity is the count that the input starts with, before anything is
known about how much follows.  So the memory is proportional to the input exactly as far
as that count is (`allocation_le_iff_count`).
-/

namespace GridKV

open Go Endian Parse List

namespace SyncOpsCodec

variable (data : Bytes)

/-! ### Accesses -/

/-- The frames `Deserialize` comes to. -/
def framesOf (data : Bytes) : List Bytes :=
  if data.length < 4 then [] else takeStrings 4 (leNat (data.take 4)) (data.drop 4)

theorem deserialize_eq_framesOf : deserialize data = .ok ((framesOf data).map decoded) := by
  rw [deserialize_eq, framesOf]
  split <;> rfl

/-- The frames with their lengths fit behind the count. -/
theorem sum_framesOf_le :
    ((framesOf data).map fun frame => 4 + frame.length).sum ≤ data.length - 4 := by
  unfold framesOf
  split
  · exact Nat.zero_le _
  · have hsum := sum_takeStrings_le 4 (leNat (data.take 4)) (data.drop 4)
    rwa [length_drop] at hsum

/-- **Decoding is memory safe.**  On every input `Deserialize` returns without an access out
    of range, and so does `decodeOp` on every frame; the operations are no more than their
    lengths have room in the input. -/
theorem deserialize_in_range (data : Bytes) :
    (∃ ops, deserialize data = .ok ops ∧ ops.length ≤ (data.length - 4) / 4) ∧
      ∀ frame, ∃ op, decodeOp frame = .ok op := by
  refine ⟨⟨_, deserialize_eq_framesOf data, ?_⟩, fun frame => ⟨_, decodeOp_eq frame⟩⟩
  have hsum := sum_framesOf_le data
  have hfour : ((framesOf data).map fun frame => 4 + frame.length).sum ≥
      (framesOf data).length * 4 := by
    rw [ge_iff_le, ← smul_eq_mul, ← length_map (fun frame => 4 + frame.length)]
    apply card_nsmul_le_sum
    intro n hn
    obtain ⟨frame, -, rfl⟩ := mem_map.mp hn
    omega
  rw [length_map]
  omega

/-! ### Allocations -/

/-- The count at the start of a batch, which is the capacity of the slice for it. -/
def countOf (data : Bytes) : Nat := if data.length < 4 then 0 else leNat (data.take 4)

/-- The bytes of a `SyncOperation`, of its `StoredItem` and of the copy of its value; a nil
    operation takes none. -/
def opBytes : Option SyncOperation → Nat
  | none => 0
  | some op => 32 + (op.item.map fun item => 72 + item.value.length).getD 0

/-- The slots and the bytes that `Deserialize` allocates. -/
def allocation (data : Bytes) : Exec Nat := do
  let ops ← deserialize data
  return countOf data + (ops.map opBytes).sum

theorem opBytes_decoded_le (frame : Bytes) : opBytes (decoded frame) ≤ 4 * (4 + frame.length) := by
  unfold decoded
  split
  · rename_i hcomplete
    unfold Complete at hcomplete
    have hvalue : ((frame.drop (2 + keyLenOf frame + 21)).take (valueLenOf frame)).length ≤
        valueLenOf frame := length_take_le ..
    simp only [opBytes, opOf, Option.map_some, Option.getD_some]
    omega
  · exact Nat.zero_le _

/-- Apart from the slots, what is allocated is in proportion. -/
theorem sum_opBytes_le : (((framesOf data).map decoded).map opBytes).sum ≤ 4 * data.length := by
  have hsum := sum_framesOf_le data
  have hops : (((framesOf data).map decoded).map opBytes).sum ≤
      ((framesOf data).map fun frame => 4 * (4 + frame.length)).sum := by
    rw [map_map]
    exact sum_le_sum fun frame _ => opBytes_decoded_le frame
  rw [sum_map_mul_left] at hops
  omega

theorem allocation_eq :
    allocation data = .ok (countOf data + (((framesOf data).map decoded).map opBytes).sum) := by
  rw [allocation, deserialize_eq_framesOf]
  rfl

end SyncOpsCodec

open SyncOpsCodec

/-- The payload `LoadCheckpoint` takes out of a file. -/
def checkpointPayload (file : Bytes) : Exec (Option Bytes) :=
  if file.length < 4 then return none
  else do
    let length ← leUint 4 (← slice file 0 4)
    if file.length < 4 + length then return none
    else return some (← slice file 4 ((4 + length) % 2 ^ 32))

theorem loadCheckpoint_eq (file : Bytes) :
    loadCheckpoint (some file) = checkpointPayload file >>= fun payload =>
      (payload.map deserialize).getD (.ok []) := by
  unfold loadCheckpoint checkpointPayload
  dsimp only
  split
  · rfl
  · rename_i hlong
    rw [slice_bind_leUint file 0 4 _ (by omega), slice_bind_leUint file 0 4 _ (by omega)]
    split
    · rfl
    · cases slice file 4 ((4 + leNat ((file.drop 0).take 4)) % 2 ^ 32) <;> rfl

/-- The bytes of a request that go to `Deserialize`. -/
def Gossip.Request.payload : Gossip.Request → Option Bytes
  | .push payload => some payload
  | .pull _ payload => payload

/-- What the node decodes when it is given a gossip message or finds a checkpoint file. -/
inductive Decodes : Bytes → Bytes → Prop
  | message {msg payload : Bytes} {request : Gossip.Request}
      (hparse : Gossip.parseRequest msg = .ok (some request))
      (hpayload : request.payload = some payload) : Decodes msg payload
  | checkpoint {file payload : Bytes} (hpayload : checkpointPayload file = .ok (some payload)) :
      Decodes file payload

/-- A payload is cut out of the message. -/
theorem length_payload_le {msg payload : Bytes} {request : Gossip.Request}
    (hparse : Gossip.parseRequest msg = .ok (some request))
    (hpayload : request.payload = some payload) : payload.length ≤ msg.length := by
  rw [Gossip.parseRequest_eq] at hparse
  have hrequest := Except.ok.inj hparse
  unfold Gossip.requestOf at hrequest
  split at hrequest
  · cases hrequest
    cases hpayload
    rw [length_drop]
    omega
  · split at hrequest <;> cases hrequest
    simp only [Gossip.pullOf, Gossip.Request.payload] at hpayload
    split at hpayload
    · cases hpayload
      rw [length_drop, length_drop]
      omega
    · cases hpayload

theorem length_checkpointPayload_le {file payload : Bytes}
    (hpayload : checkpointPayload file = .ok (some payload)) : payload.length ≤ file.length := by
  unfold checkpointPayload at hpayload
  split at hpayload
  · cases hpayload
  · rename_i hlong
    rw [slice_bind_leUint file 0 4 _ (by omega)] at hpayload
    split at hpayload
    · cases hpayload
    · unfold slice at hpayload
      split at hpayload <;> cases hpayload
      rw [length_drop, length_take]
      omega

/-- What is decoded is part of the input. -/
theorem Decodes.length_le {input payload : Bytes} (h : Decodes input payload) :
    payload.length ≤ input.length := by
  cases h with
  | message hparse hpayload => exact length_payload_le hparse hpayload
  | checkpoint hpayload => exact length_checkpointPayload_le hpayload

/-- **Memory for decoding.**  For every gossip message and checkpoint file, what
    `Deserialize` allocates is at most a multiple of the input as far as the count at the
    start of the batch is, and no further; operations and values add four to the factor. -/
theorem allocation_le_iff_count {input payload : Bytes} (h : Decodes input payload) (factor : Nat) :
    ∃ n, allocation payload = .ok n ∧
      (countOf payload ≤ factor * input.length → n ≤ (factor + 4) * input.length) ∧
      (n ≤ factor * input.length → countOf payload ≤ factor * input.length) := by
  have hlen := h.length_le
  have hops := sum_opBytes_le payload
  refine ⟨_, allocation_eq payload, fun hcount => ?_, fun hn => ?_⟩
  · rw [Nat.add_mul]
    omega
  · omega

theorem decodes_pushMessage (data : Bytes) : Decodes (Gossip.pushMessage data) data := by
  have hparse : Gossip.parseRequest (Gossip.pushMessage data) = .ok (some (.push data)) := by
    rw [Gossip.parseRequest_eq, Gossip.requestOf_pushMessage]
  exact .message hparse rfl

/-- A push without operations. -/
theorem allocation_empty_push :
    ∃ n, allocation (leBytes 4 0) = .ok n ∧ n ≤ 4 * (Gossip.pushMessage (leBytes 4 0)).length := by
  obtain ⟨n, hn, hle, -⟩ := allocation_le_iff_count (decodes_pushMessage (leBytes 4 0)) 0
  exact ⟨n, hn, hle (by decide)⟩

/-- The message `PUSH:` with a count and nothing behind it. -/
def hollowPush : Bytes := Gossip.pushMessage (leBytes 4 (2 ^ 32 - 1))

/-- There is no constant under which a message of nine bytes takes less than `2 ^ 30` slots
    and bytes: this one takes four times as many. -/
theorem nine_bytes_reserve_gigabytes :
    hollowPush.length = 9 ∧
      ¬ ∃ factor, factor * 9 < 2 ^ 30 ∧ ∀ input payload n, Decodes input payload →
        allocation payload = .ok n → n ≤ factor * input.length := by
  have hnine : hollowPush.length = 9 := by simp [hollowPush, Gossip.pushMessage, ascii]
  refine ⟨hnine, ?_⟩
  rintro ⟨factor, hsmall, hall⟩
  have hle := hall hollowPush _ _ (decodes_pushMessage _) (allocation_eq _)
  have hcount : countOf (leBytes 4 (2 ^ 32 - 1)) = 2 ^ 32 - 1 := by
    rw [countOf, if_neg (by simp), take_of_length_le (by simp), leNat_leBytes,
      Nat.mod_eq_of_lt (by norm_num)]
  rw [hcount, hnine] at hle
  omega

end GridKV
