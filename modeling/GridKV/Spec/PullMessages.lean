import GridKV.Model.GossipWire
import GridKV.Spec.LocalWrites
import GridKV.Spec.SyncOpsWire

/-!
# Pull requests and node IDs

`HandleMessage` ends the node ID of a pull request at the first colon.  A node ID without a
colon comes back as it was sent, and the operations behind it are those of the same push
(`pullDelivers_iff_no_colon`).  A node ID of the form `host:port` does not: the reply goes to the
host part, and the port is read as the beginning of the operations.
-/

namespace GridKV

open Go List

namespace Gossip

variable {nodeID : GoString} (data : Bytes) {ops : List (Option SyncOperation)}

/-! ### Taking a message apart -/

/-- What stands behind `PULL:`, cut at its first colon. -/
def pullOf (payload : Bytes) : Request :=
  let idx := payload.findIdx (· == colon)
  .pull (payload.take idx) (if idx < payload.length then some (payload.drop (idx + 1)) else none)

def requestOf (data : Bytes) : Option Request :=
  if data.take 5 = ascii "PUSH:" then some (.push (data.drop 5))
  else if data.take 5 = ascii "PULL:" then some (pullOf (data.drop 5))
  else none

/-- Every message can be taken apart. -/
theorem parseRequest_eq : parseRequest data = .ok (requestOf data) := by
  unfold parseRequest requestOf
  by_cases hshort : data.length < 5
  · have htake : ∀ head : Bytes, head.length = 5 → data.take 5 ≠ head := by
      intro head hhead heq
      have hlen := congrArg List.length heq
      rw [length_take, hhead] at hlen
      omega
    rw [if_pos hshort, if_neg (htake _ rfl), if_neg (htake _ rfl)]
    rfl
  · rw [if_neg hshort, sliceFrom_eq_ok (by omega)]
    split
    · rfl
    · split
      · have hidx : 0 + (data.drop 5).findIdx (· == colon) ≤ (data.drop 5).length := by
          rw [Nat.zero_add]
          exact findIdx_le_length
        have hnodeID := slice_eq_ok hidx
        rw [Nat.zero_add, drop_zero] at hnodeID
        rw [ok_bind]
        dsimp only
        rw [hnodeID, pullOf]
        split
        · rename_i hlt
          rw [sliceFrom_eq_ok (by omega)]
          rfl
        · rfl
      · rfl

theorem requestOf_pushMessage : requestOf (pushMessage data) = some (.push data) := by
  have htake : (pushMessage data).take 5 = ascii "PUSH:" := take_left' rfl
  have hdrop : (pushMessage data).drop 5 = data := drop_left' rfl
  rw [requestOf, if_pos htake, hdrop]

theorem requestOf_pullRequest (nodeID : GoString) (data : Bytes) :
    requestOf (pullRequest nodeID data) = some (pullOf (nodeID ++ colon :: data)) := by
  have hassoc : pullRequest nodeID data = ascii "PULL:" ++ (nodeID ++ colon :: data) := by
    simp [pullRequest]
  have htake : (pullRequest nodeID data).take 5 = ascii "PULL:" := by
    rw [hassoc]
    exact take_left' rfl
  have hdrop : (pullRequest nodeID data).drop 5 = nodeID ++ colon :: data := by
    rw [hassoc]
    exact drop_left' rfl
  rw [requestOf, if_neg (by rw [htake]; decide), if_pos htake, hdrop]

/-- The node ID that is read has no colon. -/
theorem colon_not_mem_take_findIdx (payload : Bytes) :
    colon ∉ payload.take (payload.findIdx (· == colon)) := by
  intro hmem
  obtain ⟨i, hi, heq⟩ := mem_iff_getElem.mp hmem
  rw [length_take] at hi
  rw [getElem_take] at heq
  have hlt : i < payload.findIdx (· == colon) := by omega
  have hnot := not_of_lt_findIdx hlt
  rw [heq] at hnot
  simp at hnot

/-- A node ID without a colon is read back, and the rest is what was sent with it. -/
theorem pullOf_append (hid : colon ∉ nodeID) (data : Bytes) :
    pullOf (nodeID ++ colon :: data) = .pull nodeID (some data) := by
  have hidx : (nodeID ++ colon :: data).findIdx (· == colon) = nodeID.length := by
    have hnone : nodeID.findIdx (· == colon) = nodeID.length :=
      findIdx_eq_length_of_false fun b hb => by
        rw [beq_eq_false_iff_ne]
        exact fun heq => hid (heq ▸ hb)
    rw [findIdx_append, hnone]
    simp [findIdx_cons]
  rw [pullOf, hidx, take_left, if_pos (by simp)]
  have hdrop : (nodeID ++ colon :: data).drop (nodeID.length + 1) = data := by
    rw [← drop_drop, drop_left]
    rfl
  rw [hdrop]

/-! ### Handling it -/

variable {cfg : NodeConfig} {clock : Nat → Time} {s : MemStorage}

theorem handleMessage_push {data : Bytes} (hops : SyncOpsCodec.deserialize data = .ok ops)
    (answers : Bool) :
    handleMessage cfg clock answers s (pushMessage data) = .ok
      { store := (applyOps cfg clock 0 s ops).1, err := (applyOps cfg clock 0 s ops).2 } := by
  rw [handleMessage, parseRequest_eq, requestOf_pushMessage, ok_bind]
  simp only [hops, ok_bind]
  rfl

/-- A batch with nothing in it is not applied, which makes no difference. -/
theorem handleMessage_pull {data : Bytes} (hops : SyncOpsCodec.deserialize data = .ok ops)
    (hid : colon ∉ nodeID) :
    handleMessage cfg clock true s (pullRequest nodeID data) = .ok
      { store := (applyOps cfg clock 0 s ops).1, replyTo := some nodeID } := by
  rw [handleMessage, parseRequest_eq, requestOf_pullRequest, pullOf_append hid, ok_bind]
  simp only [hops, ok_bind]
  cases ops with
  | nil => rfl
  | cons op ops => rfl

/-- With or without operations, the request is answered to the node ID that was read. -/
theorem handleMessage_of_pull {data : Bytes} {payload : Option Bytes}
    (hparse : parseRequest data = .ok (some (.pull nodeID payload))) :
    ∃ store, handleMessage cfg clock true s data = .ok { store, replyTo := some nodeID } := by
  rw [handleMessage, hparse, ok_bind]
  cases payload with
  | none => exact ⟨s, rfl⟩
  | some payload =>
    simp only [SyncOpsCodec.deserialize_eq, ok_bind]
    exact ⟨_, rfl⟩

/-- Whoever sent the request, the reply goes to a node whose ID has no colon. -/
theorem colon_not_mem_replyTo {target : GoString} {data : Bytes} {handled : Handled}
    (h : handleMessage cfg clock true s (pullRequest nodeID data) = .ok handled)
    (htarget : handled.replyTo = some target) : colon ∉ target := by
  have hread := colon_not_mem_take_findIdx (nodeID ++ colon :: data)
  have hparse := parseRequest_eq (pullRequest nodeID data)
  rw [requestOf_pullRequest, pullOf] at hparse
  obtain ⟨store, hhandled⟩ : ∃ store, handleMessage cfg clock true s (pullRequest nodeID data) =
      .ok { store, replyTo := _ } := handleMessage_of_pull hparse
  cases hhandled.symm.trans h
  exact Option.some.inj htarget ▸ hread

/-- A pull request is handled as the push of the same operations, and identifies the node
    that sent it. -/
def PullDelivers (cfg : NodeConfig) (clock : Nat → Time) (s : MemStorage) (nodeID : GoString)
    (ops : List SyncOperation) : Prop :=
  ∃ data pulled pushed, SyncOpsCodec.serialize (ops.map some) = .ok data ∧
    handleMessage cfg clock true s (pullRequest nodeID data) = .ok pulled ∧
    handleMessage cfg clock true s (pushMessage data) = .ok pushed ∧
    pulled.store = pushed.store ∧ pulled.replyTo = some nodeID

theorem not_pullDelivers (hid : colon ∈ nodeID) (ops : List SyncOperation) :
    ¬ PullDelivers cfg clock s nodeID ops := by
  rintro ⟨data, pulled, pushed, -, hpulled, -, -, hreply⟩
  exact colon_not_mem_replyTo hpulled hreply hid

/-- **Pull requests.**  For every node ID and every batch: the request is handled as the
    push would be and is answered to its sender exactly if the node ID has no colon. -/
theorem pullDelivers_iff_no_colon (cfg : NodeConfig) (clock : Nat → Time) (s : MemStorage)
    (nodeID : GoString) (ops : List SyncOperation) :
    PullDelivers cfg clock s nodeID ops ↔ colon ∉ nodeID := by
  constructor
  · exact fun h hid => not_pullDelivers hid ops h
  · intro hid
    have hops := SyncOpsCodec.deserialize_eq
    refine ⟨_, _, _, SyncOpsCodec.serialize_eq ops, handleMessage_pull (hops _) hid,
      handleMessage_push (hops _) true, rfl, rfl⟩

/-- A node that is named by its address. -/
theorem not_pullDelivers_hostPort :
    ¬ PullDelivers ClockedNode.solo (fun _ => 0) .empty (ascii "10.0.0.1:7000")
      [ClockedNode.remoteOp 1 "a"] :=
  not_pullDelivers (by decide) _

end Gossip

end GridKV
