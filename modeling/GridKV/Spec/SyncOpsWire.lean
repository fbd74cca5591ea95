import GridKV.ForStd.Parse
import GridKV.Model.SyncCodec
import GridKV.Spec.StoreLww

/-!
# Batches of sync operations through the codec

`decodeOp` reads its fields at offsets that depend only on the key length, so one condition
on the length of the data decides whether it returns an operation (`decodeOp_eq`); it and
the loop of `Deserialize` never read out of range.  The frames keep the operations of a
batch apart: whatever happens to one of them, the others come back
(`throughCodec_returns_each`).
-/

namespace GridKV

open Go Endian Parse List

namespace SyncOpsCodec

variable (data : Bytes) {ops : List SyncOperation}

/-! ### Decoding as a function of the bytes -/

/-- The key length a frame starts with. -/
def keyLenOf (data : Bytes) : Nat := leNat (data.take 2)

/-- The value length, behind the key and 17 bytes of other fields. -/
def valueLenOf (data : Bytes) : Nat := leNat ((data.drop (2 + keyLenOf data + 17)).take 4)

/-- The `int64` at an offset. -/
def int64At (data : Bytes) (offset : Nat) : Int64 :=
  (UInt64.ofNat (leNat ((data.drop offset).take 8))).toInt64

/-- A frame that is complete. -/
def Complete (data : Bytes) : Prop := 2 + keyLenOf data + 21 + valueLenOf data ≤ data.length

instance instDecidableComplete (data : Bytes) : Decidable (Complete data) :=
  inferInstanceAs (Decidable (_ ≤ _))

/-- The operation in a complete frame. -/
def opOf (data : Bytes) : SyncOperation :=
  let key := (data.drop 2).take (keyLenOf data)
  let offset := 2 + keyLenOf data
  let expireAt := int64At data (offset + 9)
  { key
    opType := OpType.ofByte ((data.drop (offset + 8)).headD 0)
    item := some
      { version := int64At data offset
        expireAt := if expireAt > 0 then expireAt.toInt else zeroTime
        value := (data.drop (offset + 21)).take (valueLenOf data)
        key } }

/-- What a frame is decoded to. -/
def decoded (data : Bytes) : Option SyncOperation :=
  if Complete data then some (opOf data) else none

/-- A number read out of a slice that is in range. -/
theorem slice_bind_leUint {α : Type} (offset w : Nat) (next : Nat → Exec α)
    (h : offset + w ≤ data.length) :
    (slice data offset (offset + w) >>= fun bs => leUint w bs >>= next) =
      next (leNat ((data.drop offset).take w)) := by
  rw [slice_eq_ok h, ok_bind, leUint_eq_ok (by simp; omega), ok_bind, take_take,
    Nat.min_self]

theorem index_eq_ok {data : Bytes} {i : Nat} (h : i < data.length) :
    index data i = .ok ((data.drop i).headD 0) := by
  simp [index, h, headD_eq_head?_getD]

theorem decodeOp_eq : decodeOp data = .ok (decoded data) := by
  -- Each test of the decoder is implied by the one condition of `Complete`.
  have hshort : ∀ {p : Prop} [Decidable p] {f : Exec (Option SyncOperation)}, p →
      (p → ¬Complete data) → (if p then pure none else f) = .ok (decoded data) := by
    intro p _ f hp hnot
    rw [if_pos hp, decoded, if_neg (hnot hp)]
    rfl
  unfold decodeOp
  by_cases h2 : data.length < 2
  · exact hshort h2 (by unfold Complete; omega)
  have hkeyLen : keyLenOf data = leNat ((data.drop 0).take 2) := rfl
  rw [if_neg h2, slice_bind_leUint data 0 2 _ (by omega), ← hkeyLen]
  dsimp only
  by_cases hkey : 2 + keyLenOf data > data.length
  · exact hshort hkey (by unfold Complete; omega)
  rw [if_neg hkey, slice_eq_ok (by omega), ok_bind]
  by_cases hversion : 2 + keyLenOf data + 8 > data.length
  · exact hshort hversion (by unfold Complete; omega)
  rw [if_neg hversion, slice_bind_leUint data _ 8 _ (by omega)]
  by_cases hopType : 2 + keyLenOf data + 8 ≥ data.length
  · exact hshort hopType (by unfold Complete; omega)
  rw [if_neg hopType, index_eq_ok (by omega), ok_bind]
  by_cases hexpireAt : 2 + keyLenOf data + 8 + 1 + 8 > data.length
  · exact hshort hexpireAt (by unfold Complete; omega)
  rw [if_neg hexpireAt, slice_bind_leUint data _ 8 _ (by omega)]
  by_cases hvalueLen : 2 + keyLenOf data + 8 + 1 + 8 + 4 > data.length
  · exact hshort hvalueLen (by unfold Complete; omega)
  rw [if_neg hvalueLen, slice_bind_leUint data _ 4 _ (by omega)]
  have hlen : leNat ((data.drop (2 + keyLenOf data + 8 + 1 + 8)).take 4) = valueLenOf data := rfl
  rw [hlen]
  by_cases hvalue : valueLenOf data > 0 ∧
      2 + keyLenOf data + 8 + 1 + 8 + 4 + valueLenOf data > data.length
  · exact hshort hvalue (by unfold Complete; omega)
  have hcomplete : Complete data := by
    unfold Complete
    omega
  rw [if_neg hvalue, decoded, if_pos hcomplete]
  -- A value of length 0 is not cut out of the data but left nil.
  by_cases hpos : valueLenOf data > 0
  · rw [if_pos hpos, slice_eq_ok (by omega), ok_bind]
    rfl
  · have hzero : valueLenOf data = 0 := by omega
    rw [if_neg hpos, pure_eq_ok, ok_bind]
    simp only [opOf, hzero, take_zero]
    rfl

/-- The loop reads the frames that are complete. -/
theorem decodeOps_eq (count offset : Nat) :
    decodeOps data count offset =
      .ok ((takeStrings 4 count (data.drop offset)).map decoded) := by
  -- Induction on the count; the offset of the loop is where the parser stands.
  induction count generalizing offset with
  | zero => rfl
  | succ count ih =>
    unfold decodeOps takeStrings
    by_cases hhead : offset + 4 > data.length
    · have hnone : takeString 4 (data.drop offset) = none := by
        rw [takeString, takeUint_drop_eq_none (by omega) (by decide)]
        rfl
      rw [if_pos hhead, hnone]
      rfl
    · obtain ⟨opLen, hopLen⟩ : ∃ n, leNat ((data.drop offset).take 4) = n := ⟨_, rfl⟩
      rw [if_neg hhead, slice_bind_leUint data offset 4 _ (by omega), hopLen]
      dsimp only
      by_cases hbody : offset + 4 + opLen > data.length
      · rw [if_pos hbody, takeString_drop_eq_none (by omega) hopLen (by omega)]
        rfl
      · rw [if_neg hbody, takeString_drop (by omega) hopLen (by omega), slice_eq_ok (by omega),
          ok_bind, decodeOp_eq, ok_bind, ih]
        rfl

theorem deserialize_eq :
    deserialize data = .ok (if data.length < 4 then [] else
      (takeStrings 4 (leNat (data.take 4)) (data.drop 4)).map decoded) := by
  unfold deserialize
  by_cases hshort : data.length < 4
  · rw [if_pos hshort, if_pos hshort]
    rfl
  · rw [if_neg hshort, if_neg hshort, slice_bind_leUint data 0 4 _ (by omega), decodeOps_eq]
    rfl

/-! ### Encoding -/

/-- The frames of a batch: those of the operations that have an item. -/
def frames (ops : List SyncOperation) : List Bytes :=
  ops.filterMap fun op => op.item.map (encodeOpStreaming op)

theorem estimatedSize_eq_ok (ops : List SyncOperation) :
    ∃ n, estimatedSize (ops.map some) = .ok n := by
  induction ops with
  | nil => exact ⟨4, rfl⟩
  | cons op ops ih =>
    obtain ⟨n, hn⟩ := ih
    simp only [map_cons, estimatedSize, hn]
    exact ⟨_, rfl⟩

theorem flatMap_encodeFrame (ops : List SyncOperation) :
    (ops.map some).flatMap encodeFrame =
      (frames ops).flatMap fun frame => leBytes 4 frame.length ++ frame := by
  induction ops with
  | nil => rfl
  | cons op ops ih =>
    simp only [map_cons, flatMap_cons, ih]
    cases hitem : op.item with
    | none | some => simp [frames, encodeFrame, hitem]

theorem serialize_eq (ops : List SyncOperation) :
    serialize (ops.map some) = .ok (if ops = [] then [] else leBytes 4 ops.length ++
      (frames ops).flatMap fun frame => leBytes 4 frame.length ++ frame) := by
  obtain ⟨n, hn⟩ := estimatedSize_eq_ok ops
  unfold serialize
  by_cases hnil : ops = []
  · simp [hnil]
  · rw [if_neg (by simpa using hnil), if_neg hnil, hn, ok_bind, flatMap_encodeFrame,
      length_map]
    rfl

/-! ### Batches -/

/-- A batch is encoded and decoded again. -/
def throughCodec (ops : List SyncOperation) : Exec (List (Option SyncOperation)) := do
  deserialize (← serialize (ops.map some))

/-- Every frame comes back, whole, if the lengths fit the fields they are written in. -/
theorem throughCodec_eq (hcount : ops.length < 2 ^ 32)
    (hlen : ∀ frame ∈ frames ops, frame.length < 2 ^ 32) :
    throughCodec ops = .ok ((frames ops).map decoded) := by
  unfold throughCodec
  rw [serialize_eq, ok_bind, deserialize_eq]
  by_cases hnil : ops = []
  · subst hnil
    rfl
  · have hread : leNat (leBytes 4 ops.length) = ops.length := leNat_leBytes_of_lt hcount
    -- The count includes operations without a frame; the loop stops where the data end.
    have hfew : (frames ops).length ≤ ops.length := length_filterMap_le _ _
    rw [if_neg hnil, if_neg (by simp), take_left' (by simp), drop_left' (by simp), hread,
      takeStrings_flatMap (by decide) hfew hlen]


/-! ### What comes back -/

/-- The op type as it is sent: whatever is no deletion is sent as a `Set`. -/
def sentType (opType : OpType) : OpType := if opType = .delete then .delete else .set

theorem length_encodeOpStreaming (op : SyncOperation) (item : StoredItem) :
    (encodeOpStreaming op item).length = op.key.length + item.value.length + 23 := by
  simp [encodeOpStreaming, encodeInt64]
  omega

/-- The fields of a frame with a key of the length it names are cut out where they were
    written. -/
theorem opOf_fields {key version expireAt len : Bytes} (b : UInt8) (value : Bytes)
    (hkey : key.length < 65536) (hversion : version.length = 8) (hexpireAt : expireAt.length = 8)
    (hlen : len.length = 4) (hvalue : leNat len = value.length) :
    Complete (leBytes 2 key.length ++ (key ++ (version ++ (b :: (expireAt ++ (len ++ value)))))) ∧
    opOf (leBytes 2 key.length ++ (key ++ (version ++ (b :: (expireAt ++ (len ++ value)))))) =
      { key
        opType := OpType.ofByte b
        item := some
          { version := (UInt64.ofNat (leNat version)).toInt64
            expireAt := if (UInt64.ofNat (leNat expireAt)).toInt64 > 0 then
              (UInt64.ofNat (leNat expireAt)).toInt64.toInt else zeroTime
            value
            key } } := by
  obtain ⟨data, hdata⟩ : ∃ data, data =
      leBytes 2 key.length ++ (key ++ (version ++ (b :: (expireAt ++ (len ++ value))))) := ⟨_, rfl⟩
  -- The key length first: all other offsets depend on it.
  have hkeyLen : keyLenOf data = key.length := by
    rw [keyLenOf, hdata, take_left' (length_leBytes ..), leNat_leBytes_of_lt hkey]
  -- What is left behind each field, cut from what is left behind the one before.
  have hafterLen : data.drop 2 = key ++ (version ++ (b :: (expireAt ++ (len ++ value)))) := by
    rw [hdata, drop_left' (length_leBytes ..)]
  have hafterKey : data.drop (2 + key.length) = version ++ (b :: (expireAt ++ (len ++ value))) := by
    rw [← drop_drop, hafterLen, drop_left]
  have hafterVersion : data.drop (2 + key.length + 8) = b :: (expireAt ++ (len ++ value)) := by
    rw [← drop_drop, hafterKey, drop_left' hversion]
  have hafterType : data.drop (2 + key.length + 9) = expireAt ++ (len ++ value) := by
    rw [← drop_drop (i := 1), hafterVersion]
    rfl
  have hafterExpiry : data.drop (2 + key.length + 17) = len ++ value := by
    rw [← drop_drop (i := 8), hafterType, drop_left' hexpireAt]
  have hafterValueLen : data.drop (2 + key.length + 21) = value := by
    rw [← drop_drop (i := 4), hafterExpiry, drop_left' hlen]
  have hvalueLen : valueLenOf data = value.length := by
    rw [valueLenOf, hkeyLen, hafterExpiry, take_left' hlen, hvalue]
  have hlength : data.length = 2 + key.length + 21 + value.length := by
    simp [hdata, hversion, hexpireAt, hlen]
    omega
  rw [← hdata]
  constructor
  · rw [Complete, hkeyLen, hvalueLen, hlength]
  · simp only [opOf, int64At, hkeyLen, hvalueLen, hafterLen, hafterKey, hafterVersion, hafterType,
      hafterValueLen, take_left, take_left' hversion, take_left' hexpireAt,
      headD_cons, take_length]

/-- An operation whose lengths and expiry fit their fields comes back as it was. -/
theorem opOf_encodeOpStreaming {op : SyncOperation} {item : StoredItem}
    (hkey : op.key.length ≤ 65535) (hvalue : item.value.length < 2 ^ 32)
    (hexpiry : WireExpiry item.expireAt) :
    Complete (encodeOpStreaming op item) ∧
    opOf (encodeOpStreaming op item) =
      { key := op.key, opType := sentType op.opType
        item := some { item with key := op.key } } := by
  obtain ⟨hcomplete, hop⟩ := opOf_fields (if op.opType = .delete then 1 else 0) item.value
    (Nat.lt_succ_of_le hkey) (length_leBytes 8 item.version.toUInt64.toNat)
    (length_leBytes 8 (if item.expireAt = zeroTime then (0 : Int64)
      else unixNano item.expireAt).toUInt64.toNat)
    (length_leBytes 4 item.value.length) (leNat_leBytes_of_lt hvalue)
  refine ⟨hcomplete, hop.trans ?_⟩
  have htype : OpType.ofByte (if op.opType = .delete then 1 else 0) = sentType op.opType := by
    unfold sentType
    split <;> rfl
  simp only [toInt64_leNat_leBytes, htype, decoded_of_wireExpiry hexpiry]

/-- `elem` is `op` as it comes back, if its key and its expiry fit their fields: with the
    same key, op type, version, expiry and value. -/
def Returned (op : SyncOperation) (elem : Option SyncOperation) : Prop :=
  ∀ item, op.item = some item → op.key.length ≤ 65535 → WireExpiry item.expireAt →
    elem = some
      { key := op.key, opType := sentType op.opType, item := some { item with key := op.key } }

theorem forall₂_returned_frames (hlen : ∀ op ∈ ops, ∀ item, op.item = some item →
      (encodeOpStreaming op item).length < 2 ^ 32) :
    List.Forall₂ Returned (ops.filter fun op => op.item.isSome) ((frames ops).map decoded) := by
  induction ops with
  | nil => exact .nil
  | cons op ops ih =>
    obtain ⟨hop, hops⟩ := forall_mem_cons.mp hlen
    cases hitem : op.item with
    | none =>
      simp only [frames, filterMap_cons, filter_cons, hitem]
      exact ih hops
    | some item =>
      simp only [frames, filterMap_cons, filter_cons, hitem]
      refine .cons ?_ (ih hops)
      intro item' hitem' hkey hexpiry
      obtain rfl : item = item' := Option.some.inj (hitem.symm.trans hitem')
      have hvalue := hop item hitem
      rw [length_encodeOpStreaming] at hvalue
      obtain ⟨hcomplete, hread⟩ := opOf_encodeOpStreaming hkey (by omega) hexpiry
      rw [decoded, if_pos hcomplete, hread]

theorem length_lt_of_mem_frames (hlen : ∀ op ∈ ops, ∀ item, op.item = some item →
      (encodeOpStreaming op item).length < 2 ^ 32) :
    ∀ frame ∈ frames ops, frame.length < 2 ^ 32 := by
  intro frame hframe
  obtain ⟨op, hop, hencoded⟩ := mem_filterMap.mp hframe
  obtain ⟨item, hitem, rfl⟩ := Option.map_eq_some_iff.mp hencoded
  exact hlen op hop item hitem

/-- **Operations do not disturb each other.**  For every batch of fewer than `2 ^ 32`
    operations with encodings below `2 ^ 32` bytes, the decoder returns one element for each
    operation that has an item, in order, and each operation whose own fields fit comes back
    as it was, whatever the others are. -/
theorem throughCodec_returns_each {ops : List SyncOperation} (hcount : ops.length < 2 ^ 32)
    (hlen : ∀ op ∈ ops, ∀ item, op.item = some item →
      (encodeOpStreaming op item).length < 2 ^ 32) :
    ∃ out, throughCodec ops = .ok out ∧
      List.Forall₂ Returned (ops.filter fun op => op.item.isSome) out :=
  ⟨_, throughCodec_eq hcount (length_lt_of_mem_frames hlen), forall₂_returned_frames hlen⟩

/-- A value that expires at 5 and a deletion without an item. -/
def expiringAndDeleted : List SyncOperation :=
  [{ key := ascii "k", opType := .set, item := some { plainItem 7 "v" with expireAt := 5 } },
    { key := ascii "d", opType := .delete, item := none }]

theorem expiring_value_returned :
    ∃ out, throughCodec expiringAndDeleted = .ok out ∧
      List.Forall₂ Returned (expiringAndDeleted.filter fun op => op.item.isSome) out := by
  refine throughCodec_returns_each (by decide) ?_
  unfold expiringAndDeleted
  simp [length_encodeOpStreaming]
  decide

/-! ### Applying what came back -/

/-- The store keys an item by the key of the call. -/
theorem applyOp_item_key (cfg : NodeConfig) (now : Time) (s : MemStorage) (key k : GoString)
    (item : StoredItem) :
    Gossip.applyOp cfg now s key { item with key := k } = Gossip.applyOp cfg now s key item := rfl

theorem applyOps_of_returned {cfg : NodeConfig} {clock : Nat → Time} {n : Nat} {s : MemStorage}
    {out : List (Option SyncOperation)} (hreturned : List.Forall₂ Returned ops out)
    (hfits : ∀ op ∈ ops, ∃ item, op.item = some item ∧ op.key.length ≤ 65535 ∧
      WireExpiry item.expireAt) :
    Gossip.applyOps cfg clock n s out = Gossip.applyOps cfg clock n s (ops.map some) := by
  induction hreturned generalizing n s with
  | nil => rfl
  | cons hop _ ih =>
    obtain ⟨hfirst, hrest⟩ := forall_mem_cons.mp hfits
    obtain ⟨item, hitem, hkey, hexpiry⟩ := hfirst
    obtain rfl := hop item hitem hkey hexpiry
    simp only [map_cons, Gossip.applyOps, hitem, applyOp_item_key, ih hrest]

/-- A batch whose operations all have items that fit is applied as if it had not been
    encoded. -/
theorem applyOps_throughCodec (hcount : ops.length < 2 ^ 32)
    (hfits : ∀ op ∈ ops, ∃ item, op.item = some item ∧ op.key.length ≤ 65535 ∧
      WireExpiry item.expireAt ∧ (encodeOpStreaming op item).length < 2 ^ 32) :
    ∃ out, throughCodec ops = .ok out ∧ ∀ cfg clock n s,
      Gossip.applyOps cfg clock n s out = Gossip.applyOps cfg clock n s (ops.map some) := by
  have hlen : ∀ op ∈ ops, ∀ item, op.item = some item →
      (encodeOpStreaming op item).length < 2 ^ 32 := by
    intro op hop item hitem
    obtain ⟨item', hitem', -, -, hshort⟩ := hfits op hop
    obtain rfl : item' = item := Option.some.inj (hitem'.symm.trans hitem)
    exact hshort
  have hall : (ops.filter fun op => op.item.isSome) = ops := by
    refine filter_eq_self.mpr fun op hop => ?_
    obtain ⟨item, hitem, -⟩ := hfits op hop
    rw [hitem, Option.isSome_some]
  have hreturned := forall₂_returned_frames hlen
  rw [hall] at hreturned
  refine ⟨_, throughCodec_eq hcount (length_lt_of_mem_frames hlen), fun cfg clock n s => ?_⟩
  refine applyOps_of_returned hreturned fun op hop => ?_
  obtain ⟨item, hitem, hkey, hexpiry, -⟩ := hfits op hop
  exact ⟨item, hitem, hkey, hexpiry⟩

theorem expiring_value_applied : let ops := expiringAndDeleted.take 1
    ∃ out, throughCodec ops = .ok out ∧ ∀ cfg clock n s,
      Gossip.applyOps cfg clock n s out = Gossip.applyOps cfg clock n s (ops.map some) := by
  refine applyOps_throughCodec (by decide) ?_
  simp [expiringAndDeleted, length_encodeOpStreaming, WireExpiry]
  decide

end SyncOpsCodec

end GridKV
