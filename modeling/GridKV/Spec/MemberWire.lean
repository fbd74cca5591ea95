import GridKV.ForStd.Parse
import GridKV.Model.MemberCodec

/-!
# The wire grammar of member messages

The decoders of `MemberMsgCodec` walk the payload with an offset and signal failure by
offset zero or a nil pointer.  Here each is shown to compute a suffix parser
(`takeStringPair`, `takeNodeInfo`, ...) without ever reading out of range, and each
parser to accept exactly the inputs that start with an encoding.
-/

namespace GridKV

open Go Endian Parse List

variable (data : Bytes) (offset : Nat) {s bs rest : Bytes}

/-! ### Fields -/

/-- The `int64` at the front of the input. -/
def takeInt64 (bs : Bytes) : Option (Int64 × Bytes) :=
  (takeUint 8 bs).map fun (n, rest) => ((UInt64.ofNat n).toInt64, rest)

theorem takeInt64_eq_some_iff {i : Int64} :
    takeInt64 bs = some (i, rest) ↔ bs = encodeInt64 i ++ rest := by
  simp only [takeInt64, Option.map_eq_some_iff, Prod.exists, Prod.mk.injEq, takeUint_eq_some_iff]
  constructor
  · rintro ⟨n, rest, ⟨hn, rfl⟩, rfl, rfl⟩
    rw [encodeInt64, UInt64.toUInt64_toInt64, UInt64.toNat_ofNat_of_lt' hn]
  · rintro rfl
    exact ⟨i.toUInt64.toNat, rest, ⟨i.toUInt64.toNat_lt, rfl⟩, by simp, rfl⟩

theorem takeString_encodeString (h : s.length < 65536) :
    takeString 2 (encodeString s ++ rest) = some (s, rest) :=
  takeString_eq_some_iff.mpr ⟨h, by rw [encodeString, append_assoc]⟩

theorem takeString_two_eq_some_iff :
    takeString 2 bs = some (s, rest) ↔ s.length < 65536 ∧ bs = encodeString s ++ rest := by
  have hwidth : 256 ^ 2 = 65536 := rfl
  rw [takeString_eq_some_iff, hwidth, encodeString, append_assoc]

/-- `decodeString` is the string reader at its offset; it never reads out of range. -/
theorem decodeString_eq :
    decodeString data offset = .ok (match takeString 2 (data.drop offset) with
      | some (s, _) => (s, offset + 2 + s.length)
      | none => ([], 0)) := by
  unfold decodeString
  split
  · rename_i hshort
    have hnone : takeString 2 (data.drop offset) = none := by
      rw [takeString, takeUint_drop_eq_none (by omega) (by decide)]
      rfl
    rw [hnone]
    rfl
  · rename_i hlong
    have hhead : offset + 2 ≤ data.length := by omega
    generalize hn : leNat ((data.drop offset).take 2) = n
    have hlt : n < 65536 := by
      have := leNat_lt ((data.drop offset).take 2)
      rw [hn, length_take_of_le (by simp; omega)] at this
      simpa using this
    rw [sliceFrom_eq_ok (by omega), ok_bind, leUint_eq_ok (by simp; omega), ok_bind, hn]
    simp only [pure_eq_ok]
    by_cases hfit : offset + 2 + n ≤ data.length
    · rw [takeString_drop hhead hn hfit, if_neg (by omega)]
      have hlen : ((data.drop (offset + 2)).take n).length = n :=
        length_take_of_le (by simp; omega)
      by_cases hzero : n = 0
      · simp [hzero]
      · rw [if_neg hzero, if_neg (by omega), slice_eq_ok hfit, ok_bind, if_neg (by simp [hlen])]
        simp only [hlen]
    · rw [takeString_drop_eq_none hhead hn (by omega), if_pos (by omega)]

/-- After a successful read the offset stands where the parser stands. -/
theorem drop_of_takeString {data : Bytes} {offset : Nat}
    (h : takeString 2 (data.drop offset) = some (s, rest)) :
    data.drop (offset + 2 + s.length) = rest := by
  obtain ⟨-, h⟩ := takeString_two_eq_some_iff.mp h
  rw [Nat.add_assoc, ← drop_drop, h, encodeString, append_assoc, ← drop_drop,
    drop_left' (by simp), drop_left]

/-- Parser and decoder fail together, or read the same string and stand at the same
    place. -/
theorem decodeString_cases :
    takeString 2 (data.drop offset) = none ∧ decodeString data offset = .ok ([], 0) ∨
    ∃ s, takeString 2 (data.drop offset) = some (s, data.drop (offset + 2 + s.length)) ∧
      decodeString data offset = .ok (s, offset + 2 + s.length) := by
  rw [decodeString_eq]
  cases h : takeString 2 (data.drop offset) with
  | none => exact .inl ⟨rfl, rfl⟩
  | some p =>
    obtain ⟨s, rest⟩ := p
    exact .inr ⟨s, by rw [drop_of_takeString h], rfl⟩

/-- The same for an integer, for which the decoders test the length first. -/
theorem decodeInt64_cases :
    takeInt64 (data.drop offset) = none ∧ offset + 8 > data.length ∨
    ∃ i, takeInt64 (data.drop offset) = some (i, data.drop (offset + 8)) ∧
      ¬ offset + 8 > data.length ∧ decodeInt64 data offset = .ok i := by
  by_cases hshort : offset + 8 > data.length
  · left
    rw [takeInt64, takeUint_drop_eq_none hshort (by decide)]
    exact ⟨rfl, hshort⟩
  · right
    rw [takeInt64, takeUint_drop (by omega), decodeInt64, sliceFrom_eq_ok (by omega), ok_bind,
      leUint_eq_ok (by simp; omega)]
    exact ⟨_, rfl, hshort, rfl⟩

/-! ### Messages with two strings and an incarnation -/

/-- The common layout of ping, ack, indirect-probe and connect messages. -/
def takeStringPair (bs : Bytes) : Option ((GoString × GoString × Int64) × Bytes) := do
  let (a, bs) ← takeString 2 bs
  let (b, bs) ← takeString 2 bs
  let (incarnation, bs) ← takeInt64 bs
  return ((a, b, incarnation), bs)

theorem takeStringPair_eq_some_iff {a b : GoString} {incarnation : Int64} :
    takeStringPair bs = some ((a, b, incarnation), rest) ↔
      a.length < 65536 ∧ b.length < 65536 ∧ bs = encodeStringPair a b incarnation ++ rest := by
  simp only [takeStringPair, Option.bind_eq_bind, Option.bind_eq_some_iff, Prod.exists,
    takeString_two_eq_some_iff, takeInt64_eq_some_iff, Option.pure_def, Option.some.injEq,
    Prod.mk.injEq, encodeStringPair]
  constructor
  · rintro ⟨a, _, ⟨ha, rfl⟩, b, _, ⟨hb, rfl⟩, i, rest, rfl, ⟨rfl, rfl, rfl⟩, rfl⟩
    exact ⟨ha, hb, by simp only [append_assoc]⟩
  · rintro ⟨ha, hb, rfl⟩
    exact ⟨a, _, ⟨ha, by simp only [append_assoc]⟩, b, _, ⟨hb, rfl⟩, incarnation, rest,
      rfl, ⟨rfl, rfl, rfl⟩, rfl⟩

theorem takeString_eq_none_of_short (h : bs.length < 2) : takeString 2 bs = none := by
  rw [takeString, takeUint, if_neg (by omega)]
  rfl

theorem decodeStringPair_eq : decodeStringPair data = .ok ((takeStringPair data).map Prod.fst) := by
  rw [decodeStringPair, takeStringPair]
  split
  · rename_i hshort
    rw [takeString_eq_none_of_short hshort]
    rfl
  -- The decoder and the parser go through the fields side by side.
  obtain ⟨ha, hread⟩ | ⟨a, ha, hread⟩ := decodeString_cases data 0
  · rw [drop_zero] at ha
    rw [hread, ha]
    rfl
  rw [drop_zero] at ha
  simp only [hread, ha, ok_bind, Option.bind_eq_bind, Option.bind_some]
  rw [if_neg (by omega)]
  obtain ⟨hb, hread⟩ | ⟨b, hb, hread⟩ := decodeString_cases data (0 + 2 + a.length)
  · rw [hread, hb]
    rfl
  simp only [hread, hb, ok_bind, Option.bind_some]
  obtain ⟨hi, hshort⟩ | ⟨i, hi, hlong, hread⟩ :=
    decodeInt64_cases data (0 + 2 + a.length + 2 + b.length)
  · rw [hi, if_pos (.inr hshort)]
    rfl
  · rw [hi, if_neg (by omega), hread]
    rfl

/-! ### Leave and connect -/

/-- A leave message: the node ID and its incarnation. -/
def takeLeave (bs : Bytes) : Option LeaveMsg := do
  let (nodeID, bs) ← takeString 2 bs
  let (incarnation, _) ← takeInt64 bs
  return { nodeID, incarnation }

theorem decodeLeaveMsg_eq : decodeLeaveMsg data = .ok (takeLeave data) := by
  rw [decodeLeaveMsg, takeLeave]
  split
  · rename_i hshort
    rw [takeString_eq_none_of_short hshort]
    rfl
  obtain ⟨ha, hread⟩ | ⟨a, ha, hread⟩ := decodeString_cases data 0
  · rw [drop_zero] at ha
    rw [hread, ha]
    rfl
  rw [drop_zero] at ha
  simp only [hread, ha, ok_bind, Option.bind_eq_bind, Option.bind_some]
  obtain ⟨hi, hshort⟩ | ⟨i, hi, hlong, hread⟩ := decodeInt64_cases data (0 + 2 + a.length)
  · rw [hi, if_pos (.inr hshort)]
    rfl
  · rw [hi, if_neg (by omega), hread]
    rfl

/-- A connect message: a pair whose node ID is not empty and whose address is usable. -/
def takeConnect (bs : Bytes) : Option ConnectMsg := do
  let (nodeID, bs) ← takeString 2 bs
  if nodeID = [] then none else
    let (address, bs) ← takeString 2 bs
    if ¬ validAddress address then none else
      let (incarnation, _) ← takeInt64 bs
      return { nodeID, address, incarnation }

theorem decodeConnectMsg_eq : decodeConnectMsg data = .ok (takeConnect data) := by
  rw [decodeConnectMsg, takeConnect]
  split
  · rename_i hshort
    rw [takeString_eq_none_of_short hshort]
    rfl
  obtain ⟨ha, hread⟩ | ⟨a, ha, hread⟩ := decodeString_cases data 0
  · rw [drop_zero] at ha
    rw [hread, ha]
    rfl
  rw [drop_zero] at ha
  simp only [hread, ha, ok_bind, Option.bind_eq_bind, Option.bind_some, length_eq_zero_iff]
  rw [if_neg (by omega)]
  by_cases hempty : a = []
  · rw [if_pos hempty, if_pos hempty]
    rfl
  rw [if_neg hempty, if_neg hempty, if_neg (by omega)]
  obtain ⟨hb, hread⟩ | ⟨b, hb, hread⟩ := decodeString_cases data (0 + 2 + a.length)
  · rw [hread, hb]
    rfl
  simp only [hread, hb, ok_bind, Option.bind_some]
  rw [if_neg (by omega)]
  -- The address is checked before the incarnation is read.
  by_cases hvalid : ¬ validAddress b
  · rw [if_pos hvalid, if_pos hvalid]
    rfl
  rw [if_neg hvalid, if_neg hvalid]
  obtain ⟨hi, hshort⟩ | ⟨i, hi, hlong, hread⟩ :=
    decodeInt64_cases data (0 + 2 + a.length + 2 + b.length)
  · rw [hi, if_pos hshort]
    rfl
  · rw [hi, if_neg hlong, hread]
    rfl

theorem takeConnect_eq_some_iff {msg : ConnectMsg} :
    takeConnect bs = some msg ↔
      msg.nodeID ≠ [] ∧ msg.nodeID.length < 65536 ∧ validAddress msg.address ∧
        msg.address.length < 65536 ∧ ∃ rest, bs = encodeConnectMsg msg ++ rest := by
  simp only [takeConnect, Option.bind_eq_bind, Option.bind_eq_some_iff, Prod.exists,
    takeString_two_eq_some_iff, takeInt64_eq_some_iff, Option.pure_def, Option.some.injEq,
    Option.ite_none_left_eq_some, encodeConnectMsg, encodeStringPair, not_not]
  constructor
  · rintro ⟨a, _, ⟨ha, rfl⟩, hne, b, _, ⟨hb, rfl⟩, hvalid, i, rest, rfl, rfl⟩
    exact ⟨hne, ha, hvalid, hb, rest, by simp only [append_assoc]⟩
  · rintro ⟨hne, ha, hvalid, hb, rest, rfl⟩
    exact ⟨_, _, ⟨ha, by simp only [append_assoc]⟩, hne, _, _, ⟨hb, rfl⟩, hvalid,
      msg.incarnation, rest, rfl, rfl⟩

/-! ### Cluster sync -/

/-- One member entry. -/
def takeNodeInfo (bs : Bytes) : Option (NodeInfo × Bytes) := do
  let (nodeID, bs) ← takeString 2 bs
  let (address, bs) ← takeString 2 bs
  let (state, bs) ← takeUint 4 bs
  let (incarnation, bs) ← takeInt64 bs
  let (unixNano, bs) ← takeInt64 bs
  return ({ nodeID, address, state := (UInt32.ofNat state).toInt32, incarnation
            lastActive := unixNano.toInt }, bs)

/-- The entry's strings have 16-bit lengths and its time is within `int64` nanoseconds. -/
def NodeInfo.FitsWire (info : NodeInfo) : Prop :=
  info.nodeID.length < 65536 ∧ info.address.length < 65536 ∧
    (unixNano info.lastActive).toInt = info.lastActive

theorem takeNodeInfo_eq_some_iff {info : NodeInfo} :
    takeNodeInfo bs = some (info, rest) ↔ info.FitsWire ∧ bs = encodeNodeInfo info ++ rest := by
  simp only [takeNodeInfo, Option.bind_eq_bind, Option.bind_eq_some_iff, Prod.exists,
    takeString_two_eq_some_iff, takeInt64_eq_some_iff, takeUint_eq_some_iff, Option.pure_def,
    Option.some.injEq, Prod.mk.injEq, encodeNodeInfo, NodeInfo.FitsWire]
  constructor
  · rintro ⟨a, _, ⟨ha, rfl⟩, b, _, ⟨hb, rfl⟩, n, _, ⟨hn, rfl⟩, i, _, rfl, t, rest, rfl, rfl, rfl⟩
    refine ⟨⟨ha, hb, by simp [unixNano]⟩, ?_⟩
    simp only [unixNano, Int64.ofInt_toInt, UInt32.toUInt32_toInt32, UInt32.toNat_ofNat_of_lt' hn,
      append_assoc]
  · rintro ⟨⟨ha, hb, ht⟩, rfl⟩
    exact ⟨_, _, ⟨ha, by simp only [append_assoc]⟩, _, _, ⟨hb, rfl⟩,
      info.state.toUInt32.toNat, _, ⟨info.state.toUInt32.toNat_lt, rfl⟩,
      info.incarnation, _, rfl, unixNano info.lastActive, rest, rfl, by simp [ht], rfl⟩

/-- `decodeNodeInfo` is the entry parser at its offset. -/
theorem decodeNodeInfo_eq :
    ∃ newOffset, decodeNodeInfo data offset =
        .ok ((takeNodeInfo (data.drop offset)).map Prod.fst, newOffset) ∧
      ∀ info rest, takeNodeInfo (data.drop offset) = some (info, rest) →
        data.drop newOffset = rest := by
  rw [decodeNodeInfo, takeNodeInfo]
  split
  · rename_i hshort
    rw [takeString_eq_none_of_short (by simp; omega)]
    exact ⟨offset, rfl, nofun⟩
  obtain ⟨ha, hread⟩ | ⟨a, ha, hread⟩ := decodeString_cases data offset
  · rw [hread, ha]
    exact ⟨0, rfl, nofun⟩
  simp only [hread, ha, ok_bind, Option.bind_eq_bind, Option.bind_some]
  rw [if_neg (by omega)]
  generalize offset + 2 + a.length = o₁
  obtain ⟨hb, hread⟩ | ⟨b, hb, hread⟩ := decodeString_cases data o₁
  · rw [hread, hb]
    exact ⟨0, rfl, nofun⟩
  simp only [hread, hb, ok_bind, Option.bind_some]
  rw [if_neg (by omega)]
  generalize o₁ + 2 + b.length = o₂
  -- The state is a `uint32`, for which the decoder tests the length itself.
  by_cases hstate : o₂ + 4 > data.length
  · rw [if_pos hstate, takeUint_drop_eq_none hstate (by decide)]
    exact ⟨o₂, rfl, nofun⟩
  rw [if_neg hstate, takeUint_drop (by omega), sliceFrom_eq_ok (by omega), ok_bind,
    leUint_eq_ok (by simp; omega), ok_bind]
  simp only [Option.bind_some]
  obtain ⟨hi, hshort⟩ | ⟨i, hi, hlong, hread⟩ := decodeInt64_cases data (o₂ + 4)
  · rw [hi, if_pos hshort]
    exact ⟨_, rfl, nofun⟩
  rw [hi, if_neg hlong, hread]
  simp only [ok_bind, Option.bind_some]
  obtain ⟨ht, hshort⟩ | ⟨t, ht, hlong, hread⟩ := decodeInt64_cases data (o₂ + 4 + 8)
  · rw [ht, if_pos hshort]
    exact ⟨_, rfl, nofun⟩
  rw [ht, if_neg hlong, hread]
  refine ⟨o₂ + 4 + 8 + 8, rfl, fun info rest h => ?_⟩
  simp only [Option.bind_some, Option.pure_def, Option.some.injEq, Prod.mk.injEq] at h
  exact h.2

/-- `count` member entries, all with usable addresses. -/
def takeMembers : Nat → Bytes → Option (List NodeInfo)
  | 0, _ => some []
  | count + 1, bs => do
    let (info, bs) ← takeNodeInfo bs
    if ¬ validAddress info.address then none else (takeMembers count bs).map (info :: ·)

theorem takeMembers_eq_some_iff {count : Nat} {members : List NodeInfo} :
    takeMembers count bs = some members ↔
      members.length = count ∧ (∀ info ∈ members, info.FitsWire ∧ validAddress info.address) ∧
        ∃ rest, bs = members.flatMap encodeNodeInfo ++ rest := by
  induction count generalizing members bs with
  | zero =>
    simp only [takeMembers, Option.some.injEq]
    constructor
    · rintro rfl
      exact ⟨rfl, nofun, bs, rfl⟩
    · rintro ⟨hlen, -, -⟩
      exact (length_eq_zero_iff.mp hlen).symm
  | succ count ih =>
    simp only [takeMembers, Option.bind_eq_bind, Option.bind_eq_some_iff, Prod.exists,
      takeNodeInfo_eq_some_iff, Option.ite_none_left_eq_some, not_not, Option.map_eq_some_iff, ih]
    constructor
    · rintro ⟨info, _, ⟨hfit, rfl⟩, hvalid, members, ⟨rfl, hall, rest, rfl⟩, rfl⟩
      exact ⟨rfl, forall_mem_cons.mpr ⟨⟨hfit, hvalid⟩, hall⟩, rest, by simp⟩
    · rintro ⟨hlen, hall, rest, rfl⟩
      cases members with
      | nil => simp at hlen
      | cons info members =>
        obtain ⟨⟨hfit, hvalid⟩, hall⟩ := forall_mem_cons.mp hall
        exact ⟨info, members.flatMap encodeNodeInfo ++ rest, ⟨hfit, by simp⟩, hvalid, members,
          ⟨by simpa using hlen, hall, rest, rfl⟩, rfl⟩

theorem decodeMembers_eq (count offset : Nat) :
    decodeMembers data count offset = .ok (takeMembers count (data.drop offset)) := by
  induction count generalizing offset with
  | zero => rfl
  | succ count ih =>
    obtain ⟨newOffset, hread, hdrop⟩ := decodeNodeInfo_eq data offset
    rw [decodeMembers, takeMembers, hread, ok_bind]
    cases hinfo : takeNodeInfo (data.drop offset) with
    | none => rfl
    | some p =>
      obtain ⟨info, rest⟩ := p
      have hrest := hdrop info rest hinfo
      subst hrest
      simp only [Option.map_some, Option.bind_eq_bind, Option.bind_some]
      split
      · rfl
      · rw [ih]
        rfl

/-- A cluster-sync message: the sender, a member count of at most 1000, the members. -/
def takeClusterSync (bs : Bytes) : Option ClusterSyncMsg := do
  let (sender, bs) ← takeString 2 bs
  let (count, bs) ← takeUint 4 bs
  if count > 1000 then none else (takeMembers count bs).map fun members => { sender, members }

theorem decodeClusterSyncMsg_eq : decodeClusterSyncMsg data = .ok (takeClusterSync data) := by
  rw [decodeClusterSyncMsg, takeClusterSync]
  split
  · rename_i hshort
    rw [takeString_eq_none_of_short hshort]
    rfl
  obtain ⟨ha, hread⟩ | ⟨a, ha, hread⟩ := decodeString_cases data 0
  · rw [drop_zero] at ha
    rw [hread, ha]
    rfl
  rw [drop_zero] at ha
  simp only [hread, ha, ok_bind, Option.bind_eq_bind, Option.bind_some]
  rw [if_neg (by omega)]
  by_cases hcount : 0 + 2 + a.length + 4 > data.length
  · rw [if_pos hcount, takeUint_drop_eq_none hcount (by decide)]
    rfl
  rw [if_neg hcount, takeUint_drop (by omega), sliceFrom_eq_ok (by omega), ok_bind,
    leUint_eq_ok (by simp; omega), ok_bind]
  simp only [Option.bind_some, decodeMembers_eq]
  split <;> rfl

theorem takeClusterSync_eq_some_iff {msg : ClusterSyncMsg} :
    takeClusterSync bs = some msg ↔
      msg.sender.length < 65536 ∧ msg.members.length ≤ 1000 ∧
        (∀ info ∈ msg.members, info.FitsWire ∧ validAddress info.address) ∧
        ∃ rest, bs = encodeClusterSyncMsg msg ++ rest := by
  simp only [takeClusterSync, Option.bind_eq_bind, Option.bind_eq_some_iff, Prod.exists,
    takeString_two_eq_some_iff, takeUint_eq_some_iff, Option.ite_none_left_eq_some,
    Option.map_eq_some_iff, takeMembers_eq_some_iff, encodeClusterSyncMsg]
  constructor
  · rintro ⟨a, _, ⟨ha, rfl⟩, n, _, ⟨-, rfl⟩, hle, members, ⟨rfl, hall, rest, rfl⟩, rfl⟩
    exact ⟨ha, Nat.le_of_not_lt hle, hall, rest, by simp only [append_assoc]⟩
  · rintro ⟨ha, hle, hall, rest, rfl⟩
    exact ⟨_, _, ⟨ha, by simp only [append_assoc]⟩, msg.members.length, _, ⟨by omega, rfl⟩,
      by omega, msg.members, ⟨rfl, hall, rest, rfl⟩, rfl⟩

end GridKV
