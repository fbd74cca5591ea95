import GridKV.Spec.LocalWrites
import GridKV.Spec.SyncOpsWire

/-!
# Keys the length prefix cannot carry

The store takes keys of any length, but an operation is sent with a 16-bit key length.  A
longer key is written in full behind its length modulo `2 ^ 16`, and the receiver cuts the
first bytes off as the key and reads the other fields out of the rest of it.
`keepsKey_iff_keyKept` says which operations cannot come out as one on another key that
`applyOps` would store.
-/

namespace GridKV

open Go Endian Parse MemStorage List

/-! ### What `applyOps` stores -/

namespace Gossip

variable {cfg : NodeConfig} {now : Time} {s : MemStorage} {key : GoString} {item : StoredItem}

theorem entry_applyOp_of_stores (h : stores cfg now s key item) :
    (applyOp cfg now s key item).2 = none ∧
      entry cfg.store (applyOp cfg now s key item).1 key =
        some (prepareCompressedItem cfg.store item) := by
  obtain ⟨r, -, happ, hset⟩ := exists_set_of_stores h
  obtain ⟨hok, hinstalls⟩ := set_of_setStores hset
  rw [happ]
  exact ⟨hok, by rw [hinstalls.entry_eq, if_pos rfl]⟩

theorem key_ne_nil_of_stores (h : stores cfg now s key item) : key ≠ [] := by
  obtain ⟨r, -, -, hset⟩ := exists_set_of_stores h
  simp only [setStores, decide_eq_true_eq] at hset
  exact hset.1

/-- A node alone on its ring, with no memory limit. -/
def roomyNode : NodeConfig := { ClockedNode.solo with store := { oneShard with maxMemoryMB := 0 } }

/-- An empty store takes every operation with a key. -/
theorem stores_roomyNode (now : Time) {key : GoString} (hkey : key ≠ []) (item : StoredItem) :
    stores roomyNode now .empty key item := by
  have hempty : ∀ r, Removes roomyNode.store .empty r → setStores roomyNode.store r key item := by
    intro r hr
    have hnone : entry roomyNode.store r key = none := by
      cases he : entry roomyNode.store r key with
      | none => rfl
      | some e => exact nomatch hr.entry_of_entry he
    have hroom : r.makeRoom roomyNode.store key (prepareCompressedItem roomyNode.store item) =
        (r, none) := makeRoom_of_hasMemory (.inl (by decide))
    simp [setStores, hkey, hroom, accepts, hnone]
  have hremoves := removes_getNoCopy roomyNode.store now .empty key
  have hreplica : roomyNode.isReplica key = true := rfl
  rw [stores, hreplica, Bool.true_and]
  cases hread : MemStorage.empty.getNoCopy roomyNode.store now key with
  | mk r result =>
    rw [hread] at hremoves
    cases result with
    | ok existing =>
      have hok : (MemStorage.empty.getNoCopy roomyNode.store now key).2 = .ok existing := by
        rw [hread]
      obtain ⟨e, he, -⟩ := version_of_getNoCopy_eq_ok hok
      exact nomatch he
    | error err => exact hempty r hremoves

end Gossip

namespace SyncOpsCodec

/-! ### One operation through the codec -/

/-- A window of a cut list that the cut does not reach. -/
theorem window_take {α : Type} (xs : List α) {a b n : Nat} (h : a + b ≤ n) :
    ((xs.take n).drop a).take b = (xs.drop a).take b := by
  rw [drop_take, take_take, Nat.min_eq_left (by omega)]

/-- The length of a frame is cut to 32 bits, and the frame with it. -/
theorem throughCodec_singleton (op : SyncOperation) :
    throughCodec [op] = .ok ((op.item.map fun item =>
      decoded ((encodeOpStreaming op item).take
        ((encodeOpStreaming op item).length % 2 ^ 32))).toList) := by
  have hcount : leNat (leBytes 4 [op].length) = 1 := leNat_leBytes_of_lt (n := 1) (by decide)
  unfold throughCodec
  rw [serialize_eq, if_neg (cons_ne_nil _ _), ok_bind, deserialize_eq, if_neg (by simp),
    take_left' (by simp), drop_left' (by simp), hcount]
  cases hitem : op.item with
  | none =>
    simp only [frames, filterMap_cons, filterMap_nil, hitem, Option.map_none,
      flatMap_nil, takeStrings, takeString_nil (w := 4) (by decide)]
    rfl
  | some item =>
    have hframes : frames [op] = [encodeOpStreaming op item] := by simp [frames, hitem]
    have hread := takeString_leBytes 4 (encodeOpStreaming op item) []
    rw [hframes]
    simp only [flatMap_cons, flatMap_nil, append_assoc, takeStrings, hread]
    rfl

variable (op : SyncOperation) (item : StoredItem) {n : Nat}

theorem keyLenOf_take (hn : 2 ≤ n) :
    keyLenOf ((encodeOpStreaming op item).take n) = op.key.length % 65536 := by
  rw [keyLenOf, take_take, Nat.min_eq_left hn, encodeOpStreaming,
    take_left' (length_leBytes ..), leNat_leBytes]
  rfl

/-- Behind the two bytes of its length stands the whole key. -/
theorem window_key {a b : Nat} (h : a + b ≤ op.key.length) :
    ((encodeOpStreaming op item).drop (2 + a)).take b = (op.key.drop a).take b := by
  rw [encodeOpStreaming, ← drop_drop, drop_left' (length_leBytes ..),
    drop_append_of_le_length (by omega), take_append_of_le_length (by simp; omega)]

/-- The receiver takes the first bytes of the key for the key. -/
theorem key_opOf_take (hcomplete : Complete ((encodeOpStreaming op item).take n)) :
    (opOf ((encodeOpStreaming op item).take n)).key = op.key.take (op.key.length % 65536) := by
  have hn : ((encodeOpStreaming op item).take n).length ≤ n := length_take_le _ _
  unfold Complete at hcomplete
  have hkeyLen := keyLenOf_take op item (n := n) (by omega)
  have hkey : ((encodeOpStreaming op item).drop (2 + 0)).take (op.key.length % 65536) = _ :=
    window_key op item (by simpa using Nat.mod_le _ _)
  rw [opOf, hkeyLen, window_take _ (by omega)]
  simpa using hkey

/-- When an over-long key leaves a complete frame: the four bytes that are taken for the
    value length stand within the key. -/
theorem complete_take_iff (hlong : 65536 ≤ op.key.length)
    (hn : n ≤ (encodeOpStreaming op item).length) :
    Complete ((encodeOpStreaming op item).take n) ↔
      op.key.length % 65536 + 23 ≤ n ∧
        leNat ((op.key.drop (op.key.length % 65536 + 17)).take 4) ≤
          n - (op.key.length % 65536 + 23) := by
  have hlen : ((encodeOpStreaming op item).take n).length = n := length_take_of_le hn
  unfold Complete
  rw [hlen]
  by_cases htwo : n < 2
  · -- Not even the key length is there.
    omega
  have hkeyLen := keyLenOf_take op item (n := n) (by omega)
  rw [hkeyLen]
  by_cases hshort : n < op.key.length % 65536 + 23
  · omega
  -- At least 65536 bytes of the key are left behind the cut, more than the fields take.
  have hvalueLen : valueLenOf ((encodeOpStreaming op item).take n) =
      leNat ((op.key.drop (op.key.length % 65536 + 17)).take 4) := by
    rw [valueLenOf, hkeyLen, window_take _ (by omega), Nat.add_assoc,
      window_key op item (by omega)]
  rw [hvalueLen]
  omega

/-! ### Which keys are kept -/

/-- Whatever comes out of the codec and is stored by a node has the key of `op`. -/
def KeepsKey (op : SyncOperation) : Prop :=
  ∃ out, throughCodec [op] = .ok out ∧
    ∀ op' item', some op' ∈ out → op'.item = some item' →
      ∀ cfg now s, Gossip.stores cfg now s op'.key item' → op'.key = op.key

/-- The key fits, or nothing that could be stored comes out.  With `r` the key length modulo
    `2 ^ 16` and `m` the length of the frame modulo `2 ^ 32`: the key read is empty (`r = 0`),
    the frame is too short for its fields, or the four key bytes from `r + 17` on, which are
    read as the value length, name more than is left of the frame. -/
def KeyKept (op : SyncOperation) : Prop :=
  ∀ item, op.item = some item →
    let r := op.key.length % 65536
    let m := (op.key.length + item.value.length + 23) % 2 ^ 32
    op.key.length < 65536 ∨ r = 0 ∨ m < r + 23 ∨
      m - (r + 23) < leNat ((op.key.drop (r + 17)).take 4)

/-- A stored operation comes from a complete frame and has a key. -/
theorem keepsKey_iff_of_item {op : SyncOperation} {data : Bytes}
    (hout : throughCodec [op] = .ok [decoded data]) :
    KeepsKey op ↔ (Complete data → (opOf data).key = [] ∨ (opOf data).key = op.key) := by
  constructor
  · rintro ⟨out, hdecoded, hkeeps⟩ hcomplete
    cases hout.symm.trans hdecoded
    by_cases hnil : (opOf data).key = []
    · exact .inl hnil
    · -- Some node would store it: an empty one without a memory limit.
      right
      refine hkeeps (opOf data) _ ?_ rfl Gossip.roomyNode 0 .empty
        (Gossip.stores_roomyNode 0 hnil _)
      rw [decoded, if_pos hcomplete]
      exact mem_singleton_self _
  · intro hkey
    refine ⟨_, hout, fun op' item' hmem hitem' cfg now s hstores => ?_⟩
    have hread : decoded data = some op' := (mem_singleton.mp hmem).symm
    by_cases hcomplete : Complete data
    · rw [decoded, if_pos hcomplete] at hread
      cases hread
      exact (hkey hcomplete).resolve_left (Gossip.key_ne_nil_of_stores hstores)
    · rw [decoded, if_neg hcomplete] at hread
      cases hread

/-- A key that is cut comes out as another one, unless nothing is left of it. -/
theorem keepsKey_iff_of_long {op : SyncOperation} {item : StoredItem}
    (hout : throughCodec [op] = .ok [decoded ((encodeOpStreaming op item).take n)])
    (hlong : 65536 ≤ op.key.length) :
    KeepsKey op ↔
      op.key.length % 65536 = 0 ∨ ¬Complete ((encodeOpStreaming op item).take n) := by
  have hcut : op.key.take (op.key.length % 65536) ≠ op.key := by
    intro h
    have hlen := congrArg List.length h
    rw [length_take] at hlen
    omega
  have hempty : op.key.take (op.key.length % 65536) = [] ↔ op.key.length % 65536 = 0 := by
    rw [take_eq_nil_iff, ← length_eq_zero_iff]
    omega
  rw [keepsKey_iff_of_item hout]
  constructor
  · intro hkey
    by_cases hc : Complete ((encodeOpStreaming op item).take n)
    · have hnil := hkey hc
      rw [key_opOf_take op item hc] at hnil
      exact .inl (hempty.mp (hnil.resolve_right hcut))
    · exact .inr hc
  · intro h hc
    rw [key_opOf_take op item hc]
    exact .inl (hempty.mpr (h.resolve_right (not_not_intro hc)))

/-- **When an operation keeps its key.**  For every operation, of any key and value. -/
theorem keepsKey_iff_keyKept (op : SyncOperation) : KeepsKey op ↔ KeyKept op := by
  have hout := throughCodec_singleton op
  unfold KeyKept
  cases hitem : op.item with
  | none =>
    -- Nothing is sent.
    rw [hitem] at hout
    simp [KeepsKey, hout]
  | some item =>
    rw [hitem, Option.map_some, Option.toList_some] at hout
    have hframe := length_encodeOpStreaming op item
    simp only [Option.some.injEq, forall_eq']
    by_cases hfits : op.key.length < 65536
    · -- The length prefix names the whole key.
      refine iff_of_true ((keepsKey_iff_of_item hout).mpr fun hc => .inr ?_) (.inl hfits)
      rw [key_opOf_take op item hc, Nat.mod_eq_of_lt hfits, take_length]
    · rw [keepsKey_iff_of_long hout (Nat.not_lt.mp hfits),
        complete_take_iff op item (Nat.not_lt.mp hfits) (Nat.mod_le _ _), hframe]
      omega

/-- A key of 65537 zero bytes. -/
def longKeyOp : SyncOperation where
  key := replicate 65537 0
  opType := .set
  item := some (plainItem 7 "v")

/-- It comes out as an operation on the key of one zero byte, and an empty node stores that. -/
theorem long_key_stored_under_another :
    ∃ op' item', throughCodec [longKeyOp] = .ok [some op'] ∧ op'.item = some item' ∧
      op'.key = [0] ∧
      entry Gossip.roomyNode.store (Gossip.applyOp Gossip.roomyNode 0 .empty op'.key item').1 [0] =
        some (prepareCompressedItem Gossip.roomyNode.store item') ∧
      ¬KeepsKey longKeyOp := by
  have hout := throughCodec_singleton longKeyOp
  have hitem : longKeyOp.item = some (plainItem 7 "v") := rfl
  have hlen : longKeyOp.key.length = 65537 := length_replicate
  have hframe := length_encodeOpStreaming longKeyOp (plainItem 7 "v")
  have hvalue : (plainItem 7 "v").value.length = 1 := rfl
  obtain ⟨data, hdata⟩ : ∃ data, data = (encodeOpStreaming longKeyOp (plainItem 7 "v")).take
      ((encodeOpStreaming longKeyOp (plainItem 7 "v")).length % 2 ^ 32) := ⟨_, rfl⟩
  have hcomplete : Complete data := by
    have hzeros : leNat ((longKeyOp.key.drop (65537 % 65536 + 17)).take 4) = 0 := by
      have hkey : longKeyOp.key = replicate 65537 0 := rfl
      rw [hkey, drop_replicate, take_replicate]
      rfl
    rw [hdata, complete_take_iff _ _ (by omega) (Nat.mod_le _ _), hframe, hlen, hvalue, hzeros]
    omega
  have hkey : (opOf data).key = [0] := by
    rw [hdata] at hcomplete ⊢
    rw [key_opOf_take _ _ hcomplete, hlen]
    rfl
  rw [hitem, Option.map_some, ← hdata, Option.toList_some] at hout
  obtain ⟨item', hitem'⟩ : ∃ item', (opOf data).item = some item' := ⟨_, rfl⟩
  have hne : (opOf data).key ≠ [] := by
    rw [hkey]
    exact cons_ne_nil _ _
  have hother : (opOf data).key ≠ longKeyOp.key := by
    intro h
    have hone := congrArg List.length h
    rw [hkey, hlen] at hone
    simp at hone
  refine ⟨opOf data, item', ?_, hitem', hkey, ?_, ?_⟩
  · rw [hout, decoded, if_pos hcomplete]
  · rw [← hkey]
    exact (Gossip.entry_applyOp_of_stores (Gossip.stores_roomyNode 0 hne item')).2
  · rw [keepsKey_iff_of_item hout]
    exact fun h => (h hcomplete).elim hne hother

end SyncOpsCodec

end GridKV
