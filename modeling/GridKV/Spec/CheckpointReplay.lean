import GridKV.Model.Replay
import GridKV.Spec.LocalWrites
import GridKV.Spec.WriterOffers

/-!
# Replaying a checkpoint

`replay.Start` keeps the last operation of each key in the checkpoint, whatever the
versions say, and writes it with `BatchSet` under one new version from the clock.  So a
replicated key is offered one item (`entry_start`), which is the right one only by
coincidence: the clock would have to return the version of the newest operation, or the
store to hold something newer already.
-/

namespace GridKV

open Go MemStorage List

namespace Replay

variable {ops : List SyncOperation} {visited : List (GoString × StoredItem)} {item : StoredItem}

/-! ### The map -/

/-- The items the checkpoint has for a key, in its order. -/
def itemsFor (ops : List SyncOperation) (key : GoString) : List StoredItem :=
  ops.filterMap fun op => if op.key = key then op.item else none

/-- The last of them is in the map. -/
theorem lookup_checkpointItems (ops : List SyncOperation) (key : GoString) :
    (checkpointItems ops).lookup key = (itemsFor ops key).getLast? := by
  suffices ∀ items : GoMap StoredItem,
      (ops.foldl addItem items).lookup key = (itemsFor ops key).getLast?.or (items.lookup key) by
    simpa [checkpointItems] using this ∅
  -- Induction on the operations still to come; the map collected so far is general.
  induction ops with
  | nil => intro items; rfl
  | cons op ops ih =>
    intro items
    rw [foldl_cons, ih]
    cases hitem : op.item with
    | none => simp [itemsFor, addItem, hitem]
    | some item =>
      simp only [addItem, hitem]
      by_cases hkey : op.key = key
      · have hcons : itemsFor (op :: ops) key = item :: itemsFor ops key := by
          simp [itemsFor, hkey, hitem]
        rw [hcons, getLast?_cons, ← hkey, AList.lookup_insert]
        cases (itemsFor ops op.key).getLast? <;> rfl
      · have hskip : itemsFor (op :: ops) key = itemsFor ops key := by
          simp [itemsFor, hkey]
        rw [hskip, AList.lookup_insert_ne (Ne.symm hkey)]

theorem mem_rangeOf {items : GoMap StoredItem} {key : GoString} :
    (key, item) ∈ rangeOf items ↔ items.lookup key = some item := by
  rw [← Option.mem_def, AList.mem_lookup_iff]
  simp only [rangeOf, mem_map, Prod.mk.injEq]
  constructor
  · rintro ⟨⟨k, x⟩, hmem, rfl, rfl⟩
    exact hmem
  · exact fun hmem => ⟨⟨key, item⟩, hmem, rfl, rfl⟩

theorem nodup_keys_rangeOf (items : GoMap StoredItem) : ((rangeOf items).map Prod.fst).Nodup := by
  have hkeys : (rangeOf items).map Prod.fst = items.keys := by
    simp [rangeOf, AList.keys, List.keys]
  rw [hkeys]
  exact items.keys_nodup

/-! ### The batch -/

/-- Each item of the batch that goes to the store finds room there. -/
def RoomForBatch (cfg : NodeConfig) (version : Int64) : Node → List (GoString × StoredItem) → Prop
  | _, [] => True
  | node, (key, item) :: rest =>
    (∀ x, Node.batchItem cfg key item version = some x → RoomFor cfg.store node.store key x) ∧
      RoomForBatch cfg version (node.batchSetEntry cfg key item version) rest

variable {cfg : NodeConfig} {node : Node} {key : GoString} {version : Int64}

/-- A key that is not in the batch is left alone. -/
theorem entry_batch_of_not_mem (hkey : key ≠ []) (hroom : RoomForBatch cfg version node visited)
    (hnot : key ∉ visited.map Prod.fst) :
    entry cfg.store
        (visited.foldl (fun node kv => node.batchSetEntry cfg kv.1 kv.2 version) node).store key =
      entry cfg.store node.store key := by
  induction visited generalizing node with
  | nil => rfl
  | cons kv visited ih =>
    obtain ⟨hhere, hrest⟩ := hroom
    simp only [map_cons, mem_cons, not_or] at hnot
    rw [foldl_cons, ih hrest hnot.2, Node.entry_batchSetEntry_of_room hkey hhere,
      if_neg hnot.1]

/-- A key in the batch is offered its item once. -/
theorem entry_batch_of_mem (hkey : key ≠ []) (hroom : RoomForBatch cfg version node visited)
    (hnodup : (visited.map Prod.fst).Nodup) (hmem : (key, item) ∈ visited) :
    entry cfg.store
        (visited.foldl (fun node kv => node.batchSetEntry cfg kv.1 kv.2 version) node).store key =
      Node.afterOffer cfg (entry cfg.store node.store key)
        (Node.batchItem cfg key item version) := by
  induction visited generalizing node with
  | nil => exact nomatch hmem
  | cons kv visited ih =>
    obtain ⟨hhere, hrest⟩ := hroom
    rw [map_cons, nodup_cons] at hnodup
    rw [foldl_cons]
    obtain rfl | hlater := mem_cons.mp hmem
    · rw [entry_batch_of_not_mem hkey hrest hnodup.1,
        Node.entry_batchSetEntry_of_room hkey hhere, if_pos rfl]
    · have hne : key ≠ kv.1 := by
        rintro rfl
        exact hnodup.1 (mem_map.mpr ⟨_, hlater, rfl⟩)
      rw [ih hrest hnodup.2 hlater, Node.entry_batchSetEntry_of_room hkey hhere, if_neg hne]

/-- `Start` is the loop of `BatchSet` over the map. -/
theorem store_start (hvisited : visited.Perm (rangeOf (checkpointItems ops)))
    (accepts : Nat → Bool) :
    (start cfg node ops visited version accepts).store =
      (visited.foldl (fun node kv => node.batchSetEntry cfg kv.1 kv.2 version) node).store := by
  have hlength : visited.length = (checkpointItems ops).entries.length := by
    rw [hvisited.length_eq, rangeOf, length_map]
  by_cases hitems : (checkpointItems ops).entries.length > 0
  · have hops : ops.length > 0 := by
      rw [gt_iff_lt, length_pos_iff]
      rintro rfl
      exact absurd hitems (by decide)
    have hne : visited ≠ [] := by
      rw [← length_pos_iff, hlength]
      exact hitems
    simp only [start, if_pos hops, if_pos hitems, Node.batchSet, if_neg hne]
  · have hnil : visited = [] := by
      rw [← length_eq_zero_iff]
      omega
    simp only [start, if_neg hitems, ite_self, hnil, foldl_nil]

/-- What `Start` leaves for a replicated key: its last item in the checkpoint was offered
    under the version of the batch. -/
theorem entry_start (hkey : key ≠ []) (hreplica : cfg.isReplica key)
    (hvisited : visited.Perm (rangeOf (checkpointItems ops)))
    (hroom : RoomForBatch cfg version node visited) (accepts : Nat → Bool) :
    entry cfg.store (start cfg node ops visited version accepts).store key =
      Node.afterOffer cfg (entry cfg.store node.store key)
        ((itemsFor ops key).getLast?.map fun item => Node.versionedItem key item version) := by
  have hlookup := lookup_checkpointItems ops key
  rw [store_start hvisited]
  cases hlast : (itemsFor ops key).getLast? with
  | none =>
    rw [hlast] at hlookup
    refine entry_batch_of_not_mem hkey hroom fun hmem => ?_
    obtain ⟨⟨k, item⟩, hitem, rfl⟩ := mem_map.mp hmem
    rw [hvisited.mem_iff, mem_rangeOf, hlookup] at hitem
    exact nomatch hitem
  | some item =>
    rw [hlast] at hlookup
    have hmem : (key, item) ∈ visited := hvisited.mem_iff.mpr (mem_rangeOf.mpr hlookup)
    have hnodup : (visited.map Prod.fst).Nodup :=
      (hvisited.map Prod.fst).nodup_iff.mpr (nodup_keys_rangeOf _)
    rw [entry_batch_of_mem hkey hroom hnodup hmem, Node.batchItem, if_pos hreplica, Option.map_some]

/-! ### What the store holds afterwards -/

/-- The entries that count for a key: the one stored and those of the checkpoint. -/
def Candidate (cfg : NodeConfig) (node : Node) (ops : List SyncOperation) (key : GoString)
    (e : CompressedItem) : Prop :=
  entry cfg.store node.store key = some e ∨
    ∃ item ∈ itemsFor ops key, e = prepareCompressedItem cfg.store item

/-- The store of `after` holds the highest of them, as it is. -/
def HoldsHighest (cfg : NodeConfig) (node : Node) (ops : List SyncOperation) (key : GoString)
    (after : Node) : Prop :=
  Lww.IsHighest versionOf (Candidate cfg node ops key) (entry cfg.store after.store key)

/-- The new version does no harm to the key: the store holds something as new as that version
    and as everything in the checkpoint, or the version is the highest the checkpoint has for
    the key, for an item that is stored in the same way as the last one. -/
def Harmless (cfg : NodeConfig) (node : Node) (ops : List SyncOperation) (key : GoString)
    (version : Int64) : Prop :=
  let held := entry cfg.store node.store key
  ((itemsFor ops key = [] ∨ Lww.Reached versionOf held version.toInt) ∧
      ∀ item ∈ itemsFor ops key, Lww.Reached versionOf held item.version.toInt) ∨
    ∃ last ∈ (itemsFor ops key).getLast?, ∃ item ∈ itemsFor ops key,
      prepareCompressedItem cfg.store item =
        prepareCompressedItem cfg.store (Node.versionedItem key last version) ∧
      ∀ other ∈ itemsFor ops key, other.version ≤ version

/-- **Replay.**  For all store contents and all operations in the checkpoint, a replicated key
    holds the highest version after `Start` exactly when the new version did it no harm. -/
theorem holdsHighest_start_iff (hkey : key ≠ []) (hreplica : cfg.isReplica key)
    {ops : List SyncOperation} {visited : List (GoString × StoredItem)}
    (hvisited : visited.Perm (rangeOf (checkpointItems ops)))
    (hroom : RoomForBatch cfg version node visited) {accepts : Nat → Bool} :
    HoldsHighest cfg node ops key (start cfg node ops visited version accepts) ↔
      Harmless cfg node ops key version := by
  unfold HoldsHighest Harmless
  rw [entry_start hkey hreplica hvisited hroom]
  obtain ⟨held, hheld⟩ : ∃ held, held = entry cfg.store node.store key := ⟨_, rfl⟩
  rw [← hheld]
  cases hlast : (itemsFor ops key).getLast? with
  | none =>
    -- Nothing for the key in the checkpoint: it keeps what it has.
    have hnil := getLast?_eq_none_iff.mp hlast
    refine iff_of_true ?_ (.inl ⟨.inl hnil, by simp [hnil]⟩)
    exact (Lww.isHighest_self versionOf held).congr fun e => by simp [Candidate, hnil, hheld]
  | some last =>
    have hlastMem : last ∈ itemsFor ops key := mem_of_getLast? hlast
    simp only [Option.map_some, Node.afterOffer]
    by_cases hreached : Lww.Reached versionOf held version.toInt
    · -- The store refuses the item.
      have hput := hreached.put_eq (a := prepareCompressedItem cfg.store
        (Node.versionedItem key last version))
      rw [hput]
      constructor
      · intro hhighest
        exact .inl ⟨.inr hreached, fun item hitem => hhighest.reached (.inr ⟨item, hitem, rfl⟩)⟩
      · intro hharmless
        have hall : ∀ item ∈ itemsFor ops key, Lww.Reached versionOf held item.version.toInt := by
          obtain ⟨-, hall⟩ | ⟨_, -, _, -, -, hmax⟩ := hharmless
          · exact hall
          · exact fun item hitem => hreached.mono (Int64.le_iff_toInt_le.mp (hmax item hitem))
        refine Lww.isHighest_of_reached (fun e he => .inl (hheld ▸ he)) fun e he => ?_
        obtain hstored | ⟨item, hitem, rfl⟩ := he
        · exact ⟨e, hheld.trans hstored, le_refl _⟩
        · exact hall item hitem
    · -- The store takes it.
      have hput := Lww.put_of_not_reached (a := prepareCompressedItem cfg.store
        (Node.versionedItem key last version)) hreached
      rw [hput]
      constructor
      · rintro ⟨hcandidate, hmax⟩
        obtain hstored | ⟨item, hitem, heq⟩ := hcandidate
        · exact absurd ⟨_, hheld.trans hstored, le_refl _⟩ hreached
        · refine .inr ⟨last, rfl, item, hitem, heq.symm, fun other hother => ?_⟩
          exact Int64.le_iff_toInt_le.mpr (hmax _ (.inr ⟨other, hother, rfl⟩))
      · rintro (⟨hnil | hcontra, -⟩ | ⟨last', hlast', item, hitem, heq, hmax⟩)
        · rw [hnil] at hlastMem
          cases hlastMem
        · exact absurd hcontra hreached
        · cases hlast'
          refine ⟨.inr ⟨item, hitem, heq.symm⟩, fun e he => ?_⟩
          obtain hstored | ⟨other, hother, rfl⟩ := he
          · -- What is stored is older, since the item was taken.
            exact le_of_lt (Lww.Reached.lt ⟨e, hheld.trans hstored, le_refl _⟩ hreached)
          · exact Int64.le_iff_toInt_le.mp (hmax other hother)

/-- A node that holds version `v` of the key `k`. -/
def holding (v : Int64) : Node where
  store := (MemStorage.empty.set oneShard (ascii "k") (some (plainItem v "c"))).1

/-- The entries of the map for a checkpoint with one operation. -/
theorem perm_rangeOf_singleton :
    [(ascii "k", plainItem 3 "a")].Perm
      (rangeOf (checkpointItems [ClockedNode.remoteOp 3 "a"])) := by
  decide

theorem roomForBatch_holding_seven :
    RoomForBatch ClockedNode.solo 10 (holding 7) [(ascii "k", plainItem 3 "a")] := by
  refine ⟨fun x hx => ?_, trivial⟩
  cases hx
  exact HasMemory.roomFor (by unfold HasMemory; decide)

/-- Version 7 is stored and the checkpoint has version 3; after the replay at 10 the old
    value is back, as version 10. -/
theorem old_checkpoint_replaces_newer_value :
    [(ascii "k", plainItem 3 "a")].Perm
        (rangeOf (checkpointItems [ClockedNode.remoteOp 3 "a"])) ∧
      RoomForBatch ClockedNode.solo 10 (holding 7) [(ascii "k", plainItem 3 "a")] ∧
      entry oneShard (start ClockedNode.solo (holding 7) [ClockedNode.remoteOp 3 "a"]
          [(ascii "k", plainItem 3 "a")] 10 fun _ => true).store (ascii "k") =
        some (prepareCompressedItem oneShard (plainItem 10 "a")) ∧
      ¬ HoldsHighest ClockedNode.solo (holding 7) [ClockedNode.remoteOp 3 "a"] (ascii "k")
        (start ClockedNode.solo (holding 7) [ClockedNode.remoteOp 3 "a"]
          [(ascii "k", plainItem 3 "a")] 10 fun _ => true) := by
  have hentry : entry oneShard (start ClockedNode.solo (holding 7) [ClockedNode.remoteOp 3 "a"]
      [(ascii "k", plainItem 3 "a")] 10 fun _ => true).store (ascii "k") =
        some (prepareCompressedItem oneShard (plainItem 10 "a")) := by decide
  refine ⟨perm_rangeOf_singleton, roomForBatch_holding_seven, hentry, fun hhighest => ?_⟩
  unfold HoldsHighest at hhighest
  rw [show ClockedNode.solo.store = oneShard from rfl, hentry] at hhighest
  -- Version 10 is neither the stored one nor that of the checkpoint.
  obtain ⟨hstored | ⟨item, hitem, heq⟩, -⟩ := hhighest
  · revert hstored
    decide
  · revert item
    decide

/-- A checkpoint that is older than the store, replayed by a clock that is behind it. -/
theorem old_checkpoint_refused :
    HoldsHighest ClockedNode.solo (holding 30) [ClockedNode.remoteOp 3 "a"] (ascii "k")
      (start ClockedNode.solo (holding 30) [ClockedNode.remoteOp 3 "a"]
        [(ascii "k", plainItem 3 "a")] 10 fun _ => true) := by
  refine (holdsHighest_start_iff (by decide) (by decide) perm_rangeOf_singleton ?_).mpr ?_
  · refine ⟨fun x hx => ?_, trivial⟩
    cases hx
    exact HasMemory.roomFor (by unfold HasMemory; decide)
  · refine .inl ⟨.inr ⟨_, rfl, by decide⟩, ?_⟩
    intro item hitem
    obtain rfl : item = plainItem 3 "a" := by
      revert item
      decide
    exact ⟨_, rfl, by decide⟩

end Replay

end GridKV
