import GridKV.Model.Recovery
import GridKV.Spec.DecodeBounds

/-!
# Recovery from a damaged checkpoint

`Deserialize` answers a frame it cannot decode with a nil operation.  `applyOps` skips
those; the loop of `replay.Start` follows them.  So a node comes up again exactly if its
checkpoint file is missing, or declares more than it has, or is whole in every frame
(`loads_iff_undamaged`).
-/

namespace GridKV

open Go Endian SyncOpsCodec

namespace Replay

variable {file : Option Bytes} {ops : List (Option SyncOperation)}

/-! ### The loop -/

/-- Without nil operations the loop collects the items of the checkpoint. -/
theorem collectItems_map_some (items : GoMap StoredItem) (ops : List SyncOperation) :
    collectItems items (ops.map some) = .ok (ops.foldl addItem items) := by
  induction ops generalizing items with
  | nil => rfl
  | cons op ops ih =>
    rw [List.map_cons, collectItems]
    exact ih (addItem items op)

/-- A nil operation ends the loop, wherever it stands. -/
theorem collectItems_of_none_mem (h : none ∈ ops) (items : GoMap StoredItem) :
    collectItems items ops = .error .nilDereference := by
  induction ops generalizing items with
  | nil => cases h
  | cons op ops ih =>
    cases op with
    | none => rfl
    | some op =>
      have hrest : none ∈ ops := by simpa using h
      exact ih hrest (addItem items op)

/-- The loading phase hands over the items of `checkpointItems`. -/
theorem loadItems_of_loadCheckpoint {ops : List SyncOperation}
    (h : loadCheckpoint file = .ok (ops.map some)) :
    loadItems file = .ok (checkpointItems ops) := by
  rw [loadItems, h, ok_bind, collectItems_map_some]
  cases ops <;> rfl

theorem loadItems_of_none_mem (h : loadCheckpoint file = .ok ops) (hnil : none ∈ ops) :
    loadItems file = .error .nilDereference := by
  rw [loadItems, h, ok_bind, if_pos (List.length_pos_of_mem hnil), collectItems_of_none_mem hnil]

/-! ### The file -/

/-- The length a checkpoint file starts with. -/
def lengthOf (file : Bytes) : Nat := leNat (file.take 4)

/-- The file has the bytes it declares. -/
def Declared (file : Bytes) : Prop := 4 ≤ file.length ∧ 4 + lengthOf file ≤ file.length

/-- The length does not wrap when four is added to it, and every frame is complete. -/
def Undamaged (file : Bytes) : Prop :=
  lengthOf file + 4 < 2 ^ 32 ∧
    ∀ frame ∈ framesOf ((file.drop 4).take (lengthOf file)), Complete frame

theorem checkpointPayload_of_not_declared {file : Bytes} (h : ¬ Declared file) :
    checkpointPayload file = .ok none := by
  unfold checkpointPayload
  split
  · rfl
  · rename_i hlong
    have hshort : file.length < 4 + lengthOf file := by
      unfold Declared at h
      omega
    rw [slice_bind_leUint file 0 4 _ (by omega)]
    exact if_pos hshort

theorem checkpointPayload_of_declared {file : Bytes} (h : Declared file) :
    checkpointPayload file =
      if lengthOf file + 4 < 2 ^ 32 then .ok (some ((file.drop 4).take (lengthOf file)))
      else .error .indexOutOfRange := by
  obtain ⟨hfour, hdeclared⟩ := h
  have hlt : lengthOf file < 2 ^ 32 := by
    have hbytes := leNat_lt (file.take 4)
    rw [List.length_take_of_le hfour] at hbytes
    exact hbytes
  have hlength : leNat ((file.drop 0).take 4) = lengthOf file := rfl
  rw [checkpointPayload, if_neg (by omega), slice_bind_leUint file 0 4 _ (by omega), hlength,
    if_neg (by omega)]
  split
  · rename_i hfits
    rw [Nat.mod_eq_of_lt (by omega), slice_eq_ok hdeclared]
    rfl
  · -- The end of the slice is before its start.
    rename_i hwraps
    have hend : (4 + lengthOf file) % 2 ^ 32 < 4 := by omega
    rw [slice, if_neg (by omega)]
    rfl

/-- The payload of a file that declares what it has. -/
theorem loadCheckpoint_of_declared {file : Bytes} (h : Declared file)
    (hfits : lengthOf file + 4 < 2 ^ 32) :
    loadCheckpoint (some file) =
      .ok ((framesOf ((file.drop 4).take (lengthOf file))).map decoded) := by
  rw [loadCheckpoint_eq, checkpointPayload_of_declared h, if_pos hfits, ok_bind, Option.map_some,
    Option.getD_some, deserialize_eq_framesOf]

/-- Complete frames are decoded to operations, and only those. -/
theorem map_decoded_of_complete {frames : List Bytes} (h : ∀ frame ∈ frames, Complete frame) :
    frames.map decoded = (frames.map opOf).map some := by
  rw [List.map_map]
  apply List.map_congr_left
  intro frame hmem
  rw [decoded, if_pos (h frame hmem)]
  rfl

/-- **Recovery.**  For every content of the checkpoint file the loading phase of `Start` comes
    to its end exactly if the file is missing, declares more than it has, or is undamaged. -/
theorem loads_iff_undamaged (file : Option Bytes) :
    (∃ items, loadItems file = .ok items) ↔
      ∀ data, file = some data → Declared data → Undamaged data := by
  cases file with
  | none =>
    refine iff_of_true ⟨∅, rfl⟩ ?_
    intro data hdata
    cases hdata
  | some data =>
    have hsome : (∀ data', some data = some data' → Declared data' → Undamaged data') ↔
        (Declared data → Undamaged data) := by simp
    rw [hsome]
    by_cases hdeclared : Declared data
    · rw [forall_prop_of_true hdeclared, Undamaged]
      by_cases hfits : lengthOf data + 4 < 2 ^ 32
      · have hload := loadCheckpoint_of_declared hdeclared hfits
        rw [and_iff_right hfits]
        constructor
        · -- A frame that is not complete is a nil operation.
          rintro ⟨items, hitems⟩ frame hmem
          by_contra hcut
          have hnil : none ∈ (framesOf ((data.drop 4).take (lengthOf data))).map decoded :=
            List.mem_map.mpr ⟨frame, hmem, if_neg hcut⟩
          rw [loadItems_of_none_mem hload hnil] at hitems
          cases hitems
        · intro hcomplete
          rw [map_decoded_of_complete hcomplete] at hload
          exact ⟨_, loadItems_of_loadCheckpoint hload⟩
      · -- The slice expression panics.
        refine iff_of_false ?_ fun h => hfits h.1
        rintro ⟨items, hitems⟩
        rw [loadItems, loadCheckpoint_eq, checkpointPayload_of_declared hdeclared, if_neg hfits]
          at hitems
        cases hitems
    · refine iff_of_true ?_ fun h => absurd h hdeclared
      rw [loadItems, loadCheckpoint_eq, checkpointPayload_of_not_declared hdeclared]
      exact ⟨∅, rfl⟩

/-- One operation of length zero. -/
def emptyFrame : Bytes := leBytes 4 8 ++ (leBytes 4 1 ++ leBytes 4 0)

/-- The node that finds this file does not come up. -/
theorem emptyFrame_ends_start :
    loadItems (some emptyFrame) = .error .nilDereference ∧
      ¬ ∃ items, loadItems (some emptyFrame) = .ok items := by
  have hpanic : loadItems (some emptyFrame) = .error .nilDereference := by rfl
  refine ⟨hpanic, ?_⟩
  rintro ⟨items, hitems⟩
  rw [hpanic] at hitems
  cases hitems

end Replay

end GridKV
