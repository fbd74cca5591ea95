import GridKV.Model.Checkpoint
import GridKV.Spec.SyncOpsWire

/-!
# Crashes while a checkpoint is saved

`SaveCheckpoint` leaves the checkpoint alone until the temporary file is complete and
synced, and then replaces it at once.  So after a crash the file is the old one or the new
one, and it is for `LoadCheckpoint` to read it; that fails for the last four sizes that the
length in front can have, since the end of the data is computed in 32 bits
(`crashAtomic_iff`).
-/

namespace GridKV

open Go Endian Run List

/-- The checkpoint file of some serialised operations. -/
def checkpointFile (data : Bytes) : Bytes := leBytes 4 data.length ++ data

/-! ### Loading -/

/-- A whole file is read, if the end of its data is less than `2 ^ 32`. -/
theorem loadCheckpoint_checkpointFile {data : Bytes} (h : data.length < 2 ^ 32) :
    loadCheckpoint (some (checkpointFile data)) =
      if data.length < 2 ^ 32 - 4 then SyncOpsCodec.deserialize data
      else .error .indexOutOfRange := by
  have hlength : (checkpointFile data).length = 4 + data.length := by simp [checkpointFile]
  have hread : leUint 4 (leBytes 4 data.length) = .ok data.length := by
    rw [leUint_eq_ok (by simp), take_of_length_le (by simp), leNat_leBytes_of_lt h]
  have hfront : slice (checkpointFile data) 0 4 = .ok (leBytes 4 data.length) := by
    have hslice := slice_append [] (leBytes 4 data.length) data
    rwa [nil_append, length_leBytes] at hslice
  have hload : loadCheckpoint (some (checkpointFile data)) =
      (slice (checkpointFile data) 4 ((4 + data.length) % 2 ^ 32) >>=
        SyncOpsCodec.deserialize) := by
    simp only [loadCheckpoint]
    rw [if_neg (by omega), hfront, ok_bind, hread, ok_bind, if_neg (by omega)]
  rw [hload]
  split
  · rename_i hfits
    have hslice := slice_append (leBytes 4 data.length) data []
    rw [append_nil, length_leBytes] at hslice
    rw [Nat.mod_eq_of_lt (by omega)]
    exact congrArg (· >>= SyncOpsCodec.deserialize) hslice
  · -- The end of the slice has wrapped around and lies before its start.
    rename_i hlong
    rw [slice, if_neg (by omega)]
    rfl

/-! ### Saving -/

/-- What the files of the old checkpoint hold, if there is one. -/
def restored : Option Bytes → Exec (List (Option SyncOperation))
  | none => .ok []
  | some data => SyncOpsCodec.deserialize data

namespace Saving

/-- The disk before a call: the old checkpoint, if there is one, and anything at `tmpPath`. -/
def start (old : Option Bytes) (tmp : Option File) : Saving where
  disk := { checkpoint := old.map fun data => ⟨checkpointFile data, true⟩, tmp }

/-- What `LoadCheckpoint` returns on a disk. -/
def loaded (disk : Disk) : Exec (List (Option SyncOperation)) :=
  loadCheckpoint (disk.checkpoint.map File.contents)

/-- After a crash at any point of a call, the old operations are loaded or the new ones; and
    the new ones if the call had returned nil. -/
def CrashAtomic (ops : List (Option SyncOperation)) (old : Option Bytes) (new : Bytes) : Prop :=
  ∀ (tmp : Option File) (results : List CallResult) (s : Saving) (after : Disk),
    Runs (saveCheckpoint ops) (start old tmp) results s → s.disk.Survives after →
    (loaded after = restored old ∨ loaded after = SyncOpsCodec.deserialize new) ∧
      (s.phase = .returned true → loaded after = SyncOpsCodec.deserialize new)

/-- What is in the checkpoint in each phase. -/
def checkpointIn (old : Option Bytes) (new : Bytes) : SavePhase → Option File
  | .returned true => some ⟨checkpointFile new, true⟩
  | _ => old.map fun data => ⟨checkpointFile data, true⟩

/-- How far the temporary file has come in each phase. -/
def TmpWritten (new : Bytes) : SavePhase → Option File → Prop
  | .mkdirAll data, _ => data = new
  | .create data, _ => data = new
  | .writeLength data, tmp => data = new ∧ tmp.map File.contents = some []
  | .writeData data, tmp =>
    data = new ∧ tmp.map File.contents = some (leBytes 4 new.length)
  | .sync, tmp => tmp.map File.contents = some (checkpointFile new)
  | .close, tmp => tmp = some ⟨checkpointFile new, true⟩
  | .rename, tmp => tmp = some ⟨checkpointFile new, true⟩
  | _, _ => True

/-- Whatever the phase, the checkpoint is that of the old operations or of the new ones. -/
theorem checkpointIn_cases (old : Option Bytes) (new : Bytes) (phase : SavePhase) :
    phase = .returned true ∧
        checkpointIn old new phase = (some new).map (fun data => ⟨checkpointFile data, true⟩) ∨
      phase ≠ .returned true ∧
        checkpointIn old new phase = old.map fun data => ⟨checkpointFile data, true⟩ := by
  unfold checkpointIn
  split <;> simp_all

structure Progress (old : Option Bytes) (new : Bytes) (s : Saving) : Prop where
  checkpoint_eq : s.disk.checkpoint = checkpointIn old new s.phase
  tmpWritten : TmpWritten new s.phase s.disk.tmp

variable {ops : List (Option SyncOperation)} {old : Option Bytes} {new : Bytes} {s t : Saving}
  {res : CallResult}

theorem contents_writeTmp {disk : Disk} {contents : Bytes} (data : Bytes)
    (h : disk.tmp.map File.contents = some contents) :
    (disk.writeTmp data).tmp.map File.contents = some (contents ++ data) := by
  obtain ⟨f, hf, rfl⟩ := Option.map_eq_some_iff.mp h
  simp [Disk.writeTmp, hf]

theorem tmp_syncTmp {disk : Disk} {contents : Bytes}
    (h : disk.tmp.map File.contents = some contents) :
    disk.syncTmp.tmp = some ⟨contents, true⟩ := by
  obtain ⟨f, hf, rfl⟩ := Option.map_eq_some_iff.mp h
  simp [Disk.syncTmp, hf]

@[simp] theorem checkpoint_removeTmp (disk : Disk) (removed : Bool) :
    (disk.removeTmp removed).checkpoint = disk.checkpoint := by
  unfold Disk.removeTmp
  split <;> rfl

/-- Each system call brings the temporary file one step further, and only the last one
    touches the checkpoint. -/
theorem Progress.step (hne : ops ≠ []) (hserialize : SyncOpsCodec.serialize ops = .ok new)
    (h : Progress old new s) (hstep : saveCheckpoint ops s res = some t) : Progress old new t := by
  obtain ⟨disk, phase⟩ := s
  obtain ⟨hold, htmp⟩ := h
  cases phase
  case serialize =>
    have hlength : ops.length ≠ 0 := fun h => hne (eq_nil_of_length_eq_zero h)
    simp only [saveCheckpoint, if_neg hlength, hserialize, Option.some.injEq] at hstep
    subst hstep
    exact ⟨hold, rfl⟩
  case returned => exact nomatch hstep
  all_goals
    simp only [saveCheckpoint] at hstep
    split at hstep <;> cases hstep
  case mkdirAll.isTrue | close.isTrue => exact ⟨hold, htmp⟩
  case create.isTrue => exact ⟨hold, htmp, rfl⟩
  case writeLength.isTrue =>
    obtain ⟨rfl, hcontents⟩ := htmp
    exact ⟨hold, rfl, contents_writeTmp _ hcontents⟩
  case writeData.isTrue =>
    obtain ⟨rfl, hcontents⟩ := htmp
    exact ⟨hold, contents_writeTmp _ hcontents⟩
  case sync.isTrue => exact ⟨hold, tmp_syncTmp htmp⟩
  case rename.isTrue => exact ⟨htmp, trivial⟩
  -- A call that fails leaves the checkpoint alone.
  case mkdirAll.isFalse | create.isFalse | rename.isFalse => exact ⟨hold, trivial⟩
  all_goals exact ⟨(checkpoint_removeTmp ..).trans hold, trivial⟩

theorem progress_of_run {tmp : Option File} {results : List CallResult} (hne : ops ≠ [])
    (hserialize : SyncOpsCodec.serialize ops = .ok new)
    (hrun : Runs (saveCheckpoint ops) (start old tmp) results s) : Progress old new s :=
  hrun.invariant (fun _ _ _ h _ hstep => h.step hne hserialize hstep) ⟨rfl, trivial⟩

/-- The checkpoint of some operations, which is always synced, survives as it is. -/
theorem loaded_of_survives {disk after : Disk} (h : disk.Survives after) {data : Option Bytes}
    (hcheckpoint : disk.checkpoint = data.map fun data => ⟨checkpointFile data, true⟩) :
    loaded after = loadCheckpoint (data.map checkpointFile) := by
  have hsurvives := h.1
  rw [hcheckpoint] at hsurvives
  unfold loaded
  cases data with
  | none =>
    have hnone : after.checkpoint = none := hsurvives
    rw [hnone]
    rfl
  | some data =>
    have hsame : after.checkpoint.map File.contents = some (checkpointFile data) := hsurvives rfl
    rw [hsame]
    rfl

/-- Nothing needs to change in a crash. -/
theorem survives_self (old : Option Bytes) (tmp : Option File) :
    (start old tmp).disk.Survives (start old tmp).disk := by
  have hfile : ∀ file : Option File, Disk.FileSurvives file file := by
    intro file
    cases file with
    | none => rfl
    | some file => exact fun _ => rfl
  exact ⟨hfile _, hfile _⟩

/-- `Deserialize` never panics, so what is loaded is what it returns only if the file can be
    loaded. -/
theorem lt_of_loaded_eq {data other : Bytes} (hdata : data.length < 2 ^ 32)
    (h : loadCheckpoint (some (checkpointFile data)) = SyncOpsCodec.deserialize other) :
    data.length < 2 ^ 32 - 4 := by
  rw [loadCheckpoint_checkpointFile hdata, SyncOpsCodec.deserialize_eq other] at h
  by_contra hlong
  rw [if_neg hlong] at h
  exact nomatch h

theorem loaded_old {old : Option Bytes} (hold : ∀ data ∈ old, data.length < 2 ^ 32 - 4) :
    loadCheckpoint (old.map checkpointFile) = restored old := by
  cases old with
  | none => rfl
  | some data =>
    have hfits := hold data rfl
    rw [Option.map_some, loadCheckpoint_checkpointFile (by omega), if_pos hfits]
    rfl

/-- If every system call succeeds, the checkpoint is replaced. -/
theorem runs_all_ok (hne : ops ≠ []) (hserialize : SyncOpsCodec.serialize ops = .ok new) :
    Runs (saveCheckpoint ops) (start old none) [{}, {}, {}, {}, {}, {}, {}, {}]
      { start (some new) none with phase := .returned true } := by
  have hlength : ops.length ≠ 0 := fun h => hne (eq_nil_of_length_eq_zero h)
  have hfirst : saveCheckpoint ops (start old none) {} =
      some { start old none with phase := .mkdirAll new } := by
    simp only [saveCheckpoint, start, if_neg hlength, hserialize]
  exact .cons trivial hfirst (.cons trivial rfl (.cons trivial rfl (.cons trivial rfl
    (.cons trivial rfl (.cons trivial rfl (.cons trivial rfl (.cons trivial rfl (.nil _))))))))

/-- **Crash atomicity.**  For every previous checkpoint and every new one, whose sizes fit the
    length in front: each crash leaves one of the two to be loaded, the new one once the call
    has returned nil, iff the end of the data fits 32 bits as well. -/
theorem crashAtomic_iff (hne : ops ≠ []) (hserialize : SyncOpsCodec.serialize ops = .ok new)
    (hnew : new.length < 2 ^ 32) (hold : ∀ data ∈ old, data.length < 2 ^ 32) :
    CrashAtomic ops old new ↔
      new.length < 2 ^ 32 - 4 ∧ ∀ data ∈ old, data.length < 2 ^ 32 - 4 := by
  constructor
  · intro h
    constructor
    · have hload :=
        (h none _ _ _ (runs_all_ok hne hserialize) (survives_self (some new) none)).2 rfl
      exact lt_of_loaded_eq hnew hload
    · rintro data rfl
      have hload := (h none [] _ _ (.nil _) (survives_self (some data) none)).1
      exact hload.elim (lt_of_loaded_eq (hold data rfl)) (lt_of_loaded_eq (hold data rfl))
  · rintro ⟨hnew', hold'⟩ tmp results s after hrun hsurvives
    have hprogress := (progress_of_run hne hserialize hrun).checkpoint_eq
    have hload : loadCheckpoint (some (checkpointFile new)) = SyncOpsCodec.deserialize new := by
      rw [loadCheckpoint_checkpointFile hnew, if_pos hnew']
    obtain ⟨hphase, hfile⟩ | ⟨hphase, hfile⟩ := checkpointIn_cases old new s.phase
    · have hloaded : loaded after = SyncOpsCodec.deserialize new :=
        (loaded_of_survives hsurvives (hprogress.trans hfile)).trans hload
      exact ⟨.inr hloaded, fun _ => hloaded⟩
    · have hloaded : loaded after = restored old :=
        (loaded_of_survives hsurvives (hprogress.trans hfile)).trans (loaded_old hold')
      exact ⟨.inl hloaded, fun hreturned => absurd hreturned hphase⟩

/-- An operation with a value of `n` bytes and no key. -/
def bulkOp (n : Nat) : SyncOperation where
  key := []
  opType := .set
  item := some { version := 1, expireAt := zeroTime, value := replicate n 0, key := [] }

/-- What a batch of one such operation is serialised to. -/
def bulkData (n : Nat) : Bytes :=
  let frame := SyncOpsCodec.encodeOpStreaming (bulkOp n)
    { version := 1, expireAt := zeroTime, value := replicate n 0, key := [] }
  leBytes 4 1 ++ (leBytes 4 frame.length ++ frame)

theorem serialize_bulkOp (n : Nat) :
    SyncOpsCodec.serialize [some (bulkOp n)] = .ok (bulkData n) := by
  have hserialize := SyncOpsCodec.serialize_eq [bulkOp n]
  simpa [SyncOpsCodec.frames, bulkOp, bulkData] using hserialize

theorem length_bulkData (n : Nat) : (bulkData n).length = n + 31 := by
  simp only [bulkData, length_append, length_leBytes,
    SyncOpsCodec.length_encodeOpStreaming, bulkOp, length_nil, length_replicate]
  omega

/-- One small batch after another. -/
theorem small_checkpoints_crashAtomic :
    CrashAtomic [some (bulkOp 5)] (some (bulkData 3)) (bulkData 5) := by
  refine (crashAtomic_iff (by simp) (serialize_bulkOp 5) ?_ ?_).mpr ⟨?_, ?_⟩
  · rw [length_bulkData]
    decide
  · rintro data ⟨⟩
    rw [length_bulkData]
    decide
  · rw [length_bulkData]
    decide
  · rintro data ⟨⟩
    rw [length_bulkData]
    decide

/-- A value of `2 ^ 32 - 35` bytes is serialised to `2 ^ 32 - 4`; it is saved, and loading it
    panics. -/
theorem long_checkpoint_not_loaded :
    ¬ ∀ (ops : List (Option SyncOperation)) (old : Option Bytes) (new : Bytes), ops ≠ [] →
      SyncOpsCodec.serialize ops = .ok new → new.length < 2 ^ 32 →
      (∀ data ∈ old, data.length < 2 ^ 32) → CrashAtomic ops old new := by
  intro hall
  have hlength := length_bulkData (2 ^ 32 - 35)
  have hatomic := hall [some (bulkOp (2 ^ 32 - 35))] none _ (by simp) (serialize_bulkOp _)
    (by rw [hlength]; decide) (fun _ h => nomatch h)
  have hload := (hatomic none _ _ _ (runs_all_ok (by simp) (serialize_bulkOp _))
    (survives_self (some _) none)).2 rfl
  have hlt := lt_of_loaded_eq (by rw [hlength]; decide) hload
  rw [hlength] at hlt
  exact absurd hlt (by decide)

end Saving

end GridKV
