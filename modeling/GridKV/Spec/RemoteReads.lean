import GridKV.Spec.ReadBack
import GridKV.Spec.StoreLww

/-!
# What a remote read returns

The answer to a read request is written by one closure and taken apart by another.  The item
a store hands out carries no key, so the answer starts with an empty one and every field
stands at a fixed offset; an answer that is sent at all is 23 bytes longer than its value and
is never taken for a bare value of the old format.  The value length is sent in 32 bits, so a
longer value comes back cut.
-/

namespace GridKV

open Go Endian

namespace Reader

variable {cfg : StoreConfig} {remoteNow : Time} {s : MemStorage} {key : GoString}
  {item : StoredItem}

/-! ### The answer of the handler -/

/-- `createGetFunc` takes the answer for a bare value: it is too short for the fields that
    follow a key of the announced length. -/
def TakenForValue (data : Bytes) : Prop :=
  2 ≤ data.length ∧ 2 + leNat (data.take 2) + 8 + 1 + 8 + 4 > data.length

/-- The handler finds nothing to send: no item, a tombstone or an empty value. -/
def NothingToSend (cfg : StoreConfig) (remoteNow : Time) (s : MemStorage) (key : GoString) :
    Prop :=
  ∀ item, (s.get cfg remoteNow key).2 = .ok item → item.isTombstone ∨ item.value = []

/-- A store does not put the key into the items it hands out. -/
theorem key_of_get_eq_ok (h : (s.get cfg remoteNow key).2 = .ok item) : item.key = [] := by
  simp only [MemStorage.get, MemStorage.getNoCopy] at h
  split at h
  · cases h
  · split at h
    · cases h
    · split at h
      · cases h
      · split at h <;> cases h
        rfl

theorem handleReadRequest_of_ok (hkey : key ≠ []) (h : (s.get cfg remoteNow key).2 = .ok item) :
    (handleReadRequest cfg remoteNow s key).2 = encodeReadResponse item := by
  simp only [handleReadRequest, List.length_eq_zero_iff, if_neg hkey]
  split <;> rename_i hget
  · rw [hget] at h
    cases h
    rfl
  · rw [hget] at h
    cases h

theorem handleReadRequest_of_nothingToSend (h : NothingToSend cfg remoteNow s key) :
    (handleReadRequest cfg remoteNow s key).2 = [] := by
  unfold handleReadRequest
  split
  · rfl
  · split <;> rename_i hget
    · have hitem := h _ (congrArg Prod.snd hget)
      simp only [encodeReadResponse, List.length_eq_zero_iff, if_pos hitem]
    · rfl

/-- Everything else has a value. -/
theorem exists_value_of_not_nothingToSend (h : ¬ NothingToSend cfg remoteNow s key) :
    ∃ item, (s.get cfg remoteNow key).2 = .ok item ∧ item.value ≠ [] := by
  unfold NothingToSend at h
  push Not at h
  obtain ⟨item, hget, -, hvalue⟩ := h
  exact ⟨item, hget, hvalue⟩

/-! ### The answer taken apart -/

/-- An answer with a value is long enough for all its fields. -/
theorem not_takenForValue_encodeReadResponse (hkey : item.key = []) (hvalue : item.value ≠ []) :
    ¬ TakenForValue (encodeReadResponse item) := by
  rintro ⟨-, hshort⟩
  rw [encodeReadResponse_of_value hkey hvalue, List.take_left' (length_leBytes 2 0)] at hshort
  have hkeyLen : leNat (leBytes 2 0) = 0 := rfl
  simp only [hkeyLen, List.length_append, List.length_cons, length_leBytes] at hshort
  omega

/-- An answer with a value decodes to some item, whatever its length and expiry. -/
theorem exists_decodeReadResponse_encodeReadResponse (hkey : item.key = [])
    (hvalue : item.value ≠ []) (now : Time) (key : GoString) :
    ∃ got, decodeReadResponse now key (encodeReadResponse item) = some (some got) := by
  have hle : leNat (leBytes 4 item.value.length) ≤ item.value.length := by
    rw [leNat_leBytes]
    exact Nat.mod_le ..
  rw [encodeReadResponse_of_value hkey hvalue, decodeReadResponse_fields now key item.value
    (length_leBytes ..) (length_leBytes ..) (length_leBytes ..), if_neg (by omega)]
  exact ⟨_, rfl⟩

/-- **Remote reads.**  The fallback is never taken; the read finds nothing, without an error,
    exactly when there was nothing to send; and a value comes back under the requested key with
    its version and expiry. -/
theorem remoteGet_returns_stored (cfg : StoreConfig) (remoteNow now : Time) (s : MemStorage)
    (key : GoString) (hkey : key ≠ []) :
    ¬ TakenForValue (handleReadRequest cfg remoteNow s key).2 ∧
    (remoteGet cfg remoteNow now s key = some none ↔ NothingToSend cfg remoteNow s key) ∧
    (¬ NothingToSend cfg remoteNow s key →
      ∃ item, (s.get cfg remoteNow key).2 = .ok item ∧
        (item.value.length < 2 ^ 32 - 23 → WireExpiry item.expireAt →
          remoteGet cfg remoteNow now s key = some (some
            { version := item.version, expireAt := item.expireAt, value := item.value,
              key }))) := by
  by_cases hnothing : NothingToSend cfg remoteNow s key
  · have hanswer := handleReadRequest_of_nothingToSend hnothing
    refine ⟨?_, ?_, fun h => absurd hnothing h⟩
    · rw [hanswer]
      rintro ⟨hlen, -⟩
      exact absurd hlen (by decide)
    · rw [remoteGet, hanswer]
      exact iff_of_true rfl hnothing
  · obtain ⟨item, hget, hvalue⟩ := exists_value_of_not_nothingToSend hnothing
    have hanswer := handleReadRequest_of_ok hkey hget
    have hitemKey := key_of_get_eq_ok hget
    refine ⟨?_, ?_, fun _ => ⟨item, hget, fun hlen hexpiry => ?_⟩⟩
    · rw [hanswer]
      exact not_takenForValue_encodeReadResponse hitemKey hvalue
    · obtain ⟨got, hgot⟩ := exists_decodeReadResponse_encodeReadResponse hitemKey hvalue now key
      rw [remoteGet, hanswer, hgot]
      exact iff_of_false (by simp) hnothing
    · rw [remoteGet, hanswer]
      exact decodeReadResponse_encodeReadResponse hitemKey hvalue (by omega) hexpiry

/-- A store with one value. -/
def oneValue : MemStorage :=
  (MemStorage.empty.set (MemStorage.unlimited shortInputLZ4) (ascii "k")
    (some ⟨7, 9, ascii "value", ascii "k"⟩)).1

theorem get_oneValue : (oneValue.get (MemStorage.unlimited shortInputLZ4) 5 (ascii "k")).2 =
    .ok ⟨7, 9, ascii "value", []⟩ :=
  MemStorage.get_set_empty_of_fits shortInputLZ4_lawful (MemStorage.set_unlimited _ _)
    (.inr (by decide)) (fun _ => by decide)

/-- The value asked for from another node. -/
theorem remoteGet_returns_oneValue :
    remoteGet (MemStorage.unlimited shortInputLZ4) 5 3 oneValue (ascii "k") =
      some (some ⟨7, 9, ascii "value", ascii "k"⟩) := by
  obtain ⟨-, -, hvalue⟩ := remoteGet_returns_stored (MemStorage.unlimited shortInputLZ4) 5 3
    oneValue (ascii "k") (by decide)
  have hsends : ¬ NothingToSend (MemStorage.unlimited shortInputLZ4) 5 oneValue (ascii "k") :=
    fun hnothing => (hnothing _ get_oneValue).elim (by decide) (by decide)
  obtain ⟨item, hitem, hremote⟩ := hvalue hsends
  cases get_oneValue.symm.trans hitem
  exact hremote (by decide) (.inr (by decide))

end Reader

end GridKV
