import GridKV.Model.MessageBuffers
import GridKV.Spec.MessageRoundTrip

/-!
# Does encoding leak what other messages left behind?

A payload that is offered to the compressor gets a buffer sized for the compressor.  If the
block is used, the result is cut to it; if it is not, the payload is copied into the buffer
and the whole buffer is returned, with whatever stood behind the payload: bytes LZ4 has tried
out and, after them, bytes of an earlier message from the pool.
-/

namespace GridKV

open Go Endian List

namespace TieredBufferPool

variable {lz4 : LZ4Writer} {p : TieredBufferPool} {pick total : Nat} {msg : Message}

/-! ### The work buffer -/

theorem length_acquire : (p.acquire pick total).buf.length = total := by
  unfold acquire
  dsimp only
  split
  · rename_i h
    exact length_take_of_le h.1
  · exact length_replicate

/-- The work buffer as room for the header and room for the payload. -/
theorem exists_acquire_eq_append (p : TieredBufferPool) (pick n : Nat) :
    ∃ start field, (p.acquire pick (22 + n)).buf = start ++ field ∧ start.length = 22 ∧
      field.length = n := by
  have hlength : (p.acquire pick (22 + n)).buf.length = 22 + n := length_acquire
  refine ⟨_, _, (take_append_drop 22 _).symm, ?_, ?_⟩
  · rw [length_take]
    omega
  · rw [length_drop]
    omega

@[simp] theorem release_snd (w : WorkBuffer) (buf : Bytes) :
    (release w buf total).2 = buf.take total := by
  unfold release
  split <;> rfl

/-! ### The bytes returned -/

/-- The buffer after the attempt to compress. -/
def tried (lz4 : LZ4Writer) (p : TieredBufferPool) (pick : Nat) (msg : Message) : Bytes :=
  let boundSize := lz4.compressBlockBound msg.data.length
  copyAt (p.acquire pick (22 + boundSize)).buf 22 (lz4.leaves msg.data boundSize)

theorem exists_tried_eq_append (lz4 : LZ4Writer) (p : TieredBufferPool) (pick : Nat)
    (msg : Message) :
    ∃ start field, tried lz4 p pick msg = start ++ field ∧ start.length = 22 ∧
      field.length = lz4.compressBlockBound msg.data.length ∧
      lz4.leaves msg.data (lz4.compressBlockBound msg.data.length) <+: field := by
  obtain ⟨start, field, hbuf, hstart, hfield⟩ :=
    exists_acquire_eq_append p pick (lz4.compressBlockBound msg.data.length)
  have hleft : (lz4.leaves msg.data (lz4.compressBlockBound msg.data.length)).length ≤
      field.length := by
    rw [hfield]
    exact lz4.leaves_le _ _
  have hcopy := copyAt_append start hleft
  rw [hstart] at hcopy
  refine ⟨start, _, by rw [tried, hbuf, hcopy], hstart, ?_, prefix_append _ _⟩
  rw [length_append, length_drop]
  omega

/-- A block in place of the payload: the result ends with the block. -/
theorem encodeMessage_snd_block (hplain : msg.compressed = false) {block : Bytes}
    (hwire : wireBlock lz4.toLZ4 msg = some block) :
    (p.encodeMessage lz4 pick msg).2 =
      messageHeader msg msgFlagCompressed block.length ++ block := by
  obtain ⟨hblock, hlong, -, -⟩ := (wireBlock_eq_some_iff hplain).mp hwire
  obtain ⟨start, field, htried, hstart, -, hleaves⟩ := exists_tried_eq_append lz4 p pick msg
  obtain ⟨rest, rfl⟩ := (lz4.block_prefix hblock).trans hleaves
  have hcompress : ¬msg.compressed ∧ msg.data.length > networkCompressThreshold := by
    simp [hplain, hlong]
  simp only [tried] at htried
  simp only [TieredBufferPool.encodeMessage, if_pos hcompress, hwire, release_snd, htried]
  rw [copyAt_zero (by simp [hstart]), ← append_assoc]
  exact take_left' (by simp)

/-- A payload that was offered to the compressor in vain: the result is the whole buffer. -/
theorem encodeMessage_snd_tried
    (hcompress : ¬msg.compressed ∧ msg.data.length > networkCompressThreshold)
    (hwire : wireBlock lz4.toLZ4 msg = none)
    (hbound : msg.data.length ≤ lz4.compressBlockBound msg.data.length) :
    (p.encodeMessage lz4 pick msg).2 = messageHeader msg 0 msg.data.length ++
      (msg.data ++ (tried lz4 p pick msg).drop (22 + msg.data.length)) := by
  obtain ⟨start, field, htried, hstart, hfield, -⟩ := exists_tried_eq_append lz4 p pick msg
  have hcopy := copyAt_append start (hfield ▸ hbound)
  have hrest : (start ++ field).drop (22 + msg.data.length) = field.drop msg.data.length := by
    rw [← hstart, ← drop_drop, drop_left]
  rw [htried, hrest]
  simp only [tried] at htried
  rw [hstart] at hcopy
  simp only [TieredBufferPool.encodeMessage, if_pos hcompress, hwire, release_snd, htried, hcopy]
  rw [copyAt_zero (by simp [hstart]), take_of_length_le]
  simp only [length_append, length_messageHeader, length_drop]
  omega

/-- A payload that is not offered to the compressor. -/
theorem encodeMessage_snd_short
    (hcompress : ¬(¬msg.compressed ∧ msg.data.length > networkCompressThreshold)) :
    (p.encodeMessage lz4 pick msg).2 = messageHeader msg
      (if msg.compressed then msgFlagCompressed else 0) msg.data.length ++ msg.data := by
  obtain ⟨start, field, hbuf, hstart, hfield⟩ :=
    exists_acquire_eq_append p pick msg.data.length
  have hcopy := copyAt_append (messageHeader msg
    (if msg.compressed then msgFlagCompressed else 0) msg.data.length) (Nat.le_of_eq hfield.symm)
  rw [length_messageHeader, drop_of_length_le (Nat.le_of_eq hfield), append_nil]
    at hcopy
  simp only [TieredBufferPool.encodeMessage, if_neg hcompress, release_snd, hbuf]
  rw [copyAt_zero (by simp [hstart]), hcopy, take_of_length_le (by simp)]

/-- The bytes from an index on. -/
theorem drop_eq_map_range (data : Bytes) (n : Nat) :
    data.drop n = (range (data.length - n)).map fun i => (data[n + i]?).getD 0 := by
  apply ext_getElem
  · simp
  · intro i hi _
    rw [length_drop] at hi
    simp only [getElem_drop, getElem_map, getElem_range]
    rw [getElem?_eq_getElem (by omega), Option.getD_some]

/-- The result is what the other model of `encodeMessage` says, where the bytes that show
    through are those of the buffer. -/
theorem encodeMessage_snd (hbound : msg.data.length ≤ lz4.compressBlockBound msg.data.length) :
    (p.encodeMessage lz4 pick msg).2 =
      GridKV.encodeMessage lz4.toLZ4 (fun i => ((tried lz4 p pick msg)[i]?).getD 0) msg := by
  by_cases hcompress : ¬msg.compressed ∧ msg.data.length > networkCompressThreshold
  · have hplain : msg.compressed = false := by simpa using hcompress.1
    rw [GridKV.encodeMessage, if_pos hcompress]
    cases hwire : wireBlock lz4.toLZ4 msg with
    | some block => exact encodeMessage_snd_block hplain hwire
    | none =>
      obtain ⟨start, field, htried, hstart, hfield, -⟩ := exists_tried_eq_append lz4 p pick msg
      have hlength : (tried lz4 p pick msg).length - (22 + msg.data.length) =
          lz4.compressBlockBound msg.data.length - msg.data.length := by
        rw [htried, length_append]
        omega
      rw [encodeMessage_snd_tried hcompress hwire hbound, drop_eq_map_range, hlength]
      dsimp only
      rw [take_of_length_le hbound, append_assoc]
  · rw [encodeMessage_snd_short hcompress, GridKV.encodeMessage, if_neg hcompress]

/-! ### Leaks -/

/-- The payload length in the header of an encoded message. -/
def recordedLength (encoded : Bytes) : Nat := beNat ((encoded.drop 18).take 4)

theorem recordedLength_messageHeader (flags : UInt8) (length : Nat) (rest : Bytes) :
    recordedLength (messageHeader msg flags length ++ rest) = length % 2 ^ 32 := by
  have hfields : messageHeader msg flags length ++ rest =
      ([msg.type, flags] ++ beBytes 8 msg.id.toNat ++ beBytes 8 msg.timestamp.toUInt64.toNat) ++
        (beBytes 4 length ++ rest) := by
    simp [messageHeader]
  rw [recordedLength, hfields, drop_left' (by simp), take_left' (by simp),
    beNat_beBytes]
  rfl

/-- Whatever the pool contains, the message is encoded to the same bytes, and these are the
    header and as much payload as the header says. -/
def LeaksNothing (lz4 : LZ4Writer) (msg : Message) : Prop :=
  ∀ (p p' : TieredBufferPool) (pick pick' : Nat),
    (p.encodeMessage lz4 pick msg).2 = (p'.encodeMessage lz4 pick' msg).2 ∧
      (p.encodeMessage lz4 pick msg).2.length =
        22 + recordedLength (p.encodeMessage lz4 pick msg).2

/-- LZ4 makes the payload shorter by more than a tenth, and the block is not longer than a
    32-bit length can say. -/
def Compressible (lz4 : LZ4Writer) (data : Bytes) : Prop :=
  ∃ block, lz4.compressBlock data (lz4.compressBlockBound data.length) = some block ∧
    block ≠ [] ∧ block.length < data.length * 90 / 100 ∧ block.length < 2 ^ 32

/-- A short payload is copied behind the header, and nothing else. -/
theorem leaksNothing_of_short (hshort : msg.data.length ≤ networkCompressThreshold) :
    LeaksNothing lz4 msg := by
  intro p p' pick pick'
  have hcompress : ¬(¬msg.compressed ∧ msg.data.length > networkCompressThreshold) :=
    fun h => absurd h.2 (Nat.not_lt.mpr hshort)
  have hlt : msg.data.length < 2 ^ 32 := by
    simp only [networkCompressThreshold] at hshort
    omega
  simp only [encodeMessage_snd_short hcompress, true_and]
  rw [recordedLength_messageHeader, Nat.mod_eq_of_lt hlt, length_append,
    length_messageHeader]

/-- After an attempt to compress that does not pay, the buffer is longer than the payload, and
    the header does not say so. -/
theorem not_leaksNothing_of_tried (hbound : ∀ n, n < lz4.compressBlockBound n)
    (hcompress : ¬msg.compressed ∧ msg.data.length > networkCompressThreshold)
    (hwire : wireBlock lz4.toLZ4 msg = none) : ¬LeaksNothing lz4 msg := by
  intro h
  have hlength := (h {} {} 0 0).2
  rw [encodeMessage_snd_tried hcompress hwire (Nat.le_of_lt (hbound _)),
    recordedLength_messageHeader] at hlength
  obtain ⟨start, field, htried, hstart, hfield, -⟩ := exists_tried_eq_append lz4 {} 0 msg
  have hgrows := hbound msg.data.length
  have hmod := Nat.mod_le msg.data.length (2 ^ 32)
  simp only [length_append, length_messageHeader, htried, length_drop] at hlength
  omega

/-- A block is all that follows the header, which has room for its length modulo 2^32. -/
theorem leaksNothing_iff_of_block (hplain : msg.compressed = false) {block : Bytes}
    (hwire : wireBlock lz4.toLZ4 msg = some block) :
    LeaksNothing lz4 msg ↔ block.length < 2 ^ 32 := by
  simp only [LeaksNothing, encodeMessage_snd_block hplain hwire,
    recordedLength_messageHeader, length_append, length_messageHeader]
  constructor
  · intro h
    have hmod := (h {} {} 0 0).2
    have hlt := Nat.mod_lt block.length (Nat.two_pow_pos 32)
    omega
  · intro hlt p p' pick pick'
    exact ⟨trivial, by rw [Nat.mod_eq_of_lt hlt]⟩

/-- **Leaks.**  Encoding a message leaks nothing exactly when the payload is short enough not
    to be offered to the compressor, or is compressible. -/
theorem leaksNothing_iff (hbound : ∀ n, n < lz4.compressBlockBound n)
    (hplain : msg.compressed = false) :
    LeaksNothing lz4 msg ↔
      msg.data.length ≤ networkCompressThreshold ∨ Compressible lz4 msg.data := by
  by_cases hshort : msg.data.length ≤ networkCompressThreshold
  · exact iff_of_true (leaksNothing_of_short hshort) (.inl hshort)
  have hcompress : ¬msg.compressed ∧ msg.data.length > networkCompressThreshold := by
    simp [hplain, Nat.not_le.mp hshort]
  rw [or_iff_right hshort]
  cases hwire : wireBlock lz4.toLZ4 msg with
  | none =>
    refine iff_of_false (not_leaksNothing_of_tried hbound hcompress hwire) ?_
    rintro ⟨block, hblock, hne, hless, -⟩
    rw [(wireBlock_eq_some_iff hplain).mpr ⟨hblock, hcompress.2, hne, hless⟩] at hwire
    cases hwire
  | some block =>
    obtain ⟨hblock, -, hne, hless⟩ := (wireBlock_eq_some_iff hplain).mp hwire
    rw [leaksNothing_iff_of_block hplain hwire]
    constructor
    · intro hlt
      exact ⟨block, hblock, hne, hless, hlt⟩
    · rintro ⟨block', hblock', -, -, hlt⟩
      obtain rfl : block = block' := Option.some.inj (hblock.symm.trans hblock')
      exact hlt

/-! ### A message with bytes of another one -/

/-- 257 bytes without repetitions that LZ4 could use. -/
def countedBytes : Bytes := (range 257).map UInt8.ofNat

/-- What LZ4 makes of `countedBytes`: two bytes that announce 257 literals, and these. -/
def countedBlock : Bytes := [0xF0, 0xF2] ++ countedBytes

theorem length_countedBlock : countedBlock.length = 259 := by
  simp [countedBlock, countedBytes]

/-- LZ4 as it behaves on `countedBytes`; on other inputs it gives up at once. -/
def countedLZ4 : LZ4Writer where
  compressBlockBound n := n + n / 255 + 16
  compressBlock src n := if src = countedBytes ∧ 259 ≤ n then some countedBlock else none
  uncompressBlock src n := if src = countedBlock ∧ 257 ≤ n then some countedBytes else none
  leaves src n := if src = countedBytes ∧ 259 ≤ n then countedBlock else []
  leaves_le src n := by
    split
    · rename_i h
      rw [length_countedBlock]
      exact h.2
    · exact Nat.zero_le _
  block_prefix {src block n} h := by
    split at h
    · rename_i hsrc
      rw [if_pos hsrc, Option.some.inj h]
    · exact nomatch h

theorem lt_compressBlockBound_countedLZ4 (n : Nat) : n < countedLZ4.compressBlockBound n := by
  show n < n + n / 255 + 16
  omega

/-- A short request. -/
theorem short_message_leaks_nothing :
    LeaksNothing countedLZ4
        { type := MessageType.request, id := 7, data := ascii "key", timestamp := 0 } ↔
      (ascii "key").length ≤ networkCompressThreshold ∨ Compressible countedLZ4 (ascii "key") :=
  leaksNothing_iff lt_compressBlockBound_countedLZ4 rfl

/-- A pool with one buffer that an earlier message filled with the letter s. -/
def usedPool : TieredBufferPool where
  tiers tier := if tier.val = 0 then [replicate 1024 115] else []

/-- The message with `countedBytes`. -/
def countedMessage : Message where
  type := MessageType.request
  id := 7
  data := countedBytes
  timestamp := 0

/-- The header says 257 bytes, but 274 follow it, and the last 15 of them are those of the
    earlier message. -/
theorem earlier_message_leaks :
    (usedPool.encodeMessage countedLZ4 0 countedMessage).2.drop 281 = replicate 15 115 ∧
      (TieredBufferPool.encodeMessage countedLZ4 {} 0 countedMessage).2.drop 281 =
        replicate 15 0 ∧
      (usedPool.encodeMessage countedLZ4 0 countedMessage).2.length = 22 + 274 ∧
      recordedLength (usedPool.encodeMessage countedLZ4 0 countedMessage).2 = 257 ∧
      ¬LeaksNothing countedLZ4 countedMessage := by
  have hused : (usedPool.encodeMessage countedLZ4 0 countedMessage).2.drop 281 =
      replicate 15 115 := by decide +kernel
  have hnew : (TieredBufferPool.encodeMessage countedLZ4 {} 0 countedMessage).2.drop 281 =
      replicate 15 0 := by decide +kernel
  refine ⟨hused, hnew, by decide +kernel, by decide +kernel, fun h => ?_⟩
  rw [(h usedPool {} 0 0).1, hnew] at hused
  exact absurd hused (by decide)

end TieredBufferPool

end GridKV
