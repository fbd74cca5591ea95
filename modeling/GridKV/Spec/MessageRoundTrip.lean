import GridKV.Model.Message
import GridKV.Spec.Decompress

/-!
# Round trip of network messages

`decodeMessage` recovers every field of what `encodeMessage` wrote except, for a
compressed payload, the payload itself: the decoder has to guess its length.  The
two buffers it tries hold at most `16 * n + 64` bytes for a block of `n`, and never
more than 8 MiB, whatever the pools contain (`decompressTo_block`).
-/

namespace GridKV

open Go Endian

variable {lz4 : LZ4} {msg : Message} {block : Bytes}

/-! ### Header -/

@[simp] theorem length_messageHeader (flags : UInt8) (length : Nat) :
    (messageHeader msg flags length).length = 22 := by
  simp [messageHeader]

/-- Decoding a header followed by its payload and any trailing bytes. -/
theorem decodeMessage_messageHeader (lz4 : LZ4) (cap₁ cap₂ : PooledCap) (msg : Message)
    (flags : UInt8) (raw tail : Bytes) (hraw : raw.length < 2 ^ 32) :
    decodeMessage lz4 cap₁ cap₂ (messageHeader msg flags raw.length ++ (raw ++ tail)) =
      .ok (match if flags &&& msgFlagCompressed ≠ 0 then
          decompressTo lz4 cap₁ cap₂ raw 0 (raw.length * 4) else some raw with
        | none => .error .decompressFailed
        | some payload => .ok { msg with
            compressed := flags &&& msgFlagCompressed ≠ 0, data := payload }) := by
  -- Each field is cut out where the encoder wrote it.
  have hid : slice (messageHeader msg flags raw.length ++ (raw ++ tail)) 2 10 =
      .ok (beBytes 8 msg.id.toNat) := by
    have := slice_append [msg.type, flags] (beBytes 8 msg.id.toNat)
      (beBytes 8 msg.timestamp.toUInt64.toNat ++ (beBytes 4 raw.length ++ (raw ++ tail)))
    simpa [messageHeader] using this
  have hts : slice (messageHeader msg flags raw.length ++ (raw ++ tail)) 10 18 =
      .ok (beBytes 8 msg.timestamp.toUInt64.toNat) := by
    have := slice_append ([msg.type, flags] ++ beBytes 8 msg.id.toNat)
      (beBytes 8 msg.timestamp.toUInt64.toNat) (beBytes 4 raw.length ++ (raw ++ tail))
    simpa [messageHeader] using this
  have hlen : slice (messageHeader msg flags raw.length ++ (raw ++ tail)) 18 22 =
      .ok (beBytes 4 raw.length) := by
    have := slice_append ([msg.type, flags] ++ beBytes 8 msg.id.toNat ++
      beBytes 8 msg.timestamp.toUInt64.toNat) (beBytes 4 raw.length) (raw ++ tail)
    simpa [messageHeader] using this
  have hpayload : slice (messageHeader msg flags raw.length ++ (raw ++ tail)) 22
      (22 + raw.length) = .ok raw := by
    have := slice_append (messageHeader msg flags raw.length) raw tail
    simpa using this
  have htype : index (messageHeader msg flags raw.length ++ (raw ++ tail)) 0 = .ok msg.type := by
    simp [messageHeader, index]
  have hflags : index (messageHeader msg flags raw.length ++ (raw ++ tail)) 1 = .ok flags := by
    simp [messageHeader, index]
  -- None of the numbers is too large for its field.
  have hlenVal : raw.length % 256 ^ 4 = raw.length := Nat.mod_eq_of_lt (by omega)
  have hidVal : msg.id.toNat % 256 ^ 8 = msg.id.toNat := Nat.mod_eq_of_lt msg.id.toNat_lt
  have htsVal : msg.timestamp.toUInt64.toNat % 256 ^ 8 = msg.timestamp.toUInt64.toNat :=
    Nat.mod_eq_of_lt msg.timestamp.toUInt64.toNat_lt
  have hlong : ¬ (messageHeader msg flags raw.length ++ (raw ++ tail)).length < 22 := by simp
  have hfits : ¬ 22 + raw.length > (messageHeader msg flags raw.length ++ (raw ++ tail)).length := by
    simp
  simp only [decodeMessage, hlong, if_false, hlen, ok_bind, beUint_beBytes, hlenVal, hfits, hflags,
    hpayload]
  split <;> rename_i hcase
  · simp only [hcase, pure_eq_ok]
  · simp only [hcase, htype, hid, hts, ok_bind, beUint_beBytes, hidVal, htsVal, pure_eq_ok,
      UInt64.ofNat_toNat, Int64.toInt64_toUInt64]

/-! ### Round trip -/

/-- The payload survives the decoder's size guess: whenever the sender replaces it by
    a block, it is at most `16 * n + 64` bytes for a block of `n`, and at most 8 MiB. -/
def FitsDecoder (lz4 : LZ4) (data : Bytes) : Prop :=
  ∀ block, lz4.compressBlock data (lz4.compressBlockBound data.length) = some block →
    networkCompressThreshold < data.length → block ≠ [] →
    block.length < data.length * 90 / 100 →
    data.length ≤ min (16 * block.length + 64) maxDecompressBuffer

theorem wireBlock_eq_some_iff (hplain : msg.compressed = false) :
    wireBlock lz4 msg = some block ↔
      lz4.compressBlock msg.data (lz4.compressBlockBound msg.data.length) = some block ∧
        networkCompressThreshold < msg.data.length ∧ block ≠ [] ∧
        block.length < msg.data.length * 90 / 100 := by
  have hasked : wireBlock lz4 msg ≠ none → networkCompressThreshold < msg.data.length := by
    unfold wireBlock
    split
    · rename_i h; exact fun _ => h.2
    · exact fun h => absurd rfl h
  constructor
  · intro h
    have hlong := hasked (by simp [h])
    simp only [wireBlock, hplain, hlong, compressTo] at h
    grind
  · rintro ⟨hblock, hlong, hne, hshort⟩
    have hpos : block.length ≠ 0 := by simpa using hne
    -- The codec has a threshold of its own, weaker than that of the sender.
    have h95 : block.length < msg.data.length * 95 / 100 := by omega
    have hthreshold : ¬ msg.data.length < networkCompressThreshold := by omega
    simp [wireBlock, hplain, hlong, compressTo, hthreshold, hblock, hpos, h95, hshort]

/-- A message sent without compression comes back whole; bytes after the payload are
    ignored. -/
theorem decodeMessage_encodeMessage_plain (hlz4 : lz4.Lawful) (scratch : Nat → UInt8)
    (cap₁ cap₂ : PooledCap) (hplain : msg.compressed = false) (hlen : msg.data.length < 2 ^ 32)
    (hwire : wireBlock lz4 msg = none) :
    decodeMessage lz4 cap₁ cap₂ (encodeMessage lz4 scratch msg) = .ok (.ok msg) := by
  have hdecode := fun tail => decodeMessage_messageHeader lz4 cap₁ cap₂ msg 0 msg.data tail hlen
  have hmsg : ({ msg with compressed := false } : Message) = msg := by rw [← hplain]
  simp only [encodeMessage, hwire, hplain]
  split
  · -- The sender has tried to compress, and writes into the buffer made for the block.
    rw [List.take_of_length_le (hlz4.le_bound _), List.append_assoc, hdecode]
    simp [msgFlagCompressed, hmsg]
  · have := hdecode []
    rw [List.append_nil] at this
    simp only [Bool.false_eq_true, if_false]
    rw [this]
    simp [msgFlagCompressed, hmsg]

/-- A message sent as a block comes back exactly when the payload fits the decoder's
    buffer. -/
theorem decodeMessage_encodeMessage_block (hlz4 : lz4.Lawful) (scratch : Nat → UInt8)
    (cap₁ cap₂ : PooledCap) (hplain : msg.compressed = false) (hlen : msg.data.length < 2 ^ 32)
    (hwire : wireBlock lz4 msg = some block) :
    decodeMessage lz4 cap₁ cap₂ (encodeMessage lz4 scratch msg) =
      .ok (if msg.data.length ≤ min (16 * block.length + 64) maxDecompressBuffer then
        .ok { msg with compressed := true } else .error .decompressFailed) := by
  obtain ⟨hblock, hlong, hne, hshort⟩ := (wireBlock_eq_some_iff hplain).mp hwire
  have hdecode := decodeMessage_messageHeader lz4 cap₁ cap₂ msg msgFlagCompressed block []
    (by omega)
  have hflag : msgFlagCompressed &&& msgFlagCompressed ≠ 0 := by decide
  rw [List.append_nil, decompressTo_block hlz4 hblock hne, if_pos hflag] at hdecode
  have hcompress : ¬ msg.compressed ∧ msg.data.length > networkCompressThreshold := by
    simp [hplain, hlong]
  rw [encodeMessage, if_pos hcompress, hwire, hdecode]
  by_cases hfits : msg.data.length ≤ min (16 * block.length + 64) maxDecompressBuffer
  · simp only [if_pos hfits, hflag, ne_eq, not_false_eq_true, decide_true]
  · simp only [if_neg hfits]

/-- The round trip returns type, ID, timestamp and payload exactly for the payloads
    that fit the decoder. -/
theorem decodeMessage_encodeMessage_iff_fitsDecoder (lz4 : LZ4) (hlz4 : lz4.Lawful)
    (scratch : Nat → UInt8) (cap₁ cap₂ : PooledCap) (msg : Message)
    (hplain : msg.compressed = false) (hlen : msg.data.length < 2 ^ 32) :
    (∃ out, decodeMessage lz4 cap₁ cap₂ (encodeMessage lz4 scratch msg) = .ok (.ok out) ∧
        out.type = msg.type ∧ out.id = msg.id ∧ out.timestamp = msg.timestamp ∧
        out.data = msg.data) ↔
      FitsDecoder lz4 msg.data := by
  cases hwire : wireBlock lz4 msg with
  | none =>
    rw [decodeMessage_encodeMessage_plain hlz4 scratch cap₁ cap₂ hplain hlen hwire]
    refine iff_of_true ⟨msg, rfl, rfl, rfl, rfl, rfl⟩ fun block hblock hlong hne hshort => ?_
    have := (wireBlock_eq_some_iff hplain).mpr ⟨hblock, hlong, hne, hshort⟩
    simp [hwire] at this
  | some block =>
    obtain ⟨hblock, hlong, hne, hshort⟩ := (wireBlock_eq_some_iff hplain).mp hwire
    rw [decodeMessage_encodeMessage_block hlz4 scratch cap₁ cap₂ hplain hlen hwire]
    constructor
    · -- If the decoder succeeds, its larger buffer was large enough.
      rintro ⟨out, hout, -⟩ block' hblock' - - -
      obtain rfl : block = block' := Option.some.inj (hblock.symm.trans hblock')
      split at hout
      · assumption
      · simp at hout
    · intro hfits
      rw [if_pos (hfits block hblock hlong hne hshort)]
      exact ⟨_, rfl, rfl, rfl, rfl, rfl⟩

/-! ### A page of zeros -/

/-- 1024 zero bytes. -/
@[irreducible] def zeroPage : Bytes := List.replicate 1024 0

theorem length_zeroPage : zeroPage.length = 1024 := by
  rw [zeroPage, List.length_replicate]

/-- The 26 bytes LZ4 writes for `zeroPage`: a literal and a long match, two short
    matches, eleven literals. -/
def zeroPageBlock : Bytes :=
  [0x1F, 0x00, 0x01, 0x00, 0xFF, 0xFF, 0xFF, 0xDC, 0x00, 0x02, 0x00, 0x00, 0x02, 0x00, 0xB0] ++
    List.replicate 11 0

/-- LZ4 as it behaves on `zeroPage`; every other input counts as incompressible. -/
def zeroPageLZ4 : LZ4 where
  compressBlockBound n := n + n / 255 + 16
  compressBlock src _ := if src = zeroPage then some zeroPageBlock else none
  uncompressBlock src n := if src = zeroPageBlock ∧ zeroPage.length ≤ n then some zeroPage else none

theorem zeroPageLZ4_compressBlock {src : Bytes} {dst : Nat}
    (h : zeroPageLZ4.compressBlock src dst = some block) :
    src = zeroPage ∧ block = zeroPageBlock := by
  simp only [zeroPageLZ4] at h
  split at h
  · rename_i hsrc
    exact ⟨hsrc, (Option.some.inj h).symm⟩
  · exact nomatch h

theorem zeroPageLZ4_lawful : zeroPageLZ4.Lawful where
  le_bound n := by
    simp only [zeroPageLZ4]
    omega
  uncompress_of_le h _ hn := by
    obtain ⟨rfl, rfl⟩ := zeroPageLZ4_compressBlock h
    exact if_pos ⟨rfl, hn⟩
  uncompress_of_lt h _ hn := by
    obtain ⟨rfl, rfl⟩ := zeroPageLZ4_compressBlock h
    exact if_neg fun hc => absurd hc.2 (Nat.not_le_of_lt hn)

/-- A short request, sent as it is. -/
theorem decodeMessage_encodeMessage_short_request :
    (∃ out, decodeMessage zeroPageLZ4 (newDecompressCap 0) (newDecompressCap 0)
        (encodeMessage zeroPageLZ4 (fun _ => 0)
          { type := MessageType.request, id := 7, data := ascii "key", timestamp := -1 }) =
        .ok (.ok out) ∧ out.type = MessageType.request ∧ out.id = 7 ∧ out.timestamp = -1 ∧
        out.data = ascii "key") ↔ FitsDecoder zeroPageLZ4 (ascii "key") :=
  decodeMessage_encodeMessage_iff_fitsDecoder zeroPageLZ4 zeroPageLZ4_lawful (fun _ => 0)
    (newDecompressCap 0) (newDecompressCap 0)
    { type := MessageType.request, id := 7, data := ascii "key", timestamp := -1 } rfl (by decide)

/-- A page of zeros is sent as 26 bytes and cannot be decoded: the decoder stops at
    `16 * 26 + 64 = 480` bytes. -/
theorem decodeMessage_rejects_zeroPage :
    zeroPageLZ4.Lawful ∧ zeroPage.length = 1024 ∧
      decodeMessage zeroPageLZ4 (newDecompressCap 0) (newDecompressCap 0)
        (encodeMessage zeroPageLZ4 (fun _ => 0)
          { type := MessageType.request, id := 7, data := zeroPage, timestamp := 0 }) =
        .ok (.error .decompressFailed) := by
  refine ⟨zeroPageLZ4_lawful, length_zeroPage, ?_⟩
  have hwire : wireBlock zeroPageLZ4
      { type := MessageType.request, id := 7, data := zeroPage, timestamp := 0 } =
        some zeroPageBlock :=
    (wireBlock_eq_some_iff rfl).mpr ⟨if_pos rfl, by simp [length_zeroPage, networkCompressThreshold],
      by simp [zeroPageBlock], by simp [length_zeroPage, zeroPageBlock]⟩
  rw [decodeMessage_encodeMessage_block zeroPageLZ4_lawful _ _ _ rfl
      (by simp [length_zeroPage]) hwire,
    if_neg (by simp [length_zeroPage, zeroPageBlock, maxDecompressBuffer])]

end GridKV
