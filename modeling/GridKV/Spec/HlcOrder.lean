import GridKV.Spec.HlcText

/-!
# Clock order and version order

`hlcToInt64` packs the fields it parses into one signed integer.  The packing is not
injective: `toInt_packVersion` gives the value that comes out, a signed 48-bit timestamp
above a capped 16-bit counter, and everything about version order follows from it.
-/

namespace GridKV

open Go

/-! ### Packing -/

/-- The bits of a packed version: the timestamp's low 48 above the capped counter. -/
theorem toNat_packVersion (ts : Int64) (ctr : UInt64) :
    (packVersion ts ctr).toBitVec.toNat =
      ts.toBitVec.toNat % 2 ^ 48 * 65536 + min ctr.toNat 65535 := by
  -- The counter is capped before it is masked, so the mask does nothing.
  have hcap : ((if ctr > 65535 then 65535 else ctr) &&& 0xFFFF).toNat = min ctr.toNat 65535 := by
    rw [UInt64.toNat_and, show (0xFFFF : UInt64).toNat = 2 ^ 16 - 1 from rfl,
      Nat.and_two_pow_sub_one_eq_mod]
    split
    · rename_i hgt
      have : 65535 < ctr.toNat := UInt64.lt_iff_toNat_lt.mp hgt
      rw [Nat.min_eq_right (by omega)]
      rfl
    · rename_i hle
      have : ctr.toNat ≤ 65535 := Nat.le_of_not_lt fun h => hle (UInt64.lt_iff_toNat_lt.mpr h)
      omega
  -- The mask leaves 48 bits, which the shift moves to the top without loss.
  have hshift : ((ts &&& 0xFFFFFFFFFFFF) <<< 16).toBitVec.toNat =
      (ts.toBitVec.toNat % 2 ^ 48) <<< 16 := by
    have hbv : ((ts &&& 0xFFFFFFFFFFFF) <<< 16).toBitVec =
        (ts.toBitVec &&& 0xFFFFFFFFFFFF#64) <<< 16 := rfl
    rw [hbv, BitVec.toNat_shiftLeft, BitVec.toNat_and,
      show (0xFFFFFFFFFFFF#64).toNat = 2 ^ 48 - 1 from rfl, Nat.and_two_pow_sub_one_eq_mod,
      Nat.mod_eq_of_lt]
    rw [Nat.shiftLeft_eq]
    omega
  -- The two fields do not overlap, so `or` adds them.
  have hor := Nat.shiftLeft_add_eq_or_of_lt
    (show min ctr.toNat 65535 < 2 ^ 16 by omega) (ts.toBitVec.toNat % 2 ^ 48)
  simp only [packVersion, Int64.toBitVec_or, BitVec.toNat_or, hshift, UInt64.toBitVec_toInt64,
    UInt64.toNat_toBitVec, hcap]
  rw [← hor, Nat.shiftLeft_eq]

/-- The version as a number: the timestamp as a signed 48-bit quantity, then the
    capped counter. -/
theorem toInt_packVersion (ts : Int64) (ctr : UInt64) :
    (packVersion ts ctr).toInt =
      ts.toInt.bmod (2 ^ 48) * 65536 + (min ctr.toNat 65535 : Nat) := by
  have hts : ts.toInt.bmod (2 ^ 48) = (ts.toBitVec.toNat : Int).bmod (2 ^ 48) := by
    rw [← Int64.toInt_toBitVec, BitVec.toInt_eq_toNat_bmod]
    exact Int.bmod_bmod_of_dvd (by decide)
  rw [← Int64.toInt_toBitVec, BitVec.toInt_eq_toNat_bmod, toNat_packVersion, hts]
  generalize ts.toBitVec.toNat = n
  generalize hm : min ctr.toNat 65535 = m
  have : m < 65536 := by omega
  simp only [Int.bmod_def]
  omega

/-- The order of packed versions, field by field. -/
theorem packVersion_lt_iff (ts₁ ts₂ : Int64) (c₁ c₂ : UInt64) :
    packVersion ts₁ c₁ < packVersion ts₂ c₂ ↔
      ts₁.toInt.bmod (2 ^ 48) < ts₂.toInt.bmod (2 ^ 48) ∨
        ts₁.toInt.bmod (2 ^ 48) = ts₂.toInt.bmod (2 ^ 48) ∧
          min c₁.toNat 65535 < min c₂.toNat 65535 := by
  rw [Int64.lt_iff_toInt_lt, toInt_packVersion, toInt_packVersion]
  omega

/-! ### Order of stamped versions -/

/-- The condition under which the encoding keeps two clock states in order: at one
    timestamp the counter has not reached its cap; across timestamps the low 48
    bits, read as signed numbers, are in order (or agree, and the capped counters
    are in order). -/
def EncodesInOrder (ts₁ : Int64) (c₁ : UInt64) (ts₂ : Int64) (c₂ : UInt64) : Prop :=
  if ts₁ = ts₂ then c₁.toNat < 65535
  else ts₁.toInt.bmod (2 ^ 48) < ts₂.toInt.bmod (2 ^ 48) ∨
    ts₁.toInt.bmod (2 ^ 48) = ts₂.toInt.bmod (2 ^ 48) ∧
      min c₁.toNat 65535 < min c₂.toNat 65535

/-- The version of a formatted clock state is the packing of its fields, whatever
    the fallback reading. -/
theorem hlcToInt64_formatHLC {nodeID : GoString} (hid : colon ∉ nodeID) {ts : Int64} {c : UInt64}
    (hts : 0 ≤ ts) (hc : c.toNat < 2 ^ 63) :
    ∃ s, formatHLC nodeID ts c = .ok s ∧ ∀ now, hlcToInt64 now s = packVersion ts c := by
  obtain ⟨s, hs, hparse⟩ := parseHLC_formatHLC hid hts hc
  refine ⟨s, hs, fun now => ?_⟩
  rw [hlcToInt64, hparse]

/-- Two clock states in lexicographic order get versions in order exactly when the
    encoding keeps them apart. -/
theorem hlcToInt64_lt_iff_encodesInOrder (nodeID : GoString) (hid : colon ∉ nodeID)
    (ts₁ ts₂ : Int64) (c₁ c₂ : UInt64) (hts₁ : 0 ≤ ts₁) (hts₂ : 0 ≤ ts₂)
    (hc₁ : c₁.toNat < 2 ^ 63) (hc₂ : c₂.toNat < 2 ^ 63)
    (hlex : ts₁ < ts₂ ∨ ts₁ = ts₂ ∧ c₁ < c₂) (now₁ now₂ : Int64) :
    ∃ s₁ s₂, formatHLC nodeID ts₁ c₁ = .ok s₁ ∧ formatHLC nodeID ts₂ c₂ = .ok s₂ ∧
      (hlcToInt64 now₁ s₁ < hlcToInt64 now₂ s₂ ↔ EncodesInOrder ts₁ c₁ ts₂ c₂) := by
  obtain ⟨s₁, hs₁, hv₁⟩ := hlcToInt64_formatHLC hid hts₁ hc₁
  obtain ⟨s₂, hs₂, hv₂⟩ := hlcToInt64_formatHLC hid hts₂ hc₂
  refine ⟨s₁, s₂, hs₁, hs₂, ?_⟩
  rw [hv₁, hv₂, packVersion_lt_iff, EncodesInOrder]
  rcases hlex with hts | ⟨rfl, hc⟩
  · have hne : ts₁ ≠ ts₂ := by grind
    rw [if_neg hne]
  · have hc : c₁.toNat < c₂.toNat := UInt64.lt_iff_toNat_lt.mp hc
    rw [if_pos rfl]
    omega

/-- Two readings one nanosecond apart inside a window of `2 ^ 47` nanoseconds. -/
theorem hlcToInt64_lt_at_small_times :
    ∃ s₁ s₂, formatHLC (ascii "n") 41 7 = .ok s₁ ∧ formatHLC (ascii "n") 42 0 = .ok s₂ ∧
      (hlcToInt64 0 s₁ < hlcToInt64 0 s₂ ↔ EncodesInOrder 41 7 42 0) :=
  hlcToInt64_lt_iff_encodesInOrder (ascii "n") (by decide) 41 42 7 0 (by decide) (by decide) (by decide)
    (by decide) (by decide) 0 0

/-- One nanosecond later the timestamp crosses `2 ^ 47` and its version drops from
    the largest timestamp field to the smallest. -/
theorem hlcToInt64_drops_at_sign_bit :
    colon ∉ (ascii "n") ∧ (0 : Int64) ≤ 140737488355327 ∧
      (140737488355327 : Int64) < 140737488355328 ∧
      ∃ s₁ s₂, formatHLC (ascii "n") 140737488355327 0 = .ok s₁ ∧
        formatHLC (ascii "n") 140737488355328 0 = .ok s₂ ∧ ¬ hlcToInt64 0 s₁ < hlcToInt64 0 s₂ := by
  exact ⟨by decide, by decide, by decide, ascii "n:140737488355327:0",
    ascii "n:140737488355328:0", by decide, by decide, by decide⟩

end GridKV
