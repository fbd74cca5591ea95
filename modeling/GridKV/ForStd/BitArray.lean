import Mathlib.Data.Nat.Bitwise

/-!
# Bits of an array of bytes

Bit `p` is bit `p % 8` of byte `p / 8`.  Bits behind the end read as unset, and setting one
changes nothing.
-/

namespace BitArray

variable {bits : List UInt8} {p q : Nat}

/-- The byte that has bit `i` alone. -/
def mask (i : Nat) : UInt8 := 1 <<< UInt8.ofNat i

def getBit (bits : List UInt8) (p : Nat) : Bool := (bits.getD (p / 8) 0 &&& mask (p % 8)) ≠ 0

def setBit (bits : List UInt8) (p : Nat) : List UInt8 :=
  bits.set (p / 8) (bits.getD (p / 8) 0 ||| mask (p % 8))

theorem toNat_mask {i : Nat} (hi : i < 8) : (mask i).toNat = 2 ^ i := by
  have hlt : 2 ^ i < 256 := Nat.pow_lt_pow_right (by decide) hi
  have hi' : i < 256 := Nat.lt_trans hi (by decide)
  simp [mask, Nat.mod_eq_of_lt hi, Nat.mod_eq_of_lt hi', Nat.shiftLeft_eq, hlt]

/-- The mask tests the bit. -/
theorem and_mask_ne_zero (b : UInt8) {i : Nat} (hi : i < 8) :
    b &&& mask i ≠ 0 ↔ b.toNat.testBit i = true := by
  rw [ne_eq, ← UInt8.toNat_inj, UInt8.toNat_and, toNat_mask hi, Nat.and_two_pow]
  cases b.toNat.testBit i <;> simp

theorem getBit_eq (bits : List UInt8) (p : Nat) :
    getBit bits p = (bits.getD (p / 8) 0).toNat.testBit (p % 8) := by
  rw [getBit, Bool.eq_iff_iff, decide_eq_true_iff]
  exact and_mask_ne_zero _ (Nat.mod_lt p (by decide))

theorem length_setBit (bits : List UInt8) (p : Nat) : (setBit bits p).length = bits.length :=
  List.length_set

/-- Setting a bit changes no other. -/
theorem getBit_setBit (hp : p / 8 < bits.length) (q : Nat) :
    getBit (setBit bits p) q = true ↔ p = q ∨ getBit bits q = true := by
  rw [getBit_eq, getBit_eq, setBit]
  by_cases hbyte : p / 8 = q / 8
  · have hget : (bits.set (p / 8) (bits.getD (p / 8) 0 ||| mask (p % 8))).getD (q / 8) 0 =
        bits.getD (q / 8) 0 ||| mask (p % 8) := by
      rw [← hbyte, List.getD_eq_getElem?_getD, List.getElem?_set_self hp, Option.getD_some]
    rw [hget, UInt8.toNat_or, toNat_mask (Nat.mod_lt p (by decide)), Nat.testBit_or,
      Nat.testBit_two_pow, Bool.or_eq_true, decide_eq_true_iff, or_comm]
    refine or_congr_left ⟨fun hbit => ?_, fun heq => congrArg (· % 8) heq⟩
    rw [← Nat.div_add_mod p 8, ← Nat.div_add_mod q 8, hbyte, hbit]
  · have hget : (bits.set (p / 8) (bits.getD (p / 8) 0 ||| mask (p % 8))).getD (q / 8) 0 =
        bits.getD (q / 8) 0 := by
      rw [List.getD_eq_getElem?_getD, List.getElem?_set_ne hbyte, ← List.getD_eq_getElem?_getD]
    rw [hget]
    exact (or_iff_right fun heq => hbyte (congrArg (· / 8) heq)).symm

theorem getBit_replicate (n p : Nat) : getBit (List.replicate n 0) p = false := by
  rw [getBit_eq]
  have hzero : (List.replicate n (0 : UInt8)).getD (p / 8) 0 = 0 := by
    rw [List.getD_eq_getElem?_getD, List.getElem?_replicate]
    split <;> rfl
  rw [hzero]
  exact Nat.zero_testBit _

end BitArray
