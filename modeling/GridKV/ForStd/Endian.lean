import Mathlib

/-!
# Fixed-width byte encodings of naturals

`leBytes w n` writes the low `8 * w` bits of `n` as `w` bytes, least significant
first, and `leNat` reads such a list back.  The big-endian pair `beBytes`/`beNat`
is the same layout reversed.  Every fixed-width field of a wire format is one of
these, so the round trips below are the only facts about integers a codec needs.
-/

namespace Endian

/-- The `w` little-endian bytes of `n`; higher bits are cut off. -/
def leBytes : Nat → Nat → List UInt8
  | 0, _ => []
  | w + 1, n => UInt8.ofNat n :: leBytes w (n / 256)

/-- The number a little-endian byte list stands for. -/
def leNat : List UInt8 → Nat
  | [] => 0
  | b :: bs => b.toNat + 256 * leNat bs

/-- The `w` big-endian bytes of `n`; higher bits are cut off. -/
def beBytes (w n : Nat) : List UInt8 := (leBytes w n).reverse

/-- The number a big-endian byte list stands for. -/
def beNat (bs : List UInt8) : Nat := leNat bs.reverse

@[simp] theorem length_leBytes (w n : Nat) : (leBytes w n).length = w := by
  induction w generalizing n with
  | zero => rfl
  | succ w ih => simp only [leBytes, List.length_cons, ih]

@[simp] theorem length_beBytes (w n : Nat) : (beBytes w n).length = w := by
  simp [beBytes]

/-- Reading back what was written loses exactly the bits above the width. -/
theorem leNat_leBytes (w n : Nat) : leNat (leBytes w n) = n % 256 ^ w := by
  induction w generalizing n with
  | zero => simp [leBytes, leNat, Nat.mod_one]
  | succ w ih =>
    have hbyte : (UInt8.ofNat n).toNat = n % 256 := by simp
    rw [leBytes, leNat, ih, hbyte, Nat.pow_succ, Nat.mul_comm (256 ^ w), Nat.mod_mul]

/-- A number that fits its width survives the round trip. -/
theorem leNat_leBytes_of_lt {w n : Nat} (h : n < 256 ^ w) : leNat (leBytes w n) = n := by
  rw [leNat_leBytes, Nat.mod_eq_of_lt h]

/-- An `int64` written as its bit pattern survives the round trip. -/
theorem toInt64_leNat_leBytes (i : Int64) :
    (UInt64.ofNat (leNat (leBytes 8 i.toUInt64.toNat))).toInt64 = i := by
  rw [leNat_leBytes_of_lt i.toUInt64.toNat_lt, UInt64.ofNat_toNat, Int64.toInt64_toUInt64]

theorem leNat_lt (bs : List UInt8) : leNat bs < 256 ^ bs.length := by
  induction bs with
  | nil => simp [leNat]
  | cons b bs ih =>
    have hb : b.toNat < 256 := b.toNat_lt
    rw [leNat, List.length_cons, Nat.pow_succ]
    omega

/-- Writing back what was read restores the bytes. -/
theorem leBytes_leNat (bs : List UInt8) : leBytes bs.length (leNat bs) = bs := by
  induction bs with
  | nil => rfl
  | cons b bs ih =>
    have hb : b.toNat < 256 := b.toNat_lt
    have hhead : UInt8.ofNat (b.toNat + 256 * leNat bs) = b := by
      apply UInt8.toNat_inj.mp
      simp only [UInt8.toNat_ofNat']
      omega
    have htail : (b.toNat + 256 * leNat bs) / 256 = leNat bs := by omega
    rw [leNat, List.length_cons, leBytes, hhead, htail, ih]

theorem beNat_beBytes_of_lt {w n : Nat} (h : n < 256 ^ w) : beNat (beBytes w n) = n := by
  rw [beNat, beBytes, List.reverse_reverse, leNat_leBytes_of_lt h]

theorem beNat_beBytes (w n : Nat) : beNat (beBytes w n) = n % 256 ^ w := by
  rw [beNat, beBytes, List.reverse_reverse, leNat_leBytes]

end Endian
