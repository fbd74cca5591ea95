import Mathlib

/-!
# Rounding up to a power of two by smearing bits

`n ||| n >>> 1`, then `||| >>> 2`, `>>> 4` and so on copies the highest bit of a number into all
the places below it.  `Smears w x y` says how far `y` has got: each of its bits tells whether `x`
has one among the `w` bits from there on.  A step of the algorithm doubles `w`, and once `w` covers
the whole word, `y` is the largest number with as many bits as `x`.
-/

namespace Nat

variable {w x y : Nat}

/-- A bit of `y` is set if one of the `w` bits of `x` from there on is. -/
def Smears (w x y : Nat) : Prop :=
  ∀ i, y.testBit i ↔ ∃ j, i ≤ j ∧ j < i + w ∧ x.testBit j

theorem smears_one (x : Nat) : Smears 1 x x := by
  intro i
  constructor
  · exact fun h => ⟨i, Nat.le_refl i, Nat.lt_succ_self i, h⟩
  · intro ⟨j, hle, hlt, hbit⟩
    obtain rfl : i = j := by omega
    exact hbit

/-- One step reaches twice as far. -/
theorem Smears.step (h : Smears w x y) : Smears (2 * w) x (y ||| y >>> w) := by
  intro i
  rw [Nat.testBit_or, Nat.testBit_shiftRight, Bool.or_eq_true, h i, h (w + i)]
  constructor
  · rintro (⟨j, hle, hlt, hbit⟩ | ⟨j, hle, hlt, hbit⟩)
    · exact ⟨j, hle, by omega, hbit⟩
    · exact ⟨j, by omega, by omega, hbit⟩
  · intro ⟨j, hle, hlt, hbit⟩
    by_cases hnear : j < i + w
    · exact .inl ⟨j, hle, hnear, hbit⟩
    · exact .inr ⟨j, by omega, by omega, hbit⟩

/-- At the end all the places of `x` are filled: the next number is the first power of two
    above `x`. -/
theorem Smears.succ_eq_two_pow_clog (h : Smears w x y) (hlt : x < 2 ^ w) :
    y + 1 = 2 ^ Nat.clog 2 (x + 1) := by
  have hfilled : y = 2 ^ Nat.clog 2 (x + 1) - 1 := by
    apply Nat.eq_of_testBit_eq
    intro i
    rw [Nat.testBit_two_pow_sub_one, Bool.eq_iff_iff, h i, decide_eq_true_iff,
      Nat.lt_clog_iff_pow_lt Nat.one_lt_two, Nat.lt_succ_iff]
    constructor
    · rintro ⟨j, hle, -, hbit⟩
      exact (Nat.pow_le_pow_right Nat.two_pos hle).trans (Nat.ge_two_pow_of_testBit hbit)
    · intro hi
      obtain ⟨j, hle, hbit⟩ := Nat.exists_ge_and_testBit_of_ge_two_pow hi
      have hj : j < w := by
        apply (Nat.pow_lt_pow_iff_right Nat.one_lt_two).mp
        exact (Nat.ge_two_pow_of_testBit hbit).trans_lt hlt
      exact ⟨j, hle, by omega, hbit⟩
  have hpos := Nat.two_pow_pos (Nat.clog 2 (x + 1))
  omega

end Nat
