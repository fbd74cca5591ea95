import Mathlib

/-!
# Decimal notation as bytes

`toDecimal n` is the usual ASCII notation of a natural number and `valueFrom`
the left fold a parser runs over it.  Wrap-around of a machine integer does not
appear here: a parser that accumulates in a fixed-width type computes the image
of `valueFrom` in that type.
-/

namespace Decimal

/-- The ASCII byte of a decimal digit. -/
def digit (d : Nat) : UInt8 := UInt8.ofNat (48 + d)

/-- The bytes `'0'` to `'9'`. -/
def IsDigit (b : UInt8) : Prop := 48 ≤ b.toNat ∧ b.toNat ≤ 57

instance : DecidablePred IsDigit := fun b => inferInstanceAs (Decidable (48 ≤ b.toNat ∧ b.toNat ≤ 57))

/-- Decimal notation without leading zeros; zero is written with no digit at all. -/
def digitBytes (n : Nat) : List UInt8 := (Nat.digits 10 n).reverse.map digit

/-- Decimal notation without leading zeros. -/
def toDecimal (n : Nat) : List UInt8 := if n = 0 then [48] else digitBytes n

/-- Positional value of a digit string read after a prefix of value `acc`. -/
def valueFrom (acc : Nat) (bs : List UInt8) : Nat :=
  bs.foldl (fun acc b => acc * 10 + (b.toNat - 48)) acc

theorem toNat_digit {d : Nat} (h : d < 10) : (digit d).toNat = 48 + d := by
  simp only [digit, UInt8.toNat_ofNat']
  omega

theorem isDigit_digit {d : Nat} (h : d < 10) : IsDigit (digit d) := by
  rw [IsDigit, toNat_digit h]
  omega

theorem digitBytes_zero : digitBytes 0 = [] := by simp [digitBytes]

/-- The last digit is the remainder, the digits before it are those of the quotient. -/
theorem digitBytes_of_pos {n : Nat} (h : 0 < n) :
    digitBytes n = digitBytes (n / 10) ++ [digit (n % 10)] := by
  simp [digitBytes, Nat.digits_def' (by decide : 1 < 10) h]

theorem isDigit_of_mem_digitBytes {n : Nat} {b : UInt8} (h : b ∈ digitBytes n) : IsDigit b := by
  simp only [digitBytes, List.mem_map, List.mem_reverse] at h
  obtain ⟨d, hd, rfl⟩ := h
  exact isDigit_digit (Nat.digits_lt_base (by decide) hd)

theorem isDigit_of_mem_toDecimal {n : Nat} {b : UInt8} (h : b ∈ toDecimal n) : IsDigit b := by
  unfold toDecimal at h
  split at h
  · rw [List.mem_singleton.mp h]; decide
  · exact isDigit_of_mem_digitBytes h

theorem toDecimal_ne_nil (n : Nat) : toDecimal n ≠ [] := by
  unfold toDecimal
  split
  · simp
  · rename_i h
    rw [digitBytes_of_pos (Nat.pos_of_ne_zero h)]
    simp

/-- A number below `10 ^ k` has at most `k` digits. -/
theorem length_digitBytes_le {n k : Nat} (h : n < 10 ^ k) : (digitBytes n).length ≤ k := by
  simpa [digitBytes] using (Nat.digits_length_le_iff (by decide : 1 < 10) n).mpr h

theorem valueFrom_append (acc : Nat) (xs ys : List UInt8) :
    valueFrom acc (xs ++ ys) = valueFrom (valueFrom acc xs) ys := List.foldl_append

theorem valueFrom_digitBytes (n : Nat) : valueFrom 0 (digitBytes n) = n := by
  induction n using Nat.strong_induction_on with
  | _ n ih =>
    rcases Nat.eq_zero_or_pos n with rfl | hpos
    · rw [digitBytes_zero]; rfl
    · have hdigit : (digit (n % 10)).toNat = 48 + n % 10 := toNat_digit (by omega)
      rw [digitBytes_of_pos hpos, valueFrom_append, ih (n / 10) (by omega)]
      simp only [valueFrom, List.foldl_cons, List.foldl_nil, hdigit]
      omega

/-- Reading decimal notation gives the number back. -/
theorem valueFrom_toDecimal (n : Nat) : valueFrom 0 (toDecimal n) = n := by
  unfold toDecimal
  split
  · subst n; rfl
  · exact valueFrom_digitBytes n

/-- The decimal notation of `n`: digits of value `n`, of which a zero comes first only if it is
    the only one. -/
structure Canonical (text : List UInt8) (n : Nat) : Prop where
  ne_nil : text ≠ []
  digits : ∀ b ∈ text, IsDigit b
  leading : text.head? = some 48 → text = [48]
  value : valueFrom 0 text = n

/-- The first digit is the last one that division by ten leaves. -/
theorem head?_digitBytes_ne {n : Nat} (h : n ≠ 0) : (digitBytes n).head? ≠ some 48 := by
  have hne : Nat.digits 10 n ≠ [] := Nat.digits_ne_nil_iff_ne_zero.mpr h
  have hlast := Nat.getLast_digit_ne_zero 10 h
  have hlt : (Nat.digits 10 n).getLast hne < 10 :=
    Nat.digits_lt_base (by decide) (List.getLast_mem hne)
  intro hzero
  rw [digitBytes, List.head?_map, List.head?_reverse, List.getLast?_eq_some_getLast hne,
    Option.map_some, Option.some.injEq] at hzero
  have hvalue := congrArg UInt8.toNat hzero
  rw [toNat_digit hlt] at hvalue
  exact hlast (Nat.add_left_cancel hvalue)

theorem canonical_toDecimal (n : Nat) : Canonical (toDecimal n) n := by
  refine ⟨toDecimal_ne_nil n, fun b => isDigit_of_mem_toDecimal, fun hzero => ?_,
    valueFrom_toDecimal n⟩
  by_cases hn : n = 0
  · rw [toDecimal, if_pos hn]
  · rw [toDecimal, if_neg hn] at hzero
    exact absurd hzero (head?_digitBytes_ne hn)

theorem le_valueFrom (acc : Nat) (bs : List UInt8) : acc ≤ valueFrom acc bs := by
  induction bs generalizing acc with
  | nil => exact Nat.le_refl acc
  | cons b bs ih =>
    have hstep : acc ≤ acc * 10 + (b.toNat - 48) := by omega
    exact hstep.trans (ih _)

/-- What has been read of a text has at most the value of the text. -/
theorem Canonical.valueFrom_le {text front : List UInt8} {n : Nat} (h : Canonical text n)
    (hfront : front <+: text) : valueFrom 0 front ≤ n := by
  obtain ⟨rest, rfl⟩ := hfront
  rw [← h.value, valueFrom_append]
  exact le_valueFrom _ rest

end Decimal
