import GridKV.Model.Member

/-!
# The proxy of an indirect probe

`tryIndirectProbe` picks the member to ask by a hash of the target's ID, and it negates a
negative hash to have an index.  The smallest `int` is its own negation, so for an ID that
hashes to it the index is negative and the probe panics, unless the number of members
divides `2 ^ 63` (`proxyIndex_in_range_iff`).
-/

namespace GridKV

open Go

variable (targetID : GoString) {aliveMembers : List GoString}

/-- A negated hash is not negative, unless it is the smallest `int`, which is its own negation. -/
theorem proxyIndex_eq (aliveMembers : List GoString) :
    proxyIndex targetID aliveMembers =
      if runeHash targetID = Int64.minValue then -((2 ^ 63 % aliveMembers.length : Nat) : Int)
      else (((runeHash targetID).toInt.natAbs % aliveMembers.length : Nat) : Int) := by
  unfold proxyIndex
  generalize runeHash targetID = hash
  by_cases hmin : hash = Int64.minValue
  · subst hmin
    rw [if_pos rfl]
    exact Int.neg_tmod (a := 2 ^ 63) (b := aliveMembers.length)
  · have hnotMin : hash.toInt ≠ -2 ^ 63 := fun h => hmin (Int64.toInt_inj.mp h)
    have habs : (if hash < 0 then -hash else hash).toInt = hash.toInt.natAbs := by
      have hlow := hash.le_toInt
      by_cases hneg : hash < 0
      · have hlt : hash.toInt < 0 := by simpa [Int64.lt_iff_toInt_lt] using hneg
        rw [if_pos hneg, Int64.toInt_neg, Int.bmod_eq_of_le (by omega) (by omega)]
        omega
      · have hnonneg : 0 ≤ hash.toInt := by simpa [Int64.lt_iff_toInt_lt] using hneg
        rw [if_neg hneg]
        omega
    rw [if_neg hmin]
    dsimp only
    rw [habs]
    exact Int.ofNat_tmod _ _ |>.symm

theorem proxyIndex_in_range_iff (hmembers : aliveMembers ≠ []) :
    (0 ≤ proxyIndex targetID aliveMembers ∧
        proxyIndex targetID aliveMembers ≤ aliveMembers.length - 1) ↔
      runeHash targetID ≠ Int64.minValue ∨ aliveMembers.length ∣ 2 ^ 63 := by
  have hpos := List.length_pos_iff.mpr hmembers
  rw [proxyIndex_eq]
  by_cases hmin : runeHash targetID = Int64.minValue
  · rw [if_pos hmin, Nat.dvd_iff_mod_eq_zero]
    constructor
    · rintro ⟨hnonneg, -⟩
      exact .inr (by omega)
    · rintro (hne | hmod)
      · exact absurd hmin hne
      · rw [hmod]
        omega
  · have hlt := Nat.mod_lt (runeHash targetID).toInt.natAbs hpos
    rw [if_neg hmin]
    exact ⟨fun _ => .inl hmin, fun _ => by omega⟩

theorem proxyIndex_in_range_node :
    [ascii "a", ascii "b"] ≠ [] ∧
      0 ≤ proxyIndex (ascii "node") [ascii "a", ascii "b"] ∧
      proxyIndex (ascii "node") [ascii "a", ascii "b"] ≤ [ascii "a", ascii "b"].length - 1 := by
  have hne : [ascii "a", ascii "b"] ≠ [] := nofun
  exact ⟨hne, (proxyIndex_in_range_iff _ hne).mpr (.inl (by decide +kernel))⟩

/-- A node ID whose hash is the smallest `int`, and three members to ask. -/
theorem proxyIndex_negative :
    proxyIndex (ascii "node-gb10038xb2ywzd") [ascii "a", ascii "b", ascii "c"] = -2 := by
  decide +kernel

/-- Only the remainder of the hash matters to the choice. -/
theorem tryIndirectProbe_mod (m : MemberMgr) (hash : Nat) :
    m.tryIndirectProbe targetID (hash % (m.aliveMembers targetID).length) =
      m.tryIndirectProbe targetID hash := by
  unfold MemberMgr.tryIndirectProbe MemberMgr.aliveMembers
  dsimp only
  rw [Nat.mod_mod]

/-- The probe panics at a negative index, and otherwise asks the member that the absolute
    value of the hash tells. -/
theorem tryIndirectProbeOrPanic_eq {m : MemberMgr} (hmembers : m.aliveMembers targetID ≠ []) :
    m.tryIndirectProbeOrPanic targetID =
      if 0 ≤ proxyIndex targetID (m.aliveMembers targetID) then
        .ok (m.tryIndirectProbe targetID (runeHash targetID).toInt.natAbs)
      else .error .indexOutOfRange := by
  have hindex := proxyIndex_eq targetID (m.aliveMembers targetID)
  simp only [MemberMgr.tryIndirectProbeOrPanic, if_neg hmembers]
  cases hcase : proxyIndex targetID (m.aliveMembers targetID) with
  | ofNat i =>
    have hi : i = (runeHash targetID).toInt.natAbs % (m.aliveMembers targetID).length := by
      rw [hcase, Int.ofNat_eq_natCast] at hindex
      split at hindex
      · rename_i hmin
        have habs : (runeHash targetID).toInt.natAbs = 2 ^ 63 := by rw [hmin]; rfl
        rw [habs]
        omega
      · exact Int.ofNat_inj.mp hindex
    have hnonneg : 0 ≤ Int.ofNat i := Int.natCast_nonneg i
    rw [if_pos hnonneg]
    dsimp only
    rw [hi, tryIndirectProbe_mod]
  | negSucc i =>
    rw [if_neg (Int.not_le.mpr (Int.negSucc_lt_zero i))]

end GridKV
