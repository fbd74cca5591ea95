import GridKV.Model.ConflictRules

/-!
# Conflict resolution and last write wins

The documented rules of `ResolveConflict` are those of a last-write-wins register: the
higher version wins, and between equal versions the one that has not expired.  The close
and the medium time window do not change the outcome.  Two branches do: two equal negative
versions are compared without a look at their expiry, and an item from beyond the clock
plus one hour is refused, where the sum wraps in the last hour of the `int64` range.
-/

namespace GridKV

open Go

namespace StoredItem

variable {now : Time} {item other : StoredItem}

/-- The documented rules prefer `other`. -/
def Prefers (now : Time) (item other : StoredItem) : Prop :=
  item.version < other.version ∨
    item.version = other.version ∧ item.isExpired now ∧ ¬ other.isExpired now

/-- `ResolveConflict` follows the documented rules on two items. -/
def LastWriteWins (now : Time) (item other : StoredItem) : Prop :=
  (item.version ≠ other.version →
      (item.resolveConflict now (some other) ↔ item.version < other.version)) ∧
    (item.version = other.version →
      (item.resolveConflict now (some other) ↔ item.isExpired now ∧ ¬ other.isExpired now))

/-- Two items with one negative version, of which only the stored one has expired. -/
def OldEncodingTie (now : Time) (item other : StoredItem) : Prop :=
  item.version = other.version ∧ item.version < 0 ∧ item.isExpired now ∧ ¬ other.isExpired now

/-- An item the rules prefer, with a timestamp later than the clock plus one hour as the
    machine adds them. -/
def PastHorizon (now : Time) (item other : StoredItem) : Prop :=
  0 ≤ item.version ∧ Prefers now item other ∧ unixNano now + hour < other.version >>> 16

theorem lastWriteWins_iff :
    LastWriteWins now item other ↔
      (item.resolveConflict now (some other) ↔ Prefers now item other) := by
  unfold LastWriteWins Prefers
  by_cases heq : item.version = other.version
  · have hirrefl : ¬ item.version < other.version := by rw [heq]; exact Int64.lt_irrefl
    simp [heq]
  · simp [heq]

/-! ### Timestamps of versions -/

theorem toInt_shiftRight_16 (v : Int64) : (v >>> 16).toInt = v.toInt / 65536 := by
  have hshift : ((16 : Int64).toBitVec.smod 64).toNat = 16 := by decide
  rw [← Int64.toInt_toBitVec, Int64.toBitVec_shiftRight, BitVec.sshiftRight', hshift,
    BitVec.toInt_sshiftRight, Int64.toInt_toBitVec, Int.shiftRight_eq_div_pow]
  rfl

/-- Two numbers that are not negative have a difference in range. -/
theorem toInt_sub_of_nonneg {a b : Int64} (ha : 0 ≤ a.toInt) (hb : 0 ≤ b.toInt) :
    (a - b).toInt = a.toInt - b.toInt := by
  have ha' := a.toInt_lt
  have hb' := b.toInt_lt
  rw [Int64.toInt_sub, Int.bmod_eq_of_le (by omega) (by omega)]

theorem toInt_timeDiff {a b : Int64} (ha : 0 ≤ a.toInt) (hb : 0 ≤ b.toInt) :
    (timeDiff a b).toInt = |b.toInt - a.toInt| := by
  unfold timeDiff
  split
  · rename_i h
    have hlt : a.toInt < b.toInt := Int64.lt_iff_toInt_lt.mp h
    rw [toInt_sub_of_nonneg hb ha, abs_of_pos (by omega)]
  · rename_i h
    have hle : b.toInt ≤ a.toInt := Int64.le_iff_toInt_le.mp (Int64.not_lt.mp h)
    rw [toInt_sub_of_nonneg ha hb, abs_of_nonpos (by omega)]
    omega

/-- Outside the close window a higher version is higher by more than the minimal gap: the
    timestamps alone are 100 milliseconds apart. -/
theorem minVersionGap_lt_iff (hitem : 0 ≤ item.version) (hother : 0 ≤ other.version)
    (hfar : ¬ timeDiff (item.version >>> 16) (other.version >>> 16) ≤ closeTimeWindow) :
    other.version - item.version > minVersionGap ↔ item.version < other.version := by
  have hitem' : 0 ≤ item.version.toInt := Int64.le_iff_toInt_le.mp hitem
  have hother' : 0 ≤ other.version.toInt := Int64.le_iff_toInt_le.mp hother
  have hitemTs := toInt_shiftRight_16 item.version
  have hotherTs := toInt_shiftRight_16 other.version
  have hdiff := toInt_timeDiff (a := item.version >>> 16) (b := other.version >>> 16)
    (by omega) (by omega)
  rw [Int64.le_iff_toInt_le, hdiff, hitemTs, hotherTs, abs_le, closeTimeWindow] at hfar
  rw [gt_iff_lt, Int64.lt_iff_toInt_lt, Int64.lt_iff_toInt_lt,
    toInt_sub_of_nonneg hother' hitem', minVersionGap]
  have h₁ : (100000000 : Int64).toInt = 100000000 := by decide
  have h₂ : (1000 : Int64).toInt = 1000 := by decide
  omega

theorem resolveStrictly_iff : resolveStrictly now item other ↔ Prefers now item other := by
  unfold resolveStrictly Prefers
  split
  · rename_i hlt
    simp [show item.version < other.version from hlt]
  · rename_i hge
    split
    · rename_i hgt
      simp [show ¬ item.version < other.version from hge, (Int64.ne_of_lt hgt).symm]
    · rename_i hle
      have heq : item.version = other.version :=
        Int64.le_antisymm (Int64.not_lt.mp hle) (Int64.not_lt.mp hge)
      cases item.isExpired now <;> cases other.isExpired now <;> simp [heq]

/-- Where neither version is negative, the horizon is all that matters. -/
theorem resolveConflict_of_nonneg (hitem : 0 ≤ item.version) (hother : 0 ≤ other.version) :
    item.resolveConflict now (some other) ↔
      Prefers now item other ∧ ¬ unixNano now + hour < item.version >>> 16 ∧
        ¬ unixNano now + hour < other.version >>> 16 := by
  have hneg : ¬ item.version < 0 := Int64.not_lt.mpr hitem
  have hneg' : ¬ other.version < 0 := Int64.not_lt.mpr hother
  unfold resolveConflict
  dsimp only
  rw [if_neg (fun h => hneg h.1), if_neg (not_or.mpr ⟨hneg, hneg'⟩)]
  split
  · rename_i hbeyond
    simp only [gt_iff_lt] at hbeyond
    constructor
    · intro h
      cases h
    · rintro ⟨-, hitemIn, hotherIn⟩
      exact absurd hbeyond (not_or.mpr ⟨hitemIn, hotherIn⟩)
  · rename_i hin
    simp only [gt_iff_lt, not_or] at hin
    -- Whatever the distance of the timestamps, the strict comparison decides.
    have hstrict : other.version ≠ item.version →
        (item.version < other.version ↔ Prefers now item other) := by
      intro hne
      simp [Prefers, Ne.symm hne]
    split
    · rename_i hclose
      simp [hin, ← hstrict hclose.2]
    · rename_i hfar
      split
      · rename_i hmedium
        have hgap := minVersionGap_lt_iff hitem hother fun h => hfar ⟨h, hmedium.2⟩
        simp [hin, hgap, ← hstrict hmedium.2]
      · simp [hin, resolveStrictly_iff]

/-- With a negative version only a strictly higher one is taken. -/
theorem resolveConflict_of_neg (hneg : item.version < 0 ∨ other.version < 0) :
    item.resolveConflict now (some other) ↔ item.version < other.version := by
  unfold resolveConflict
  dsimp only
  split
  · rename_i h
    have hlt : item.version < other.version := Int64.lt_of_lt_of_le h.1 h.2
    simp [hlt]
  · simp

/-- For clock readings up to the last hour of the `int64` range no version is from beyond
    the horizon: a version's timestamp has 47 bits. -/
theorem not_pastHorizon (hnow : (2 ^ 47 : Int) ≤ now)
    (hlast : (2 ^ 63 - 3600000000000 : Int) > now) :
    ¬ PastHorizon now item other := by
  rintro ⟨-, -, hbeyond⟩
  have hts := toInt_shiftRight_16 other.version
  have hlt := other.version.toInt_lt
  have hclock : (unixNano now + hour).toInt = now + 3600000000000 := by
    have hhour : hour.toInt = 3600000000000 := by decide
    rw [unixNano, Int64.toInt_add, Int64.toInt_ofInt_of_le (by omega) (by omega), hhour,
      Int.bmod_eq_of_le (by omega) (by omega)]
  rw [Int64.lt_iff_toInt_lt, hclock] at hbeyond
  omega

/-- `ResolveConflict` is last write wins except on ties between negative versions and
    beyond the horizon. -/
theorem lastWriteWins_iff_not_tie (now : Time) (item other : StoredItem) :
    LastWriteWins now item other ↔
      ¬ OldEncodingTie now item other ∧ ¬ PastHorizon now item other := by
  rw [lastWriteWins_iff]
  by_cases hneg : item.version < 0 ∨ other.version < 0
  · rw [resolveConflict_of_neg hneg]
    -- A preferred item is not negative below a stored one that is not.
    have hpast : ¬ PastHorizon now item other := by
      rintro ⟨hitem, hpref | hpref, -⟩
      · exact hneg.elim (Int64.not_lt.mpr hitem)
          (Int64.not_lt.mpr (Int64.le_trans hitem (Int64.le_of_lt hpref)))
      · exact hneg.elim (Int64.not_lt.mpr hitem) (Int64.not_lt.mpr (hpref.1 ▸ hitem))
    constructor
    · intro hrules
      refine ⟨?_, hpast⟩
      rintro ⟨heq, -, hexpired⟩
      have hlt := hrules.mpr (.inr ⟨heq, hexpired⟩)
      exact Int64.ne_of_lt hlt heq
    · rintro ⟨htie, -⟩
      refine ⟨.inl, ?_⟩
      rintro (hlt | ⟨heq, hexpired⟩)
      · exact hlt
      · refine absurd ⟨heq, ?_, hexpired⟩ htie
        exact hneg.elim id fun h => heq ▸ h
  · obtain ⟨hitem, hother⟩ := not_or.mp hneg
    rw [resolveConflict_of_nonneg (Int64.not_lt.mp hitem) (Int64.not_lt.mp hother)]
    constructor
    · intro hrules
      refine ⟨fun htie => hitem htie.2.1, ?_⟩
      rintro ⟨-, hpref, hbeyond⟩
      exact (hrules.mpr hpref).2.2 hbeyond
    · rintro ⟨-, hpast⟩
      refine ⟨And.left, fun hpref => ?_⟩
      have hin : ¬ unixNano now + hour < other.version >>> 16 := fun h =>
        hpast ⟨Int64.not_lt.mp hitem, hpref, h⟩
      refine ⟨hpref, fun hbeyond => hin (Int64.lt_of_lt_of_le hbeyond ?_), hin⟩
      -- The preferred version is at least as high, and so is its timestamp.
      have hle : item.version.toInt ≤ other.version.toInt := by
        rcases hpref with hlt | ⟨heq, -⟩
        · exact (Int64.lt_iff_toInt_lt.mp hlt).le
        · rw [heq]
      rw [Int64.le_iff_toInt_le, toInt_shiftRight_16, toInt_shiftRight_16]
      omega

/-- A tombstone of an old version, and the same version without an expiry. -/
def oldItem (expireAt : Time) : StoredItem where
  version := -1
  expireAt
  value := []
  key := ascii "k"

/-- The expired item stays although the other one has its version and does not expire. -/
theorem expired_tie_kept :
    (2 : Int) ^ 47 ≤ 2 ^ 60 ∧ ¬ LastWriteWins (2 ^ 60) (oldItem 1) (oldItem zeroTime) := by
  refine ⟨by decide, fun hrules => ?_⟩
  have hkept : (oldItem 1).resolveConflict (2 ^ 60) (some (oldItem zeroTime)) = false := by decide
  have hexpired : (oldItem 1).isExpired (2 ^ 60) ∧ ¬ (oldItem zeroTime).isExpired (2 ^ 60) := by
    decide
  have htaken := (hrules.2 rfl).mpr hexpired
  rw [hkept] at htaken
  cases htaken

end StoredItem

end GridKV
