import GridKV.ForStd.Lww
import GridKV.Spec.Causality

/-!
# Merging remote timestamps

A clock that is updated with remote timestamps is a last-write-wins register for the pair
of its fields, ordered lexicographically: each well-formed timestamp offers the pair it
spells out (`update_eq_put`).  So what the clock ends up with depends only on which
timestamps it has seen.
-/

namespace GridKV

open Go Decimal

/-- One or more decimal digits that spell a number below `2 ^ 63`. -/
structure Spelled (text : GoString) : Prop where
  ne_nil : text ≠ []
  digits : ∀ b ∈ text, IsDigit b
  value_lt : valueFrom 0 text < 2 ^ 63

/-- A well-formed timestamp `nodeID:timestamp:counter`; leading zeros may stand. -/
structure RemoteStamp where
  nodeID : GoString
  tsStr : GoString
  ctrStr : GoString
  nodeID_plain : colon ∉ nodeID
  ts_spelled : Spelled tsStr
  ctr_spelled : Spelled ctrStr

namespace RemoteStamp

def text (remote : RemoteStamp) : GoString :=
  remote.nodeID ++ colon :: (remote.tsStr ++ colon :: remote.ctrStr)

/-- The pair of timestamp and counter that the text spells out. -/
def stamp (remote : RemoteStamp) : ℤ ×ₗ ℕ :=
  toLex ((valueFrom 0 remote.tsStr : Int), valueFrom 0 remote.ctrStr)

end RemoteStamp

theorem Spelled.colon_not_mem {text : GoString} (h : Spelled text) : colon ∉ text := by
  intro hmem
  have hdigit := h.digits colon hmem
  revert hdigit
  decide

theorem Spelled.toInt_ofNat {text : GoString} (h : Spelled text) :
    (Int64.ofNat (valueFrom 0 text)).toInt = valueFrom 0 text :=
  Int64.toInt_ofNat_of_lt h.value_lt

theorem Spelled.toNat_ofNat {text : GoString} (h : Spelled text) :
    (UInt64.ofNat (valueFrom 0 text)).toNat = valueFrom 0 text :=
  UInt64.toNat_ofNat_of_lt (Nat.lt_of_lt_of_le h.value_lt (by decide))

/-- A well-formed timestamp is read as the pair it spells out. -/
theorem parseHLC_text (remote : RemoteStamp) :
    parseHLC remote.text =
      some (Int64.ofNat (valueFrom 0 remote.tsStr), UInt64.ofNat (valueFrom 0 remote.ctrStr)) := by
  rw [RemoteStamp.text, parseHLC_fields remote.nodeID_plain remote.ts_spelled.colon_not_mem
    remote.ctr_spelled.ne_nil]
  have hts : parseTimestamp remote.tsStr 0 = some (Int64.ofNat (valueFrom 0 remote.tsStr)) :=
    parseTimestamp_digits remote.ts_spelled.digits 0
  have hctr : parseCounter remote.ctrStr 0 = UInt64.ofNat (valueFrom 0 remote.ctrStr) :=
    parseCounter_digits remote.ctr_spelled.digits 0
  rw [hts, hctr, Option.map_some]

/-- One update offers the remote pair to the clock. -/
theorem update_eq_put (h : HLC) (remote : RemoteStamp) :
    some (h.update remote.text).stamp = Lww.put id (some h.stamp) remote.stamp := by
  obtain ⟨hown, hremote, -, hpair⟩ := update_cases (h := h) (parseHLC_text remote)
  rw [remote.ts_spelled.toInt_ofNat, remote.ctr_spelled.toNat_ofNat] at hremote
  simp only [Lww.put, id_eq]
  rcases hpair with ⟨hts, hctr⟩ | ⟨hts, hctr⟩
  · -- The clock stays, so the remote pair was not larger.
    have hsame : (h.update remote.text).stamp = h.stamp := by rw [HLC.stamp, hts, hctr]; rfl
    have hle : remote.stamp ≤ h.stamp := hsame ▸ hremote
    rw [hsame, if_neg (not_lt.mpr hle)]
  · have hmoved : (h.update remote.text).stamp = remote.stamp := by
      rw [HLC.stamp, hts, hctr, remote.ts_spelled.toInt_ofNat, remote.ctr_spelled.toNat_ofNat]
      rfl
    rw [hmoved] at hown ⊢
    split
    · rfl
    · rename_i hnot
      rw [le_antisymm hown (not_lt.mp hnot)]

/-- `HLC.Update` on one timestamp after another. -/
def updates (h : HLC) (remotes : List RemoteStamp) : HLC :=
  remotes.foldl (fun h remote => h.update remote.text) h

theorem updates_eq_foldl_put (h : HLC) (remotes : List RemoteStamp) :
    some (updates h remotes).stamp =
      (remotes.map RemoteStamp.stamp).foldl (Lww.put id) (some h.stamp) := by
  induction remotes generalizing h with
  | nil => rfl
  | cons remote remotes ih =>
    rw [updates, List.foldl_cons, ← updates, ih, update_eq_put, List.map_cons, List.foldl_cons]

/-- The clock ends at the lexicographic maximum of where it was and of what it was told,
    in whatever order and how often it was told. -/
theorem stamp_updates_isGreatest (h : HLC) (remotes told : List RemoteStamp)
    (hsame : ∀ remote, remote ∈ told ↔ remote ∈ remotes) :
    IsGreatest {p | p = h.stamp ∨ ∃ remote ∈ remotes, p = remote.stamp}
      (updates h told).stamp := by
  have hhighest := Lww.isHighest_foldl_put id (some h.stamp) (told.map RemoteStamp.stamp)
  rw [← updates_eq_foldl_put] at hhighest
  obtain ⟨hheld, hmax⟩ := hhighest
  constructor
  · rcases hheld with hstart | htold
    · exact .inl (Option.some.inj hstart).symm
    · obtain ⟨remote, hmem, heq⟩ := List.mem_map.mp htold
      exact .inr ⟨remote, (hsame remote).mp hmem, heq.symm⟩
  · rintro p (rfl | ⟨remote, hmem, rfl⟩)
    · exact hmax _ (.inl rfl)
    · exact hmax _ (.inr (List.mem_map_of_mem ((hsame remote).mpr hmem)))

theorem spelled_toDecimal {n : Nat} (h : n < 2 ^ 63) : Spelled (toDecimal n) where
  ne_nil := toDecimal_ne_nil n
  digits := fun _ hb => isDigit_of_mem_toDecimal hb
  value_lt := by rwa [valueFrom_toDecimal]

/-- The timestamp `:7:7` of a node without a name. -/
def remoteSeven : RemoteStamp where
  nodeID := []
  tsStr := toDecimal 7
  ctrStr := toDecimal 7
  nodeID_plain := by simp
  ts_spelled := spelled_toDecimal (by decide)
  ctr_spelled := spelled_toDecimal (by decide)

theorem stamp_updates_isGreatest_twice :
    (∀ remote, remote ∈ [remoteSeven, remoteSeven] ↔ remote ∈ [remoteSeven]) ∧
      IsGreatest {p | p = (newHLC (ascii "n")).stamp ∨ ∃ remote ∈ [remoteSeven], p = remote.stamp}
        (updates (newHLC (ascii "n")) [remoteSeven, remoteSeven]).stamp :=
  have hsame : ∀ remote, remote ∈ [remoteSeven, remoteSeven] ↔ remote ∈ [remoteSeven] := by simp
  ⟨hsame, stamp_updates_isGreatest _ _ _ hsame⟩

end GridKV
