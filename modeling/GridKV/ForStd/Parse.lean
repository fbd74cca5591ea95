import GridKV.ForStd.Go

/-!
# Reading a byte string from the front

Suffix parsers for little-endian fields and length-prefixed strings.  Each reader is
characterised by one equivalence: it returns a value exactly when the input starts
with the encoding of that value.  Code that walks a buffer with an offset is related
to them through `data.drop offset`.
-/

namespace Parse

open Go Endian

variable {w n offset : Nat} {bs data : Bytes}

/-- A `w`-byte little-endian number and what follows it. -/
def takeUint (w : Nat) (bs : Bytes) : Option (Nat × Bytes) :=
  if w ≤ bs.length then some (leNat (bs.take w), bs.drop w) else none

/-- A string behind a `w`-byte length and what follows it. -/
def takeString (w : Nat) (bs : Bytes) : Option (Bytes × Bytes) := do
  let (n, rest) ← takeUint w bs
  if n ≤ rest.length then some (rest.take n, rest.drop n) else none

/-- Up to `count` strings behind `w`-byte lengths, as many as are complete. -/
def takeStrings (w : Nat) : Nat → Bytes → List Bytes
  | 0, _ => []
  | count + 1, bs =>
    match takeString w bs with
    | none => []
    | some (s, rest) => s :: takeStrings w count rest

/-- A number in front is read back, cut to its width. -/
theorem takeUint_leBytes (w n : Nat) (rest : Bytes) :
    takeUint w (leBytes w n ++ rest) = some (n % 256 ^ w, rest) := by
  rw [takeUint, if_pos (by simp), List.take_left' (by simp), List.drop_left' (by simp),
    leNat_leBytes]

theorem takeUint_eq_some_iff {rest : Bytes} :
    takeUint w bs = some (n, rest) ↔ n < 256 ^ w ∧ bs = leBytes w n ++ rest := by
  unfold takeUint
  constructor
  · intro h
    split at h <;> cases h
    rename_i hlen
    have hw : (bs.take w).length = w := List.length_take_of_le hlen
    have hlt := leNat_lt (bs.take w)
    have hback := leBytes_leNat (bs.take w)
    rw [hw] at hlt hback
    exact ⟨hlt, by rw [hback, List.take_append_drop]⟩
  · rintro ⟨hn, rfl⟩
    have hread := takeUint_leBytes w n rest
    rw [Nat.mod_eq_of_lt hn] at hread
    exact hread

theorem takeString_eq_some_iff {s rest : Bytes} :
    takeString w bs = some (s, rest) ↔
      s.length < 256 ^ w ∧ bs = leBytes w s.length ++ (s ++ rest) := by
  constructor
  · intro h
    simp only [takeString, Option.bind_eq_bind, Option.bind_eq_some_iff, Prod.exists] at h
    obtain ⟨n, tail, huint, h⟩ := h
    obtain ⟨hn, rfl⟩ := takeUint_eq_some_iff.mp huint
    split at h <;> cases h
    rename_i hlen
    have hs : (tail.take n).length = n := List.length_take_of_le hlen
    rw [hs, List.take_append_drop]
    exact ⟨hn, rfl⟩
  · rintro ⟨hs, rfl⟩
    have huint : takeUint w (leBytes w s.length ++ (s ++ rest)) = some (s.length, s ++ rest) :=
      takeUint_eq_some_iff.mpr ⟨hs, rfl⟩
    simp [takeString, huint]

/-- The number at an offset, where enough bytes are left for it. -/
theorem takeUint_drop (h : offset + w ≤ data.length) :
    takeUint w (data.drop offset) =
      some (leNat ((data.drop offset).take w), data.drop (offset + w)) := by
  rw [takeUint, if_pos (by simp; omega), List.drop_drop]

theorem takeUint_drop_eq_none (h : data.length < offset + w) (hw : 0 < w) :
    takeUint w (data.drop offset) = none := by
  rw [takeUint, if_neg (by simp; omega)]

/-- The string at an offset, where enough bytes are left for it. -/
theorem takeString_drop (hw : offset + w ≤ data.length) (hn : leNat ((data.drop offset).take w) = n)
    (h : offset + w + n ≤ data.length) :
    takeString w (data.drop offset) =
      some ((data.drop (offset + w)).take n, data.drop (offset + w + n)) := by
  simp only [takeString, takeUint_drop hw, hn, Option.bind_eq_bind, Option.bind_some,
    List.drop_drop]
  rw [if_pos (by simp; omega)]

theorem takeString_drop_eq_none (hw : offset + w ≤ data.length)
    (hn : leNat ((data.drop offset).take w) = n) (h : data.length < offset + w + n) :
    takeString w (data.drop offset) = none := by
  simp only [takeString, takeUint_drop hw, hn, Option.bind_eq_bind, Option.bind_some]
  rw [if_neg (by simp; omega)]

theorem takeString_nil (hw : 0 < w) : takeString w [] = none := by
  rw [takeString, takeUint, if_neg (by simp; omega)]
  rfl

/-- A string whose length does not fit is cut to what is left of the length. -/
theorem takeString_leBytes (w : Nat) (s rest : Bytes) :
    takeString w (leBytes w s.length ++ (s ++ rest)) =
      some (s.take (s.length % 256 ^ w), s.drop (s.length % 256 ^ w) ++ rest) := by
  have hle : s.length % 256 ^ w ≤ s.length := Nat.mod_le _ _
  simp only [takeString, takeUint_leBytes, Option.bind_eq_bind, Option.bind_some]
  rw [if_pos (by simp; omega), List.take_append_of_le_length hle,
    List.drop_append_of_le_length hle]

/-- The strings that are read and their lengths fit into what they are read from. -/
theorem sum_takeStrings_le (w count : Nat) (bs : Bytes) :
    ((takeStrings w count bs).map fun s => w + s.length).sum ≤ bs.length := by
  induction count generalizing bs with
  | zero => exact Nat.zero_le _
  | succ count ih =>
    unfold takeStrings
    cases h : takeString w bs with
    | none => exact Nat.zero_le _
    | some out =>
      obtain ⟨s, rest⟩ := out
      obtain ⟨-, rfl⟩ := takeString_eq_some_iff.mp h
      have hrest := ih rest
      simp only [List.map_cons, List.sum_cons, List.length_append, length_leBytes]
      omega

/-- Reading strings back from their concatenated encodings. -/
theorem takeStrings_flatMap (hw : 0 < w) {strings : List Bytes} {count : Nat}
    (hcount : strings.length ≤ count) (hlen : ∀ s ∈ strings, s.length < 256 ^ w) :
    takeStrings w count (strings.flatMap fun s => leBytes w s.length ++ s) = strings := by
  induction strings generalizing count with
  | nil =>
    cases count with
    | zero => rfl
    | succ count => rw [List.flatMap_nil, takeStrings, takeString_nil hw]
  | cons s strings ih =>
    obtain ⟨hs, hstrings⟩ := List.forall_mem_cons.mp hlen
    cases count with
    | zero => simp at hcount
    | succ count =>
      have hread : takeString w ((s :: strings).flatMap fun s => leBytes w s.length ++ s) =
          some (s, strings.flatMap fun s => leBytes w s.length ++ s) :=
        takeString_eq_some_iff.mpr ⟨hs, by simp⟩
      rw [takeStrings, hread]
      simp only [ih (Nat.le_of_succ_le_succ hcount) hstrings]

end Parse
