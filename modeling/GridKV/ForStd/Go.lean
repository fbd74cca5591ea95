import GridKV.ForStd.Endian

/-!
# Go byte strings, slices, times and panics

Go strings and byte slices are both finite byte sequences; a nil slice and an
empty one are the same list here.  The partial operations (slicing, fixed-width
reads, following a pointer) end in a `Panic` exactly when the Go run time does,
so that "this code never panics" is a statement about the value a decoder
returns.
-/

namespace Go

abbrev Bytes := List UInt8

/-- A Go string is an immutable byte sequence, not a sequence of characters. -/
abbrev GoString := List UInt8

/-- Whether a list of strings has a string. -/
instance decidableMemStrings (s : GoString) (l : List GoString) : Decidable (s ∈ l) :=
  inferInstance

/-- The bytes of a string literal whose characters are all ASCII. -/
def ascii (s : String) : GoString := s.toList.map fun c => UInt8.ofNat c.toNat

/-- The runes that a `range` over a string visits.  A byte that starts no UTF-8 sequence counts
    as the rune `utf8.RuneError`; `skip` bytes belong to the rune before. -/
def runesFrom (skip : Nat) : GoString → List Nat
  | [] => []
  | b :: s =>
    match skip with
    | skip + 1 => runesFrom skip s
    | 0 =>
      match (ByteArray.mk (b :: s).toArray).utf8DecodeChar? 0 with
      | some c => c.toNat :: runesFrom (c.utf8Size - 1) s
      | none => 0xFFFD :: runesFrom 0 s

/-- The runes of a string. -/
def runes (s : GoString) : List Nat := runesFrom 0 s

/-- `sync.Map` and `map` keyed by strings.  `Range` visits the entries in an
    unspecified order; the order of `entries` stands for it. -/
abbrev GoMap (V : Type) := AList fun _ : GoString => V

/-- Points in time, as nanoseconds since the Unix epoch. -/
abbrev Time := Int

/-- `time.Time{}` -/
def zeroTime : Time := -62135596800 * 1000000000

/-- `Time.UnixNano`, which wraps outside the `int64` range. -/
def unixNano (t : Time) : Int64 := Int64.ofInt t

/-- The run-time panics the modelled code could raise. -/
inductive Panic where
  | indexOutOfRange
  | nilDereference
  deriving DecidableEq, Repr

/-- A computation that may panic. -/
abbrev Exec (α : Type) := Except Panic α

variable {α : Type} {data : Bytes} (start field rest : Bytes) {w lo : Nat} (a : α)

@[simp] theorem ok_bind {β : Type} (f : α → Exec β) : (Except.ok a >>= f) = f a := rfl

@[simp] theorem pure_eq_ok : (pure a : Exec α) = .ok a := rfl

/-- `data[lo:]` -/
def sliceFrom (data : Bytes) (lo : Nat) : Exec Bytes :=
  if lo ≤ data.length then .ok (data.drop lo) else .error .indexOutOfRange

/-- `data[lo:hi]` -/
def slice (data : Bytes) (lo hi : Nat) : Exec Bytes :=
  if lo ≤ hi ∧ hi ≤ data.length then .ok ((data.take hi).drop lo) else .error .indexOutOfRange

/-- `binary.LittleEndian.Uint16`, `Uint32` and `Uint64` at widths 2, 4 and 8:
    the read panics when fewer than `w` bytes are left. -/
def leUint (w : Nat) (data : Bytes) : Exec Nat :=
  if w ≤ data.length then .ok (Endian.leNat (data.take w)) else .error .indexOutOfRange

/-- `binary.BigEndian.Uint32` and `Uint64` at widths 4 and 8. -/
def beUint (w : Nat) (data : Bytes) : Exec Nat :=
  if w ≤ data.length then .ok (Endian.beNat (data.take w)) else .error .indexOutOfRange

/-- `data[i]` -/
def index (data : Bytes) (i : Nat) : Exec UInt8 :=
  match data[i]? with
  | some b => .ok b
  | none => .error .indexOutOfRange

/-- Following a pointer: a nil pointer panics. -/
def deref {α : Type} (p : Option α) : Exec α :=
  match p with
  | some a => .ok a
  | none => .error .nilDereference

/-- `copy(data[lo:], src)`: as much of `src` as there is room for. -/
def copyAt (data : Bytes) (lo : Nat) (src : Bytes) : Bytes :=
  data.take lo ++ src.take (data.length - lo) ++ data.drop (lo + src.length)

/-- Cutting the middle field out of three concatenated ones. -/
theorem drop_take_append :
    ((start ++ (field ++ rest)).take (start.length + field.length)).drop start.length = field := by
  rw [List.drop_take, List.drop_left]
  simp

theorem sliceFrom_eq_ok (h : lo ≤ data.length) : sliceFrom data lo = .ok (data.drop lo) := by
  simp [sliceFrom, h]

theorem slice_eq_ok {n : Nat} (h : lo + n ≤ data.length) :
    slice data lo (lo + n) = .ok ((data.drop lo).take n) := by
  have hcut : (data.take (lo + n)).drop lo = (data.drop lo).take n := by
    rw [List.drop_take, Nat.add_sub_cancel_left]
  simp [slice, h, hcut]

/-- Slicing the middle field out of three concatenated ones. -/
theorem slice_append :
    slice (start ++ (field ++ rest)) start.length (start.length + field.length) = .ok field := by
  rw [slice_eq_ok (by simp), List.drop_left, List.take_left]

/-- Copying to the front of the second of two concatenated fields. -/
theorem copyAt_append {field src : Bytes} (h : src.length ≤ field.length) :
    copyAt (start ++ field) start.length src = start ++ (src ++ field.drop src.length) := by
  have hroom : (start ++ field).length - start.length = field.length := by simp
  rw [copyAt, List.take_left, hroom, List.take_of_length_le h, List.append_assoc,
    ← List.drop_drop, List.drop_left]

/-- Copying over the first of two concatenated fields. -/
theorem copyAt_zero {field rest src : Bytes} (h : src.length = field.length) :
    copyAt (field ++ rest) 0 src = src ++ rest := by
  have hroom : src.length ≤ (field ++ rest).length - 0 := by simp [h]
  rw [copyAt, List.take_zero, List.nil_append, List.take_of_length_le hroom, Nat.zero_add, h,
    List.drop_left]

theorem leUint_eq_ok (h : w ≤ data.length) : leUint w data = .ok (Endian.leNat (data.take w)) := by
  simp [leUint, h]

theorem beUint_eq_ok (h : w ≤ data.length) : beUint w data = .ok (Endian.beNat (data.take w)) := by
  simp [beUint, h]

/-- A big-endian field reads back as the number written, cut to its width. -/
theorem beUint_beBytes (w n : Nat) : beUint w (Endian.beBytes w n) = .ok (n % 256 ^ w) := by
  rw [beUint_eq_ok (by simp), List.take_of_length_le (by simp), Endian.beNat_beBytes]

end Go
