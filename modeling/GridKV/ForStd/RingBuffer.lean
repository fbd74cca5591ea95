import Mathlib

/-!
# Ring buffers that drop their oldest elements

A fixed number of slots, and two counters that only grow: `head` counts the elements
ever pushed, `tail` those drained or dropped, and counter value `i` lives in slot
`i % capacity`.  Pushing into a full buffer drops the oldest element.  The queue a
buffer stands for is `toList`, oldest element first; slots outside the window between
the counters may hold anything.
-/

/-- Of a list and one more element, the last `n` come from the last `n` of the list. -/
theorem List.rtake_rtake_append {α : Type} {n : Nat} (hn : 0 < n) (l : List α) (a : α) :
    (l.rtake n ++ [a]).rtake n = (l ++ [a]).rtake n := by
  obtain ⟨m, rfl⟩ : ∃ m, n = m + 1 := ⟨n - 1, by omega⟩
  have htake : (l.rtake (m + 1)).rtake m = l.rtake m := by
    simp only [rtake_eq_reverse_take_reverse, reverse_reverse, take_take]
    rw [Nat.min_eq_left (Nat.le_succ m)]
  rw [rtake_concat_succ, rtake_concat_succ, htake]

/-- A ring buffer whose window is filled: it is at most `capacity` long and has an
    element in every slot. -/
structure RingBuffer (α : Type) (capacity : Nat) where
  slots : Nat → Option α
  head : Nat
  tail : Nat
  capacity_pos : 0 < capacity
  tail_le_head : tail ≤ head
  window_le : head - tail ≤ capacity
  filled : ∀ i, tail ≤ i → i < head → (slots (i % capacity)).isSome

namespace RingBuffer

open List Function

variable {α : Type} {capacity : Nat} (r : RingBuffer α capacity) (a : α) {first newTail n : Nat}

/-- Two counter values less than a full turn apart have different slots. -/
theorem mod_ne_mod {i j : Nat} (hij : i < j) (hturn : j - i < capacity) :
    i % capacity ≠ j % capacity := by
  intro heq
  have hzero : (j - i) % capacity = 0 := Nat.sub_mod_eq_zero_of_mod_eq heq.symm
  rw [Nat.mod_eq_of_lt hturn] at hzero
  omega

/-- Empty the slots of the counter values from `first` up to `first + n`. -/
def clearSlots (capacity : Nat) (slots : Nat → Option α) (first : Nat) : Nat → Nat → Option α
  | 0 => slots
  | n + 1 => update (clearSlots capacity slots first n) ((first + n) % capacity) none

theorem clearSlots_of_ne (slots : Nat → Option α) {p : Nat}
    (hp : ∀ i, first ≤ i → i < first + n → i % capacity ≠ p) :
    clearSlots capacity slots first n p = slots p := by
  induction n with
  | zero => rfl
  | succ n ih =>
    rw [clearSlots, update_of_ne (hp (first + n) (by omega) (by omega)).symm]
    exact ih fun i hfirst hlt => hp i hfirst (by omega)

/-! ### Operations -/

def empty (h : 0 < capacity) : RingBuffer α capacity where
  slots := fun _ => none
  head := 0
  tail := 0
  capacity_pos := h
  tail_le_head := Nat.le_refl _
  window_le := Nat.zero_le _
  filled := fun _ _ hlt => absurd hlt (Nat.not_lt_zero _)

/-- The waiting elements, oldest first. -/
def toList (r : RingBuffer α capacity) : List α :=
  (range' r.tail (r.head - r.tail)).filterMap fun i => r.slots (i % capacity)

/-- Drop what is older than the counter value `newTail`. -/
def dropOldest (r : RingBuffer α capacity) (newTail : Nat) (hge : r.tail ≤ newTail)
    (hle : newTail ≤ r.head) : RingBuffer α capacity where
  slots := clearSlots capacity r.slots r.tail (newTail - r.tail)
  head := r.head
  tail := newTail
  capacity_pos := r.capacity_pos
  tail_le_head := hle
  window_le := by have := r.window_le; omega
  filled := by
    intro i hi hlt
    have hwindow := r.window_le
    rw [clearSlots_of_ne]
    · exact r.filled i (by omega) hlt
    · intro j hj hjlt
      exact mod_ne_mod (by omega) (by omega)

/-- Write into the slot at the head of a buffer that has room. -/
def append (r : RingBuffer α capacity) (a : α) (hroom : r.head - r.tail < capacity) :
    RingBuffer α capacity where
  slots := update r.slots (r.head % capacity) (some a)
  head := r.head + 1
  tail := r.tail
  capacity_pos := r.capacity_pos
  tail_le_head := Nat.le_succ_of_le r.tail_le_head
  window_le := by have := r.tail_le_head; omega
  filled := by
    intro i hi hlt
    by_cases hhead : i = r.head
    · simp [hhead]
    · rw [update_of_ne (mod_ne_mod (by omega) (by omega))]
      exact r.filled i hi (by omega)

/-- Add an element; a full buffer makes room by dropping its oldest ones. -/
def push (r : RingBuffer α capacity) (a : α) : RingBuffer α capacity :=
  if h : r.head - r.tail ≥ capacity then
    (r.dropOldest (r.head - capacity + 1)
      (by have := r.window_le; have := r.tail_le_head; omega)
      (by have := r.capacity_pos; omega)).append a
        (by
          have := r.capacity_pos
          show r.head - (r.head - capacity + 1) < capacity
          omega)
  else r.append a (Nat.lt_of_not_le h)

theorem head_push : (r.push a).head = r.head + 1 := by
  unfold push
  split <;> rfl

/-- Take everything out. -/
def drain (r : RingBuffer α capacity) : List α × RingBuffer α capacity :=
  (r.toList, r.dropOldest r.head r.tail_le_head (Nat.le_refl _))

/-- Forget what is waiting without emptying the slots. -/
def forget (r : RingBuffer α capacity) : RingBuffer α capacity where
  slots := r.slots
  head := r.head
  tail := r.head
  capacity_pos := r.capacity_pos
  tail_le_head := Nat.le_refl _
  window_le := by have := r.capacity_pos; omega
  filled := fun _ hle hlt => absurd hlt (Nat.not_lt_of_le hle)

/-! ### The queue they implement -/

@[simp] theorem toList_drain : r.drain.2.toList = [] := by
  simp [toList, drain, dropOldest]

@[simp] theorem toList_forget : r.forget.toList = [] := by
  simp [toList, forget]

theorem toList_append (hroom : r.head - r.tail < capacity) :
    (r.append a hroom).toList = r.toList ++ [a] := by
  have hle := r.tail_le_head
  have hlen : r.head + 1 - r.tail = r.head - r.tail + 1 := by omega
  have hlast : r.tail + (r.head - r.tail) = r.head := by omega
  simp only [toList, append, hlen, range'_1_concat, filterMap_append, hlast]
  congr 1
  · -- The slots of the old window are not the one written.
    apply filterMap_congr
    intro i hi
    rw [mem_range'_1] at hi
    rw [update_of_ne (mod_ne_mod (by omega) (by omega))]
  · simp

theorem toList_dropOldest (hge : r.tail ≤ newTail) (hle : newTail ≤ r.head) :
    (r.dropOldest newTail hge hle).toList =
      (range' newTail (r.head - newTail)).filterMap fun i => r.slots (i % capacity) := by
  have hwindow := r.window_le
  apply filterMap_congr
  intro i hi
  simp only [dropOldest, mem_range'_1] at hi ⊢
  rw [clearSlots_of_ne]
  intro j hj hjlt
  exact mod_ne_mod (by omega) (by omega)

/-- A part of the window has an element in every slot. -/
theorem length_filterMap_slots (hge : r.tail ≤ first) (hle : first + n ≤ r.head) :
    ((range' first n).filterMap fun i => r.slots (i % capacity)).length = n := by
  have hall : ∀ i ∈ range' first n, (r.slots (i % capacity)).isSome := by
    intro i hi
    rw [mem_range'_1] at hi
    exact r.filled i (by omega) (by omega)
  rw [length_filterMap_eq_countP, countP_eq_length.mpr hall, length_range']

theorem length_toList : r.toList.length = r.head - r.tail :=
  r.length_filterMap_slots (Nat.le_refl _) (by have := r.tail_le_head; omega)

theorem toList_dropOldest_eq_drop (hge : r.tail ≤ newTail) (hle : newTail ≤ r.head) :
    (r.dropOldest newTail hge hle).toList = r.toList.drop (newTail - r.tail) := by
  have hsplit : r.head - r.tail = (newTail - r.tail) + (r.head - newTail) := by omega
  have hlength : ((range' r.tail (newTail - r.tail)).filterMap fun i =>
      r.slots (i % capacity)).length = newTail - r.tail :=
    r.length_filterMap_slots (Nat.le_refl _) (by omega)
  rw [toList_dropOldest, toList, hsplit, ← range'_append_1, Nat.add_sub_cancel' hge,
    filterMap_append, drop_left' hlength]

theorem dropOldest_sublist (hge : r.tail ≤ newTail) (hle : newTail ≤ r.head) :
    (r.dropOldest newTail hge hle).toList.Sublist r.toList := by
  rw [toList_dropOldest_eq_drop]
  exact drop_sublist _ _

/-- A buffer with room queues the new element behind the others. -/
theorem toList_push_of_lt (hroom : r.head - r.tail < capacity) :
    (r.push a).toList = r.toList ++ [a] := by
  rw [push, dif_neg (by omega), toList_append]

/-- What remains after a push are the last elements, as many as there are slots. -/
theorem toList_push : (r.push a).toList = (r.toList ++ [a]).rtake capacity := by
  have hpos := r.capacity_pos
  have hwindow := r.window_le
  have hlength : (r.toList ++ [a]).length = r.head - r.tail + 1 := by
    rw [length_append, length_toList, length_singleton]
  rw [rtake, hlength]
  unfold push
  split
  · have hone : r.head - capacity + 1 - r.tail = r.head - r.tail + 1 - capacity := by omega
    have hle : r.head - r.tail + 1 - capacity ≤ r.toList.length := by
      rw [length_toList]
      omega
    rw [toList_append, toList_dropOldest_eq_drop, hone, drop_append_of_le_length hle]
  · have hzero : r.head - r.tail + 1 - capacity = 0 := by omega
    rw [toList_append, hzero, drop_zero]

/-- The new element is last, and what is in front of it was there before. -/
theorem exists_toList_push : ∃ old, old.Sublist r.toList ∧ (r.push a).toList = old ++ [a] := by
  unfold push
  split
  · exact ⟨_, dropOldest_sublist r _ _, toList_append _ _ _⟩
  · exact ⟨_, List.Sublist.refl _, toList_append _ _ _⟩

theorem eq_or_mem_of_mem_toList_push {r : RingBuffer α capacity} {a b : α}
    (h : b ∈ (r.push a).toList) : b = a ∨ b ∈ r.toList := by
  obtain ⟨old, hsub, heq⟩ := exists_toList_push r a
  rw [heq, mem_append, mem_singleton] at h
  cases h with
  | inl hold => exact .inr (hsub.subset hold)
  | inr hnew => exact .inl hnew

end RingBuffer
