import Mathlib

/-!
# What a heap promises

A heap is a list whose first element, the root, is a least one.  `push` and `pop` rearrange
the list; what they promise is that nothing is lost or made up and that the list is a heap
again.  A list that is kept sorted is such a heap (`MinHeap.sorted`).
-/

/-- The operations of a heap for the order `less`, and their contract. -/
structure MinHeap {α : Type} (less : α → α → Prop) where
  push : List α → α → List α
  pop : List α → List α
  IsHeap : List α → Prop
  isHeap_nil : IsHeap []
  isHeap_push {h : List α} (x : α) : IsHeap h → IsHeap (push h x)
  isHeap_pop {h : List α} : IsHeap h → IsHeap (pop h)
  push_perm (h : List α) (x : α) : (push h x).Perm (x :: h)
  pop_perm (x : α) (h : List α) : (pop (x :: h)).Perm h
  root_least {x : α} {h : List α} : IsHeap (x :: h) → ∀ y ∈ h, ¬less y x

namespace MinHeap

variable {α : Type} {less : α → α → Prop} (heap : MinHeap less)

theorem mem_push {h : List α} {x y : α} : y ∈ heap.push h x ↔ y = x ∨ y ∈ h :=
  (heap.push_perm h x).mem_iff.trans List.mem_cons

theorem mem_pop {h : List α} {x y : α} : y ∈ heap.pop (x :: h) ↔ y ∈ h :=
  (heap.pop_perm x h).mem_iff

section

variable {β : Type} [LinearOrder β] (key : α → β)

instance total_key : Std.Total fun x y => key x ≤ key y := ⟨fun _ _ => le_total _ _⟩

instance trans_key : IsTrans α fun x y => key x ≤ key y := ⟨fun _ _ _ => le_trans⟩

/-- A sorted list is a heap. -/
def sorted : MinHeap fun x y => key x < key y where
  push h x := h.orderedInsert (fun x y => key x ≤ key y) x
  pop h := h.tail
  IsHeap h := h.Pairwise fun x y => key x ≤ key y
  isHeap_nil := .nil
  isHeap_push x h := h.orderedInsert x _
  isHeap_pop h := h.tail
  push_perm h x := List.perm_orderedInsert _ x h
  pop_perm _ h := .refl h
  root_least h _ hy := not_lt.mpr (List.rel_of_pairwise_cons h hy)

end

end MinHeap
