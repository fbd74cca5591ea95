import Mathlib

/-!
# Lists whose elements are found by key

A list of elements and a map that points from a key to its element, so that an element is
moved or removed without a search.  Elements are allocations: an element that is taken out and
one that is later put in under the same key are different.  `InStep` says that the map points
from exactly the keys in the list to their own elements; then the keys, front to back, are all
there is to know (`order_touch`, `order_remove`).
-/

/-- Taking an element out of a list takes its image out of the images, if no other element
    has the same one. -/
theorem List.map_erase_of_forall {α β : Type} [BEq α] [LawfulBEq α] [BEq β] [LawfulBEq β]
    {f : α → β} {e : α} {l : List α} (h : ∀ x ∈ l, f x = f e → x = e) :
    (l.erase e).map f = (l.map f).erase (f e) := by
  induction l with
  | nil => rfl
  | cons x l ih =>
    obtain ⟨hx, hl⟩ := List.forall_mem_cons.mp h
    by_cases hxe : x = e
    · subst hxe
      rw [List.erase_cons_head, List.map_cons, List.erase_cons_head]
    · have hfx : f x ≠ f e := fun heq => hxe (hx heq)
      rw [List.erase_cons_tail (by simpa using hxe), List.map_cons, List.map_cons,
        List.erase_cons_tail (by simpa using hfx), ih hl]

/-- An element: which allocation it is, and its key. -/
structure KeyedElement (κ : Type) where
  id : Nat
  key : κ
  deriving DecidableEq, Repr

/-- The list, front to back, its index, and the number of elements allocated so far. -/
structure KeyedList (κ : Type) where
  list : List (KeyedElement κ)
  keyMap : AList fun _ : κ => KeyedElement κ
  allocated : Nat

namespace KeyedList

variable {κ : Type}

def empty : KeyedList κ where
  list := []
  keyMap := ∅
  allocated := 0

/-- The keys in the list, front to back. -/
def order (l : KeyedList κ) : List κ := l.list.map KeyedElement.key

variable [DecidableEq κ]

/-- Move the element of a key to the front; a new key gets a new element there. -/
def touch (l : KeyedList κ) (key : κ) : KeyedList κ :=
  match l.keyMap.lookup key with
  | some elem =>
    -- An element of another list is not moved.
    if elem ∈ l.list then { l with list := elem :: l.list.erase elem } else l
  | none =>
    { list := ⟨l.allocated, key⟩ :: l.list
      keyMap := l.keyMap.insert key ⟨l.allocated, key⟩
      allocated := l.allocated + 1 }

/-- Take the element of a key out. -/
def remove (l : KeyedList κ) (key : κ) : KeyedList κ :=
  match l.keyMap.lookup key with
  | some elem => { l with list := l.list.erase elem, keyMap := l.keyMap.erase key }
  | none => l

/-- No key is in the list twice, and the map points from the keys in the list to their own
    elements. -/
structure InStep (l : KeyedList κ) : Prop where
  nodup : l.order.Nodup
  lookup_iff : ∀ key elem, l.keyMap.lookup key = some elem ↔ elem ∈ l.list ∧ elem.key = key
  id_lt : ∀ elem ∈ l.list, elem.id < l.allocated

theorem inStep_empty : InStep (empty : KeyedList κ) where
  nodup := List.nodup_nil
  lookup_iff key elem := by simp [empty]
  id_lt elem h := absurd h List.not_mem_nil

namespace InStep

variable {l : KeyedList κ} {key k : κ} {elem : KeyedElement κ}

theorem eq_of_key_eq (h : InStep l) {x : KeyedElement κ} (hx : x ∈ l.list) (helem : elem ∈ l.list)
    (hkey : x.key = elem.key) : x = elem := by
  have hlookup := (h.lookup_iff elem.key x).mpr ⟨hx, hkey⟩
  have hlookup' := (h.lookup_iff elem.key elem).mpr ⟨helem, rfl⟩
  exact Option.some.inj (hlookup.symm.trans hlookup')

/-- The keys of the map are those in the list. -/
theorem mem_order_iff (h : InStep l) : key ∈ l.order ↔ (l.keyMap.lookup key).isSome := by
  rw [order, List.mem_map, Option.isSome_iff_exists]
  constructor
  · intro ⟨elem, hmem, hkey⟩
    exact ⟨elem, (h.lookup_iff key elem).mpr ⟨hmem, hkey⟩⟩
  · intro ⟨elem, hlookup⟩
    exact ⟨elem, (h.lookup_iff key elem).mp hlookup⟩

theorem order_erase [BEq κ] [LawfulBEq κ] (h : InStep l) (hlookup : l.keyMap.lookup key = some elem) :
    (l.list.erase elem).map KeyedElement.key = l.order.erase key := by
  obtain ⟨hmem, rfl⟩ := (h.lookup_iff key elem).mp hlookup
  exact List.map_erase_of_forall fun x hx hkey => h.eq_of_key_eq hx hmem hkey

theorem order_touch [BEq κ] [LawfulBEq κ] (h : InStep l) (key : κ) :
    (l.touch key).order = key :: l.order.erase key := by
  unfold KeyedList.touch
  cases hlookup : l.keyMap.lookup key with
  | some elem =>
    obtain ⟨hmem, hkey⟩ := (h.lookup_iff key elem).mp hlookup
    dsimp only
    rw [if_pos hmem, order, List.map_cons, hkey, h.order_erase hlookup]
  | none =>
    have hfresh : key ∉ l.order := by
      rw [h.mem_order_iff, hlookup]
      exact Bool.false_ne_true
    rw [List.erase_of_not_mem hfresh]
    rfl

theorem order_remove [BEq κ] [LawfulBEq κ] (h : InStep l) (key : κ) :
    (l.remove key).order = l.order.erase key := by
  unfold KeyedList.remove
  cases hlookup : l.keyMap.lookup key with
  | some elem => exact h.order_erase hlookup
  | none =>
    have hfresh : key ∉ l.order := by
      rw [h.mem_order_iff, hlookup]
      exact Bool.false_ne_true
    exact (List.erase_of_not_mem hfresh).symm

theorem mem_list_remove_iff (h : InStep l) {x : KeyedElement κ}
    (hlookup : l.keyMap.lookup key = some elem) :
    x ∈ l.list.erase elem ↔ x ∈ l.list ∧ x.key ≠ key := by
  obtain ⟨hmem, hkey⟩ := (h.lookup_iff key elem).mp hlookup
  have hnodup : l.list.Nodup := List.Nodup.of_map _ h.nodup
  rw [hnodup.mem_erase_iff, and_comm]
  refine and_congr_right fun hx => not_congr ⟨fun heq => heq ▸ hkey, fun hxkey => ?_⟩
  exact h.eq_of_key_eq hx hmem (hxkey.trans hkey.symm)

theorem touch (h : InStep l) (key : κ) : InStep (l.touch key) where
  nodup := by
    rw [h.order_touch]
    exact List.nodup_cons.mpr ⟨h.nodup.not_mem_erase, h.nodup.erase key⟩
  lookup_iff k x := by
    unfold KeyedList.touch
    cases hlookup : l.keyMap.lookup key with
    | some elem =>
      -- The elements stay the same, and so does the map.
      obtain ⟨hmem, -⟩ := (h.lookup_iff key elem).mp hlookup
      dsimp only
      rw [if_pos hmem]
      have hperm : x ∈ elem :: l.list.erase elem ↔ x ∈ l.list :=
        (List.perm_cons_erase hmem).symm.mem_iff
      rw [h.lookup_iff k x, hperm]
    | none =>
      dsimp only
      by_cases hk : k = key
      · subst hk
        have hold : ¬ (x ∈ l.list ∧ x.key = k) := by
          rw [← h.lookup_iff, hlookup]
          exact (Option.some_ne_none x).symm
        rw [AList.lookup_insert, List.mem_cons, Option.some_inj]
        constructor
        · rintro rfl
          exact ⟨.inl rfl, rfl⟩
        · rintro ⟨rfl | hx, hkey⟩
          · rfl
          · exact absurd ⟨hx, hkey⟩ hold
      · rw [AList.lookup_insert_ne hk, h.lookup_iff k x, List.mem_cons]
        refine and_congr_left fun hkey => (or_iff_right ?_).symm
        rintro rfl
        exact hk hkey.symm
  id_lt x hx := by
    unfold KeyedList.touch at hx ⊢
    cases hlookup : l.keyMap.lookup key with
    | some elem =>
      obtain ⟨hmem, -⟩ := (h.lookup_iff key elem).mp hlookup
      simp only [hlookup, if_pos hmem] at hx ⊢
      exact h.id_lt x ((List.perm_cons_erase hmem).mem_iff.mpr hx)
    | none =>
      simp only [hlookup, List.mem_cons] at hx ⊢
      obtain rfl | hx := hx
      · exact Nat.lt_succ_self _
      · exact Nat.lt_succ_of_lt (h.id_lt x hx)

theorem remove (h : InStep l) (key : κ) : InStep (l.remove key) where
  nodup := by
    rw [h.order_remove]
    exact h.nodup.erase key
  lookup_iff k x := by
    unfold KeyedList.remove
    cases hlookup : l.keyMap.lookup key with
    | some elem =>
      dsimp only
      rw [h.mem_list_remove_iff hlookup]
      by_cases hk : k = key
      · subst hk
        rw [AList.lookup_erase]
        exact iff_of_false (Option.some_ne_none x).symm fun hx => hx.1.2 hx.2
      · rw [AList.lookup_erase_ne hk, h.lookup_iff k x]
        refine and_congr_left fun hkey => (and_iff_left ?_).symm
        exact hkey ▸ hk
    | none => exact h.lookup_iff k x
  id_lt x hx := by
    unfold KeyedList.remove at hx ⊢
    cases hlookup : l.keyMap.lookup key with
    | some elem =>
      simp only [hlookup] at hx ⊢
      exact h.id_lt x (List.mem_of_mem_erase hx)
    | none =>
      simp only [hlookup] at hx ⊢
      exact h.id_lt x hx

end InStep

end KeyedList
