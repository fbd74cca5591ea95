import Mathlib

/-!
# Elements in the order they are first seen

`List.eraseDups` keeps the first of equal elements.  What it returns depends on the order of
the elements only: it commutes with filters, may be applied before a map, and is the same
for sorted lists with the same elements, however often they occur.
-/

namespace List

variable {α β : Type} [BEq α] [LawfulBEq α] [BEq β] [LawfulBEq β] (p : α → Bool) (f : α → β)
  {le : α → α → Prop} (l : List α)

/-- One more element counts unless it has been seen. -/
theorem eraseDups_concat (a : α) :
    (l ++ [a]).eraseDups = if a ∈ l then l.eraseDups else l.eraseDups ++ [a] := by
  rw [eraseDups_append]
  by_cases ha : a ∈ l
  · simp [ha, removeAll]
  · simp [ha, removeAll, eraseDups_cons]

theorem nodup_eraseDups : l.eraseDups.Nodup := by
  induction l using reverseRecOn with
  | nil => exact nodup_nil
  | append_singleton l a ih =>
    rw [eraseDups_concat]
    split
    · exact ih
    · rename_i ha
      rw [← concat_eq_append]
      exact ih.concat fun hmem => ha (mem_eraseDups.mp hmem)

theorem eraseDups_sublist : l.eraseDups.Sublist l := by
  induction l using reverseRecOn with
  | nil => exact .slnil
  | append_singleton l a ih =>
    rw [eraseDups_concat]
    split
    · exact ih.trans (sublist_append_left l [a])
    · exact ih.append (Sublist.refl [a])

theorem eraseDups_filter : (l.filter p).eraseDups = l.eraseDups.filter p := by
  induction l using reverseRecOn with
  | nil => rfl
  | append_singleton l a ih =>
    rw [filter_append, eraseDups_concat]
    by_cases hp : p a = true
    · have hkept : [a].filter p = [a] := by simp [hp]
      rw [hkept, eraseDups_concat, ih]
      by_cases ha : a ∈ l
      · rw [if_pos (mem_filter.mpr ⟨ha, hp⟩), if_pos ha]
      · rw [if_neg fun h => ha (mem_filter.mp h).1, if_neg ha, filter_append, hkept]
    · have hdropped : [a].filter p = [] := by simp [hp]
      rw [hdropped, append_nil, ih]
      split
      · rfl
      · rw [filter_append, hdropped, append_nil]

/-- Elements that have been seen before add nothing to their images. -/
theorem eraseDups_map_eraseDups : (l.eraseDups.map f).eraseDups = (l.map f).eraseDups := by
  induction l using reverseRecOn with
  | nil => rfl
  | append_singleton l a ih =>
    rw [eraseDups_concat, map_append, map_singleton, eraseDups_concat, ← ih]
    by_cases ha : a ∈ l
    · rw [if_pos ha, if_pos (mem_map_of_mem ha)]
    · have hmem : f a ∈ l.eraseDups.map f ↔ f a ∈ l.map f := by simp [mem_eraseDups]
      rw [if_neg ha, map_append, map_singleton, eraseDups_concat]
      exact if_congr hmem rfl rfl

theorem eraseDups_append_filter_not :
    (l.filter p ++ l.filter fun a => ! p a).eraseDups =
      l.eraseDups.filter p ++ l.eraseDups.filter fun a => ! p a := by
  have hapart : (l.filter fun a => ! p a).removeAll (l.filter p) = l.filter fun a => ! p a := by
    rw [removeAll, filter_eq_self]
    intro a ha
    have hnot : p a = false := by simpa using (mem_filter.mp ha).2
    simp [hnot]
  rw [eraseDups_append, hapart, eraseDups_filter, eraseDups_filter]

omit [LawfulBEq α] in
theorem head?_eraseDups : l.eraseDups.head? = l.head? := by
  cases l with
  | nil => rfl
  | cons a l => rw [eraseDups_cons, head?_cons, head?_cons]

/-- Sorted lists of the same elements, of which no two different ones are level. -/
theorem eraseDups_eq_of_pairwise {l₁ l₂ : List α} (hmem : ∀ a, a ∈ l₁ ↔ a ∈ l₂)
    (hantisymm : ∀ a ∈ l₁, ∀ b ∈ l₁, le a b → le b a → a = b) (h₁ : l₁.Pairwise le)
    (h₂ : l₂.Pairwise le) : l₁.eraseDups = l₂.eraseDups := by
  have hperm : l₁.eraseDups.Perm l₂.eraseDups := by
    rw [perm_ext_iff_of_nodup (nodup_eraseDups l₁) (nodup_eraseDups l₂)]
    intro a
    rw [mem_eraseDups, mem_eraseDups, hmem]
  refine hperm.eq_of_pairwise ?_ (h₁.sublist (eraseDups_sublist l₁))
    (h₂.sublist (eraseDups_sublist l₂))
  intro a b ha hb
  rw [mem_eraseDups] at ha hb
  exact hantisymm a ha b ((hmem b).mpr hb)

/-! ### Starting in the middle -/

omit [BEq α] [LawfulBEq α] [BEq β] [LawfulBEq β] in
/-- A loop over the indices sees the elements in turn. -/
theorem filterMap_range_getElem? : (range l.length).filterMap (fun i => l[i]?.map f) = l.map f := by
  induction l with
  | nil => rfl
  | cons a l ih =>
    rw [length_cons, range_succ_eq_map, map_cons, ← ih]
    simp [filterMap_map]

omit [BEq α] [LawfulBEq α] in
/-- In a sorted list, the elements that satisfy an upward closed predicate are those from
    the first of them on. -/
theorem findIdx_split {p : α → Bool} {l : List α} (hsorted : l.Pairwise le)
    (hup : ∀ a b, le a b → p a = true → p b = true) :
    l.drop (l.findIdx p) = l.filter p ∧ l.take (l.findIdx p) = l.filter fun a => ! p a := by
  induction l with
  | nil => exact ⟨rfl, rfl⟩
  | cons a l ih =>
    obtain ⟨ha, hl⟩ := pairwise_cons.mp hsorted
    by_cases hp : p a = true
    · -- All that follows satisfies the predicate too.
      have hall : ∀ b ∈ l, p b = true := fun b hb => hup a b (ha b hb) hp
      have hnone : ∀ b ∈ a :: l, ¬(! p b) = true := by
        intro b hb
        obtain rfl | hb := mem_cons.mp hb
        · simp [hp]
        · simp [hall b hb]
      rw [findIdx_cons, hp, cond_true, drop_zero, take_zero, filter_cons_of_pos hp,
        filter_eq_self.mpr hall, filter_eq_nil_iff.mpr hnone]
      exact ⟨rfl, rfl⟩
    · rw [Bool.not_eq_true] at hp
      rw [findIdx_cons, hp, cond_false, drop_succ_cons, take_succ_cons,
        filter_cons_of_neg (by simp [hp]), filter_cons_of_pos (by simp [hp]), (ih hl).1, (ih hl).2]
      exact ⟨rfl, rfl⟩

omit [BEq α] [LawfulBEq α] in
/-- What is left of the first `n` elements comes first in what is left of all. -/
theorem filter_take_isPrefix (n : Nat) (l : List α) :
    (l.take n).filter p <+: (l.filter p).take n := by
  rw [prefix_take_iff]
  have hfirst := take_prefix n l
  exact ⟨hfirst.filter p, (length_filter_le p _).trans (length_take_le n l)⟩

end List
