import Mathlib

/-!
# Sums of weights

Two sums whose terms agree but for one differ by that one (`Finset.sum_add_of_eq_off`).

Every binding of a finite map has a weight, and the weight of the map is their sum.  An
insertion adds the weight of the new binding and takes away that of the one it replaces;
an erasure takes away the weight of the binding it removes.
-/

namespace Finset

/-- Sums of terms that agree off `i`. -/
theorem sum_add_of_eq_off {ι M : Type} [DecidableEq ι] [AddCommMonoid M] {s : Finset ι}
    {f g : ι → M} {i : ι} (hi : i ∈ s) (h : ∀ j, j ≠ i → f j = g j) :
    ∑ j ∈ s, f j + g i = ∑ j ∈ s, g j + f i := by
  have hrest : ∑ j ∈ s.erase i, f j = ∑ j ∈ s.erase i, g j := by
    apply Finset.sum_congr rfl
    intro j hj
    exact h j (Finset.ne_of_mem_erase hj)
  rw [← Finset.add_sum_erase s f hi, ← Finset.add_sum_erase s g hi, hrest]
  ac_rfl

end Finset

namespace AList

variable {α β : Type} [DecidableEq α] {w : α → β → Nat} {m : AList fun _ : α => β} {a : α}
  {b : β}

/-- The sum of the weights of the bindings. -/
def weigh (w : α → β → Nat) (m : AList fun _ : α => β) : Nat :=
  (m.entries.map fun binding => w binding.1 binding.2).sum

/-- Removing a binding from the list of bindings. -/
theorem sum_kerase {l : List (Sigma fun _ : α => β)} (h : l.dlookup a = some b) :
    ((l.kerase a).map fun binding => w binding.1 binding.2).sum + w a b =
      (l.map fun binding => w binding.1 binding.2).sum := by
  induction l with
  | nil => exact nomatch h
  | cons binding l ih =>
    obtain ⟨a', b'⟩ := binding
    by_cases ha : a = a'
    · subst ha
      rw [List.dlookup_cons_eq] at h
      obtain rfl := Option.some.inj h
      have hgone : List.kerase a (⟨a, b'⟩ :: l) = l := List.kerase_cons_eq rfl
      rw [hgone, List.map_cons, List.sum_cons]
      exact Nat.add_comm _ _
    · rw [List.dlookup_cons_ne l ⟨a', b'⟩ ha] at h
      have hrest := ih h
      rw [List.kerase_cons_ne ha, List.map_cons, List.map_cons, List.sum_cons, List.sum_cons]
      omega

theorem weigh_erase (h : m.lookup a = some b) :
    weigh w (m.erase a) + w a b = weigh w m :=
  sum_kerase h

/-- Inserting over a binding. -/
theorem weigh_insert_of_some {c : β} (h : m.lookup a = some b) :
    weigh w (m.insert a c) + w a b = weigh w m + w a c := by
  have herase := sum_kerase (w := w) h
  simp only [weigh, entries_insert, List.map_cons, List.sum_cons]
  omega

/-- Inserting a new binding. -/
theorem weigh_insert_of_none (h : m.lookup a = none) :
    weigh w (m.insert a b) = weigh w m + w a b := by
  have hkeys : a ∉ m.entries.keys := by
    rw [← List.dlookup_eq_none]
    exact h
  simp only [weigh, entries_insert, List.kerase_of_notMem_keys hkeys,
    List.map_cons, List.sum_cons]
  omega

omit [DecidableEq α] in
theorem length_entries (m : AList fun _ : α => β) : m.entries.length = weigh (fun _ _ => 1) m := by
  simp [weigh]

theorem length_erase (h : m.lookup a = some b) :
    (m.erase a).entries.length + 1 = m.entries.length := by
  rw [length_entries, length_entries]
  exact weigh_erase h

theorem length_insert_of_none (h : m.lookup a = none) :
    (m.insert a b).entries.length = m.entries.length + 1 := by
  rw [length_entries, length_entries]
  exact weigh_insert_of_none h

end AList
