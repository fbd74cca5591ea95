import Mathlib

/-!
# Leases

Resources numbered in the order they are made.  Each of them is idle and filed under the
key `home` gives it, or held by a client, or gone.  `Move` lists what may happen to them;
whatever does, no resource is in two places (`Exclusive.move`).
-/

namespace Lease

variable {κ γ : Type}

/-- Where the resources are. -/
structure Ledger (κ γ : Type) where
  idle : κ → List Nat
  held : γ → Option Nat
  made : Nat

/-- Every resource is in at most one place, and only resources that exist are. -/
structure Exclusive (home : Nat → κ) (s : Ledger κ γ) : Prop where
  idle_home : ∀ {k i}, i ∈ s.idle k → home i = k
  idle_nodup : ∀ k, (s.idle k).Nodup
  idle_lt : ∀ {k i}, i ∈ s.idle k → i < s.made
  held_lt : ∀ {g i}, s.held g = some i → i < s.made
  not_idle : ∀ {g i}, s.held g = some i → ∀ k, i ∉ s.idle k
  holder : ∀ {g g' i}, s.held g = some i → s.held g' = some i → g = g'

/-- What can happen to the resources: some are given up, or a client takes an idle one,
    makes one, or files the one it holds. -/
inductive Move (home : Nat → κ) (s t : Ledger κ γ) : Prop
  | drop (hidle : ∀ k, (t.idle k).Sublist (s.idle k))
      (hheld : ∀ g i, t.held g = some i → s.held g = some i) (hmade : t.made = s.made)
  | take (g : γ) (k : κ) (i : Nat) (htake : s.idle k = i :: t.idle k)
      (hidle : ∀ k', k' ≠ k → t.idle k' = s.idle k')
      (hheld : ∀ g' j, t.held g' = some j → g' = g ∧ j = i ∨ s.held g' = some j)
      (hmade : t.made = s.made)
  | make (g : γ) (hidle : ∀ k, t.idle k = s.idle k)
      (hheld : ∀ g' j, t.held g' = some j → g' = g ∧ j = s.made ∨ s.held g' = some j)
      (hmade : t.made = s.made + 1)
  | park (g : γ) (i : Nat) (hholds : s.held g = some i)
      (hpark : t.idle (home i) = i :: s.idle (home i))
      (hidle : ∀ k, k ≠ home i → t.idle k = s.idle k)
      (hheld : ∀ g' j, t.held g' = some j → g' ≠ g ∧ s.held g' = some j)
      (hmade : t.made = s.made)

variable {home : Nat → κ} {s t : Ledger κ γ}

/-- Giving resources up leaves the rest where they are. -/
theorem Exclusive.drop (h : Exclusive home s) (hidle : ∀ k, (t.idle k).Sublist (s.idle k))
    (hheld : ∀ g i, t.held g = some i → s.held g = some i) (hmade : s.made ≤ t.made) :
    Exclusive home t where
  idle_home hi := h.idle_home ((hidle _).subset hi)
  idle_nodup k := (h.idle_nodup k).sublist (hidle k)
  idle_lt hi := Nat.lt_of_lt_of_le (h.idle_lt ((hidle _).subset hi)) hmade
  held_lt hi := Nat.lt_of_lt_of_le (h.held_lt (hheld _ _ hi)) hmade
  not_idle hi k hk := h.not_idle (hheld _ _ hi) k ((hidle k).subset hk)
  holder hi hj := h.holder (hheld _ _ hi) (hheld _ _ hj)

/-- A client that gets a resource nobody has shares it with nobody. -/
theorem Exclusive.gain (h : Exclusive home s) {g : γ} {i : Nat}
    (hidle : ∀ k, (t.idle k).Sublist (s.idle k)) (hi : ∀ k, i ∉ t.idle k)
    (hfree : ∀ g', s.held g' ≠ some i) (hlt : i < t.made)
    (hheld : ∀ g' j, t.held g' = some j → g' = g ∧ j = i ∨ s.held g' = some j)
    (hmade : s.made ≤ t.made) : Exclusive home t where
  idle_home hj := h.idle_home ((hidle _).subset hj)
  idle_nodup k := (h.idle_nodup k).sublist (hidle k)
  idle_lt hj := Nat.lt_of_lt_of_le (h.idle_lt ((hidle _).subset hj)) hmade
  held_lt hj := by
    obtain ⟨-, rfl⟩ | hold := hheld _ _ hj
    · exact hlt
    · exact Nat.lt_of_lt_of_le (h.held_lt hold) hmade
  not_idle hj k hk := by
    obtain ⟨-, rfl⟩ | hold := hheld _ _ hj
    · exact hi k hk
    · exact h.not_idle hold k ((hidle k).subset hk)
  holder hj hj' := by
    obtain ⟨rfl, rfl⟩ | hold := hheld _ _ hj
    · obtain ⟨rfl, -⟩ | hold' := hheld _ _ hj'
      · rfl
      · exact absurd hold' (hfree _)
    · obtain ⟨-, rfl⟩ | hold' := hheld _ _ hj'
      · exact absurd hold (hfree _)
      · exact h.holder hold hold'

/-- **No resource is ever in two places.** -/
theorem Exclusive.move (h : Exclusive home s) (hmove : Move home s t) : Exclusive home t := by
  cases hmove with
  | drop hidle hheld hmade => exact h.drop hidle hheld (Nat.le_of_eq hmade.symm)
  | take g k i htake hidle hheld hmade =>
    have hi : i ∈ s.idle k := htake ▸ List.mem_cons_self
    have hnodup : i ∉ t.idle k := by
      have := h.idle_nodup k
      rw [htake] at this
      exact (List.nodup_cons.mp this).1
    have hsub : ∀ k', (t.idle k').Sublist (s.idle k') := by
      intro k'
      by_cases hk : k' = k
      · subst hk
        rw [htake]
        exact List.sublist_cons_self i _
      · rw [hidle k' hk]
    refine h.gain hsub ?_ (fun g' hg' => h.not_idle hg' k hi) (hmade ▸ h.idle_lt hi) hheld
      (Nat.le_of_eq hmade.symm)
    -- Under another key `i` would have two homes.
    intro k' hk'
    obtain rfl : k = k' := (h.idle_home hi).symm.trans (h.idle_home ((hsub k').subset hk'))
    exact hnodup hk'
  | make g hidle hheld hmade =>
    -- The number of a new resource is above all numbers in use.
    refine h.gain (fun k => hidle k ▸ List.Sublist.refl _) ?_ ?_ (by omega) hheld (by omega)
    · intro k hk
      rw [hidle k] at hk
      exact absurd (h.idle_lt hk) (Nat.lt_irrefl _)
    · intro g' hg'
      exact absurd (h.held_lt hg') (Nat.lt_irrefl _)
  | park g i hholds hpark hidle hheld hmade =>
    have hmem : ∀ {k j}, j ∈ t.idle k → j = i ∧ k = home i ∨ j ∈ s.idle k := by
      intro k j hj
      by_cases hk : k = home i
      · subst hk
        rw [hpark] at hj
        exact (List.mem_cons.mp hj).imp (fun h => ⟨h, rfl⟩) id
      · exact .inr (hidle k hk ▸ hj)
    constructor
    · intro k j hj
      obtain ⟨rfl, rfl⟩ | hold := hmem hj
      · rfl
      · exact h.idle_home hold
    · intro k
      by_cases hk : k = home i
      · subst hk
        rw [hpark]
        exact List.nodup_cons.mpr ⟨h.not_idle hholds _, h.idle_nodup _⟩
      · exact hidle k hk ▸ h.idle_nodup k
    · intro k j hj
      rw [hmade]
      obtain ⟨rfl, -⟩ | hold := hmem hj
      · exact h.held_lt hholds
      · exact h.idle_lt hold
    · exact fun hj => hmade ▸ h.held_lt (hheld _ _ hj).2
    · intro g' j hj k hk
      obtain ⟨hne, hold⟩ := hheld _ _ hj
      obtain ⟨rfl, -⟩ | hidle' := hmem hk
      · exact hne (h.holder hold hholds)
      · exact h.not_idle hold k hidle'
    · exact fun hj hj' => h.holder (hheld _ _ hj).2 (hheld _ _ hj').2

end Lease
