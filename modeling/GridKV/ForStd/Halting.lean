import GridKV.ForStd.Run

/-!
# Machines that come to an end

A machine halts with `P` if there is a bound on how long it can run, and every state in which
no action is possible any more satisfies `P`: whatever is done next, it gets to `P`.  A
measure that each step makes smaller gives the bound, and progress where `P` does not hold
yet gives the rest (`halts_of_measure`).  A machine that halts can get to `P` from wherever
it has got to (`Halts.reaches`), which is how to show that one does not.

Where others take steps in between that the machine does not need, only its own actions are
bounded (`countP_add_measure_le`).
-/

namespace Run

variable {σ α : Type} {step : σ → α → Option σ} {P I : σ → Prop} {s t : σ} {as : List α}

/-- Every run from `s` ends, and only where `P` holds. -/
structure Halts (step : σ → α → Option σ) (P : σ → Prop) (s : σ) : Prop where
  bounded : ∃ bound, ∀ as t, Runs step s as t → as.length ≤ bound
  stuck : ∀ as t, Runs step s as t → (∀ a, step t a = none) → P t

/-- A measure that some actions make smaller, and none larger, bounds how often these actions
    are taken. -/
theorem countP_add_measure_le {μ : σ → Nat} (own : α → Bool)
    (hpres : ∀ s a t, I s → step s a = some t → I t ∧ μ t ≤ μ s ∧ (own a = true → μ t < μ s))
    (hrun : Runs step s as t) (hs : I s) : as.countP own + μ t ≤ μ s := by
  induction hrun with
  | nil => exact Nat.le_of_eq (Nat.zero_add _)
  | cons _ hstep _ ih =>
    obtain ⟨ht, hle, hlt⟩ := hpres _ _ _ hs hstep
    have hrest := ih ht
    rw [List.countP_cons]
    split
    · rename_i hown
      have hless := hlt hown
      omega
    · omega

/-- A measure that every step makes smaller bounds the length of the runs. -/
theorem length_add_measure_le {μ : σ → Nat}
    (hpres : ∀ s a t, I s → step s a = some t → I t ∧ μ t < μ s) (hrun : Runs step s as t)
    (hs : I s) : as.length + μ t ≤ μ s := by
  have hcount := countP_add_measure_le (fun _ => true)
    (fun s a t hs hstep => by
      obtain ⟨ht, hlt⟩ := hpres s a t hs hstep
      exact ⟨ht, Nat.le_of_lt hlt, fun _ => hlt⟩) hrun hs
  rwa [List.countP_true] at hcount

theorem halts_of_measure {μ : σ → Nat}
    (hpres : ∀ s a t, I s → step s a = some t → I t ∧ μ t < μ s)
    (hprogress : ∀ s, I s → ¬P s → ∃ a, step s a ≠ none) (hs : I s) : Halts step P s := by
  refine ⟨⟨μ s, fun as t hrun => ?_⟩, fun as t hrun hstuck => ?_⟩
  · have hle := length_add_measure_le hpres hrun hs
    omega
  · have ht : I t := hrun.invariant (fun s a t hs _ hstep => (hpres s a t hs hstep).1) hs
    refine Classical.byContradiction fun hP => ?_
    obtain ⟨a, ha⟩ := hprogress t ht hP
    exact ha (hstuck a)

theorem Halts.reaches (h : Halts step P s) (hrun : Runs step s as t) :
    ∃ bs u, Runs step t bs u ∧ P u := by
  obtain ⟨bound, hbound⟩ := h.bounded
  -- By induction on how much longer the run can get.
  induction hrest : bound - as.length generalizing as t with
  | zero =>
    refine ⟨[], t, .nil t, h.stuck as t hrun fun a => ?_⟩
    cases hstep : step t a with
    | none => rfl
    | some u =>
      have hlonger := hbound _ _ (hrun.append (.cons trivial hstep (.nil u)))
      rw [List.length_append, List.length_singleton] at hlonger
      omega
  | succ n ih =>
    by_cases hstuck : ∀ a, step t a = none
    · exact ⟨[], t, .nil t, h.stuck as t hrun hstuck⟩
    · obtain ⟨a, ha⟩ := Classical.not_forall.mp hstuck
      obtain ⟨u, hstep⟩ := Option.ne_none_iff_exists'.mp ha
      have hone : Runs step t [a] u := .cons trivial hstep (.nil u)
      have hlength : bound - (as ++ [a]).length = n := by
        rw [List.length_append, List.length_singleton]
        omega
      obtain ⟨bs, v, hbs, hP⟩ := ih (hrun.append hone) hlength
      exact ⟨_, v, hone.append hbs, hP⟩

end Run
