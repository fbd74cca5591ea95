/-!
# Runs of a state machine

A machine is a partial step function: `step s a = some t` when action `a` is possible
in state `s` and leads to `t`.  `GuardedRun step guard s as t` says that the actions
`as` lead from `s` to `t` and that each of them met `guard` in the state it was taken
in; the guard is how a result about *some* runs says which ones it is about.
-/

namespace Run

variable {σ α : Type}

/-- Runs in which every action meets the guard in the state before it. -/
inductive GuardedRun (step : σ → α → Option σ) (guard : σ → α → Prop) :
    σ → List α → σ → Prop
  | nil (s : σ) : GuardedRun step guard s [] s
  | cons {s t u : σ} {a : α} {as : List α} (hguard : guard s a) (hstep : step s a = some t)
      (hrun : GuardedRun step guard t as u) : GuardedRun step guard s (a :: as) u

/-- All runs. -/
abbrev Runs (step : σ → α → Option σ) : σ → List α → σ → Prop :=
  GuardedRun step fun _ _ => True

/-- Run a list of actions. -/
def exec (step : σ → α → Option σ) : σ → List α → Option σ
  | s, [] => some s
  | s, a :: as =>
    match step s a with
    | some t => exec step t as
    | none => none

variable {step : σ → α → Option σ} {guard : σ → α → Prop} {s t u : σ} {as bs : List α}

namespace GuardedRun

variable {guard' : σ → α → Prop} {I : σ → Prop}

/-- A property that every guarded step preserves holds at the end of every guarded
    run. -/
theorem invariant (hpres : ∀ s a t, I s → guard s a → step s a = some t → I t)
    (h : GuardedRun step guard s as t) (hs : I s) : I t := by
  induction h with
  | nil => exact hs
  | cons hguard hstep _ ih => exact ih (hpres _ _ _ hs hguard hstep)

theorem append (h : GuardedRun step guard s as t) (h' : GuardedRun step guard t bs u) :
    GuardedRun step guard s (as ++ bs) u := by
  induction h with
  | nil => exact h'
  | cons hguard hstep _ ih => exact .cons hguard hstep (ih h')

/-- Weakening the guard. -/
theorem mono (himp : ∀ s a, guard s a → guard' s a) (h : GuardedRun step guard s as t) :
    GuardedRun step guard' s as t := by
  induction h with
  | nil => exact .nil _
  | cons hguard hstep _ ih => exact .cons (himp _ _ hguard) hstep ih

/-- A guarded run is a run. -/
theorem runs (h : GuardedRun step guard s as t) : Runs step s as t :=
  h.mono fun _ _ _ => trivial

/-- The actions determine where a run ends. -/
theorem end_unique (h : GuardedRun step guard s as t) (h' : GuardedRun step guard' s as u) :
    t = u := by
  induction h with
  | nil => cases h'; rfl
  | cons _ hstep _ ih =>
    cases h' with
    | cons _ hstep' hrun' =>
      cases hstep.symm.trans hstep'
      exact ih hrun'

/-- Exchanging the guard, with the help of an invariant. -/
theorem exchange (hpres : ∀ s a t, I s → guard s a → step s a = some t → guard' s a ∧ I t)
    (h : GuardedRun step guard s as t) (hs : I s) : GuardedRun step guard' s as t := by
  induction h with
  | nil => exact .nil _
  | cons hguard hstep _ ih =>
    obtain ⟨hguard', hI⟩ := hpres _ _ _ hs hguard hstep
    exact .cons hguard' hstep (ih hI)

end GuardedRun

/-- Where a step that does not meet the guard leads to a state from which there is no way
    back, a run that ends elsewhere has met the guard at every step. -/
theorem guardedRun_of_not_bad (Good Bad : σ → Prop)
    (hgood : ∀ s a t, Good s → step s a = some t →
      (guard s a → Good t) ∧ (¬guard s a → Bad t))
    (hbad : ∀ s a t, Bad s → step s a = some t → Bad t)
    (hrun : Runs step s as t) (hs : Good s) (hend : ¬Bad t) : GuardedRun step guard s as t := by
  induction hrun with
  | nil s => exact .nil s
  | @cons s u t a as _ hstep hrun ih =>
    obtain ⟨hmeets, hfails⟩ := hgood s a u hs hstep
    have hguard : guard s a := Classical.byContradiction fun hguard =>
      hend (hrun.invariant (fun s a t h _ => hbad s a t h) (hfails hguard))
    exact .cons hguard hstep (ih (hmeets hguard) hend)

/-- The last state of such a run tells whether all its steps have met the guard. -/
theorem guardedRun_iff (Good Bad : σ → Prop) {P : σ → Prop}
    (hgood : ∀ s a t, Good s → step s a = some t →
      (guard s a → Good t) ∧ (¬guard s a → Bad t))
    (hbad : ∀ s a t, Bad s → step s a = some t → Bad t)
    (hP : ∀ s, Good s → P s) (hnot : ∀ s, Bad s → ¬P s)
    (hrun : Runs step s as t) (hs : Good s) : P t ↔ GuardedRun step guard s as t := by
  refine ⟨fun hPt => ?_, fun hguarded => hP t ?_⟩
  · exact guardedRun_of_not_bad Good Bad hgood hbad hrun hs fun hbad => hnot t hbad hPt
  · exact hguarded.invariant (fun s a t h hguard hstep => (hgood s a t h hstep).1 hguard) hs

theorem runs_of_exec (h : exec step s as = some t) : Runs step s as t := by
  induction as generalizing s with
  | nil => cases h; exact .nil _
  | cons a as ih =>
    unfold exec at h
    split at h
    · rename_i hstep
      exact .cons trivial hstep (ih h)
    · exact nomatch h

end Run
