import GridKV.Spec.StartOrder

/-!
# Closing after a failed start

`Start` sets the flag `started` only when it returns nil, and `Close` of a manager that is not
started returns nil at once.  So after a `Start` that has failed, or has run out of time, the
components that did start stay open: `Close` cleans up if and only if there are none
(`cleansUp_iff`).  What `Close` does close, it closes once and in the right order.
-/

namespace GridKV

open Go Run

namespace LifecycleManager

variable {lm : LifecycleManager}

/-! ### What is closed -/

/-- Whatever the components and their dependencies are, `Close` closes no component twice,
    and none after one it depends on. -/
theorem exists_closed (lm : LifecycleManager) (closes : GoString → Bool) :
    ∃ closed err, lm.closeWithTimeout closes = some (closed, err) ∧ closed.Nodup ∧
      ∀ before name after, closed = before ++ name :: after →
        ∀ dep ∈ lm.deps name, dep ∈ after := by
  by_cases hstarted : lm.started = true
  · obtain ⟨order, horder, hnodup, hmem, hfirst⟩ | ⟨err, herr, -⟩ := lm.resolveOrder_settles
    · obtain ⟨closed, err, hclose, hnodup, -, hafter⟩ :=
        closesInOrder_of_order hstarted horder hnodup hmem hfirst closes
      exact ⟨closed, err, hclose, hnodup, hafter⟩
    · refine ⟨[], some err, ?_, .nil, fun before name after heq => by simp at heq⟩
      rw [closeWithTimeout, if_pos hstarted, herr, Option.map_some]
  · refine ⟨[], none, ?_, .nil, fun before name after heq => by simp at heq⟩
    rw [closeWithTimeout, if_neg hstarted]

/-! ### A start that fails -/

/-- `Start` of `lm` has returned an error and left a manager, with the components in these
    phases: the order could not be had, or a component has failed, or the time has run out. -/
inductive StartFails (lm : LifecycleManager) :
    LifecycleManager → (GoString → StartPhase) → Prop where
  | order {err : LifecycleError} (h : lm.startWithTimeout = some (.error err)) :
    StartFails lm lm fun _ => .idle
  | components {s₀ s : Starting} {actions : List StartAction} {err : LifecycleError}
    (hstart : lm.startWithTimeout = some (.ok s₀)) (hrun : Runs lm.startStep s₀ actions s)
    (hreturned : s.returned = some (some err)) : StartFails lm (lm.afterStart s) s.phase

/-- `Close` cleans up what was started: every component whose `Start` has returned nil is
    closed once, and dependents are closed before what they depend on. -/
def CleansUp (lm : LifecycleManager) (closes : GoString → Bool)
    (phase : GoString → StartPhase) : Prop :=
  ∃ closed err, lm.closeWithTimeout closes = some (closed, err) ∧
    (∀ name, phase name = .returned true → closed.count name = 1) ∧
    ∀ before name after, closed = before ++ name :: after → ∀ dep ∈ lm.deps name, dep ∈ after

/-- Where a component has started, the manager is still not. -/
theorem StartFails.started_eq_false {after : LifecycleManager} {phase : GoString → StartPhase}
    {name : GoString} (h : lm.StartFails after phase) (hname : phase name = .returned true) :
    after.started = false := by
  cases h with
  | order h => cases hname
  | components hstart hrun hreturned =>
    rw [afterStart, if_neg (by simp [hreturned])]
    by_contra hstarted
    rw [startWithTimeout, if_pos (by simpa using hstarted)] at hstart
    cases hstart

/-- **Closing after a failed start.**  `Close` cleans up if and only if no component has
    started. -/
theorem cleansUp_iff {after : LifecycleManager} {phase : GoString → StartPhase}
    (h : lm.StartFails after phase) (closes : GoString → Bool) :
    after.CleansUp closes phase ↔ ∀ name, phase name ≠ .returned true := by
  constructor
  · rintro ⟨closed, err, hclose, hcloses, -⟩ name hname
    -- The manager does not know that the component has started.
    rw [closeWithTimeout, h.started_eq_false hname] at hclose
    obtain ⟨rfl, -⟩ := Prod.mk.inj (Option.some.inj hclose)
    have hone := hcloses name hname
    simp at hone
  · intro hnone
    obtain ⟨closed, err, hclose, -, hafter⟩ := after.exists_closed closes
    exact ⟨closed, err, hclose, fun name hname => absurd hname (hnone name), hafter⟩

/-- Both components of the chain are started, the first of them fails or not, the second one
    fails. -/
def failing (ok : Bool) : List StartAction :=
  [.launch, .launch, .start (ascii "a"), .start (ascii "b"), .finish (ascii "a") ok,
    .finish (ascii "b") false, .join]

theorem cleansUp_all_failed :
    ∃ after phase, chain.StartFails after phase ∧ after.CleansUp (fun _ => true) phase := by
  obtain ⟨s₀, s, hstart, hrun, hreturned, hphase⟩ : ∃ s₀ s,
      chain.startWithTimeout = some (.ok s₀) ∧ Runs chain.startStep s₀ (failing false) s ∧
        s.returned = some (some (.component (ascii "a"))) ∧
        ∀ name, s.phase name ≠ .returned true := by
    refine ⟨_, _, rfl, runs_of_exec rfl, rfl, fun name => ?_⟩
    simp only [Function.update_apply]
    split_ifs <;> simp
  have hfails := StartFails.components hstart hrun hreturned
  exact ⟨_, _, hfails, (cleansUp_iff hfails _).mpr hphase⟩

/-- The component `a` has started when `b` fails, and `Close` returns nil without closing it. -/
theorem started_left_open :
    ∃ s₀ s, chain.startWithTimeout = some (.ok s₀) ∧
      Runs chain.startStep s₀ (failing true) s ∧
      s.returned = some (some (.component (ascii "b"))) ∧ s.phase (ascii "a") = .returned true ∧
      (chain.afterStart s).closeWithTimeout (fun _ => true) = some ([], none) :=
  ⟨_, _, rfl, runs_of_exec rfl, rfl, rfl, rfl⟩

end LifecycleManager

end GridKV
