import GridKV.Model.Executor

/-!
# Resizing the executor

Translation of `Exec.Resize` and of the worker that `startWorker` starts in
`internal/utils/executor/executor.go`.  Other than in `workerStep`, each atomic operation of
the check at the head of the loop is a step of its own here, and so is each deferred call of a
worker that returns: another worker can load `running` between the two.
-/

namespace GridKV

open Go

variable {τ ρ : Type}

/-- `startWorker`, apart from the worker itself. -/
def Executor.enlist (e : Executor τ) : Executor τ :=
  { e with wg := e.wg + 1, running := e.running + 1 }

/-! ### Resize -/

inductive ResizeError where
  | invalidSize (n : Int)
  | closed
  deriving DecidableEq, Repr

/-- Where `Resize` is; with the lock it starts workers and then stores the new capacity. -/
inductive ResizePhase where
  | start
  | entered
  | locking
  | locked
  | storing (toStart : Nat)
  | unlocking
  | returned (err : Option ResizeError)
  deriving DecidableEq, Repr

/-- `Exec.Resize`, and how many workers the step starts. -/
def resizeStep (n : Int) (e : Executor τ) : ResizePhase → Option (Executor τ × ResizePhase × Nat)
  | .start =>
    if n ≤ 0 then some (e, .returned (some (.invalidSize n)), 0)
    else some (e, if e.closed then .returned (some .closed) else .entered, 0)
  | .entered => e.mu.announce.map fun mu => ({ e with mu }, .locking, 0)
  | .locking => e.mu.acquire.map fun mu => ({ e with mu }, .locked, 0)
  | .locked =>
    -- A smaller size has no worker to start.
    some (e, if n = e.cap then .unlocking else .storing (n - e.cap).toNat, 0)
  | .storing (toStart + 1) => some (e.enlist, .storing toStart, 1)
  | .storing 0 => some ({ e with cap := n.toNat }, .unlocking, 0)
  | .unlocking => some ({ e with mu := e.mu.unlock }, .returned none, 0)
  | .returned _ => none

/-! ### The workers -/

/-- Where a worker is, with the check at the head of its loop and its deferred calls in
    steps: it has loaded `running`, has found it above the capacity, has returned from the
    loop, or has called `wg.Done`. -/
inductive HeadPhase (ρ : Type) where
  | loop
  | loaded (running : Int)
  | oversized
  | leaving
  | released
  | receiving
  | running (task : ρ) (draining : Bool)
  | draining
  | ended
  deriving DecidableEq, Repr

/-- The phase of a worker whose check and whose end are one step each. -/
def HeadPhase.of : WorkerPhase ρ → HeadPhase ρ
  | .loop => .loop
  | .receiving => .receiving
  | .running task signalled => .running task signalled
  | .draining => .draining
  | .exited => .ended

/-- The goroutine of `startWorker`. -/
def headStep (begin : τ → ρ)
    (run : SelectCase → Executor τ → ρ → Option (Executor τ × Option ρ)) (choice : SelectCase)
    (e : Executor τ) : HeadPhase ρ → Option (Executor τ × HeadPhase ρ)
  | .loop => some (e, .loaded e.running)
  | .loaded running => some (e, if running > e.cap ∧ e.cap > 0 then .oversized else .receiving)
  | .oversized => some (e, if e.closed then .receiving else .leaving)
  | .leaving => some ({ e with wg := e.wg - 1 }, .released)
  | .released => some ({ e with running := e.running - 1 }, .ended)
  | .receiving =>
    match choice with
    | .tasks =>
      match e.tasks.recv with
      | .received task tasks => some ({ e with tasks }, .running (begin task) false)
      | .closed => some (e, .leaving)
      | .blocked => none
    | .stop => if e.stop then some (e, .draining) else none
  | .running task draining =>
    (run choice e task).map fun out => (out.1, .of (.resume draining out.2))
  | .draining =>
    match e.tasks.recv with
    | .received task tasks => some ({ e with tasks }, .running (begin task) true)
    | .closed => some (e, .leaving)
    | .blocked => some (e, .leaving)
  | .ended => none

end GridKV
