import GridKV.ForStd.Channel

/-!
# The executor

Translation of `Exec` in `internal/utils/executor/executor.go`, one atomic step of each
goroutine at a time: the callers of `Do` and `DoCtx`, the one of `Stop`, and the workers.  A
`select` may take any of its cases that are ready, so each such step is told which one.
Contexts are never done.  Left out are the statistics, the checks for nil arguments, and
`Resize`, without which a worker never finds too many of them.
-/

namespace GridKV

open Go

/-- `Opts` -/
structure ExecutorOpts where
  workers : Int := 0
  queueSize : Int := 0
  nonBlocking : Bool := false

/-- `ErrClosed` and `ErrFull` -/
inductive ExecutorError where
  | closed
  | full
  deriving DecidableEq, Repr

/-- `Exec`; `stop` tells whether the channel of that name is closed, and `wg` counts the
    workers that have not ended. -/
structure Executor (τ : Type) where
  nonBlocking : Bool
  tasks : Chan τ
  stop : Bool := false
  cap : Nat
  running : Int
  closed : Bool := false
  wg : Nat
  mu : RWMutex := {}
  deriving DecidableEq, Repr

/-- The number of workers that `New` starts. -/
def ExecutorOpts.workerCount (opts : ExecutorOpts) (numCPU : Nat) : Nat :=
  if opts.workers ≤ 0 then numCPU else opts.workers.toNat

def ExecutorOpts.queueCap (opts : ExecutorOpts) (numCPU : Nat) : Nat :=
  if opts.queueSize ≤ 0 then opts.workerCount numCPU else opts.queueSize.toNat

/-- `New` -/
def Executor.new {τ : Type} (opts : ExecutorOpts) (numCPU : Nat) : Executor τ where
  nonBlocking := opts.nonBlocking
  tasks := { cap := opts.queueCap numCPU }
  cap := opts.workerCount numCPU
  running := opts.workerCount numCPU
  wg := opts.workerCount numCPU

/-- The cases of the `select` statements. -/
inductive SelectCase where
  | tasks
  | stop
  deriving DecidableEq, Repr

variable {τ ρ : Type}

/-! ### Do and DoCtx -/

/-- How a call ends: it returns nil or an error, or it panics. -/
inductive Submission where
  | accepted
  | rejected (err : ExecutorError)
  | panicked
  deriving DecidableEq, Repr

/-- Where a call is: before its first step, with the read lock, at the `select`, about to
    give the lock back, or over. -/
inductive SubmitPhase where
  | start
  | entered
  | sending
  | leaving (result : Submission)
  | returned (result : Submission)
  deriving DecidableEq, Repr

/-- The `select` statements of `Do` and `DoCtx`. -/
def Executor.offer (e : Executor τ) (task : τ) (choice : SelectCase) :
    Option (Executor τ × Submission) :=
  if e.nonBlocking then
    match e.tasks.send task with
    | .sent tasks => some ({ e with tasks }, .accepted)
    -- The `default` case.
    | .blocked => some (e, .rejected .full)
    | .panicked => some (e, .panicked)
  else
    match choice with
    | .tasks =>
      match e.tasks.send task with
      | .sent tasks => some ({ e with tasks }, .accepted)
      | .blocked => none
      | .panicked => some (e, .panicked)
    | .stop => if e.stop then some (e, .rejected .closed) else none

/-- `Exec.Do`; the deferred `RUnlock` also runs after a panic. -/
def doStep (task : τ) (choice : SelectCase) (e : Executor τ) :
    SubmitPhase → Option (Executor τ × SubmitPhase)
  | .start => e.mu.rLock.map fun mu => ({ e with mu }, .entered)
  | .entered => some (e, if e.closed then .leaving (.rejected .closed) else .sending)
  | .sending => (e.offer task choice).map fun out => (out.1, .leaving out.2)
  | .leaving result => some ({ e with mu := e.mu.rUnlock }, .returned result)
  | .returned _ => none

/-- `Exec.DoCtx`, which takes no lock. -/
def doCtxStep (task : τ) (choice : SelectCase) (e : Executor τ) :
    SubmitPhase → Option (Executor τ × SubmitPhase)
  | .start => some (e, if e.closed then .returned (.rejected .closed) else .sending)
  | .sending => (e.offer task choice).map fun out => (out.1, .returned out.2)
  | _ => none

/-! ### Stop -/

/-- Where `Stop` is; it returns nil unless it `timedOut`. -/
inductive StopPhase where
  | start
  | locking
  | locked
  | closing
  | waiting
  | unlocking (timedOut : Bool)
  | returned (timedOut : Bool)
  deriving DecidableEq, Repr

/-- `Exec.Stop`; `timeout` tells whether the timer is what ends the wait. -/
def stopStep (timeout : Bool) (e : Executor τ) : StopPhase → Option (Executor τ × StopPhase)
  | .start => e.mu.announce.map fun mu => ({ e with mu }, .locking)
  | .locking => e.mu.acquire.map fun mu => ({ e with mu }, .locked)
  | .locked =>
    if e.closed then some (e, .unlocking false) else some ({ e with closed := true }, .closing)
  | .closing => some ({ e with tasks := e.tasks.close }, .waiting)
  | .waiting =>
    -- The lock is not given back before the wait is over.
    if timeout ∨ e.wg = 0 then some ({ e with stop := true, running := 0 }, .unlocking timeout)
    else none
  | .unlocking timedOut => some ({ e with mu := e.mu.unlock }, .returned timedOut)
  | .returned _ => none

/-! ### The workers -/

/-- Where a worker is: at the head of its loop, at the `select`, running a task, in the loop
    that drains the queue after the stop signal, or at its end. -/
inductive WorkerPhase (ρ : Type) where
  | loop
  | receiving
  | running (task : ρ) (draining : Bool)
  | draining
  | exited
  deriving DecidableEq, Repr

/-- There are more workers than there should be. -/
def Executor.Oversized (e : Executor τ) : Prop :=
  e.running > e.cap ∧ e.cap > 0 ∧ e.closed = false

instance (e : Executor τ) : Decidable e.Oversized :=
  inferInstanceAs (Decidable (_ ∧ _ ∧ _))

/-- The deferred calls of a worker. -/
def Executor.leave (e : Executor τ) : Executor τ :=
  { e with wg := e.wg - 1, running := e.running - 1 }

/-- Where a worker goes on when a task has taken a step. -/
def WorkerPhase.resume (draining : Bool) : Option ρ → WorkerPhase ρ
  | some task => .running task draining
  | none => if draining then .draining else .loop

/-- A worker.  A task is `begin`-ned when it is received, and then `run` takes its steps
    until nothing is left of it. -/
def workerStep (begin : τ → ρ)
    (run : SelectCase → Executor τ → ρ → Option (Executor τ × Option ρ)) (choice : SelectCase)
    (e : Executor τ) : WorkerPhase ρ → Option (Executor τ × WorkerPhase ρ)
  | .loop => if e.Oversized then some (e.leave, .exited) else some (e, .receiving)
  | .receiving =>
    match choice with
    | .tasks =>
      match e.tasks.recv with
      | .received task tasks => some ({ e with tasks }, .running (begin task) false)
      | .closed => some (e.leave, .exited)
      | .blocked => none
    | .stop => if e.stop then some (e, .draining) else none
  | .running task draining =>
    (run choice e task).map fun out => (out.1, .resume draining out.2)
  | .draining =>
    match e.tasks.recv with
    | .received task tasks => some ({ e with tasks }, .running (begin task) true)
    | .closed => some (e.leave, .exited)
    -- The `default` case: the queue is empty.
    | .blocked => some (e.leave, .exited)
  | .exited => none

end GridKV
