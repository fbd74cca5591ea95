import GridKV.ForStd.Go
import GridKV.ForStd.MinHeap

/-!
# The scheduler

Translation of `internal/utils/executor/scheduler.go`, cut at the sections that hold `s.mu`:
the callers of `Schedule`, `Cancel` and `Close`, the dispatcher and the clock take their steps
in any order.  `container/heap` is a parameter, with the contract of `MinHeap`.  A task is
known by the number of the call of `Schedule` that makes it; its function may run for any
time and do anything, as the calls of all goroutines are among the steps.
-/

namespace GridKV

open Go

/-- `ScheduledTask`.  The field `cancel` is kept with the scheduler, and `index` is the place
    in the heap. -/
structure ScheduledTask where
  id : Nat
  when : Time
  deriving DecidableEq, Repr

/-- `Less` -/
def ScheduledTask.less (a b : ScheduledTask) : Prop := a.when < b.when

/-- `container/heap` for `taskHeap`. -/
abbrev TaskHeap := MinHeap ScheduledTask.less

/-- `Scheduler`; `cancelled` has the field `cancel` of each task, and `wakeup` tells whether
    there is an element in the channel, which has room for one. -/
structure Scheduler where
  tasks : List ScheduledTask := []
  cancelled : Nat → Bool := fun _ => false
  closed : Bool := false
  wakeup : Bool := false

/-- Where the dispatcher is: at the top of its loop, waiting for `wakeup`, waiting for the
    timer or `wakeup`, with a task it has taken from the heap and what it has read of its
    field `cancel`, in the function of a task, or at its end. -/
inductive DispatchPhase where
  | top
  | waiting
  | sleeping (deadline : Time)
  | popped (task : ScheduledTask) (cancelled : Bool)
  | running (task : ScheduledTask)
  | ended
  deriving DecidableEq, Repr

namespace Scheduler

/-- The section of `Schedule`. -/
def schedule (heap : TaskHeap) (s : Scheduler) (t : ScheduledTask) : Scheduler :=
  if s.closed then s
  else
    let tasks := heap.push s.tasks t
    -- `t.index == 0`
    { s with tasks, wakeup := s.wakeup || tasks.head? = some t }

/-- `Cancel` -/
def cancel (s : Scheduler) (id : Nat) : Scheduler :=
  { s with cancelled := Function.update s.cancelled id true }

/-- The section of `Close`, and whether the call goes on. -/
def close (s : Scheduler) : Scheduler × Bool :=
  if s.closed then (s, false) else ({ s with closed := true }, true)

/-- The rest of `Close`. -/
def signal (s : Scheduler) : Scheduler := { s with wakeup := true }

/-- The section of `run`. -/
def round (heap : TaskHeap) (s : Scheduler) (now : Time) : Scheduler × DispatchPhase :=
  match s.tasks with
  | [] => (s, if s.closed then .ended else .waiting)
  | next :: _ =>
    if next.when ≤ now then
      ({ s with tasks := heap.pop s.tasks }, .popped next (s.cancelled next.id))
    else (s, .sleeping next.when)

end Scheduler

/-- The scheduler in use: the clock, the calls of `Schedule` that have made their task and not
    got the lock yet, whether `Close` is about to signal, the dispatcher, and a record of the
    functions that were started, with the time. -/
structure SchedulerUse where
  sched : Scheduler := {}
  now : Time
  nextId : Nat := 0
  arriving : List ScheduledTask := []
  closing : Bool := false
  dispatcher : DispatchPhase := .top
  started : List (ScheduledTask × Time) := []

inductive SchedulerAction where
  /-- Time passes. -/
  | tick (now : Time)
  /-- `Schedule` makes its task. -/
  | schedule (d : Int)
  /-- It gets the lock. -/
  | push (task : ScheduledTask)
  | cancel (id : Nat)
  | close
  /-- `Close` signals and returns. -/
  | signal
  /-- The dispatcher gets the lock. -/
  | round
  /-- It receives from `wakeup`. -/
  | wake
  /-- It receives from the timer. -/
  | fire
  /-- It calls the function of the task, if it was not cancelled. -/
  | proceed
  /-- The function returns. -/
  | finish
  deriving DecidableEq, Repr

namespace SchedulerUse

/-- `NewScheduler` -/
def new (now : Time) : SchedulerUse where
  now

def step (heap : TaskHeap) (s : SchedulerUse) : SchedulerAction → Option SchedulerUse
  | .tick now => if s.now ≤ now then some { s with now } else none
  | .schedule d =>
    if d < 0 then some s
    else
      let task := ⟨s.nextId, s.now + d⟩
      some { s with nextId := s.nextId + 1, arriving := task :: s.arriving }
  | .push task =>
    if task ∈ s.arriving then
      some { s with
        arriving := s.arriving.erase task
        sched := s.sched.schedule heap task }
    else none
  | .cancel id => some { s with sched := s.sched.cancel id }
  | .close => some { s with sched := s.sched.close.1, closing := s.closing || s.sched.close.2 }
  | .signal => if s.closing then some { s with sched := s.sched.signal, closing := false } else none
  | .round =>
    if s.dispatcher = .top then
      some { s with
        sched := (s.sched.round heap s.now).1
        dispatcher := (s.sched.round heap s.now).2 }
    else none
  | .wake =>
    match s.dispatcher with
    | .waiting | .sleeping _ =>
      if s.sched.wakeup then
        some { s with sched := { s.sched with wakeup := false }, dispatcher := .top }
      else none
    | _ => none
  | .fire =>
    match s.dispatcher with
    | .sleeping deadline => if deadline ≤ s.now then some { s with dispatcher := .top } else none
    | _ => none
  | .proceed =>
    match s.dispatcher with
    | .popped task cancelled =>
      if cancelled then some { s with dispatcher := .top }
      else some { s with dispatcher := .running task, started := s.started ++ [(task, s.now)] }
    | _ => none
  | .finish =>
    match s.dispatcher with
    | .running _ => some { s with dispatcher := .top }
    | _ => none

end SchedulerUse

end GridKV
