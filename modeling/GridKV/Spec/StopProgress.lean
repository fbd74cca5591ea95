import GridKV.ForStd.Halting
import GridKV.Spec.ExecutorSteps

/-!
# Whether Stop comes to its end

`Stop` waits for the workers with the lock held that `Do` needs, so a task that still has a
`Do` ahead of it and does not get there before `Stop` has the lock never ends, and neither
does the wait.  An executor at work therefore comes to its end in every interleaving with
`Stop` if and only if no task that is queued or running has a `Do` ahead of it
(`halts_iff`).
-/

namespace GridKV

open Go Run Interleave Function

/-- A task is over, or takes a step of its own, or submits a task with `Do` and goes on as
    the answer says. -/
inductive ExecTask where
  | done
  | work (next : ExecTask)
  | submit (child accepted rejected : ExecTask)
  deriving DecidableEq, Repr

/-- What is left of a task, and where its call of `Do` is if that comes first. -/
structure RunningTask where
  rest : ExecTask
  call : SubmitPhase := .start
  deriving DecidableEq, Repr

namespace ExecTask

/-- There is a `Do` ahead. -/
def submits : ExecTask → Bool
  | .done => false
  | .work next => next.submits
  | .submit .. => true

/-- The number of steps up to the end or to the first `Do`. -/
def steps : ExecTask → Nat
  | .work next => next.steps + 1
  | _ => 0

end ExecTask

namespace RunningTask

/-- A step of a running task.  `run` recovers from a panic, so that it only ends the task. -/
def step (choice : SelectCase) (e : Executor ExecTask) (r : RunningTask) :
    Option (Executor ExecTask × Option RunningTask) :=
  match r.rest with
  | .done => some (e, none)
  | .work next => some (e, some { rest := next })
  | .submit child accepted rejected =>
    match r.call with
    | .returned .accepted => some (e, some { rest := accepted })
    | .returned (.rejected _) => some (e, some { rest := rejected })
    | .returned .panicked => some (e, none)
    | call => (doStep child choice e call).map fun out => (out.1, some { r with call := out.2 })

variable {choice : SelectCase} {e e' : Executor ExecTask} {r : RunningTask}
  {rest : Option RunningTask}

/-- A task without a `Do` leaves the executor alone and gets shorter. -/
theorem step_of_not_submits (h : r.rest.submits = false)
    (hstep : r.step choice e = some (e', rest)) :
    e' = e ∧ ∀ r', rest = some r' → r'.rest.submits = false ∧ r'.rest.steps < r.rest.steps := by
  obtain ⟨task, call⟩ := r
  cases task with
  | done =>
    cases hstep
    exact ⟨rfl, nofun⟩
  | work next =>
    cases hstep
    refine ⟨rfl, fun r' hr' => ?_⟩
    cases hr'
    exact ⟨h, Nat.lt_succ_self _⟩
  | submit child accepted rejected => exact nomatch h

theorem step_ne_none_of_not_submits (h : r.rest.submits = false) : r.step choice e ≠ none := by
  obtain ⟨task, call⟩ := r
  cases task with
  | done | work => exact Option.some_ne_none _
  | submit child accepted rejected => cases h

/-- While the lock is held a task gets as far as its next `Do`. -/
theorem step_of_writer (hwriter : e.mu.writer = true) (hcall : r.call = .start)
    (hstep : r.step choice e = some (e', rest)) :
    e' = e ∧ (∀ r', rest = some r' → r'.call = .start) ∧
      (r.rest.submits = true → ∃ r', rest = some r' ∧ r'.rest.submits = true) := by
  obtain ⟨task, call⟩ := r
  cases task with
  | done =>
    cases hstep
    refine ⟨rfl, fun r' hr' => ?_, fun hsubmits => ?_⟩
    · cases hr'
    · cases hsubmits
  | work next =>
    cases hstep
    refine ⟨rfl, fun r' hr' => ?_, fun h => ⟨_, rfl, h⟩⟩
    cases hr'
    rfl
  | submit child accepted rejected =>
    cases hcall
    simp only [step, doStep, RWMutex.rLock_of_writer hwriter, Option.map_none] at hstep
    cases hstep

end RunningTask

namespace WorkerPhase

/-- The worker's task has a `Do` ahead of it. -/
def submits : WorkerPhase RunningTask → Bool
  | .running r _ => r.rest.submits
  | _ => false

/-- No call of `Do` has begun. -/
def Idle (p : WorkerPhase RunningTask) : Prop :=
  ∀ r draining, p = .running r draining → r.call = .start

/-- How many steps a worker has ahead of it if it finds nothing more to do. -/
def ahead : WorkerPhase RunningTask → Nat
  | .exited => 0
  | .draining => 1
  | .receiving => 2
  | .loop => 3
  | .running r _ => r.rest.steps + 4

end WorkerPhase

/-- How many steps `Stop` has ahead of it. -/
def StopPhase.ahead : StopPhase → Nat
  | .start => 6
  | .locking => 5
  | .locked => 4
  | .closing => 3
  | .waiting => 2
  | .unlocking _ => 1
  | .returned _ => 0

theorem StopMove.ahead_lt {timeout : Bool} {e e' : Executor ExecTask} {p p' : StopPhase}
    (h : StopMove timeout e p e' p') (hfollows : e.Follows p) : p'.ahead < p.ahead := by
  cases h with
  | again hmarked => exact nomatch hmarked.symm.trans hfollows.closed
  | announce | acquire | mark | close => decide
  | waited => exact Nat.one_lt_two
  | unlock => exact Nat.one_pos

/-- Without the timer the wait ends when all workers have left. -/
theorem StopMove.wg_eq_zero {e e' : Executor ExecTask} {p p' : StopPhase}
    (h : StopMove false e p e' p') (hfollows : e.Follows p)
    (hbefore : p.waited = true → e.wg = 0 ∧ (p = .unlocking false ∨ p = .returned false))
    (hwaited : p'.waited = true) :
    e'.wg = 0 ∧ (p' = .unlocking false ∨ p' = .returned false) := by
  cases h with
  | again hmarked => exact nomatch hmarked.symm.trans hfollows.closed
  | announce | acquire | mark | close => exact nomatch hwaited
  | waited hover => exact ⟨hover.resolve_left nofun, .inl rfl⟩
  | unlock timedOut =>
    obtain ⟨hzero, hstop | hstop⟩ := hbefore rfl
    · cases hstop
      exact ⟨hzero, .inr rfl⟩
    · exact nomatch hstop

/-- An executor with its workers, and a call of `Stop`. -/
structure Shutdown (w : Nat) where
  exec : Executor ExecTask
  stop : StopPhase := .start
  worker : Fin w → WorkerPhase RunningTask

/-- `Stop` takes a step, or a worker does. -/
inductive ShutdownAction (w : Nat) where
  | stop
  | work (j : Fin w) (choice : SelectCase)

namespace Shutdown

variable {w : Nat} {s t : Shutdown w} {j : Fin w} {a : ShutdownAction w} {choice : SelectCase}
  {e e' : Executor ExecTask} {worker : Fin w → WorkerPhase RunningTask}
  {p p' : WorkerPhase RunningTask}

/-- The wait of `Stop` is not ended by the timer. -/
def step (s : Shutdown w) : ShutdownAction w → Option (Shutdown w)
  | .stop => (stopStep false s.exec s.stop).map fun out => { s with exec := out.1, stop := out.2 }
  | .work j choice =>
    (workerStep (RunningTask.mk · .start) RunningTask.step choice s.exec
        (s.worker j)).map fun out =>
      { s with exec := out.1, worker := update s.worker j out.2 }

/-- `Stop` has returned nil and the workers have ended. -/
def Finished (s : Shutdown w) : Prop :=
  s.stop = .returned false ∧ ∀ j, s.worker j = .exited

/-- A task that is queued or running has a `Do` ahead of it. -/
def DoAhead (s : Shutdown w) : Prop :=
  (∃ task ∈ s.exec.tasks.buf, task.submits = true) ∨ ∃ j, (s.worker j).submits = true

/-- An executor at work, with any tasks in its queue and in the hands of its workers, before
    `Stop` has begun and while no task is in a call of `Do`. -/
structure Working (s : Shutdown w) : Prop where
  stop : s.stop = .start
  follows : s.exec.Follows .start
  staffed : s.exec.Staffed s.worker
  readers : s.exec.mu.readers = 0
  pending : s.exec.mu.pending = false
  idle : ∀ j, (s.worker j).Idle

/-! ### Without a Do ahead -/

/-- What `Stop` and the workers have ahead of them. -/
def ahead (s : Shutdown w) : Nat :=
  s.stop.ahead + (s.exec.tasks.buf.map fun task => task.steps + 4).sum +
    tally WorkerPhase.ahead s.worker

/-- The invariant of the runs in which no task submits another one. -/
structure Calm (s : Shutdown w) : Prop where
  follows : s.exec.Follows s.stop
  staffed : s.exec.Staffed s.worker
  readers : s.exec.mu.readers = 0
  pending : s.stop = .start → s.exec.mu.pending = false
  ended : s.stop.waited = true →
    s.exec.wg = 0 ∧ (s.stop = .unlocking false ∨ s.stop = .returned false)
  queue : ∀ task ∈ s.exec.tasks.buf, task.submits = false
  workers : ∀ j, (s.worker j).submits = false

theorem Working.calm (h : s.Working) (hnone : ¬s.DoAhead) : s.Calm := by
  refine ⟨?_, h.staffed, h.readers, fun _ => h.pending, ?_, fun task htask => ?_, fun j => ?_⟩
  · rw [h.stop]
    exact h.follows
  · rw [h.stop]
    exact nofun
  · exact Bool.eq_false_iff.mpr fun hsubmits => hnone (.inl ⟨task, htask, hsubmits⟩)
  · exact Bool.eq_false_iff.mpr fun hsubmits => hnone (.inr ⟨j, hsubmits⟩)

theorem Calm.stop {p : StopPhase} (h : s.Calm) (hmove : StopMove false s.exec s.stop e' p) :
    Calm { s with exec := e', stop := p } ∧ ahead { s with exec := e', stop := p } < s.ahead := by
  obtain ⟨hbuf, -, hreaders, hstart⟩ := hmove.rest
  have hahead := hmove.ahead_lt h.follows
  refine ⟨⟨h.follows.stop hmove, h.staffed.stop hmove, hreaders.trans h.readers,
    fun hp => absurd hp hstart, hmove.wg_eq_zero h.follows h.ended, ?_, h.workers⟩, ?_⟩
  · rw [hbuf]
    exact h.queue
  · unfold ahead
    dsimp only
    rw [hbuf]
    omega

/-- A worker whose task has no `Do` ahead takes a step. -/
theorem ahead_of_workerMove (hp : p.submits = false)
    (h : WorkerMove (RunningTask.mk · .start) RunningTask.step choice e p e' p') :
    (e'.tasks.buf.map fun task => task.steps + 4).sum + p'.ahead <
      (e.tasks.buf.map fun task => task.steps + 4).sum + p.ahead := by
  cases h with
  | look | signalled | drained => exact Nat.lt_succ_self _
  | resized | closed => exact Nat.lt_add_of_pos_right (by decide)
  | receive hbuf =>
    rw [hbuf, List.map_cons, List.sum_cons]
    simp only [WorkerPhase.ahead]
    omega
  | run hrun =>
    rename_i r draining rest
    obtain ⟨rfl, hshorter⟩ := RunningTask.step_of_not_submits hp hrun
    apply Nat.add_lt_add_left
    cases rest with
    | none => cases draining <;> simp [WorkerPhase.resume, WorkerPhase.ahead]
    | some r' => exact Nat.add_lt_add_right (hshorter r' rfl).2 4
  | drain hbuf =>
    rw [hbuf, List.map_cons, List.sum_cons]
    simp only [WorkerPhase.ahead]
    omega

/-- The worker's next task comes from the queue, or is what is left of the one it has. -/
theorem submits_of_workerMove (hqueue : ∀ task ∈ e.tasks.buf, task.submits = false)
    (hp : p.submits = false)
    (h : WorkerMove (RunningTask.mk · .start) RunningTask.step choice e p e' p') :
    (∀ task ∈ e'.tasks.buf, task.submits = false) ∧ p'.submits = false := by
  cases h with
  | look | resized | closed | signalled | drained => exact ⟨hqueue, rfl⟩
  | receive hbuf =>
    rw [hbuf] at hqueue
    exact ⟨fun task htask => hqueue task (.tail _ htask), hqueue _ (.head _)⟩
  | run hrun =>
    rename_i r draining rest
    obtain ⟨rfl, hshorter⟩ := RunningTask.step_of_not_submits hp hrun
    refine ⟨hqueue, ?_⟩
    cases rest with
    | none => cases draining <;> rfl
    | some r' => exact (hshorter r' rfl).1
  | drain hbuf =>
    rw [hbuf] at hqueue
    exact ⟨fun task htask => hqueue task (.tail _ htask), hqueue _ (.head _)⟩

theorem Calm.work (h : s.Calm)
    (hmove : WorkerMove (RunningTask.mk · .start) RunningTask.step choice s.exec (s.worker j)
      e' p) :
    Calm { s with exec := e', worker := update s.worker j p } ∧
      ahead { s with exec := e', worker := update s.worker j p } < s.ahead := by
  -- A task without a `Do` leaves the executor alone.
  have hrun : ∀ r draining e' rest, s.worker j = .running r draining →
      r.step choice s.exec = some (e', rest) → e' = s.exec := by
    intro r draining e' rest hphase hstep
    have hnone := h.workers j
    rw [hphase] at hnone
    exact (RunningTask.step_of_not_submits hnone hstep).1
  have hserves := hmove.serves hrun
  obtain ⟨hqueue, hp⟩ := submits_of_workerMove h.queue (h.workers j) hmove
  refine ⟨⟨h.follows.serves hserves, ?_, ?_, ?_, ?_, hqueue, ?_⟩, ?_⟩
  · apply h.staffed.work h.follows.closed_of_signal _ hmove
    intro r draining e' rest hphase hstep
    rw [hrun r draining e' rest hphase hstep]
    exact .refl _
  · rw [hserves.rest]
    exact h.readers
  · rw [hserves.rest]
    exact h.pending
  · intro hwaited
    obtain ⟨hzero, hstop⟩ := h.ended hwaited
    exact ⟨Nat.le_zero.mp (hzero ▸ hserves.wg), hstop⟩
  · exact forall_phase_update (J := fun _ (p : WorkerPhase RunningTask) => p.submits = false) rfl
      h.workers hp
  · have hahead := ahead_of_workerMove (h.workers j) hmove
    have htally := tally_update WorkerPhase.ahead s.worker j p
    unfold ahead
    dsimp only
    omega

theorem Calm.step (h : s.Calm) (hstep : s.step a = some t) : t.Calm ∧ t.ahead < s.ahead := by
  cases a with
  | stop =>
    obtain ⟨⟨e', p⟩, hmove, rfl⟩ := Option.map_eq_some_iff.mp hstep
    exact h.stop (stopMove_of_stopStep hmove)
  | work j choice =>
    obtain ⟨⟨e', p⟩, hmove, rfl⟩ := Option.map_eq_some_iff.mp hstep
    exact h.work (workerMove_of_workerStep hmove)

/-- Once the task channel is closed a worker always has a next step. -/
theorem workerStep_ne_none (hclosed : e.tasks.closed = true) (hp : p.submits = false)
    (halive : p ≠ .exited) :
    workerStep (RunningTask.mk · .start) RunningTask.step .tasks e p ≠ none := by
  cases p with
  | loop | draining =>
    simp only [workerStep]
    split <;> exact Option.some_ne_none _
  | receiving =>
    simp only [workerStep]
    split
    · exact Option.some_ne_none _
    · exact Option.some_ne_none _
    · -- A closed channel does not block.
      rename_i hrecv
      exact absurd hclosed (Bool.eq_false_iff.mp (Chan.recv_eq_blocked hrecv).1)
  | running r draining =>
    have hrun : r.step .tasks e ≠ none := RunningTask.step_ne_none_of_not_submits hp
    simpa [workerStep] using hrun
  | exited => exact absurd rfl halive

theorem exited_of_wg_eq_zero (h : e.Staffed worker) (hwg : e.wg = 0) (j : Fin w) :
    worker j = .exited := by
  have hle := le_tally WorkerPhase.alive worker j
  rw [← h.wg, hwg] at hle
  exact WorkerPhase.alive_eq_zero.mp (Nat.le_zero.mp hle)

/-- `Stop` can go on, unless it waits for a worker or has returned. -/
theorem Calm.stopStep_ne_none (h : s.Calm) (hwaiting : s.stop = .waiting → s.exec.wg = 0)
    (hreturned : ∀ timedOut, s.stop ≠ .returned timedOut) :
    stopStep false s.exec s.stop ≠ none := by
  have hwriter := h.follows.writer
  have hpending := h.pending
  have hreaders := h.readers
  cases hphase : s.stop with
  | start =>
    rw [hphase] at hwriter
    simp [stopStep, RWMutex.announce, hpending hphase, hwriter, StopPhase.holdsLock]
  | locking => simp [stopStep, RWMutex.acquire, hreaders]
  | locked =>
    simp only [stopStep]
    split <;> exact Option.some_ne_none _
  | closing | unlocking => exact Option.some_ne_none _
  | waiting => simp [stopStep, hwaiting hphase]
  | returned timedOut => exact absurd hphase (hreturned timedOut)

theorem Calm.progress (h : s.Calm) (hnot : ¬s.Finished) : ∃ a, s.step a ≠ none := by
  by_cases hwaiting : s.stop = .waiting ∧ s.exec.wg ≠ 0
  · -- A worker that has not left takes the next step.
    obtain ⟨hstop, hwg⟩ := hwaiting
    rw [h.staffed.wg] at hwg
    obtain ⟨j, -, halive⟩ := Finset.exists_ne_zero_of_sum_ne_zero hwg
    have hclosed := h.follows.tasks
    rw [hstop] at hclosed
    have hsome := workerStep_ne_none hclosed (h.workers j) (mt WorkerPhase.alive_eq_zero.mpr halive)
    exact ⟨.work j .tasks, fun hnone => hsome (Option.map_eq_none_iff.mp hnone)⟩
  · have hsome := h.stopStep_ne_none (fun hstop => by tauto) fun timedOut hstop => ?_
    · exact ⟨.stop, fun hnone => hsome (Option.map_eq_none_iff.mp hnone)⟩
    · -- When `Stop` has returned everybody has left.
      obtain ⟨hzero, hunlocking | hreturned⟩ := h.ended (by rw [hstop]; rfl)
      · exact nomatch hstop.symm.trans hunlocking
      · exact hnot ⟨hreturned, exited_of_wg_eq_zero h.staffed hzero⟩

/-! ### With a Do ahead -/

/-- `Stop` waits, and a task it waits for has a `Do` ahead of it. -/
structure Wedged (s : Shutdown w) : Prop where
  stop : s.stop = .waiting
  follows : s.exec.Follows .waiting
  staffed : s.exec.Staffed s.worker
  idle : ∀ j, (s.worker j).Idle
  ahead : s.DoAhead

/-- Somebody is at work as long as there is something to do. -/
theorem Wedged.wg_ne_zero (h : s.Wedged) (hw : 0 < w) : s.exec.wg ≠ 0 := by
  intro hzero
  -- All workers have left, and they leave behind an empty queue.
  have hexited := exited_of_wg_eq_zero h.staffed hzero
  rcases h.ahead with ⟨task, htask, -⟩ | ⟨j, hsubmits⟩
  · rw [(h.staffed.exited ⟨0, hw⟩ (hexited _)).2] at htask
    exact nomatch htask
  · rw [hexited j] at hsubmits
    exact nomatch hsubmits

theorem step_stop {p p' : StopPhase} (h : stopStep false e p = some (e', p')) :
    step ⟨e, p, worker⟩ .stop = some ⟨e', p', worker⟩ := by
  rw [step, h, Option.map_some]

/-- `Stop` takes the lock and closes the channel before anybody else does anything. -/
theorem Working.wedges (h : s.Working) (hahead : s.DoAhead) :
    ∃ t, Runs step s [.stop, .stop, .stop, .stop] t ∧ t.Wedged := by
  obtain ⟨e, stop, worker⟩ := s
  obtain ⟨rfl, hfollows, hstaffed, hreaders, hpending, hidle⟩ := h
  dsimp only at hfollows hstaffed hreaders hpending hidle
  let e₁ := { e with mu := { e.mu with pending := true } }
  let e₂ := { e₁ with mu := { e₁.mu with pending := false, writer := true } }
  let e₃ := { e₂ with closed := true }
  have hannounce : stopStep false e .start = some (e₁, .locking) := by
    have hwriter : e.mu.writer = false := hfollows.writer
    simp [stopStep, RWMutex.announce, hpending, hwriter, e₁]
  have hacquire : stopStep false e₁ .locking = some (e₂, .locked) := by
    simp [stopStep, RWMutex.acquire, e₁, e₂, hreaders]
  have hmark : stopStep false e₂ .locked = some (e₃, .closing) := by
    have hclosed : e₂.closed = false := hfollows.closed
    simp [stopStep, hclosed, e₃]
  have hclose : stopStep false e₃ .closing =
      some ({ e₃ with tasks := e₃.tasks.close }, .waiting) := rfl
  refine ⟨⟨{ e₃ with tasks := e₃.tasks.close }, .waiting, worker⟩, .cons trivial
    (step_stop hannounce) (.cons trivial (step_stop hacquire) (.cons trivial (step_stop hmark)
    (.cons trivial (step_stop hclose) (.nil _)))), ⟨rfl, ?_, ?_, hidle, hahead⟩⟩
  · exact (((hfollows.stop (stopMove_of_stopStep hannounce)).stop
      (stopMove_of_stopStep hacquire)).stop (stopMove_of_stopStep hmark)).stop
      (stopMove_of_stopStep hclose)
  · exact (((hstaffed.stop (stopMove_of_stopStep hannounce)).stop
      (stopMove_of_stopStep hacquire)).stop (stopMove_of_stopStep hmark)).stop
      (stopMove_of_stopStep hclose)

/-- The task that a worker receives may be the one with a `Do` ahead of it. -/
theorem submits_of_received {task : ExecTask} {buf buf' : List ExecTask} (draining : Bool)
    (hbuf : buf = task :: buf') (h : ∃ task ∈ buf, task.submits = true) :
    (∃ task ∈ buf', task.submits = true) ∨
      (WorkerPhase.running ⟨task, .start⟩ draining).submits = true := by
  subst hbuf
  obtain ⟨found, hfound, hsubmits⟩ := h
  rcases List.mem_cons.mp hfound with rfl | hrest
  · exact .inr hsubmits
  · exact .inl ⟨found, hrest, hsubmits⟩

/-- A task with a `Do` ahead of it keeps it while the lock is held: it may be taken from the
    queue and may come closer to its `Do`. -/
theorem submits_of_writer (hwriter : e.mu.writer = true) (hidle : p.Idle)
    (h : WorkerMove (RunningTask.mk · .start) RunningTask.step choice e p e' p')
    (hsubmits : (∃ task ∈ e.tasks.buf, task.submits = true) ∨ p.submits = true) :
    (∃ task ∈ e'.tasks.buf, task.submits = true) ∨ p'.submits = true := by
  cases h with
  | look | resized | closed | signalled | drained => exact hsubmits
  | receive hbuf => exact submits_of_received false hbuf (hsubmits.resolve_right nofun)
  | run hrun =>
    rename_i r draining rest
    obtain ⟨rfl, -, hkeeps⟩ := RunningTask.step_of_writer hwriter (hidle r draining rfl) hrun
    refine hsubmits.imp id fun hself => ?_
    obtain ⟨r', rfl, hr'⟩ := hkeeps hself
    exact hr'
  | drain hbuf => exact submits_of_received true hbuf (hsubmits.resolve_right nofun)

theorem idle_of_writer (hwriter : e.mu.writer = true) (hidle : p.Idle)
    (h : WorkerMove (RunningTask.mk · .start) RunningTask.step choice e p e' p') : p'.Idle := by
  intro r' draining' hp'
  cases h with
  | look | resized | closed | signalled | drained => exact nomatch hp'
  | receive | drain => cases hp'; rfl
  | run hrun =>
    rename_i r draining rest
    obtain ⟨-, hstart, -⟩ := RunningTask.step_of_writer hwriter (hidle r draining rfl) hrun
    cases rest with
    | none => cases draining <;> exact nomatch hp'
    | some r' =>
      cases hp'
      exact hstart r' rfl

theorem Wedged.work (h : s.Wedged)
    (hmove : WorkerMove (RunningTask.mk · .start) RunningTask.step choice s.exec (s.worker j)
      e' p) : Wedged { s with exec := e', worker := update s.worker j p } := by
  have hwriter : s.exec.mu.writer = true := h.follows.writer
  have hrun : ∀ r draining e' rest, s.worker j = .running r draining →
      r.step choice s.exec = some (e', rest) → e' = s.exec := by
    intro r draining e' rest hphase hstep
    exact (RunningTask.step_of_writer hwriter (h.idle j r draining hphase) hstep).1
  have hidle := idle_of_writer hwriter (h.idle j) hmove
  refine ⟨h.stop, h.follows.serves (hmove.serves hrun), ?_, ?_, ?_⟩
  · apply h.staffed.work h.follows.closed_of_signal _ hmove
    intro r draining e' rest hphase hstep
    rw [hrun r draining e' rest hphase hstep]
    exact .refl _
  · exact forall_phase_update (J := fun _ (p : WorkerPhase RunningTask) => p.Idle) rfl h.idle hidle
  · have hmoved : (∃ task ∈ s.exec.tasks.buf, task.submits = true) ∨ (s.worker j).submits = true →
        DoAhead { s with exec := e', worker := update s.worker j p } := by
      intro hbefore
      refine (submits_of_writer hwriter (h.idle j) hmove hbefore).imp id fun hp => ⟨j, ?_⟩
      dsimp only
      rwa [update_self]
    rcases h.ahead with hqueue | ⟨k, hk⟩
    · exact hmoved (.inl hqueue)
    · by_cases hkj : k = j
      · subst hkj
        exact hmoved (.inr hk)
      · refine .inr ⟨k, ?_⟩
        dsimp only
        rwa [update_of_ne hkj]

theorem Wedged.step (h : s.Wedged) (hw : 0 < w) (hstep : s.step a = some t) : t.Wedged := by
  cases a with
  | stop =>
    obtain ⟨⟨e', p⟩, hmove, rfl⟩ := Option.map_eq_some_iff.mp hstep
    have hover := h.wg_ne_zero hw
    simp [h.stop, stopStep, hover] at hmove
  | work j choice =>
    obtain ⟨⟨e', p⟩, hmove, rfl⟩ := Option.map_eq_some_iff.mp hstep
    exact h.work (workerMove_of_workerStep hmove)

/-! ### The main result -/

/-- Every interleaving of the workers with `Stop` ends with `Stop` having returned nil and the
    workers having left, if and only if no task has a `Do` ahead of it. -/
theorem halts_iff (h : s.Working) (hw : 0 < w) : Halts step Finished s ↔ ¬s.DoAhead := by
  constructor
  · intro hhalts hahead
    obtain ⟨t, hrun, hwedged⟩ := h.wedges hahead
    obtain ⟨bs, u, hbs, hfinished⟩ := hhalts.reaches hrun
    have hstill := hbs.invariant (fun _ _ _ h _ hstep => h.step hw hstep) hwedged
    exact nomatch hstill.stop.symm.trans hfinished.1
  · intro hnone
    exact halts_of_measure (fun _ _ _ h hstep => h.step hstep) (fun _ h hnot => h.progress hnot)
      (h.calm hnone)

/-- A new executor with tasks in its queue. -/
def queued (opts : ExecutorOpts) (numCPU : Nat) (tasks : List ExecTask) :
    Shutdown (opts.workerCount numCPU) where
  exec := { (Executor.new opts numCPU : Executor ExecTask) with
    tasks := { cap := opts.queueCap numCPU, buf := tasks } }
  worker _ := .loop

theorem working_queued (opts : ExecutorOpts) (numCPU : Nat) (tasks : List ExecTask) :
    (queued opts numCPU tasks).Working := by
  refine ⟨rfl, ⟨rfl, rfl, rfl, rfl, nofun⟩, ⟨?_, Int.le_refl _, nofun, nofun⟩, rfl, rfl,
    fun _ => nofun⟩
  have hall : tally WorkerPhase.alive (queued opts numCPU tasks).worker = _ :=
    tally_const (n := 1) fun _ => rfl
  rw [hall, Fintype.card_fin, Nat.mul_one]
  rfl

theorem halts_without_do :
    Halts step Finished (queued { workers := 2 } 1 [.work .done, .work (.work .done)]) := by
  refine (halts_iff (working_queued _ _ _) (by decide)).mpr ?_
  rintro (⟨task, htask, hsubmits⟩ | ⟨j, hsubmits⟩)
  · have hnone : ∀ task ∈ [ExecTask.work .done, .work (.work .done)], task.submits = false := by
      decide
    exact nomatch (hnone task htask).symm.trans hsubmits
  · exact nomatch hsubmits

/-- The only worker has received the task when `Stop` takes the lock. -/
def stopBeforeDo : List (ShutdownAction 1) :=
  [.work (.last 0) .tasks, .work (.last 0) .tasks, .stop, .stop, .stop, .stop]

/-- The task waits for the lock that `Stop` has, and `Stop` for the task. -/
theorem stopBeforeDo_deadlocks :
    ∃ t, Runs step (queued { workers := 1 } 1 [.submit .done .done .done]) stopBeforeDo t ∧
      (∀ a, t.step a = none) ∧ ¬t.Finished := by
  refine ⟨_, runs_of_exec rfl, fun a => ?_, fun h => ?_⟩
  · cases a with
    | stop => rfl
    | work j choice =>
      have hj : j = Fin.last 0 := Subsingleton.elim (α := Fin 1) j _
      subst hj
      rfl
  · cases h.1

end Shutdown

end GridKV
