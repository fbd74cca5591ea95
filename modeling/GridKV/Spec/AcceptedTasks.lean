import GridKV.Spec.ExecutorSteps

/-!
# Accepted tasks run once

Any number of callers submit one task each, with `Do` or `DoCtx`, while `Stop` is called.
`Do` has the read lock from its look at `closed` to the end of its send, so `Stop` cannot
close the task channel in between.  `DoCtx` takes no lock, and one that has looked and not
yet sent when the channel is closed panics.  Where no `DoCtx` is at that point no caller
panics, and once `Stop` has returned nil the accepted tasks have all run once and the
rejected ones not at all (`runs_once`).
-/

namespace GridKV

open Go Run Interleave List Function

/-- A caller of `Do`, or of `DoCtx`. -/
structure Submitter where
  viaCtx : Bool
  phase : SubmitPhase := .start
  deriving DecidableEq, Repr

namespace Submitter

def step {τ : Type} (task : τ) (choice : SelectCase) (e : Executor τ) (c : Submitter) :
    Option (Executor τ × Submitter) :=
  (if c.viaCtx then doCtxStep task choice e c.phase else doStep task choice e c.phase).map
    fun out => (out.1, { c with phase := out.2 })

/-- The caller has the read lock. -/
def reading (c : Submitter) : Nat :=
  if c.viaCtx then 0
  else
    match c.phase with
    | .entered | .sending | .leaving _ => 1
    | _ => 0

/-- The call returns nil, or has done so. -/
def accepted (c : Submitter) : Nat :=
  match c.phase with
  | .leaving .accepted | .returned .accepted => 1
  | _ => 0

/-- The call has panicked. -/
def Panicked (c : Submitter) : Prop :=
  c.phase = .leaving .panicked ∨ c.phase = .returned .panicked

/-- What a step of a caller does to the executor and to its own place in the counts. -/
structure Moves {τ : Type} (task : τ) (e : Executor τ) (c : Submitter) (e' : Executor τ)
    (c' : Submitter) : Prop where
  submits : e.Submits e'
  readers : e'.mu.readers + c.reading = e.mu.readers + c'.reading
  queue : e'.tasks.buf = e.tasks.buf ∧ c'.accepted = c.accepted ∨
    e'.tasks.buf = e.tasks.buf ++ [task] ∧ c.accepted = 0 ∧ c'.accepted = 1
  sending : c'.phase = .sending → e.closed = false
  panicked : c'.Panicked → c.Panicked ∨ c.phase = .sending ∧ e.tasks.closed = true

section

variable {τ : Type} {task : τ} {choice : SelectCase} {e e' : Executor τ} {c c' : Submitter}

/-- Nobody but a worker takes a task out of the queue. -/
theorem submits_of_step (h : c.step task choice e = some (e', c')) :
    e.Submits e' ∧ e.tasks.buf <+: e'.tasks.buf := by
  obtain ⟨⟨e₁, phase'⟩, hstep, hout⟩ := Option.map_eq_some_iff.mp h
  cases hout
  split at hstep
  all_goals generalize c.phase = phase at hstep
  · cases doCtxMove_of_doCtxStep hstep with
    | offer hoffered => exact ⟨hoffered.submits, hoffered.queued⟩
    | _ => exact ⟨.refl e, prefix_refl _⟩
  · have hmove := doMove_of_doStep hstep
    refine ⟨hmove.submits, ?_⟩
    cases hmove with
    | offer hoffered => exact hoffered.queued
    | _ => exact prefix_refl _

theorem accepted_of_over {result : Submission}
    (h : c.phase = .leaving result ∨ c.phase = .returned result) :
    c.accepted = if result = .accepted then 1 else 0 := by
  unfold accepted
  rcases h with h | h <;> rw [h] <;> cases result <;> rfl

theorem panicked_of_over {result : Submission}
    (h : c.phase = .leaving result ∨ c.phase = .returned result) (hpanicked : c.Panicked) :
    result = .panicked := by
  rcases h with h | h <;> rcases hpanicked with hp | hp <;> cases h.symm.trans hp <;> rfl

/-- The `select`, after which the call is over or has only to leave. -/
theorem moves_of_offered {result : Submission} (hoffered : Offered e task e' result)
    (hsending : c.phase = .sending)
    (hover : c'.phase = .leaving result ∨ c'.phase = .returned result)
    (hreading : c'.reading = c.reading) : Moves task e c e' c' := by
  have hnot : c.accepted = 0 := by rw [accepted, hsending]
  have haccepted := accepted_of_over hover
  have hleft : c'.phase ≠ .sending := by
    rcases hover with hover | hover <;> rw [hover] <;> nofun
  refine ⟨hoffered.submits, ?_, ?_, fun h => absurd h hleft, fun h => ?_⟩
  · cases hoffered <;> rw [hreading]
  · cases hoffered with
    | accepted => exact .inr ⟨rfl, hnot, haccepted⟩
    | rejected | panicked => exact .inl ⟨rfl, haccepted.trans hnot.symm⟩
  · obtain rfl := panicked_of_over hover h
    cases hoffered with
    | panicked hclosed => exact .inr ⟨hsending, hclosed⟩

theorem moves_of_step (hreading : c.reading ≤ e.mu.readers)
    (h : c.step task choice e = some (e', c')) : Moves task e c e' c' := by
  obtain ⟨⟨e₁, phase'⟩, hstep, hout⟩ := Option.map_eq_some_iff.mp h
  obtain ⟨viaCtx, phase⟩ := c
  cases hout
  cases viaCtx with
  | true =>
    cases doCtxMove_of_doCtxStep hstep with
    | refuse => exact ⟨.refl e, rfl, .inl ⟨rfl, rfl⟩, nofun, nofun⟩
    | check hopen => exact ⟨.refl e, rfl, .inl ⟨rfl, rfl⟩, fun _ => hopen, nofun⟩
    | offer hoffered => exact moves_of_offered hoffered rfl (.inr rfl) rfl
  | false =>
    have hmove := doMove_of_doStep hstep
    have hsubmits := hmove.submits
    cases hmove with
    | enter | refuse => exact ⟨hsubmits, rfl, .inl ⟨rfl, rfl⟩, nofun, nofun⟩
    | check hopen => exact ⟨hsubmits, rfl, .inl ⟨rfl, rfl⟩, fun _ => hopen, nofun⟩
    | offer hoffered => exact moves_of_offered hoffered rfl (.inl rfl) rfl
    | leave result =>
      have hone : 1 ≤ e.mu.readers := hreading
      have hcount : e.mu.readers - 1 + 1 = e.mu.readers := Nat.sub_add_cancel hone
      refine ⟨hsubmits, hcount, .inl ⟨rfl, ?_⟩, nofun, fun hpanicked => .inl ?_⟩
      · exact (accepted_of_over (.inr rfl)).trans (accepted_of_over (.inl rfl)).symm
      · rw [panicked_of_over (.inr rfl) hpanicked]
        exact .inl rfl

end

end Submitter

/-- The task that a worker runs. -/
def WorkerPhase.tasks {ρ : Type} : WorkerPhase ρ → List ρ
  | .running task _ => [task]
  | _ => []

/-- An executor with its callers and workers; the task of a caller is known by the number
    of the caller. -/
structure Workload (n w : Nat) where
  exec : Executor (Fin n)
  caller : Fin n → Submitter
  stop : StopPhase := .start
  worker : Fin w → WorkerPhase (Fin n) := fun _ => .loop
  finished : List (Fin n) := []

/-- Somebody takes a step. -/
inductive WorkAction (n w : Nat) where
  | submit (i : Fin n) (choice : SelectCase)
  | stop (timeout : Bool)
  | work (j : Fin w) (choice : SelectCase)

namespace Workload

variable {n w : Nat} {s t : Workload n w} {i : Fin n} {timeout : Bool} {choice : SelectCase}
  {e e' : Executor (Fin n)} {c' : Submitter} {p p' : WorkerPhase (Fin n)}

/-- What a task does is its own matter: it runs in one step. -/
def runTask (_ : SelectCase) (e : Executor (Fin n)) (_ : Fin n) :
    Option (Executor (Fin n) × Option (Fin n)) :=
  some (e, none)

def step (s : Workload n w) : WorkAction n w → Option (Workload n w)
  | .submit i choice =>
    ((s.caller i).step i choice s.exec).map fun out =>
      { s with exec := out.1, caller := update s.caller i out.2 }
  | .stop timeout =>
    (stopStep timeout s.exec s.stop).map fun out => { s with exec := out.1, stop := out.2 }
  | .work j choice =>
    (workerStep id runTask choice s.exec (s.worker j)).map fun out =>
      { s with
        exec := out.1
        worker := update s.worker j out.2
        finished := s.finished ++ (s.worker j).tasks }

/-- A new executor, whose callers use `DoCtx` or `Do`. -/
def new (opts : ExecutorOpts) (numCPU : Nat) (viaCtx : Fin n → Bool) :
    Workload n (opts.workerCount numCPU) where
  exec := .new opts numCPU
  caller i := { viaCtx := viaCtx i }

/-! ### The lock -/

/-- The callers and the lock: who has it is counted, who is about to send finds the channel
    open, and nobody has panicked. -/
structure Guarded (s : Workload n w) : Prop where
  follows : s.exec.Follows s.stop
  readers : s.exec.mu.readers = tally Submitter.reading s.caller
  sending : ∀ i, (s.caller i).phase = .sending → s.exec.tasks.closed = false
  panicked : ∀ i, ¬(s.caller i).Panicked

/-- If the step closes the task channel, then no `DoCtx` has looked at `closed` and not yet
    sent its task. -/
def NoneInWindow (s : Workload n w) (a : WorkAction n w) : Prop :=
  s.stop = .closing → (∃ timeout, a = .stop timeout) →
    ∀ i, (s.caller i).viaCtx = true → (s.caller i).phase ≠ .sending

theorem Guarded.submit (h : s.Guarded) (hmoves : Submitter.Moves i s.exec (s.caller i) e' c') :
    Guarded { s with exec := e', caller := update s.caller i c' } := by
  have hclosed : e'.tasks.closed = s.exec.tasks.closed := by rw [hmoves.submits.rest]
  refine ⟨h.follows.submits hmoves.submits, ?_, ?_, ?_⟩
  · have htally := tally_update Submitter.reading s.caller i c'
    have hbefore := h.readers
    have hmoved := hmoves.readers
    dsimp only
    omega
  · rw [hclosed]
    refine forall_phase_update (J := fun _ (c : Submitter) => c.phase = .sending →
      s.exec.tasks.closed = false) rfl h.sending fun hsending => ?_
    -- It has just seen that the executor is open.
    have hmarked := h.follows.closed.symm.trans (hmoves.sending hsending)
    rw [h.follows.tasks]
    cases hstop : s.stop <;> rw [hstop] at hmarked <;> first | rfl | exact nomatch hmarked
  · refine forall_phase_update (J := fun _ (c : Submitter) => ¬c.Panicked) rfl h.panicked
      fun hpanicked => ?_
    rcases hmoves.panicked hpanicked with hbefore | ⟨hsending, hclosed⟩
    · exact h.panicked i hbefore
    · exact absurd hclosed (Bool.eq_false_iff.mp (h.sending i hsending))

/-- Where `Stop` closes the channel it has the lock, so no `Do` is about to send. -/
theorem Guarded.viaCtx_of_sending (h : s.Guarded) (hlock : s.stop.holdsLock = true)
    (hsending : (s.caller i).phase = .sending) : (s.caller i).viaCtx = true := by
  have hzero := h.follows.exclusive hlock
  have hle := le_tally Submitter.reading s.caller i
  by_contra hdo
  have hone : (s.caller i).reading = 1 := by
    unfold Submitter.reading
    rw [if_neg hdo, hsending]
  have hreaders := h.readers
  omega

theorem Guarded.stop {p : StopPhase} (h : s.Guarded) (hguard : s.NoneInWindow (.stop timeout))
    (hmove : StopMove timeout s.exec s.stop e' p) : Guarded { s with exec := e', stop := p } := by
  have hfollows := h.follows.stop hmove
  have hsending := h.sending
  have hreaders := h.readers
  unfold NoneInWindow at hguard
  generalize hphase : s.stop = q at hmove hguard
  cases hmove with
  | announce | acquire | again | mark | waited | unlock =>
    exact ⟨hfollows, hreaders, hsending, h.panicked⟩
  | close =>
    refine ⟨hfollows, hreaders, fun i hi => ?_, h.panicked⟩
    have hctx := h.viaCtx_of_sending (by rw [hphase]; rfl) hi
    exact absurd hi (hguard rfl ⟨timeout, rfl⟩ i hctx)

theorem serves_of_workerMove (h : WorkerMove id runTask choice e p e' p') : e.Serves e' := by
  apply h.serves
  intro task draining e' rest _ hrun
  cases hrun
  rfl

theorem Guarded.work {worker : Fin w → WorkerPhase (Fin n)} {finished : List (Fin n)}
    (h : s.Guarded) (hserves : s.exec.Serves e') :
    Guarded { s with exec := e', worker, finished } := by
  refine ⟨h.follows.serves hserves, ?_, ?_, h.panicked⟩
  · rw [hserves.rest]
    exact h.readers
  · rw [hserves.rest]
    exact h.sending

/-! ### The tasks -/

/-- How often the task of the caller is in the queue, running or finished. -/
def taken (s : Workload n w) (i : Fin n) : Nat :=
  s.exec.tasks.buf.count i + tally (fun p => p.tasks.count i) s.worker + s.finished.count i

/-- A worker passes its task on: from the queue to itself, and then to the finished ones. -/
theorem count_of_workerMove (h : WorkerMove id runTask choice e p e' p') (i : Fin n) :
    e'.tasks.buf.count i + p'.tasks.count i + p.tasks.count i =
      e.tasks.buf.count i + p.tasks.count i := by
  cases h with
  | run hrun =>
    cases hrun
    rename_i draining
    cases draining <;> rfl
  | receive hbuf =>
    rw [hbuf]
    simp [WorkerPhase.tasks, count_cons]
  | drain hbuf =>
    rw [hbuf]
    simp [WorkerPhase.tasks, count_cons]
  | look | resized | closed | signalled | drained => rfl

/-- The invariant of every run in which no `DoCtx` is in its window at the close. -/
structure Inv (s : Workload n w) : Prop where
  guarded : s.Guarded
  staffed : s.exec.Staffed s.worker
  ended : s.stop = .unlocking false ∨ s.stop = .returned false → s.exec.wg = 0
  once : ∀ i, s.taken i = (s.caller i).accepted

theorem inv_new (opts : ExecutorOpts) (numCPU : Nat) (viaCtx : Fin n → Bool) :
    (new opts numCPU viaCtx).Inv := by
  refine ⟨⟨⟨rfl, rfl, rfl, rfl, nofun⟩, ?_, nofun, nofun⟩, ⟨?_, Int.le_refl _, nofun, nofun⟩,
    nofun, fun i => ?_⟩
  · refine (tally_const (n := 0) fun i => ?_).symm
    exact ite_self 0
  · have hall : tally WorkerPhase.alive (new opts numCPU viaCtx).worker = _ :=
      tally_const (n := 1) fun _ => rfl
    rw [hall, Fintype.card_fin, Nat.mul_one]
    rfl
  · have hnone : tally (fun p => p.tasks.count i) (new opts numCPU viaCtx).worker = _ :=
      tally_const (n := 0) fun _ => rfl
    rw [taken, hnone]
    rfl

theorem Inv.submit (h : s.Inv) (hmoves : Submitter.Moves i s.exec (s.caller i) e' c') :
    Inv { s with exec := e', caller := update s.caller i c' } := by
  have hwg : e'.wg = s.exec.wg := by rw [hmoves.submits.rest]
  refine ⟨h.guarded.submit hmoves, h.staffed.submits hmoves.submits,
    fun hended => hwg.trans (h.ended hended), fun k => ?_⟩
  have honce := h.once k
  unfold taken at honce ⊢
  dsimp only
  by_cases hk : k = i
  · subst hk
    rw [update_self]
    rcases hmoves.queue with ⟨hbuf, haccepted⟩ | ⟨hbuf, hnot, haccepted⟩
    · rw [hbuf, haccepted]
      exact honce
    · rw [hbuf, haccepted, count_append, count_singleton_self]
      omega
  · rw [update_of_ne hk]
    rcases hmoves.queue with ⟨hbuf, -⟩ | ⟨hbuf, -, -⟩
    · rw [hbuf]
      exact honce
    · have hother : [i].count k = 0 := count_eq_zero.mpr (by simpa using hk)
      rw [hbuf, count_append, hother]
      exact honce

theorem Inv.stop {p : StopPhase} (h : s.Inv) (hguard : s.NoneInWindow (.stop timeout))
    (hmove : StopMove timeout s.exec s.stop e' p) : Inv { s with exec := e', stop := p } := by
  have hguarded := h.guarded.stop hguard hmove
  have hstaffed := h.staffed.stop hmove
  obtain ⟨hbuf, hwg, -, -⟩ := hmove.rest
  refine ⟨hguarded, hstaffed, ?_, fun i => ?_⟩
  · -- The wait has ended without the timer, or it had before.
    have hended := h.ended
    have hclosed := h.guarded.follows.closed
    generalize s.stop = q at hmove hended hclosed
    rw [hwg]
    cases hmove with
    | announce | acquire | mark | close => exact nofun
    | again hmarked => exact nomatch hmarked.symm.trans hclosed
    | waited hover =>
      rintro (hstop | hstop)
      · cases hstop
        exact hover.resolve_left nofun
      · exact nomatch hstop
    | unlock timedOut =>
      rintro (hstop | hstop)
      · exact nomatch hstop
      · cases hstop
        exact hended (.inl rfl)
  · have honce := h.once i
    unfold taken at honce ⊢
    dsimp only
    rw [hbuf]
    exact honce

theorem Inv.work {j : Fin w} (h : s.Inv)
    (hmove : WorkerMove id runTask choice s.exec (s.worker j) e' p) :
    Inv { s with
      exec := e'
      worker := update s.worker j p
      finished := s.finished ++ (s.worker j).tasks } := by
  have hserves := serves_of_workerMove hmove
  refine ⟨h.guarded.work hserves, ?_, fun hended => ?_, fun i => ?_⟩
  · apply h.staffed.work h.guarded.follows.closed_of_signal _ hmove
    intro task draining e' rest _ hrun
    cases hrun
    exact .refl _
  · have hle := hserves.wg
    rw [h.ended hended] at hle
    exact Nat.le_zero.mp hle
  · have honce := h.once i
    have htally := tally_update (fun p => p.tasks.count i) s.worker j p
    have hcount := count_of_workerMove hmove i
    unfold taken at honce ⊢
    dsimp only at htally ⊢
    rw [count_append]
    omega

theorem Inv.step {a : WorkAction n w} (h : s.Inv) (hguard : s.NoneInWindow a)
    (hstep : s.step a = some t) : t.Inv := by
  cases a with
  | submit i choice =>
    obtain ⟨⟨e', c'⟩, hmove, rfl⟩ := Option.map_eq_some_iff.mp hstep
    apply h.submit (Submitter.moves_of_step _ hmove)
    rw [h.guarded.readers]
    exact le_tally Submitter.reading s.caller i
  | stop timeout =>
    obtain ⟨⟨e', p⟩, hmove, rfl⟩ := Option.map_eq_some_iff.mp hstep
    exact h.stop hguard (stopMove_of_stopStep hmove)
  | work j choice =>
    obtain ⟨⟨e', p⟩, hmove, rfl⟩ := Option.map_eq_some_iff.mp hstep
    exact h.work (workerMove_of_workerStep hmove)

/-! ### Tasks run once -/

/-- When `Stop` has returned nil there is nothing in the queue and nobody at work. -/
theorem Inv.finished_count (h : s.Inv) (hw : 0 < w) (hstop : s.stop = .returned false)
    (i : Fin n) : s.finished.count i = (s.caller i).accepted := by
  have hexited : ∀ j, s.worker j = .exited := by
    intro j
    have hle := le_tally WorkerPhase.alive s.worker j
    rw [← h.staffed.wg, h.ended (.inr hstop)] at hle
    exact WorkerPhase.alive_eq_zero.mp (Nat.le_zero.mp hle)
  have hbuf := (h.staffed.exited ⟨0, hw⟩ (hexited _)).2
  have hnone : tally (fun p => p.tasks.count i) s.worker = Fintype.card (Fin w) * 0 :=
    tally_const fun j => by rw [hexited j]; rfl
  have honce := h.once i
  rw [taken, hbuf, hnone] at honce
  simpa using honce

/-- The callers and `Stop` in any order, where no `DoCtx` is between its look and its send
    when the channel is closed: no caller panics, and when `Stop` has returned nil each task
    whose call returned nil has run once, and none whose call returned an error has run. -/
theorem runs_once {opts : ExecutorOpts} {numCPU : Nat} {viaCtx : Fin n → Bool}
    {as : List (WorkAction n (opts.workerCount numCPU))}
    {s : Workload n (opts.workerCount numCPU)} (hcpu : 0 < numCPU)
    (hrun : GuardedRun step NoneInWindow (new opts numCPU viaCtx) as s) :
    (∀ i, ¬(s.caller i).Panicked) ∧
      (s.stop = .returned false → ∀ i,
        ((s.caller i).phase = .returned .accepted → s.finished.count i = 1) ∧
        ∀ err, (s.caller i).phase = .returned (.rejected err) → i ∉ s.finished) := by
  have hinv := hrun.invariant (fun _ _ _ h hguard hstep => h.step hguard hstep)
    (inv_new opts numCPU viaCtx)
  have hw : 0 < opts.workerCount numCPU := by
    unfold ExecutorOpts.workerCount
    split <;> omega
  refine ⟨hinv.guarded.panicked, fun hstop i => ?_⟩
  have hcount := hinv.finished_count hw hstop i
  refine ⟨fun hreturned => ?_, fun err hreturned => ?_⟩
  · rw [hcount, Submitter.accepted, hreturned]
  · apply count_eq_zero.mp
    rw [hcount, Submitter.accepted, hreturned]

/-- A `DoCtx` whose task runs before `Stop` is called. -/
def taskThenStop : List (WorkAction 1 1) :=
  [.submit 0 .tasks, .submit 0 .tasks, .work 0 .tasks, .work 0 .tasks, .work 0 .tasks,
    .stop false, .stop false, .stop false, .stop false, .work 0 .tasks, .work 0 .tasks,
    .stop false, .stop false]

theorem runs_once_taskThenStop :
    ∃ s, GuardedRun step NoneInWindow (new { workers := 1 } 1 fun _ => true) taskThenStop s ∧
      s.stop = .returned false ∧ s.finished.count 0 = 1 := by
  have hrun : ∃ s, GuardedRun step NoneInWindow (new { workers := 1 } 1 fun _ => true)
      taskThenStop s ∧ s.stop = .returned false ∧ (s.caller 0).phase = .returned .accepted := by
    refine ⟨_, .cons nofun rfl (.cons nofun rfl (.cons nofun rfl (.cons nofun rfl (.cons nofun rfl
      (.cons nofun rfl (.cons nofun rfl (.cons nofun rfl (.cons ?_ rfl (.cons nofun rfl
      (.cons nofun rfl (.cons nofun rfl (.cons nofun rfl (.nil _))))))))))))), rfl, rfl⟩
    -- The call has returned when the channel is closed.
    intro _ _ i _
    rw [Subsingleton.elim i 0]
    exact nofun
  obtain ⟨s, hrun, hstop, hreturned⟩ := hrun
  exact ⟨s, hrun, hstop, ((runs_once Nat.one_pos hrun).2 hstop 0).1 hreturned⟩

theorem offer_of_closed (h : e.tasks.closed = true) (task : Fin n) :
    e.offer task .tasks = some (e, .panicked) := by
  unfold Executor.offer
  rw [Chan.send_of_closed h]
  split <;> rfl

/-- Where the condition fails it can come to a panic: the channel is closed, and the caller
    sends. -/
theorem panics_of_window (hstop : s.stop = .closing) (hctx : (s.caller i).viaCtx = true)
    (hsending : (s.caller i).phase = .sending) :
    ∃ t, Runs step s [.stop false, .submit i .tasks] t ∧ (t.caller i).Panicked := by
  let e := { s.exec with tasks := s.exec.tasks.close }
  have hclose : s.step (.stop false) = some { s with exec := e, stop := .waiting } := by
    simp only [step, hstop, stopStep, Option.map_some, e]
  have hsend : (s.caller i).step i .tasks e =
      some (e, { s.caller i with phase := .returned .panicked }) := by
    simp only [Submitter.step, hctx, if_true, hsending, doCtxStep, offer_of_closed (e := e) rfl,
      Option.map_some]
  refine ⟨_, .cons trivial hclose (.cons trivial (congrArg (Option.map _) hsend) (.nil _)), ?_⟩
  dsimp only
  rw [update_self]
  exact .inr rfl

/-- A `DoCtx` finds the executor open, `Stop` closes the task channel, and the call sends. -/
def sendAfterClose : List (WorkAction 1 1) :=
  [.submit 0 .tasks, .stop false, .stop false, .stop false, .stop false, .submit 0 .tasks]

theorem sendAfterClose_panics :
    ∃ s, Runs step (new { workers := 1 } 1 fun _ => true) sendAfterClose s ∧
      (s.caller 0).phase = .returned .panicked :=
  ⟨_, runs_of_exec rfl, rfl⟩

end Workload

end GridKV
