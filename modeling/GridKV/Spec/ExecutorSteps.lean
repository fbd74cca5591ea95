import GridKV.ForStd.Interleave
import GridKV.Model.Executor

/-!
# The steps of the executor

What each goroutine of the executor can do in one step, and what the state says about where
`Stop` (`Follows`) and the workers (`Staffed`) are.
-/

namespace GridKV

open Go Interleave

variable {τ ρ : Type} {e e' : Executor τ} {task : τ} {timeout : Bool} {p : StopPhase}
  {choice : SelectCase} {result : Submission}

/-! ### Submissions -/

/-- What the `select` of a submission does. -/
inductive Offered (e : Executor τ) (task : τ) : Executor τ → Submission → Prop
  | accepted (hopen : e.tasks.closed = false) :
      Offered e task { e with tasks := { e.tasks with buf := e.tasks.buf ++ [task] } } .accepted
  | rejected (err : ExecutorError) : Offered e task e (.rejected err)
  | panicked (hclosed : e.tasks.closed = true) : Offered e task e .panicked

theorem offered_of_offer (h : e.offer task choice = some (e', result)) :
    Offered e task e' result := by
  have hsent : ∀ {tasks}, e.tasks.send task = .sent tasks →
      some ({ e with tasks }, Submission.accepted) = some (e', result) →
      Offered e task e' result := by
    intro tasks hsend h
    obtain ⟨hopen, rfl⟩ := Chan.send_eq_sent hsend
    cases h
    exact .accepted hopen
  unfold Executor.offer at h
  split at h
  · split at h
    · exact hsent ‹_› h
    · cases h
      exact .rejected .full
    · cases h
      exact .panicked (Chan.send_eq_panicked ‹_›)
  · split at h
    · split at h
      · exact hsent ‹_› h
      · exact nomatch h
      · cases h
        exact .panicked (Chan.send_eq_panicked ‹_›)
    · split at h <;> cases h
      exact .rejected .closed

/-- The steps of `Do`. -/
inductive DoMove (task : τ) (e : Executor τ) :
    SubmitPhase → Executor τ → SubmitPhase → Prop
  | enter (hfree : e.mu.writer = false) :
      DoMove task e .start { e with mu := { e.mu with readers := e.mu.readers + 1 } } .entered
  | refuse (hclosed : e.closed = true) : DoMove task e .entered e (.leaving (.rejected .closed))
  | check (hopen : e.closed = false) : DoMove task e .entered e .sending
  | offer {e' : Executor τ} {result : Submission} (hoffered : Offered e task e' result) :
      DoMove task e .sending e' (.leaving result)
  | leave (result : Submission) :
      DoMove task e (.leaving result) { e with mu := e.mu.rUnlock } (.returned result)

theorem doMove_of_doStep {p p' : SubmitPhase} (h : doStep task choice e p = some (e', p')) :
    DoMove task e p e' p' := by
  cases p with
  | start =>
    obtain ⟨mu, hlock, hout⟩ := Option.map_eq_some_iff.mp h
    obtain ⟨-, hfree, rfl⟩ := RWMutex.rLock_eq_some hlock
    cases hout
    exact .enter hfree
  | entered =>
    simp only [doStep] at h
    split at h
    · cases h
      exact .refuse ‹_›
    · cases h
      exact .check (Bool.eq_false_iff.mpr ‹_›)
  | sending =>
    obtain ⟨out, hoffer, hout⟩ := Option.map_eq_some_iff.mp h
    cases hout
    exact .offer (offered_of_offer hoffer)
  | leaving result =>
    cases h
    exact .leave result
  | returned result => exact nomatch h

/-- The steps of `DoCtx`. -/
inductive DoCtxMove (task : τ) (e : Executor τ) :
    SubmitPhase → Executor τ → SubmitPhase → Prop
  | refuse (hclosed : e.closed = true) : DoCtxMove task e .start e (.returned (.rejected .closed))
  | check (hopen : e.closed = false) : DoCtxMove task e .start e .sending
  | offer {e' : Executor τ} {result : Submission} (hoffered : Offered e task e' result) :
      DoCtxMove task e .sending e' (.returned result)

theorem doCtxMove_of_doCtxStep {p p' : SubmitPhase}
    (h : doCtxStep task choice e p = some (e', p')) : DoCtxMove task e p e' p' := by
  cases p with
  | start =>
    simp only [doCtxStep] at h
    split at h
    · cases h
      exact .refuse ‹_›
    · cases h
      exact .check (Bool.eq_false_iff.mpr ‹_›)
  | sending =>
    obtain ⟨out, hoffer, hout⟩ := Option.map_eq_some_iff.mp h
    cases hout
    exact .offer (offered_of_offer hoffer)
  | entered | leaving | returned => exact nomatch h

/-- What a submission changes: the readers of the lock, which nobody joins while it is held,
    and the queue, unless it is closed. -/
structure Executor.Submits (e e' : Executor τ) : Prop where
  rest : e' = { e with
    mu := { e.mu with readers := e'.mu.readers }
    tasks := { e.tasks with buf := e'.tasks.buf } }
  readers : e.mu.writer = true → e'.mu.readers ≤ e.mu.readers
  queue : e.tasks.closed = true → e'.tasks.buf = e.tasks.buf

theorem Executor.Submits.refl (e : Executor τ) : e.Submits e :=
  ⟨rfl, fun _ => Nat.le_refl _, fun _ => rfl⟩

theorem Offered.submits (h : Offered e task e' result) : e.Submits e' := by
  cases h with
  | accepted hopen =>
    refine ⟨rfl, fun _ => Nat.le_refl _, fun hclosed => ?_⟩
    exact absurd hclosed (Bool.eq_false_iff.mp hopen)
  | rejected | panicked => exact .refl e

theorem Offered.queued (h : Offered e task e' result) : e.tasks.buf <+: e'.tasks.buf := by
  cases h with
  | accepted => exact List.prefix_append _ _
  | rejected | panicked => exact List.prefix_refl _

theorem DoMove.submits {p p' : SubmitPhase} (h : DoMove task e p e' p') : e.Submits e' := by
  cases h with
  | enter hfree =>
    refine ⟨rfl, fun hheld => ?_, fun _ => rfl⟩
    exact absurd hheld (Bool.eq_false_iff.mp hfree)
  | refuse | check => exact .refl e
  | offer hoffered => exact hoffered.submits
  | leave => exact ⟨rfl, fun _ => Nat.sub_le .., fun _ => rfl⟩

/-! ### Stop -/

namespace StopPhase

/-- `Stop` has the lock. -/
def holdsLock : StopPhase → Bool
  | .locked | .closing | .waiting | .unlocking _ => true
  | _ => false

/-- `Stop` has set `closed`. -/
def marked : StopPhase → Bool
  | .closing | .waiting | .unlocking _ | .returned _ => true
  | _ => false

/-- `Stop` has closed the task channel. -/
def closedTasks : StopPhase → Bool
  | .waiting | .unlocking _ | .returned _ => true
  | _ => false

/-- The wait of `Stop` is over. -/
def waited : StopPhase → Bool
  | .unlocking _ | .returned _ => true
  | _ => false

end StopPhase

/-- The steps of `Stop`. -/
inductive StopMove (timeout : Bool) (e : Executor τ) :
    StopPhase → Executor τ → StopPhase → Prop
  | announce : StopMove timeout e .start { e with mu := { e.mu with pending := true } } .locking
  | acquire (hreaders : e.mu.readers = 0) :
      StopMove timeout e .locking { e with mu := { e.mu with pending := false, writer := true } }
        .locked
  | again (hclosed : e.closed = true) : StopMove timeout e .locked e (.unlocking false)
  | mark (hopen : e.closed = false) : StopMove timeout e .locked { e with closed := true } .closing
  | close : StopMove timeout e .closing { e with tasks := e.tasks.close } .waiting
  | waited (hover : timeout = true ∨ e.wg = 0) :
      StopMove timeout e .waiting { e with stop := true, running := 0 } (.unlocking timeout)
  | unlock (timedOut : Bool) :
      StopMove timeout e (.unlocking timedOut) { e with mu := e.mu.unlock } (.returned timedOut)

theorem stopMove_of_stopStep {p' : StopPhase} (h : stopStep timeout e p = some (e', p')) :
    StopMove timeout e p e' p' := by
  cases p with
  | start =>
    obtain ⟨mu, hannounce, hout⟩ := Option.map_eq_some_iff.mp h
    obtain rfl := RWMutex.announce_eq_some hannounce
    cases hout
    exact .announce
  | locking =>
    obtain ⟨mu, hacquire, hout⟩ := Option.map_eq_some_iff.mp h
    obtain ⟨hreaders, rfl⟩ := RWMutex.acquire_eq_some hacquire
    cases hout
    exact .acquire hreaders
  | locked =>
    simp only [stopStep] at h
    split at h
    · cases h
      exact .again ‹_›
    · cases h
      exact .mark (Bool.eq_false_iff.mpr ‹_›)
  | closing =>
    cases h
    exact .close
  | waiting =>
    simp only [stopStep] at h
    split at h <;> cases h
    exact .waited ‹_›
  | unlocking timedOut =>
    cases h
    exact .unlock timedOut
  | returned => exact nomatch h

/-- What `Stop` leaves alone; and it does not come back to its start. -/
theorem StopMove.rest {p' : StopPhase} (h : StopMove timeout e p e' p') :
    e'.tasks.buf = e.tasks.buf ∧ e'.wg = e.wg ∧ e'.mu.readers = e.mu.readers ∧ p' ≠ .start := by
  cases h <;> exact ⟨rfl, rfl, rfl, nofun⟩

/-- The flags tell how far `Stop` is. -/
structure Executor.Follows (e : Executor τ) (p : StopPhase) : Prop where
  writer : e.mu.writer = p.holdsLock
  closed : e.closed = p.marked
  tasks : e.tasks.closed = p.closedTasks
  signal : e.stop = p.waited
  exclusive : p.holdsLock = true → e.mu.readers = 0

namespace Executor.Follows

variable {p p' : StopPhase}

theorem submits (h : e.Follows p) (hsubmits : e.Submits e') : e'.Follows p := by
  rw [hsubmits.rest]
  refine ⟨h.writer, h.closed, h.tasks, h.signal, fun hheld => ?_⟩
  have hle := hsubmits.readers (h.writer.trans hheld)
  have hzero := h.exclusive hheld
  dsimp only
  omega

theorem stop {timeout : Bool} (h : e.Follows p) (hmove : StopMove timeout e p e' p') :
    e'.Follows p' := by
  cases hmove with
  | announce => exact ⟨h.writer, h.closed, h.tasks, h.signal, h.exclusive⟩
  | acquire hreaders => exact ⟨rfl, h.closed, h.tasks, h.signal, fun _ => hreaders⟩
  | again hclosed => exact nomatch hclosed.symm.trans h.closed
  | mark => exact ⟨h.writer, rfl, h.tasks, h.signal, h.exclusive⟩
  | close => exact ⟨h.writer, h.closed, rfl, h.signal, h.exclusive⟩
  | waited => exact ⟨h.writer, h.closed, h.tasks, rfl, h.exclusive⟩
  | unlock => exact ⟨rfl, h.closed, h.tasks, h.signal, nofun⟩

end Executor.Follows

/-! ### The workers -/

/-- The steps of a worker. -/
inductive WorkerMove (begin : τ → ρ)
    (run : SelectCase → Executor τ → ρ → Option (Executor τ × Option ρ)) (choice : SelectCase)
    (e : Executor τ) : WorkerPhase ρ → Executor τ → WorkerPhase ρ → Prop
  | look : WorkerMove begin run choice e .loop e .receiving
  | resized (hover : e.Oversized) : WorkerMove begin run choice e .loop e.leave .exited
  | receive {task : τ} {buf : List τ} (hbuf : e.tasks.buf = task :: buf) :
      WorkerMove begin run choice e .receiving { e with tasks := { e.tasks with buf } }
        (.running (begin task) false)
  | closed (hclosed : e.tasks.closed = true) (hbuf : e.tasks.buf = []) :
      WorkerMove begin run choice e .receiving e.leave .exited
  | signalled (hstop : e.stop = true) : WorkerMove begin run choice e .receiving e .draining
  | run {task : ρ} {draining : Bool} {e' : Executor τ} {rest : Option ρ}
      (hrun : run choice e task = some (e', rest)) :
      WorkerMove begin run choice e (.running task draining) e' (.resume draining rest)
  | drain {task : τ} {buf : List τ} (hbuf : e.tasks.buf = task :: buf) :
      WorkerMove begin run choice e .draining { e with tasks := { e.tasks with buf } }
        (.running (begin task) true)
  | drained (hbuf : e.tasks.buf = []) : WorkerMove begin run choice e .draining e.leave .exited

section

variable {begin : τ → ρ} {run : SelectCase → Executor τ → ρ → Option (Executor τ × Option ρ)}
  {choice : SelectCase} {p p' : WorkerPhase ρ}

theorem workerMove_of_workerStep (h : workerStep begin run choice e p = some (e', p')) :
    WorkerMove begin run choice e p e' p' := by
  cases p with
  | loop =>
    simp only [workerStep] at h
    split at h
    · cases h
      exact .resized ‹_›
    · cases h
      exact .look
  | receiving =>
    simp only [workerStep] at h
    split at h
    · split at h
      · rename_i hrecv
        obtain ⟨hbuf, htasks⟩ := Chan.recv_eq_received hrecv
        rw [htasks] at h
        cases h
        exact .receive hbuf
      · rename_i hrecv
        obtain ⟨hclosed, hbuf⟩ := Chan.recv_eq_closed hrecv
        cases h
        exact .closed hclosed hbuf
      · exact nomatch h
    · split at h <;> cases h
      exact .signalled ‹_›
  | running task draining =>
    obtain ⟨out, hrun, hout⟩ := Option.map_eq_some_iff.mp h
    cases hout
    exact .run hrun
  | draining =>
    simp only [workerStep] at h
    split at h
    · rename_i hrecv
      obtain ⟨hbuf, htasks⟩ := Chan.recv_eq_received hrecv
      rw [htasks] at h
      cases h
      exact .drain hbuf
    · cases h
      exact .drained (Chan.recv_eq_closed ‹_›).2
    · cases h
      exact .drained (Chan.recv_eq_blocked ‹_›).2
  | exited => exact nomatch h

end

/-- What a worker changes whose task leaves the executor alone: the queue and the counts, and
    no worker is added. -/
structure Executor.Serves (e e' : Executor τ) : Prop where
  rest : e' = { e with
    tasks := { e.tasks with buf := e'.tasks.buf }
    wg := e'.wg
    running := e'.running }
  wg : e'.wg ≤ e.wg

theorem WorkerMove.serves {begin : τ → ρ}
    {run : SelectCase → Executor τ → ρ → Option (Executor τ × Option ρ)} {p p' : WorkerPhase ρ}
    (hrun : ∀ task draining e' rest, p = .running task draining →
      run choice e task = some (e', rest) → e' = e) (h : WorkerMove begin run choice e p e' p') :
    e.Serves e' := by
  cases h with
  | run hstep =>
    obtain rfl := hrun _ _ _ _ rfl hstep
    exact ⟨rfl, Nat.le_refl _⟩
  | look | receive | signalled | drain => exact ⟨rfl, Nat.le_refl _⟩
  | resized | closed | drained => exact ⟨rfl, Nat.sub_le ..⟩

theorem Executor.Follows.serves (h : e.Follows p) (hserves : e.Serves e') : e'.Follows p := by
  rw [hserves.rest]
  exact ⟨h.writer, h.closed, h.tasks, h.signal, h.exclusive⟩

theorem Executor.Follows.closed_of_signal (h : e.Follows p) (hsignal : e.stop = true) :
    e.tasks.closed = true := by
  rw [h.signal] at hsignal
  rw [h.tasks]
  cases p <;> first | rfl | exact nomatch hsignal

namespace WorkerPhase

/-- The worker has not ended. -/
def alive : WorkerPhase ρ → Nat
  | .exited => 0
  | _ => 1

/-- The worker has seen the stop signal. -/
def drains : WorkerPhase ρ → Bool
  | .draining => true
  | .running _ signalled => signalled
  | _ => false

theorem alive_eq_zero {p : WorkerPhase ρ} : p.alive = 0 ↔ p = .exited := by
  cases p <;> simp [alive]

theorem alive_resume (draining : Bool) (rest : Option ρ) : (resume draining rest).alive = 1 := by
  cases rest <;> cases draining <;> rfl

theorem drains_resume (draining : Bool) (rest : Option ρ) :
    (resume draining rest).drains = draining := by
  cases rest <;> cases draining <;> rfl

end WorkerPhase

/-- The counts fit the workers: none of them is too many, and they end when nothing is left
    to be done. -/
structure Executor.Staffed {w : Nat} (e : Executor τ) (worker : Fin w → WorkerPhase ρ) :
    Prop where
  wg : e.wg = tally WorkerPhase.alive worker
  running : e.running ≤ e.cap
  draining : ∀ j, (worker j).drains = true → e.tasks.closed = true
  exited : ∀ j, worker j = .exited → e.tasks.closed = true ∧ e.tasks.buf = []

namespace Executor.Staffed

variable {w : Nat} {worker : Fin w → WorkerPhase ρ}

theorem submits (h : e.Staffed worker) (hsubmits : e.Submits e') : e'.Staffed worker := by
  refine ⟨?_, ?_, ?_, fun j hj => ?_⟩
  · rw [hsubmits.rest]
    exact h.wg
  · rw [hsubmits.rest]
    exact h.running
  · rw [hsubmits.rest]
    exact h.draining
  · obtain ⟨hclosed, hbuf⟩ := h.exited j hj
    have hqueue := hsubmits.queue hclosed
    rw [hsubmits.rest]
    exact ⟨hclosed, hqueue.trans hbuf⟩

theorem stop {timeout : Bool} {p p' : StopPhase} (h : e.Staffed worker)
    (hmove : StopMove timeout e p e' p') : e'.Staffed worker := by
  cases hmove with
  | announce | acquire | mark | unlock => exact ⟨h.wg, h.running, h.draining, h.exited⟩
  | again => exact h
  | close =>
    refine ⟨h.wg, h.running, fun _ _ => rfl, fun j hj => ⟨rfl, (h.exited j hj).2⟩⟩
  | waited => exact ⟨h.wg, Int.natCast_nonneg _, h.draining, h.exited⟩

/-- When one worker moves, only its own part is to be shown. -/
theorem update {j : Fin w} {p : WorkerPhase ρ} (h : e.Staffed worker)
    (hwg : e'.wg + (worker j).alive = e.wg + p.alive) (hrunning : e'.running ≤ e'.cap)
    (hclosed : e'.tasks.closed = e.tasks.closed)
    (hqueue : e.tasks.closed = true → e.tasks.buf = [] → e'.tasks.buf = [])
    (hdrains : p.drains = true → e.tasks.closed = true)
    (hexited : p = .exited → e.tasks.closed = true ∧ e.tasks.buf = []) :
    e'.Staffed (Function.update worker j p) := by
  refine ⟨?_, hrunning, ?_, ?_⟩
  · have htally := tally_update WorkerPhase.alive worker j p
    have hbefore := h.wg
    omega
  · rw [hclosed]
    exact forall_phase_update
      (J := fun _ (q : WorkerPhase ρ) => q.drains = true → e.tasks.closed = true) rfl h.draining
      hdrains
  · rw [hclosed]
    have hall := forall_phase_update (i := j)
      (J := fun _ (q : WorkerPhase ρ) => q = .exited → e.tasks.closed = true ∧ e.tasks.buf = [])
      rfl h.exited hexited
    intro k hk
    obtain ⟨hk, hbuf⟩ := hall k hk
    exact ⟨hk, hqueue hk hbuf⟩

/-- A worker ends. -/
theorem leave {j : Fin w} (h : e.Staffed worker) (halive : (worker j).alive = 1)
    (hclosed : e.tasks.closed = true) (hbuf : e.tasks.buf = []) :
    e.leave.Staffed (Function.update worker j .exited) := by
  have hone := le_tally WorkerPhase.alive worker j
  have hwg := h.wg
  have hrunning := h.running
  refine h.update ?_ ?_ rfl (fun _ => id) nofun fun _ => ⟨hclosed, hbuf⟩
  · show e.wg - 1 + (worker j).alive = e.wg
    omega
  · show e.running - 1 ≤ e.cap
    omega

/-- A worker takes a step, where a running task does no more than a submission. -/
theorem work {begin : τ → ρ} {run : SelectCase → Executor τ → ρ → Option (Executor τ × Option ρ)}
    {choice : SelectCase} {j : Fin w} {p : WorkerPhase ρ} (h : e.Staffed worker)
    (hsignal : e.stop = true → e.tasks.closed = true)
    (hrun : ∀ task draining e' rest, worker j = .running task draining →
      run choice e task = some (e', rest) → e.Submits e')
    (hmove : WorkerMove begin run choice e (worker j) e' p) :
    e'.Staffed (Function.update worker j p) := by
  have hdraining := h.draining j
  generalize hphase : worker j = q at hmove hdraining
  cases hmove with
  | look => exact h.update (by rw [hphase]; rfl) h.running rfl (fun _ => id) nofun nofun
  | resized hover =>
    -- There never are more workers than at the start.
    exact absurd hover.1 (Int.not_lt.mpr h.running)
  | receive hbuf =>
    refine h.update (by rw [hphase]; rfl) h.running rfl (fun _ hempty => ?_) nofun nofun
    exact nomatch hempty.symm.trans hbuf
  | closed hclosed hbuf => exact h.leave (by rw [hphase]; rfl) hclosed hbuf
  | signalled hstop =>
    exact h.update (by rw [hphase]; rfl) h.running rfl (fun _ => id) (fun _ => hsignal hstop) nofun
  | run hstep =>
    have hsubmits := hrun _ _ _ _ hphase hstep
    have hclosed : e'.tasks.closed = e.tasks.closed := by rw [hsubmits.rest]
    have h' := h.submits hsubmits
    refine h'.update ?_ h'.running rfl (fun _ => id) (fun hdrains => ?_) fun hexited => ?_
    · rw [hphase, WorkerPhase.alive_resume]
      rfl
    · rw [hclosed]
      rw [WorkerPhase.drains_resume] at hdrains
      exact hdraining hdrains
    · have halive := WorkerPhase.alive_eq_zero.mpr hexited
      rw [WorkerPhase.alive_resume] at halive
      exact nomatch halive
  | drain hbuf =>
    refine h.update (by rw [hphase]; rfl) h.running rfl (fun _ hempty => ?_)
      (fun _ => hdraining rfl) nofun
    exact nomatch hempty.symm.trans hbuf
  | drained hbuf => exact h.leave (by rw [hphase]; rfl) (hdraining rfl) hbuf

end Executor.Staffed

end GridKV
