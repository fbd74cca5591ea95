import GridKV.Model.Resize
import GridKV.Spec.AcceptedTasks

/-!
# Workers that leave after a Resize

`Resize` to a smaller size stores the new capacity and leaves it to the workers to find out
that they are too many: each loads `running` and compares it, and one that leaves lowers it
only at the end.  All workers that load it in between see the same number.  If at most
`others` other workers are in their checks whenever one loads the number, the fewest that can
be left are `n - others` (`le_live_iff`); in general nobody may be left, and then the tasks
in the queue are not run (`stranded`).
-/

namespace GridKV

open Go Run Interleave List

section

variable {τ ρ : Type} {e e' : Executor τ} {begin : τ → ρ}
  {run : SelectCase → Executor τ → ρ → Option (Executor τ × Option ρ)} {choice : SelectCase}

/-- A worker that is not disturbed does in these steps what `workerStep` does in one. -/
theorem alone_of_workerStep {p p' : WorkerPhase ρ}
    (h : workerStep begin run choice e p = some (e', p')) :
    Alone (headStep begin run choice) (e, .of p) (e', .of p') := by
  have hleave : Alone (headStep begin run choice) (e, .leaving) (e.leave, .ended) :=
    .cons rfl (.cons rfl .refl)
  cases p with
  | loop =>
    refine .cons rfl ?_
    simp only [workerStep] at h
    split at h
    · rename_i hover
      obtain ⟨hrunning, hcap, hopen⟩ := hover
      cases h
      exact .cons (y := (e, .oversized)) (by simp [headStep, hrunning, hcap])
        (.cons (by simp [headStep, hopen]) hleave)
    · rename_i hnot
      cases h
      by_cases hover : e.running > e.cap ∧ e.cap > 0
      · have hclosed : e.closed = true :=
          Bool.eq_true_of_not_eq_false fun hopen => hnot ⟨hover.1, hover.2, hopen⟩
        exact .cons (y := (e, .oversized)) (by simp only [headStep, if_pos hover])
          (.cons (by simp [headStep, hclosed, HeadPhase.of]) .refl)
      · exact .cons (by simp only [headStep, if_neg hover, HeadPhase.of]) .refl
  | receiving =>
    simp only [workerStep] at h
    split at h
    · split at h
      all_goals rename_i hrecv
      · cases h
        exact .cons (by simp only [HeadPhase.of, headStep, hrecv]) .refl
      · cases h
        exact .cons (by simp only [HeadPhase.of, headStep, hrecv]) hleave
      · cases h
    · split at h <;> cases h
      rename_i hstop
      exact .cons (by simp only [HeadPhase.of, headStep, hstop, if_true]) .refl
  | running task draining =>
    obtain ⟨out, hrun, hout⟩ := Option.map_eq_some_iff.mp h
    cases hout
    exact .cons (by simp only [HeadPhase.of, headStep, hrun, Option.map_some]) .refl
  | draining =>
    simp only [workerStep] at h
    split at h
    all_goals
      rename_i hrecv
      cases h
    · exact .cons (by simp only [HeadPhase.of, headStep, hrecv]) .refl
    · exact .cons (by simp only [HeadPhase.of, headStep, hrecv]) hleave
    · exact .cons (by simp only [HeadPhase.of, headStep, hrecv]) hleave
  | exited => cases h

end

namespace HeadPhase

variable {ρ : Type}

/-- The worker has not ended. -/
def alive : HeadPhase ρ → Nat
  | .ended => 0
  | _ => 1

/-- The worker has loaded `running` and has not come to the end of its check or, if it
    leaves, of its deferred calls. -/
def checking : HeadPhase ρ → Nat
  | .loaded _ | .oversized | .leaving | .released => 1
  | _ => 0

/-- The worker leaves for a capacity of `n`. -/
def doomed (n : Nat) : HeadPhase ρ → Nat
  | .loaded count => if count > n then 1 else 0
  | .oversized | .leaving | .released => 1
  | _ => 0

/-- The worker has seen the stop signal. -/
def drains : HeadPhase ρ → Bool
  | .draining => true
  | .running _ signalled => signalled
  | _ => false

/-- The tasks that the worker runs. -/
def tasks : HeadPhase ρ → List ρ
  | .running task _ => [task]
  | _ => []

theorem doomed_le_checking (n : Nat) (p : HeadPhase ρ) : p.doomed n ≤ p.checking := by
  cases p with
  | loaded count =>
    simp only [doomed, checking]
    split <;> omega
  | _ => exact Nat.le_refl _

end HeadPhase

/-- An executor with its callers and workers, and a call of `Resize`. -/
structure Resizing (c : Nat) where
  exec : Executor (Fin c)
  caller : Fin c → Submitter
  resize : ResizePhase := .start
  worker : List (HeadPhase (Fin c))
  finished : List (Fin c) := []

/-- Somebody takes a step. -/
inductive ResizeAction (c : Nat) where
  | submit (i : Fin c) (choice : SelectCase)
  | resize
  | work (j : Nat) (choice : SelectCase)

namespace Resizing

variable {c : Nat}

def step (n : Int) (s : Resizing c) : ResizeAction c → Option (Resizing c)
  | .submit i choice =>
    ((s.caller i).step i choice s.exec).map fun out =>
      { s with exec := out.1, caller := Function.update s.caller i out.2 }
  | .resize =>
    (resizeStep n s.exec s.resize).map fun out =>
      { s with
        exec := out.1
        resize := out.2.1
        worker := s.worker ++ replicate out.2.2 .loop }
  | .work j choice =>
    match s.worker[j]? with
    | none => none
    | some p =>
      (headStep id Workload.runTask choice s.exec p).map fun out =>
        { s with
          exec := out.1
          worker := s.worker.set j out.2
          finished := s.finished ++ p.tasks }

/-- A new executor, whose callers use `DoCtx` or `Do`. -/
def new (opts : ExecutorOpts) (numCPU : Nat) (viaCtx : Fin c → Bool) : Resizing c where
  exec := .new opts numCPU
  caller i := { viaCtx := viaCtx i }
  worker := replicate (opts.workerCount numCPU) .loop

/-- A quantity added up over the workers. -/
def total (f : HeadPhase (Fin c) → Nat) (s : Resizing c) : Nat := (s.worker.map f).sum

/-- The number of workers that have not ended. -/
def live (s : Resizing c) : Nat := s.total HeadPhase.alive

/-- A worker loads `running` only while at most `others` other workers are in their checks. -/
def Uncrowded (others : Nat) (s : Resizing c) (a : ResizeAction c) : Prop :=
  ∀ j choice, a = .work j choice → s.worker[j]? = some .loop → s.total HeadPhase.checking ≤ others

variable {s t : Resizing c} {n others j : Nat} {choice : SelectCase}
  {e e' : Executor (Fin c)} {p p' : HeadPhase (Fin c)} {f : HeadPhase (Fin c) → Nat}
  {as : List (ResizeAction c)} {js : List Nat}

/-! ### What is kept -/

/-- `Stop` has not been called, and the capacity is no less than `n`. -/
structure Open (n : Nat) (e : Executor (Fin c)) : Prop where
  closed : e.closed = false
  stop : e.stop = false
  tasks : e.tasks.closed = false
  cap : n ≤ e.cap

/-- What a step of a worker does to the counts: it loads `running`, or it does not come closer
    to its end without having been on the way there. -/
structure Turn (n : Nat) (e : Executor (Fin c)) (p : HeadPhase (Fin c)) (e' : Executor (Fin c))
    (p' : HeadPhase (Fin c)) : Prop where
  kept : Open n e'
  alive : e'.running + p.alive = e.running + p'.alive
  doomed : (p = .loop ∧ p' = .loaded e.running ∧ e' = e) ∨
    e.running + p'.doomed n ≤ e'.running + p.doomed n
  drains : p'.drains = false

theorem turn_of_headStep (h : Open n e) (hdrains : p.drains = false)
    (hstep : headStep id Workload.runTask choice e p = some (e', p')) : Turn n e p e' p' := by
  cases p with
  | loop =>
    cases hstep
    exact ⟨h, rfl, .inl ⟨rfl, rfl, rfl⟩, rfl⟩
  | loaded running =>
    cases hstep
    split
    · rename_i hover
      have hcap := h.cap
      refine ⟨h, rfl, .inr ?_, rfl⟩
      rw [HeadPhase.doomed, HeadPhase.doomed, if_pos (by omega)]
    · exact ⟨h, rfl, .inr (Int.add_le_add_left (Int.natCast_nonneg _) _), rfl⟩
  | oversized =>
    simp only [headStep, h.closed, Bool.false_eq_true, if_false] at hstep
    cases hstep
    exact ⟨h, rfl, .inr (Int.le_refl _), rfl⟩
  | leaving =>
    cases hstep
    exact ⟨⟨h.closed, h.stop, h.tasks, h.cap⟩, rfl, .inr (Int.le_refl _), rfl⟩
  | released =>
    cases hstep
    refine ⟨⟨h.closed, h.stop, h.tasks, h.cap⟩, ?_, .inr ?_, rfl⟩
    all_goals
      simp only [HeadPhase.alive, HeadPhase.doomed]
      omega
  | receiving =>
    simp only [headStep] at hstep
    split at hstep
    · split at hstep
      all_goals rename_i hrecv
      · obtain ⟨-, hrest⟩ := Chan.recv_eq_received hrecv
        cases hstep
        exact ⟨⟨h.closed, h.stop, by rw [hrest]; exact h.tasks, h.cap⟩, rfl,
          .inr (Int.le_refl _), rfl⟩
      · exact absurd (Chan.recv_eq_closed hrecv).1 (Bool.eq_false_iff.mp h.tasks)
      · cases hstep
    · simp [h.stop] at hstep
  | running task signalled =>
    cases hdrains
    cases hstep
    exact ⟨h, rfl, .inr (Int.le_refl _), rfl⟩
  | draining => cases hdrains
  | ended => cases hstep

/-- With at most `others` other workers in their checks when one loads `running`, those that
    leave do not take the number below `n - others`. -/
structure Shrinks (n others : Nat) (s : Resizing c) : Prop where
  opened : Open n s.exec
  running : s.exec.running = s.live
  slack : n + s.total (HeadPhase.doomed n) ≤ s.live + others
  resize : ∀ toStart, s.resize = .storing toStart → toStart = 0
  drains : ∀ p ∈ s.worker, p.drains = false

theorem total_le_total {g : HeadPhase (Fin c) → Nat} (hle : ∀ p, f p ≤ g p) :
    s.total f ≤ s.total g :=
  sum_le_sum fun p _ => hle p

theorem Shrinks.work (h : Shrinks n others s) (hp : s.worker[j]? = some p)
    (hroom : p = .loop → s.total HeadPhase.checking ≤ others)
    (hturn : Turn n s.exec p e' p') (tasks : List (Fin c)) :
    Shrinks n others
      { s with exec := e', worker := s.worker.set j p', finished := s.finished ++ tasks } := by
  have halive := sum_map_set HeadPhase.alive (b := p') hp
  have hdoomed := sum_map_set (HeadPhase.doomed n) (b := p') hp
  have hrunning := h.running
  have hslack := h.slack
  have hmoved := hturn.alive
  have hle : s.total (HeadPhase.doomed n) ≤ s.total HeadPhase.checking :=
    total_le_total (HeadPhase.doomed_le_checking n)
  refine ⟨hturn.kept, ?_, ?_, h.resize, fun q hq => ?_⟩
  · simp only [live, total] at hrunning ⊢
    omega
  · simp only [live, total] at hrunning hslack hle hroom ⊢
    rcases hturn.doomed with ⟨rfl, rfl, rfl⟩ | hshare
    · -- The load is the only step that can doom a worker, and few are in their checks then.
      have hfew := hroom rfl
      simp only [HeadPhase.doomed, HeadPhase.alive] at hdoomed halive
      split at hdoomed <;> omega
    · omega
  · obtain hq | rfl := mem_or_eq_of_mem_set hq
    · exact h.drains q hq
    · exact hturn.drains

theorem Shrinks.submits (h : Shrinks n others s) {caller : Fin c → Submitter}
    (hsubmits : s.exec.Submits e') : Shrinks n others { s with exec := e', caller } := by
  have hrest := hsubmits.rest
  refine ⟨?_, ?_, h.slack, h.resize, h.drains⟩
  · rw [hrest]
    exact ⟨h.opened.closed, h.opened.stop, h.opened.tasks, h.opened.cap⟩
  · dsimp only
    rw [hrest]
    exact h.running

/-- `Resize` has nothing to start. -/
theorem Shrinks.resized (h : Shrinks n others s) {phase : ResizePhase} {started : Nat}
    (hstep : resizeStep n s.exec s.resize = some (e', phase, started)) :
    Shrinks n others { s with
      exec := e', resize := phase, worker := s.worker ++ replicate started .loop } := by
  obtain ⟨hkept, hrunning, hstarted, hphase⟩ : Open n e' ∧ e'.running = s.exec.running ∧
      started = 0 ∧ ∀ toStart, phase = .storing toStart → toStart = 0 := by
    have hcap := h.opened.cap
    have hnone := h.resize
    generalize s.resize = resize at hstep hnone
    have hopen : ∀ mu, Open n { s.exec with mu } := fun _ =>
      ⟨h.opened.closed, h.opened.stop, h.opened.tasks, h.opened.cap⟩
    cases resize with
    | start =>
      simp only [resizeStep] at hstep
      split at hstep
      · cases hstep
        exact ⟨h.opened, rfl, rfl, nofun⟩
      · cases hstep
        exact ⟨h.opened, rfl, rfl, fun _ => by split <;> nofun⟩
    | entered =>
      obtain ⟨mu, -, hout⟩ := Option.map_eq_some_iff.mp hstep
      cases hout
      exact ⟨hopen mu, rfl, rfl, nofun⟩
    | locking =>
      obtain ⟨mu, -, hout⟩ := Option.map_eq_some_iff.mp hstep
      cases hout
      exact ⟨hopen mu, rfl, rfl, nofun⟩
    | locked =>
      cases hstep
      refine ⟨h.opened, rfl, rfl, fun toStart hstoring => ?_⟩
      split at hstoring <;> cases hstoring
      omega
    | storing toStart =>
      cases hnone toStart rfl
      cases hstep
      exact ⟨⟨h.opened.closed, h.opened.stop, h.opened.tasks, Nat.le_refl n⟩, rfl, rfl, nofun⟩
    | unlocking =>
      cases hstep
      exact ⟨hopen _, rfl, rfl, nofun⟩
    | returned err => cases hstep
  cases hstarted
  rw [replicate_zero, append_nil]
  exact ⟨hkept, hrunning.trans h.running, h.slack, hphase, h.drains⟩

theorem Shrinks.step {a : ResizeAction c} (h : Shrinks n others s) (hroom : Uncrowded others s a)
    (hstep : s.step n a = some t) : Shrinks n others t := by
  cases a with
  | submit i choice =>
    obtain ⟨out, hsubmit, rfl⟩ := Option.map_eq_some_iff.mp hstep
    exact h.submits (Submitter.submits_of_step hsubmit).1
  | resize =>
    obtain ⟨out, hresize, rfl⟩ := Option.map_eq_some_iff.mp hstep
    exact h.resized hresize
  | work j choice =>
    simp only [Resizing.step] at hstep
    split at hstep
    · cases hstep
    · rename_i p hp
      obtain ⟨out, hloop, rfl⟩ := Option.map_eq_some_iff.mp hstep
      have hturn := turn_of_headStep h.opened (h.drains p (mem_of_getElem? hp)) hloop
      exact h.work hp (fun hloop => hroom j choice rfl (hloop ▸ hp)) hturn _

variable (opts : ExecutorOpts) (numCPU : Nat) (viaCtx : Fin c → Bool)

theorem total_new (f : HeadPhase (Fin c) → Nat) :
    (new opts numCPU viaCtx).total f = opts.workerCount numCPU * f .loop := by
  simp [total, new]

theorem shrinks_new (others : Nat) (hn : n ≤ opts.workerCount numCPU) :
    Shrinks n others (new opts numCPU viaCtx) := by
  refine ⟨⟨rfl, rfl, rfl, hn⟩, ?_, ?_, nofun, fun p hp => ?_⟩
  · rw [live, total_new]
    simp [new, Executor.new, HeadPhase.alive]
  · rw [live, total_new, total_new]
    simp only [HeadPhase.doomed, HeadPhase.alive]
    omega
  · rw [eq_of_mem_replicate hp]
    rfl

/-! ### Leaving -/

/-- A worker takes a step that is not the load. -/
theorem guardedRun_work (hp : s.worker[j]? = some p) (hnot : p ≠ .loop) (htasks : p.tasks = [])
    (hstep : headStep id Workload.runTask choice s.exec p = some (e', p'))
    (hrest : GuardedRun (step n) (Uncrowded others)
      { s with exec := e', worker := s.worker.set j p' } as t) :
    GuardedRun (step n) (Uncrowded others) s (.work j choice :: as) t := by
  refine .cons (fun i choice' hi hloop => ?_) ?_ hrest
  · cases hi
    exact absurd (Option.some.inj (hp.symm.trans hloop)) hnot
  · simp only [step, hp, hstep, Option.map_some, htasks, append_nil]

/-- A worker that has loaded too large a count leaves. -/
theorem guardedRun_leave {count : Int} (hp : s.worker[j]? = some (.loaded count))
    (hover : count > s.exec.cap) (hcap : 0 < s.exec.cap) (hopen : s.exec.closed = false) :
    GuardedRun (step n) (Uncrowded others) s (replicate 4 (.work j .tasks))
      { s with exec := s.exec.leave, worker := s.worker.set j .ended } := by
  have hset : ∀ q : HeadPhase (Fin c), (s.worker.set j q)[j]? = some q := fun q => by
    rw [getElem?_set_self (List.getElem?_eq_some_iff.mp hp).1]
  have hcompare : headStep id Workload.runTask .tasks s.exec (.loaded count) =
      some (s.exec, .oversized) := by
    rw [headStep, if_pos ⟨hover, hcap⟩]
  have hreturn : headStep id Workload.runTask .tasks s.exec .oversized =
      some (s.exec, .leaving) := by
    rw [headStep, hopen]
    rfl
  refine guardedRun_work hp nofun rfl hcompare (guardedRun_work (hset _) nofun rfl hreturn ?_)
  dsimp only
  rw [set_set]
  refine guardedRun_work (hset _) nofun rfl rfl ?_
  dsimp only
  rw [set_set]
  refine guardedRun_work (hset _) nofun rfl rfl ?_
  dsimp only
  rw [set_set]
  exact .nil _

/-- The workers `js` have left, and nothing else has happened. -/
structure Left (js : List Nat) (s t : Resizing c) : Prop where
  running : t.exec.running = s.exec.running - js.length
  cap : t.exec.cap = s.exec.cap
  closed : t.exec.closed = s.exec.closed
  checking : t.total HeadPhase.checking = s.total HeadPhase.checking
  worker : ∀ j, t.worker[j]? = if j ∈ js then some .ended else s.worker[j]?

/-- Workers that are at the head of their loops. -/
structure AtLoop (js : List Nat) (s : Resizing c) : Prop where
  nodup : js.Nodup
  loop : ∀ j ∈ js, s.worker[j]? = some .loop
  cap : 0 < s.exec.cap
  opened : s.exec.closed = false

/-- They all load the same count, the one nested in the other, and all leave. -/
theorem exists_left (n others : Nat) (h : AtLoop js s) (hover : s.exec.running > s.exec.cap)
    (hroom : s.total HeadPhase.checking + js.length ≤ others + 1) :
    ∃ as t, GuardedRun (step n) (Uncrowded others) s as t ∧ Left js s t := by
  induction js generalizing s with
  | nil => exact ⟨[], s, .nil s, by simp, rfl, rfl, rfl, by simp⟩
  | cons j js ih =>
    obtain ⟨hj, hnodup⟩ := nodup_cons.mp h.nodup
    have hloop := h.loop j mem_cons_self
    have hlt := (List.getElem?_eq_some_iff.mp hloop).1
    rw [length_cons] at hroom
    let s₁ := { s with worker := s.worker.set j (.loaded s.exec.running) }
    have hload : s.step n (.work j .tasks) = some s₁ := by
      simp only [step, hloop, headStep, Option.map_some, HeadPhase.tasks, append_nil, s₁]
    have hchecking : s₁.total HeadPhase.checking = s.total HeadPhase.checking + 1 :=
      sum_map_set HeadPhase.checking hloop
    have hloop₁ : ∀ i ∈ js, s₁.worker[i]? = some .loop := fun i hi => by
      have hne : j ≠ i := fun hji => hj (hji ▸ hi)
      rw [getElem?_set_ne hne]
      exact h.loop i (mem_cons_of_mem j hi)
    obtain ⟨as, t₁, hrun, hleft⟩ := ih (s := s₁) ⟨hnodup, hloop₁, h.cap, h.opened⟩ hover (by omega)
    have hp : t₁.worker[j]? = some (.loaded s.exec.running) := by
      rw [hleft.worker, if_neg hj, getElem?_set_self hlt]
    have hlast := sum_map_set HeadPhase.checking (b := .ended) hp
    have hrun₁ := hrun.append (guardedRun_leave hp (by rw [hleft.cap]; exact hover)
      (by rw [hleft.cap]; exact h.cap) (hleft.closed.trans h.opened))
    refine ⟨_, _, .cons (fun _ _ _ _ => by omega) hload hrun₁, ?_, hleft.cap, hleft.closed, ?_,
      fun i => ?_⟩
    · have hrunning : t₁.exec.running = s.exec.running - js.length := hleft.running
      simp only [Executor.leave, length_cons]
      omega
    · have hsame := hleft.checking
      simp only [HeadPhase.checking] at hlast
      simp only [total] at hsame hchecking hlast ⊢
      omega
    · by_cases hij : j = i
      · subst hij
        have hlt₁ := (List.getElem?_eq_some_iff.mp hp).1
        rw [getElem?_set_self hlt₁, if_pos mem_cons_self]
      · rw [getElem?_set_ne hij, hleft.worker, getElem?_set_ne hij]
        simp only [mem_cons, Ne.symm hij, false_or]

theorem Left.append {js' : List Nat} {u : Resizing c} (h : Left js s t) (h' : Left js' t u) :
    Left (js ++ js') s u := by
  refine ⟨?_, h'.cap.trans h.cap, h'.closed.trans h.closed, h'.checking.trans h.checking,
    fun j => ?_⟩
  · rw [h'.running, h.running, length_append]
    omega
  · rw [h'.worker, h.worker]
    by_cases hj : j ∈ js <;> simp [hj]

/-- Workers that leave do not disturb others. -/
theorem Left.atLoop {js' : List Nat} (hleft : Left js s t) (h : AtLoop (js ++ js') s) :
    AtLoop js' t := by
  obtain ⟨-, hnodup, hdisjoint⟩ := nodup_append.mp h.nodup
  refine ⟨hnodup, fun j hj => ?_, hleft.cap ▸ h.cap, hleft.closed.trans h.opened⟩
  rw [hleft.worker, if_neg fun hmem => hdisjoint j hmem j hj rfl]
  exact h.loop j (mem_append_right js hj)

/-- One after the other they leave as long as there are more than the capacity. -/
theorem exists_left_one_by_one (n others : Nat) (h : AtLoop js s)
    (hover : s.exec.running ≥ s.exec.cap + js.length) (hroom : s.total HeadPhase.checking ≤ others) :
    ∃ as t, GuardedRun (step n) (Uncrowded others) s as t ∧ Left js s t := by
  induction js generalizing s with
  | nil => exact ⟨[], s, .nil s, by simp, rfl, rfl, rfl, by simp⟩
  | cons j js ih =>
    rw [length_cons] at hover
    have hfirst : AtLoop [j] s :=
      ⟨nodup_singleton j, fun i hi => h.loop i (by simp_all), h.cap, h.opened⟩
    obtain ⟨as, t₁, hrun, hleft⟩ := exists_left n others hfirst (by omega) (by simpa using hroom)
    have hrunning := hleft.running
    have hcap := hleft.cap
    simp only [length_singleton] at hrunning
    obtain ⟨bs, t, hrest, hleft'⟩ := ih (hleft.atLoop h) (by omega) (by rw [hleft.checking]; omega)
    exact ⟨as ++ bs, t, hrun.append hrest, hleft.append hleft'⟩

/-! ### The number of workers -/

theorem guardedRun_resize {phase phase' : ResizePhase} (hphase : s.resize = phase)
    (hstep : resizeStep n s.exec phase = some (e', phase', 0))
    (hrest : GuardedRun (step n) (Uncrowded others) { s with exec := e', resize := phase' } as t) :
    GuardedRun (step n) (Uncrowded others) s (.resize :: as) t := by
  refine .cons nofun ?_ hrest
  simp only [step, hphase, hstep, Option.map_some, replicate_zero, append_nil]

/-- `Resize` to a smaller size, undisturbed. -/
theorem guardedRun_shrink (others : Nat) (hstart : s.resize = .start) (hopen : s.exec.closed = false)
    (hmu : s.exec.mu = {}) (hn : 1 ≤ n) (hcap : n < s.exec.cap) :
    GuardedRun (step n) (Uncrowded others) s (replicate 6 .resize)
      { s with exec := { s.exec with cap := n, mu := {} }, resize := .returned none } := by
  have henter : resizeStep n s.exec .start = some (s.exec, .entered, 0) := by
    rw [resizeStep, if_neg (by omega), hopen]
    rfl
  have hlocked : ∀ mu, resizeStep n { s.exec with mu } .locked =
      some ({ s.exec with mu }, .storing 0, 0) := fun mu => by
    simp only [resizeStep]
    rw [if_neg (by omega), show ((n : Int) - s.exec.cap).toNat = 0 by omega]
  have hannounce : resizeStep n s.exec .entered =
      some ({ s.exec with mu := { pending := true } }, .locking, 0) := by
    rw [resizeStep, hmu]
    rfl
  exact guardedRun_resize hstart henter (guardedRun_resize rfl hannounce (guardedRun_resize rfl rfl
    (guardedRun_resize rfl (hlocked { writer := true }) (guardedRun_resize rfl rfl
    (guardedRun_resize rfl rfl (.nil _))))))

/-- The fewest workers that can be left. -/
theorem le_live_iff (others m : Nat) (hn : 1 ≤ n) (hw : n < opts.workerCount numCPU) :
    (∀ as s, GuardedRun (step n) (Uncrowded others) (new opts numCPU viaCtx) as s → m ≤ s.live) ↔
      m ≤ n - others := by
  constructor
  · intro hall
    have hresize := guardedRun_shrink others (s := new opts numCPU viaCtx) rfl rfl rfl hn hw
    generalize hs : { new opts numCPU viaCtx with
      exec := { (new opts numCPU viaCtx).exec with cap := n, mu := {} }
      resize := .returned none } = s at hresize
    have hcap : s.exec.cap = n := by rw [← hs]
    have hrunning : s.exec.running = opts.workerCount numCPU := by rw [← hs]; rfl
    have hloop : ∀ js : List Nat, js.Nodup → (∀ j ∈ js, j < opts.workerCount numCPU) →
        AtLoop js s := by
      intro js hnodup hlt
      refine ⟨hnodup, fun j hj => ?_, by omega, by rw [← hs]; rfl⟩
      rw [← hs]
      exact getElem?_replicate_of_lt (hlt j hj)
    have hchecking : s.total HeadPhase.checking = 0 := by
      rw [← hs]
      exact (total_new opts numCPU viaCtx HeadPhase.checking).trans (Nat.mul_zero _)
    -- All but `n + 1` workers leave alone, and then as many at once as may.
    let alone := opts.workerCount numCPU - (n + 1)
    let together := min (others + 1) (n + 1)
    have hsplit : range (alone + together) =
        range alone ++ (range together).map (alone + ·) := range_add
    have hall_loop := hloop (range (alone + together)) nodup_range
      fun j hj => by rw [mem_range] at hj; omega
    rw [hsplit] at hall_loop
    obtain ⟨as, t₁, hrun₁, hleft₁⟩ := exists_left_one_by_one n others
      (hloop (range alone) nodup_range fun j hj => by rw [mem_range] at hj; omega)
      (by rw [length_range]; omega) (by omega)
    have hrunning₁ := hleft₁.running
    rw [length_range] at hrunning₁
    obtain ⟨bs, t, hrun₂, hleft₂⟩ := exists_left n others
      (hleft₁.atLoop hall_loop) (by rw [hleft₁.cap]; omega)
      (by rw [hleft₁.checking, length_map, length_range]; omega)
    have hrunning₂ := hleft₂.running
    rw [length_map, length_range] at hrunning₂
    have hrun := hresize.append (hrun₁.append hrun₂)
    have hinv := hrun.invariant (fun _ _ _ h hroom hstep => h.step hroom hstep)
      (shrinks_new opts numCPU viaCtx others (Nat.le_of_lt hw))
    have hlive := hinv.running
    have hm := hall _ t hrun
    omega
  · intro hm as s hrun
    have hslack := (hrun.invariant (fun _ _ _ h hroom hstep => h.step hroom hstep)
      (shrinks_new opts numCPU viaCtx others (Nat.le_of_lt hw))).slack
    omega

/-- `Resize` to `n` keeps `n` workers if and only if no worker loads the number of workers
    while another is in its check. -/
theorem shrink_keeps_workers_iff (opts : ExecutorOpts) (numCPU : Nat) (viaCtx : Fin c → Bool)
    (others : Nat) (hn : 1 ≤ n) (hw : n < opts.workerCount numCPU) :
    (∀ as s, GuardedRun (step n) (Uncrowded others) (new opts numCPU viaCtx) as s → n ≤ s.live) ↔
      others = 0 := by
  rw [le_live_iff opts numCPU viaCtx others n hn hw]
  omega

theorem shrink_keeps_workers_two :
    1 < ExecutorOpts.workerCount { workers := 2 } 1 ∧
      ∀ as s, GuardedRun (step (1 : Nat)) (Uncrowded 0)
        (new (c := 1) { workers := 2 } 1 fun _ => false) as s → 1 ≤ s.live := by
  have hw : 1 < ExecutorOpts.workerCount { workers := 2 } 1 := by decide
  exact ⟨hw, (shrink_keeps_workers_iff _ 1 _ 0 (Nat.le_refl 1) hw).mpr rfl⟩

theorem eq_ended_of_live (hlive : s.live = 0) (hp : s.worker[j]? = some p) : p = .ended := by
  have hzero := sum_eq_zero_iff.mp hlive p.alive
    (mem_map_of_mem (mem_of_getElem? hp))
  cases p with
  | ended => rfl
  | _ => cases hzero

/-- Without workers the queue is not served, whoever else is at work. -/
theorem stranded {err : Option ResizeError} {k : Int} (hrun : Runs (step k) s as t)
    (hs : s.live = 0 ∧ s.resize = .returned err) :
    t.finished = s.finished ∧ s.exec.tasks.buf <+: t.exec.tasks.buf := by
  refine (hrun.invariant (I := fun t => (t.live = 0 ∧ t.resize = .returned err) ∧
    t.finished = s.finished ∧ s.exec.tasks.buf <+: t.exec.tasks.buf) ?_
    ⟨hs, rfl, prefix_refl _⟩).2
  intro t a u ⟨⟨hlive, hreturned⟩, hfinished, hqueued⟩ _ hstep
  cases a with
  | submit i choice =>
    obtain ⟨out, hsubmit, rfl⟩ := Option.map_eq_some_iff.mp hstep
    exact ⟨⟨hlive, hreturned⟩, hfinished, hqueued.trans (Submitter.submits_of_step hsubmit).2⟩
  | resize =>
    simp only [step, hreturned, resizeStep, Option.map_none] at hstep
    cases hstep
  | work j choice =>
    simp only [step] at hstep
    split at hstep
    · cases hstep
    · rename_i p hp
      obtain rfl := eq_ended_of_live hlive hp
      cases hstep

/-- A task is accepted, `Resize` returns, and both workers load 2. -/
def bothLeave (i : Fin c) : List (ResizeAction c) :=
  replicate 4 (.submit i .tasks) ++ replicate 6 .resize ++
    [.work 0 .tasks, .work 1 .tasks] ++ replicate 4 (.work 0 .tasks) ++
    replicate 4 (.work 1 .tasks)

theorem bothLeave_strands :
    ∃ s, Runs (step 1) (new (c := 1) { workers := 2 } 1 fun _ => false) (bothLeave 0) s ∧
      s.live = 0 ∧ (s.caller 0).phase = .returned .accepted ∧
      ∀ as t, Runs (step 1) s as t → t.finished = [] ∧ 0 ∈ t.exec.tasks.buf := by
  have hrun : ∃ s, Runs (step 1) (new (c := 1) { workers := 2 } 1 fun _ => false)
      (bothLeave 0) s ∧ (s.live = 0 ∧ s.resize = .returned none) ∧
      (s.caller 0).phase = .returned .accepted ∧ s.finished = [] ∧ s.exec.tasks.buf = [0] :=
    ⟨_, runs_of_exec rfl, ⟨rfl, rfl⟩, rfl, rfl, rfl⟩
  obtain ⟨s, hrun, hover, haccepted, hfinished, hbuf⟩ := hrun
  refine ⟨s, hrun, hover.1, haccepted, fun as t hlater => ?_⟩
  obtain ⟨hsame, hqueued⟩ := stranded hlater hover
  exact ⟨hsame.trans hfinished, hqueued.subset (by simp [hbuf])⟩

end Resizing

end GridKV
