import GridKV.ForStd.Halting
import GridKV.Spec.Timers

/-!
# A scheduler that is closed

`Close` refuses new tasks and wakes the dispatcher, but leaves the tasks in the heap, and the
dispatcher ends only when the heap is empty.  It always gets there: each of its steps uses
something up, and as time goes on it can always take another one (`terminates`).  On the way
it starts every task that is not cancelled.  So nothing is started after `Close` if and only
if no such task was left (`nothing_starts_iff`).
-/

namespace GridKV

open Go Run List

/-- How many steps the phase of the dispatcher is worth.  When it has slept, it finds a task
    that is due. -/
def DispatchPhase.effort (due : Bool) : DispatchPhase → Nat
  | .top => if due then 1 else 3
  | .waiting => 3
  | .sleeping _ => 2
  | .popped _ _ => 5
  | .running _ => 4
  | .ended => 0

theorem DispatchPhase.effort_top_le (due : Bool) : DispatchPhase.top.effort due ≤ 3 := by
  cases due <;> decide

namespace SchedulerUse

variable {heap : TaskHeap} {s t : SchedulerUse} {a : SchedulerAction} {task : ScheduledTask}
  {as : List SchedulerAction}

/-! ### The dispatcher does not oversleep -/

/-- The dispatcher sleeps no longer than until the first task is due, does not wait for a
    signal that does not come, and leaves no task behind. -/
structure Awake (s : SchedulerUse) : Prop where
  sleeping : ∀ d, s.dispatcher = .sleeping d →
    ∃ next rest, s.sched.tasks = next :: rest ∧ next.when ≤ d
  waiting : s.dispatcher = .waiting → s.sched.closed = true →
    s.sched.wakeup = true ∨ s.closing = true
  ended : s.dispatcher = .ended → s.sched.closed = true ∧ s.sched.tasks = []

theorem awake_new (now : Time) : (new now).Awake where
  sleeping _ h := by cases h
  waiting h := by cases h
  ended h := by cases h

/-- A task that is pushed does not make the first one later. -/
theorem root_push {tasks : List ScheduledTask} (hheap : heap.IsHeap tasks) {d : Time}
    (h : ∃ next rest, tasks = next :: rest ∧ next.when ≤ d) :
    ∃ next rest, heap.push tasks task = next :: rest ∧ next.when ≤ d := by
  obtain ⟨next, rest, rfl, hdue⟩ := h
  have hmem : next ∈ heap.push (next :: rest) task :=
    heap.mem_push.mpr (.inr mem_cons_self)
  have hpushed := heap.isHeap_push task hheap
  cases hroot : heap.push (next :: rest) task with
  | nil =>
    rw [hroot] at hmem
    cases hmem
  | cons root others =>
    rw [hroot] at hmem hpushed
    refine ⟨root, others, rfl, ?_⟩
    obtain rfl | hother := mem_cons.mp hmem
    · exact hdue
    · exact le_trans (not_lt.mp (heap.root_least hpushed next hother)) hdue

theorem Awake.move (hs : s.Awake) (hheap : heap.IsHeap s.sched.tasks) (h : Move heap s a t) :
    t.Awake where
  sleeping := by
    cases h with
    | push hmem hopen => exact fun d hd => root_push hheap (hs.sleeping d hd)
    | sleep htop htasks hearly =>
      intro d hd
      cases hd
      exact ⟨_, _, htasks, le_refl _⟩
    | tick | refuse | make | reject | cancel | close | closed | signal => exact hs.sleeping
    | _ => exact fun d hd => by cases hd
  waiting := by
    cases h with
    | push hmem hopen => exact fun _ hclosed => absurd (hopen.symm.trans hclosed) (by decide)
    | close => exact fun _ _ => .inr rfl
    | signal => exact fun _ _ => .inl rfl
    | wait htop htasks hopen =>
      exact fun _ hclosed => absurd (hopen.symm.trans hclosed) (by decide)
    | tick | refuse | make | reject | cancel | closed => exact hs.waiting
    | _ => exact fun hd => by cases hd
  ended := by
    cases h with
    | push hmem hopen =>
      exact fun hd => absurd (hopen.symm.trans (hs.ended hd).1) (by decide)
    | close hopen => exact fun hd => ⟨rfl, (hs.ended hd).2⟩
    | stop htop htasks hclosed => exact fun _ => ⟨hclosed, htasks⟩
    | tick | refuse | make | reject | cancel | closed | signal => exact hs.ended
    | _ => exact fun hd => by cases hd

/-- A scheduler that has been closed. -/
structure Closed (heap : TaskHeap) (s : SchedulerUse) : Prop where
  inv : s.Inv heap
  awake : s.Awake
  closed : s.sched.closed = true

/-- It is not opened again. -/
theorem closed_move (hclosed : s.sched.closed = true) (h : Move heap s a t) :
    t.sched.closed = true := by
  cases h with
  | close => rfl
  | _ => exact hclosed

theorem Closed.move (hs : s.Closed heap) (h : Move heap s a t) :
    t.Closed heap where
  inv := hs.inv.move h
  awake := hs.awake.move hs.inv.isHeap h
  closed := closed_move hs.closed h

theorem closed_of_run {start : Time} (hrun : Runs (step heap) (new start) as s)
    (hclosed : s.sched.closed = true) :
    s.Closed heap where
  inv := inv_run hrun
  awake := by
    have hboth := hrun.invariant (I := fun s => s.Inv heap ∧ s.Awake)
      (fun s a t hs _ hstep => by
        have hmove := move_of_step hstep
        exact ⟨hs.1.move hmove, hs.2.move hs.1.isHeap hmove⟩)
      ⟨inv_new heap start, awake_new start⟩
    exact hboth.2
  closed := hclosed

/-! ### The dispatcher ends -/

/-- The steps of the dispatcher, and the last one of `Close`. -/
def isOwn : SchedulerAction → Bool
  | .signal | .round | .wake | .fire | .proceed | .finish => true
  | _ => false

/-- The dispatcher takes a bounded number of steps, whatever else happens, and until it has
    ended it can take one from some time on. -/
structure Terminates (heap : TaskHeap) (s : SchedulerUse) : Prop where
  bounded : ∃ bound, ∀ as t, Runs (step heap) s as t → as.countP isOwn ≤ bound
  goesOn : ∀ as t, Runs (step heap) s as t → t.dispatcher ≠ .ended →
    ∃ time, ∀ now, time ≤ now → ∃ a, isOwn a = true ∧ (step heap { t with now } a).isSome

/-- The first task is due. -/
def rootDue (tasks : List ScheduledTask) (now : Time) : Bool :=
  tasks.head?.any fun next => next.when ≤ now

/-- A bound on the steps that are left. -/
def effort (s : SchedulerUse) : Nat :=
  5 * s.sched.tasks.length + 2 * s.sched.wakeup.toNat + 3 * s.closing.toNat +
    s.dispatcher.effort (rootDue s.sched.tasks s.now)

/-- Time makes tasks due. -/
theorem effort_tick {now : Time} (h : s.now ≤ now) : effort { s with now } ≤ s.effort := by
  have hdue : rootDue s.sched.tasks s.now = true → rootDue s.sched.tasks now = true := by
    simp only [rootDue, Option.any_eq_true, decide_eq_true_eq]
    rintro ⟨next, hroot, hdue⟩
    exact ⟨next, hroot, le_trans hdue h⟩
  refine Nat.add_le_add_left ?_ _
  show s.dispatcher.effort (rootDue s.sched.tasks now) ≤ s.dispatcher.effort _
  cases s.dispatcher with
  | top =>
    by_cases hroot : rootDue s.sched.tasks s.now = true
    · rw [hroot, hdue hroot]
    · rw [Bool.eq_false_of_not_eq_true hroot]
      exact DispatchPhase.effort_top_le _
  | _ => exact Nat.le_refl _

/-- Every step of the dispatcher uses something up. -/
theorem effort_own (hs : s.Closed heap) (hown : isOwn a = true) (h : Move heap s a t) :
    t.effort < s.effort := by
  have htop := DispatchPhase.effort_top_le
  unfold effort
  cases h with
  | tick | refuse | make | push | reject | cancel | close | closed => cases hown
  | wait htop htasks hopen => exact absurd (hopen.symm.trans hs.closed) (by decide)
  | signal hclosing =>
    have hwakeup := Bool.toNat_le s.sched.wakeup
    simp only [Scheduler.signal, hclosing, Bool.toNat_true, Bool.toNat_false]
    omega
  | stop hphase htasks hclosed =>
    simp only [hphase, htasks, rootDue, head?_nil, Option.any_none, DispatchPhase.effort]
    simp
  | @sleep next rest hphase htasks hearly =>
    have hroot : rootDue s.sched.tasks s.now = false := by
      rw [htasks]
      exact decide_eq_false (not_le.mpr hearly)
    simp only [hphase, hroot, DispatchPhase.effort]
    simp
  | @pop next rest hphase htasks hdue =>
    have hroot : rootDue s.sched.tasks s.now = true := by
      rw [htasks]
      exact decide_eq_true hdue
    have hlength : (heap.pop s.sched.tasks).length + 1 = s.sched.tasks.length := by
      rw [htasks, (heap.pop_perm next rest).length_eq, length_cons]
    simp only [hphase, hroot, DispatchPhase.effort, if_true]
    omega
  | wake hphase hwakeup =>
    have hbefore : 2 ≤ s.dispatcher.effort (rootDue s.sched.tasks s.now) := by
      obtain hphase | ⟨d, hphase⟩ := hphase <;> simp [hphase, DispatchPhase.effort]
    have hafter := htop (rootDue s.sched.tasks s.now)
    simp only [hwakeup, Bool.toNat_true, Bool.toNat_false]
    omega
  | @fire deadline hphase hdue =>
    -- The dispatcher has slept until the first task is due.
    obtain ⟨next, rest, htasks, hnext⟩ := hs.awake.sleeping deadline hphase
    have hroot : rootDue s.sched.tasks s.now = true := by
      rw [htasks]
      exact decide_eq_true (le_trans hnext hdue)
    simp only [hphase, hroot, DispatchPhase.effort]
    simp
  | skip hphase | start hphase | finish hphase =>
    have hafter := htop (rootDue s.sched.tasks s.now)
    simp only [hphase, DispatchPhase.effort] at hafter ⊢
    omega

theorem effort_move (hs : s.Closed heap) (h : Move heap s a t) : t.effort ≤ s.effort := by
  by_cases hown : isOwn a = true
  · exact Nat.le_of_lt (effort_own hs hown h)
  · cases h with
    | tick hlater => exact effort_tick hlater
    | refuse | make | reject | cancel | closed => exact Nat.le_refl _
    | push hmem hopen => exact absurd (hopen.symm.trans hs.closed) (by decide)
    | close hopen => exact absurd (hopen.symm.trans hs.closed) (by decide)
    | _ => exact absurd rfl hown

theorem Closed.goesOn (hs : s.Closed heap) (hended : s.dispatcher ≠ .ended) :
    ∃ time, ∀ now, time ≤ now → ∃ a, isOwn a = true ∧ (step heap { s with now } a).isSome := by
  cases hphase : s.dispatcher with
  | top => exact ⟨0, fun now _ => ⟨.round, rfl, by simp [step]⟩⟩
  | waiting =>
    obtain hwakeup | hclosing := hs.awake.waiting hphase hs.closed
    · exact ⟨0, fun now _ => ⟨.wake, rfl, by simp [step, hwakeup]⟩⟩
    · exact ⟨0, fun now _ => ⟨.signal, rfl, by simp [step, hclosing]⟩⟩
  | sleeping d => exact ⟨d, fun now hnow => ⟨.fire, rfl, by simp [step, hnow]⟩⟩
  | popped task cancelled =>
    refine ⟨0, fun now _ => ⟨.proceed, rfl, ?_⟩⟩
    cases cancelled <;> simp [step]
  | running task => exact ⟨0, fun now _ => ⟨.finish, rfl, by simp [step]⟩⟩
  | ended => exact absurd hphase hended

theorem Closed.run (hs : s.Closed heap) (hrun : Runs (step heap) s as t) : t.Closed heap :=
  hrun.invariant (fun _ _ _ hs _ hstep => hs.move (move_of_step hstep)) hs

/-- The dispatcher of a closed scheduler comes to its end. -/
theorem Closed.terminates (hs : s.Closed heap) : s.Terminates heap where
  bounded := by
    refine ⟨s.effort, fun as t hrun => ?_⟩
    have hbound := countP_add_measure_le (I := Closed heap) (μ := effort) isOwn
      (fun s a t hs hstep => by
        have hmove := move_of_step hstep
        exact ⟨hs.move hmove, effort_move hs hmove, fun hown => effort_own hs hown hmove⟩)
      hrun hs
    omega
  goesOn as t hrun hended := (hs.run hrun).goesOn hended

/-! ### What is started on the way -/

/-- Nothing is left to start: what is in the heap is cancelled, and so is what the dispatcher
    has taken. -/
structure Quiet (s : SchedulerUse) : Prop where
  tasks : ∀ task ∈ s.sched.tasks, s.sched.cancelled task.id = true
  held : ∀ task, s.dispatcher ≠ .popped task false

theorem Quiet.move (hs : s.Quiet) (hclosed : s.sched.closed = true) (h : Move heap s a t) :
    t.Quiet ∧ t.started = s.started := by
  cases h with
  | push hmem hopen => exact absurd (hopen.symm.trans hclosed) (by decide)
  | cancel id =>
    have hmove : Move heap s (.cancel id) { s with sched := s.sched.cancel id } := .cancel id
    exact ⟨⟨fun task h => cancelled_move hmove (hs.tasks task h), hs.held⟩, rfl⟩
  | @pop next rest htop htasks hdue =>
    refine ⟨⟨fun task htask => hs.tasks task ?_, fun task hphase => ?_⟩, rfl⟩
    · have hmem : task ∈ heap.pop s.sched.tasks := htask
      rw [htasks, heap.mem_pop] at hmem
      rw [htasks]
      exact mem_cons_of_mem _ hmem
    · obtain ⟨rfl, hflag⟩ := DispatchPhase.popped.inj hphase
      have hcancelled := hs.tasks next (htasks ▸ mem_cons_self)
      rw [hflag] at hcancelled
      cases hcancelled
  | start hphase => exact absurd hphase (hs.held _)
  | tick | refuse | make | reject | close | closed | signal => exact ⟨⟨hs.tasks, hs.held⟩, rfl⟩
  | stop | wait | sleep | wake | fire | skip | finish =>
    exact ⟨⟨hs.tasks, fun task hphase => by cases hphase⟩, rfl⟩

/-- A task that is not cancelled and will be started. -/
def Pending (s : SchedulerUse) (task : ScheduledTask) : Prop :=
  task ∈ s.sched.tasks ∧ s.sched.cancelled task.id = false ∨ s.dispatcher = .popped task false

theorem Inv.not_started_of_pending (hs : s.Inv heap) (htask : s.Pending task) :
    task ∉ s.started.map Prod.fst := by
  intro hstarted
  obtain ⟨hmem, -⟩ | hphase := htask
  · exact hs.id_ne_of_mem_tasks hmem (mem_append_right _ hstarted) rfl
  · refine hs.id_ne_of_mem_held ?_ hstarted rfl
    rw [hphase]
    exact mem_singleton.mpr rfl

/-- The dispatcher does not lose a task. -/
theorem pending_own (hown : isOwn a = true) (h : Move heap s a t) (htask : s.Pending task) :
    t.Pending task ∨ task ∈ t.started.map Prod.fst := by
  obtain ⟨hmem, hlive⟩ | hheld := htask
  · cases h with
    | @pop next rest htop htasks hdue =>
      refine .inl ?_
      rw [htasks] at hmem
      obtain rfl | hmem := mem_cons.mp hmem
      · exact .inr (congrArg (DispatchPhase.popped task) hlive)
      · refine .inl ⟨?_, hlive⟩
        show task ∈ heap.pop s.sched.tasks
        rw [htasks]
        exact heap.mem_pop.mpr hmem
    | tick | refuse | make | push | reject | cancel | close | closed => cases hown
    | _ => exact .inl (.inl ⟨hmem, hlive⟩)
  · -- The dispatcher has the task and can do nothing but start it.
    cases h with
    | signal => exact .inl (.inr hheld)
    | start hphase =>
      obtain ⟨rfl, -⟩ := DispatchPhase.popped.inj (hheld.symm.trans hphase)
      rw [map_append]
      exact .inr (mem_append_right _ (mem_singleton.mpr rfl))
    | tick | refuse | make | push | reject | cancel | close | closed => cases hown
    | stop hphase | wait hphase | sleep hphase | pop hphase => cases hheld.symm.trans hphase
    | fire hphase | skip hphase | finish hphase => cases hheld.symm.trans hphase
    | wake hphase =>
      obtain hphase | ⟨d, hphase⟩ := hphase <;> cases hheld.symm.trans hphase

/-- Left alone, the dispatcher of a closed scheduler starts whatever is pending. -/
theorem Closed.exists_start (hs : s.Closed heap) (htask : s.Pending task) :
    ∃ as t, Runs (step heap) s as t ∧ task ∈ t.started.map Prod.fst := by
  induction heffort : s.effort using Nat.strongRecOn generalizing s with
  | _ n ih =>
    have hended : s.dispatcher ≠ .ended := by
      intro hended
      obtain ⟨-, hempty⟩ := hs.awake.ended hended
      obtain ⟨hmem, -⟩ | hheld := htask
      · rw [hempty] at hmem
        cases hmem
      · rw [hended] at hheld
        cases hheld
    obtain ⟨time, hlater⟩ := hs.goesOn hended
    obtain ⟨a, hown, hstep⟩ := hlater (max time s.now) (le_max_left _ _)
    obtain ⟨t, hstep⟩ := Option.isSome_iff_exists.mp hstep
    have htick : step heap s (.tick (max time s.now)) = some { s with now := max time s.now } :=
      if_pos (le_max_right _ _)
    have hclosed := hs.move (move_of_step htick)
    have hmove := move_of_step hstep
    have hless : t.effort < n :=
      heffort ▸ Nat.lt_of_lt_of_le (effort_own hclosed hown hmove) (effort_tick (le_max_right _ _))
    obtain hpending | hstarted := pending_own hown hmove htask
    · obtain ⟨as, u, hrun, hstarted⟩ := ih t.effort hless (hclosed.move hmove) hpending rfl
      exact ⟨_, u, .cons trivial htick (.cons trivial hstep hrun), hstarted⟩
    · exact ⟨_, t, .cons trivial htick (.cons trivial hstep (.nil t)), hstarted⟩

/-- **Closing the scheduler.**  The dispatcher ends and no function is started any more if and
    only if no task was left that is not cancelled. -/
theorem nothing_starts_iff {start : Time} {as : List SchedulerAction}
    (hrun : Runs (step heap) (new start) as s) (hclosed : s.sched.closed = true) :
    ((∀ bs t, Runs (step heap) s bs t → t.started = s.started) ∧ s.Terminates heap) ↔
      s.Quiet := by
  have hs := closed_of_run hrun hclosed
  constructor
  · rintro ⟨hnone, -⟩
    have hpending (task : ScheduledTask) : ¬s.Pending task := by
      intro htask
      obtain ⟨bs, t, hrun, hstarted⟩ := hs.exists_start htask
      rw [hnone bs t hrun] at hstarted
      exact hs.inv.not_started_of_pending htask hstarted
    refine ⟨fun task hmem => ?_, fun task hphase => hpending task (.inr hphase)⟩
    by_contra hlive
    exact hpending task (.inl ⟨hmem, Bool.eq_false_of_not_eq_true hlive⟩)
  · intro hquiet
    refine ⟨fun bs t hrun => ?_, hs.terminates⟩
    have hkept := hrun.invariant
      (I := fun t => t.sched.closed = true ∧ t.Quiet ∧ t.started = s.started)
      (fun u a v hu _ hstep => by
        have hmove := move_of_step hstep
        obtain ⟨hquiet, hsame⟩ := hu.2.1.move hu.1 hmove
        exact ⟨closed_move hu.1 hmove, hquiet, hsame.trans hu.2.2⟩)
      ⟨hclosed, hquiet, rfl⟩
    exact hkept.2.2

/-- The only task is cancelled before the scheduler is closed. -/
theorem nothing_starts_cancelled :
    ∃ s, Runs (step sortedTasks) (new 0)
        [.schedule 5, .push ⟨0, 5⟩, .cancel 0, .close, .signal] s ∧
      (∀ bs t, Runs (step sortedTasks) s bs t → t.started = s.started) ∧
      s.Terminates sortedTasks := by
  obtain ⟨s, hrun, hclosed, htasks, hcancelled, hphase⟩ : ∃ s, Runs (step sortedTasks) (new 0)
      [.schedule 5, .push ⟨0, 5⟩, .cancel 0, .close, .signal] s ∧ s.sched.closed = true ∧
      s.sched.tasks = [⟨0, 5⟩] ∧ s.sched.cancelled 0 = true ∧ s.dispatcher = .top :=
    ⟨_, runs_of_exec rfl, rfl, rfl, rfl, rfl⟩
  refine ⟨s, hrun, (nothing_starts_iff hrun hclosed).mpr ⟨fun task hmem => ?_, fun task h => ?_⟩⟩
  · rw [htasks] at hmem
    rw [mem_singleton.mp hmem]
    exact hcancelled
  · cases hphase.symm.trans h

/-- `Close` has returned at time 0, and the function of the task begins at time 5. -/
theorem starts_after_close :
    ∃ s t, Runs (step sortedTasks) (new 0) [.schedule 5, .push ⟨0, 5⟩, .round, .close, .signal] s ∧
      s.sched.closed = true ∧ s.closing = false ∧ s.started = [] ∧
      Runs (step sortedTasks) s [.wake, .round, .tick 5, .fire, .round, .proceed] t ∧
      t.started = [(⟨0, 5⟩, 5)] :=
  ⟨_, _, runs_of_exec rfl, rfl, rfl, rfl, runs_of_exec rfl, rfl⟩

end SchedulerUse

end GridKV
