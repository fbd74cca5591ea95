import GridKV.ForStd.Run
import GridKV.Model.Scheduler

/-!
# When timers fire

Callers, dispatcher and clock take their steps in any order.  Every task is in one place only,
on its way to the heap, in it, with the dispatcher, or among the started ones, and it goes
from one to the next or is dropped; so it is started at most once.  The dispatcher takes the
root of the heap, a least task, when it is due, and reads then whether it was cancelled.
-/

namespace GridKV

open Go Run List

/-- The task the dispatcher has taken and not started. -/
def DispatchPhase.held : DispatchPhase → List ScheduledTask
  | .popped task _ => [task]
  | _ => []

namespace SchedulerUse

variable {heap : TaskHeap} {s t : SchedulerUse} {a : SchedulerAction} {id : Nat}
  {task other : ScheduledTask}

/-- What a step does. -/
inductive Move (heap : TaskHeap) (s : SchedulerUse) : SchedulerAction → SchedulerUse → Prop where
  | tick {now : Time} (h : s.now ≤ now) : Move heap s (.tick now) { s with now }
  | refuse {d : Int} (h : d < 0) : Move heap s (.schedule d) s
  | make {d : Int} (h : 0 ≤ d) : Move heap s (.schedule d)
      { s with nextId := s.nextId + 1, arriving := ⟨s.nextId, s.now + d⟩ :: s.arriving }
  | push {task : ScheduledTask} (hmem : task ∈ s.arriving) (hopen : s.sched.closed = false) :
      Move heap s (.push task)
        { s with
          arriving := s.arriving.erase task
          sched := { s.sched with
            tasks := heap.push s.sched.tasks task
            wakeup := s.sched.wakeup || (heap.push s.sched.tasks task).head? = some task } }
  | reject {task : ScheduledTask} (hmem : task ∈ s.arriving) (hclosed : s.sched.closed = true) :
      Move heap s (.push task) { s with arriving := s.arriving.erase task }
  | cancel (id : Nat) : Move heap s (.cancel id) { s with sched := s.sched.cancel id }
  | close (hopen : s.sched.closed = false) :
      Move heap s .close { s with sched := { s.sched with closed := true }, closing := true }
  | closed (hclosed : s.sched.closed = true) : Move heap s .close s
  | signal (h : s.closing = true) :
      Move heap s .signal { s with sched := s.sched.signal, closing := false }
  | stop (htop : s.dispatcher = .top) (htasks : s.sched.tasks = [])
      (hclosed : s.sched.closed = true) : Move heap s .round { s with dispatcher := .ended }
  | wait (htop : s.dispatcher = .top) (htasks : s.sched.tasks = [])
      (hopen : s.sched.closed = false) : Move heap s .round { s with dispatcher := .waiting }
  | sleep {next : ScheduledTask} {rest : List ScheduledTask} (htop : s.dispatcher = .top)
      (htasks : s.sched.tasks = next :: rest) (hearly : s.now < next.when) :
      Move heap s .round { s with dispatcher := .sleeping next.when }
  | pop {next : ScheduledTask} {rest : List ScheduledTask} (htop : s.dispatcher = .top)
      (htasks : s.sched.tasks = next :: rest) (hdue : next.when ≤ s.now) :
      Move heap s .round
        { s with
          sched := { s.sched with tasks := heap.pop s.sched.tasks }
          dispatcher := .popped next (s.sched.cancelled next.id) }
  | wake (hphase : s.dispatcher = .waiting ∨ ∃ d, s.dispatcher = .sleeping d)
      (h : s.sched.wakeup = true) :
      Move heap s .wake { s with sched := { s.sched with wakeup := false }, dispatcher := .top }
  | fire {deadline : Time} (hphase : s.dispatcher = .sleeping deadline) (h : deadline ≤ s.now) :
      Move heap s .fire { s with dispatcher := .top }
  | skip {task : ScheduledTask} (hphase : s.dispatcher = .popped task true) :
      Move heap s .proceed { s with dispatcher := .top }
  | start {task : ScheduledTask} (hphase : s.dispatcher = .popped task false) :
      Move heap s .proceed
        { s with dispatcher := .running task, started := s.started ++ [(task, s.now)] }
  | finish {task : ScheduledTask} (hphase : s.dispatcher = .running task) :
      Move heap s .finish { s with dispatcher := .top }

theorem move_round (htop : s.dispatcher = .top) :
    Move heap s .round
      { s with
        sched := (s.sched.round heap s.now).1
        dispatcher := (s.sched.round heap s.now).2 } := by
  unfold Scheduler.round
  split
  · rename_i htasks
    cases hclosed : s.sched.closed with
    | false => exact .wait htop htasks hclosed
    | true => exact .stop htop htasks hclosed
  · rename_i next rest htasks
    split
    · rename_i hdue
      exact .pop htop htasks hdue
    · rename_i hearly
      exact .sleep htop htasks (not_le.mp hearly)

theorem move_of_step (h : step heap s a = some t) : Move heap s a t := by
  cases a with
  | tick now =>
    simp only [step] at h
    split at h <;> cases h
    exact .tick ‹_›
  | schedule d =>
    simp only [step] at h
    split at h
    · cases h
      exact .refuse ‹_›
    · cases h
      exact .make (not_lt.mp ‹_›)
  | push task =>
    simp only [step] at h
    split at h <;> cases h
    rename_i hmem
    unfold Scheduler.schedule
    split
    · rename_i hclosed
      exact .reject hmem hclosed
    · rename_i hopen
      exact .push hmem (Bool.eq_false_of_not_eq_true hopen)
  | cancel id =>
    cases h
    exact .cancel id
  | close =>
    simp only [step, Scheduler.close] at h
    split at h
    · rename_i hclosed
      rw [Bool.or_false] at h
      cases h
      exact .closed hclosed
    · rename_i hopen
      rw [Bool.or_true] at h
      cases h
      exact .close (Bool.eq_false_of_not_eq_true hopen)
  | signal =>
    simp only [step] at h
    split at h <;> cases h
    exact .signal ‹_›
  | round =>
    simp only [step] at h
    split at h <;> cases h
    exact move_round ‹_›
  | wake =>
    simp only [step] at h
    split at h
    · split at h <;> cases h
      exact .wake (.inl ‹_›) ‹_›
    · split at h <;> cases h
      exact .wake (.inr ⟨_, ‹_›⟩) ‹_›
    · cases h
  | fire =>
    simp only [step] at h
    split at h
    · split at h <;> cases h
      exact .fire ‹_› ‹_›
    · cases h
  | proceed =>
    simp only [step] at h
    split at h
    · rename_i task cancelled hphase
      cases cancelled with
      | false =>
        cases h
        exact .start hphase
      | true =>
        cases h
        exact .skip hphase
    · cases h
  | finish =>
    simp only [step] at h
    split at h <;> cases h
    exact .finish ‹_›

/-! ### Where a task is -/

/-- All tasks, wherever they are: on their way to the heap, in it, with the dispatcher, and
    started. -/
def everywhere (s : SchedulerUse) : List ScheduledTask :=
  s.arriving ++ (s.sched.tasks ++ (s.dispatcher.held ++ s.started.map Prod.fst))

/-- A step moves a task on or drops it, unless it makes a new one. -/
theorem everywhere_move (h : Move heap s a t) :
    (t.everywhere.Subperm s.everywhere ∧ t.nextId = s.nextId) ∨
      ∃ task : ScheduledTask, task.id = s.nextId ∧ t.nextId = s.nextId + 1 ∧
        t.everywhere = task :: s.everywhere := by
  cases h with
  | tick | refuse | cancel | close | closed | signal => exact .inl ⟨List.Subperm.refl _, rfl⟩
  | make => exact .inr ⟨⟨s.nextId, _⟩, rfl, rfl, rfl⟩
  | @push task hmem hopen =>
    refine .inl ⟨List.Perm.subperm ?_, rfl⟩
    have hmoved (rest : List ScheduledTask) :
        (s.arriving.erase task ++ (heap.push s.sched.tasks task ++ rest)).Perm
          (s.arriving ++ (s.sched.tasks ++ rest)) := by
      have hpush := ((heap.push_perm s.sched.tasks task).append_right rest).append_left
        (s.arriving.erase task)
      have hback := (perm_cons_erase hmem).symm.append_right (s.sched.tasks ++ rest)
      exact (hpush.trans perm_middle).trans hback
    exact hmoved _
  | reject hmem hclosed =>
    exact .inl ⟨(erase_sublist.append_right _).subperm, rfl⟩
  | stop htop | wait htop | sleep htop =>
    refine .inl ⟨?_, rfl⟩
    rw [everywhere, everywhere, htop]
    exact List.Subperm.refl _
  | @pop next rest htop htasks hdue =>
    refine .inl ⟨List.Perm.subperm (List.Perm.append_left _ ?_), rfl⟩
    rw [htop]
    show (heap.pop s.sched.tasks ++ (next :: s.started.map Prod.fst)).Perm (s.sched.tasks ++ _)
    rw [htasks]
    exact ((heap.pop_perm next rest).append_right _).trans perm_middle
  | wake hphase =>
    refine .inl ⟨?_, rfl⟩
    have hnone : s.dispatcher.held = [] := by
      obtain hphase | ⟨d, hphase⟩ := hphase <;> rw [hphase] <;> rfl
    rw [everywhere, everywhere, hnone]
    exact List.Subperm.refl _
  | fire hphase | finish hphase =>
    refine .inl ⟨?_, rfl⟩
    rw [everywhere, everywhere, hphase]
    exact List.Subperm.refl _
  | @skip task hphase =>
    refine .inl ⟨List.Sublist.subperm (.append_left (.append_left ?_ _) _), rfl⟩
    rw [hphase]
    exact sublist_cons_self task _
  | @start task hphase =>
    refine .inl ⟨List.Perm.subperm (.append_left _ (.append_left _ ?_)), rfl⟩
    rw [hphase, map_append]
    exact perm_append_singleton task _

/-- What holds at any time. -/
structure Inv (heap : TaskHeap) (s : SchedulerUse) : Prop where
  isHeap : heap.IsHeap s.sched.tasks
  nodup : (s.everywhere.map ScheduledTask.id).Nodup
  fresh : ∀ task ∈ s.everywhere, task.id < s.nextId
  due : ∀ task ∈ s.dispatcher.held, task.when ≤ s.now
  onTime : ∀ entry ∈ s.started, entry.1.when ≤ entry.2

theorem inv_new (heap : TaskHeap) (now : Time) : (new now).Inv heap where
  isHeap := heap.isHeap_nil
  nodup := .nil
  fresh _ h := by cases h
  due _ h := by cases h
  onTime _ h := by cases h

/-- The heap changes by pushes and pops only. -/
theorem isHeap_move (h : Move heap s a t) (hs : heap.IsHeap s.sched.tasks) :
    heap.IsHeap t.sched.tasks := by
  cases h with
  | push => exact heap.isHeap_push _ hs
  | pop => exact heap.isHeap_pop hs
  | _ => exact hs

theorem Inv.move (hs : s.Inv heap) (h : Move heap s a t) : t.Inv heap where
  isHeap := isHeap_move h hs.isHeap
  nodup := by
    obtain ⟨hsub, -⟩ | ⟨task, hid, -, hmore⟩ := everywhere_move h
    · obtain ⟨l, hperm, hsub⟩ := hsub
      exact (hperm.map _).nodup_iff.mp ((hsub.map _).nodup hs.nodup)
    · rw [hmore, map_cons, nodup_cons]
      refine ⟨fun hmem => ?_, hs.nodup⟩
      obtain ⟨other, hother, heq⟩ := mem_map.mp hmem
      have hless := hs.fresh other hother
      omega
  fresh := by
    obtain ⟨hsub, hnext⟩ | ⟨task, hid, hnext, hmore⟩ := everywhere_move h
    · intro task htask
      rw [hnext]
      exact hs.fresh task (hsub.subset htask)
    · rw [hmore, hnext]
      intro other hother
      obtain rfl | hother := mem_cons.mp hother
      · omega
      · exact Nat.lt_succ_of_lt (hs.fresh other hother)
  due := by
    cases h with
    | tick hlater => exact fun task htask => le_trans (hs.due task htask) hlater
    | pop htop htasks hdue => exact fun task htask => mem_singleton.mp htask ▸ hdue
    | refuse | make | push | reject | cancel | close | closed | signal => exact hs.due
    | _ => exact fun task htask => by cases htask
  onTime := by
    cases h with
    | @start task hphase =>
      intro entry hentry
      obtain hentry | hentry := mem_append.mp hentry
      · exact hs.onTime entry hentry
      · rw [mem_singleton.mp hentry]
        exact hs.due task (by rw [hphase]; exact mem_singleton.mpr rfl)
    | _ => exact hs.onTime

theorem inv_run {start : Time} {as : List SchedulerAction}
    (hrun : Runs (step heap) (new start) as s) : s.Inv heap :=
  hrun.invariant (fun _ _ _ hs _ hstep => hs.move (move_of_step hstep)) (inv_new heap start)

/-! ### Cancelled tasks -/

/-- The task was cancelled in time. -/
structure Spared (id : Nat) (s : SchedulerUse) : Prop where
  cancelled : s.sched.cancelled id = true
  held : ∀ task, s.dispatcher = .popped task false → task.id ≠ id
  started : ∀ entry ∈ s.started, entry.1.id ≠ id

theorem cancelled_move (h : Move heap s a t) (hs : s.sched.cancelled id = true) :
    t.sched.cancelled id = true := by
  cases h with
  | cancel other =>
    show Function.update s.sched.cancelled other true id = true
    rw [Function.update_apply]
    split
    · rfl
    · exact hs
  | _ => exact hs

theorem Spared.move (hs : s.Spared id) (h : Move heap s a t) :
    t.Spared id where
  cancelled := cancelled_move h hs.cancelled
  held := by
    cases h with
    | @pop next rest htop htasks hdue =>
      -- The dispatcher reads the flag when it takes the task.
      intro task hphase hid
      obtain ⟨rfl, hflag⟩ := DispatchPhase.popped.inj hphase
      have hcancelled := hs.cancelled
      rw [← hid, hflag] at hcancelled
      cases hcancelled
    | tick | refuse | make | push | reject | cancel | close | closed | signal => exact hs.held
    | _ => exact fun task hphase => by cases hphase
  started := by
    cases h with
    | @start task hphase =>
      intro entry hentry
      obtain hentry | hentry := mem_append.mp hentry
      · exact hs.started entry hentry
      · rw [mem_singleton.mp hentry]
        exact hs.held task hphase
    | _ => exact hs.started

/-- A task in the heap is neither with the dispatcher nor started. -/
theorem Inv.id_ne_of_mem_tasks (hs : s.Inv heap) (htask : task ∈ s.sched.tasks)
    (hother : other ∈ s.dispatcher.held ++ s.started.map Prod.fst) : other.id ≠ task.id := by
  intro heq
  have hnodup := hs.nodup
  rw [everywhere, map_append, map_append] at hnodup
  have hdisjoint := (nodup_append.mp (nodup_append.mp hnodup).2.1).2.2
  exact hdisjoint _ (mem_map_of_mem htask) _ (mem_map_of_mem hother) heq.symm

/-- Nor is the task the dispatcher has taken among the started ones. -/
theorem Inv.id_ne_of_mem_held (hs : s.Inv heap) (htask : task ∈ s.dispatcher.held)
    (hother : other ∈ s.started.map Prod.fst) : other.id ≠ task.id := by
  intro heq
  have hnodup := hs.nodup
  rw [everywhere, ← append_assoc, ← append_assoc, map_append,
    append_assoc] at hnodup
  have hdisjoint := (nodup_append.mp hnodup).2.2
  refine hdisjoint _ (mem_map_of_mem ?_) _ (mem_map_of_mem hother) heq.symm
  exact mem_append_right _ (mem_append_right _ htask)

/-- A task that is cancelled while it is in the heap is spared. -/
theorem Inv.spared_cancel (hs : s.Inv heap) (htask : task ∈ s.sched.tasks)
    (hstep : step heap s (.cancel task.id) = some t) : t.Spared task.id := by
  cases hstep
  refine ⟨Function.update_self .., fun other hphase => ?_, fun entry hentry => ?_⟩
  · refine hs.id_ne_of_mem_tasks htask (mem_append_left _ ?_)
    rw [show s.dispatcher = .popped other false from hphase]
    exact mem_singleton.mpr rfl
  · exact hs.id_ne_of_mem_tasks htask (mem_append_right _ (mem_map_of_mem hentry))

/-! ### The order -/

/-- What the dispatcher takes is due no later than what stays in the heap. -/
theorem Inv.popped_least (hs : s.Inv heap) {cancelled : Bool} (hstep : step heap s .round = some t)
    (hphase : t.dispatcher = .popped task cancelled) :
    ∀ other ∈ t.sched.tasks, ¬other.when < task.when := by
  have hmove := move_of_step hstep
  cases hmove with
  | @pop next rest htop htasks hdue =>
    obtain ⟨rfl, -⟩ := DispatchPhase.popped.inj hphase
    have hheap := hs.isHeap
    rw [htasks] at hheap
    intro other hother
    have hmem : other ∈ heap.pop s.sched.tasks := hother
    rw [htasks, heap.mem_pop] at hmem
    exact heap.root_least hheap other hmem
  | stop | wait | sleep => cases hphase

/-- **Timers.**  Whatever the callers and the dispatcher do, and however the clock goes on: no
    function is started twice or before its time; none whose task is cancelled while it is in
    the heap; and no task is taken from the heap before one that is due earlier. -/
theorem timers_fire {start : Time} {as : List SchedulerAction}
    (hrun : Runs (step heap) (new start) as s) :
    (s.started.map fun entry => entry.1.id).Nodup ∧
      (∀ task time, (task, time) ∈ s.started → task.when ≤ time) ∧
      (∀ task ∈ s.sched.tasks, ∀ t, step heap s (.cancel task.id) = some t →
        ∀ bs u, Runs (step heap) t bs u → ∀ entry ∈ u.started, entry.1.id ≠ task.id) ∧
      ∀ t task cancelled, step heap s .round = some t → t.dispatcher = .popped task cancelled →
        ∀ other ∈ t.sched.tasks, ¬other.when < task.when := by
  have hs := inv_run hrun
  refine ⟨?_, fun task time h => hs.onTime _ h, ?_, ?_⟩
  · have hsub : (s.started.map Prod.fst).Sublist s.everywhere :=
      ((sublist_append_right _ _).trans (sublist_append_right _ _)).trans
        (sublist_append_right _ _)
    have hnodup := (hsub.map ScheduledTask.id).nodup hs.nodup
    rwa [map_map] at hnodup
  · intro task htask t hstep bs u hlater
    have hspared := hlater.invariant (I := Spared task.id)
      (fun _ _ _ hs _ hstep => hs.move (move_of_step hstep)) (hs.spared_cancel htask hstep)
    exact hspared.started
  · exact fun t task cancelled hstep hphase => hs.popped_least hstep hphase

/-- A heap of tasks that is a sorted list. -/
def sortedTasks : TaskHeap := MinHeap.sorted ScheduledTask.when

/-- The task that is scheduled first is due last. -/
def twoTimers : List SchedulerAction :=
  [.schedule 2, .schedule 1, .push ⟨0, 2⟩, .push ⟨1, 1⟩, .round, .tick 2, .fire, .round, .proceed,
    .finish, .round, .proceed]

theorem timers_fire_twoTimers :
    ∃ s, Runs (step sortedTasks) (new 0) twoTimers s ∧ s.started = [(⟨1, 1⟩, 2), (⟨0, 2⟩, 2)] ∧
      (s.started.map fun entry => entry.1.id).Nodup := by
  obtain ⟨s, hrun, hstarted⟩ : ∃ s, Runs (step sortedTasks) (new 0) twoTimers s ∧
      s.started = [(⟨1, 1⟩, 2), (⟨0, 2⟩, 2)] := ⟨_, runs_of_exec rfl, rfl⟩
  exact ⟨s, hrun, hstarted, (timers_fire hrun).1⟩

end SchedulerUse

end GridKV
