import GridKV.Model.FlushSteps
import GridKV.Spec.LocalWrites

/-!
# Flush requests

`flushPending` is set before the flush is handed to the executor and cleared by the closures
that it runs.  When the executor refuses both the flush and its retry nobody is left to clear
it, and no later request gets past it.  A run is free of that in its last state if and only if
the executor has taken one of the two tasks each time (`clearable_iff`).
-/

namespace GridKV

open Go Run

namespace Writer

variable {cfg : NodeConfig} {w : Writer} {accepts : Nat → Bool}

/-- One of the two calls of `Do` in `flushAsync` succeeds. -/
def Answered (accepts : Nat → Bool) : Prop := accepts 0 = true ∨ accepts 1 = true

instance (accepts : Nat → Bool) : Decidable (Answered accepts) :=
  inferInstanceAs (Decidable (_ ∨ _))

/-- `triggerBatch` asks for a flush. -/
def Asks (cfg : NodeConfig) (w : Writer) : Prop :=
  w.flushPending = false ∧ ((w.batchCount + 1).toInt ≥ cfg.batchThreshold ∨
    w.pendingOps.length > cfg.batchThreshold * 10)

theorem flushPending_flushAsync : (w.flushAsync accepts).flushPending = w.flushPending := by
  unfold flushAsync
  split
  · rfl
  · split <;> rfl

theorem length_tasks_flushAsync (w : Writer) (accepts : Nat → Bool) :
    (w.flushAsync accepts).tasks.length = w.tasks.length + if Answered accepts then 1 else 0 := by
  unfold flushAsync Answered
  split
  · simp [*]
  · split <;> simp [*]

theorem triggerBatch_of_asks (h : w.Asks cfg) :
    w.triggerBatch cfg accepts =
      flushAsync { w with batchCount := w.batchCount + 1, flushPending := true } accepts := by
  obtain ⟨hfree, hdue⟩ := h
  unfold triggerBatch
  dsimp only
  split
  · rw [if_neg (by simp [hfree])]
  · rw [if_pos (hdue.resolve_left ‹_›), if_neg (by simp [hfree])]

theorem triggerBatch_of_not_asks (h : ¬w.Asks cfg) :
    w.triggerBatch cfg accepts = { w with batchCount := w.batchCount + 1 } := by
  have hbusy : (w.batchCount + 1).toInt ≥ cfg.batchThreshold ∨
      w.pendingOps.length > cfg.batchThreshold * 10 → w.flushPending = true := by
    intro hdue
    by_contra hfree
    exact h ⟨Bool.eq_false_iff.mpr hfree, hdue⟩
  unfold triggerBatch
  dsimp only
  split
  · exact if_pos (hbusy (.inl ‹_›))
  · split
    · exact if_pos (hbusy (.inr ‹_›))
    · rfl

end Writer

/-- The task clears `flushPending` in what is left of it. -/
def FlushPhase.clears : FlushPhase → Bool
  | .triggering => false
  | _ => true

namespace Flusher

variable {cfg : NodeConfig} {s t : Flusher} {a : FlushAction} {accepts : Nat → Bool}

/-- The flush and retry tasks, queued or running, that will clear `flushPending`. -/
def clearers (s : Flusher) : Nat :=
  s.node.writer.tasks.length + s.running.countP FlushPhase.clears

/-- If a flush is pending then there is a task that will clear the flag. -/
def Clearable (s : Flusher) : Prop := s.node.writer.flushPending = true → 0 < s.clearers

/-- Exactly one task will clear the flag if it is set, and none if it is not. -/
def Balanced (s : Flusher) : Prop := s.clearers = s.node.writer.flushPending.toNat

/-- The flag is set and nobody will clear it. -/
def Wedged (s : Flusher) : Prop := s.node.writer.flushPending = true ∧ s.clearers = 0

/-- If the step asks for a flush, then the executor takes the flush or its retry. -/
def Answers (cfg : NodeConfig) (s : Flusher) : FlushAction → Prop
  | .triggerBatch accepts => s.node.writer.Asks cfg → Writer.Answered accepts
  | .retrigger accepts => s.node.writer.Asks cfg → Writer.Answered accepts
  | .onTimer accepts => s.node.writer.flushPending = false → Writer.Answered accepts
  | _ => True

/-! ### One step -/

/-- What a step can do to the flag and to the tasks that will clear it. -/
inductive Moves (cfg : NodeConfig) (s : Flusher) (a : FlushAction) (t : Flusher) : Prop
  | keeps (hanswers : Answers cfg s a)
      (hflag : t.node.writer.flushPending = s.node.writer.flushPending)
      (hclearers : t.clearers = s.clearers)
  | asked (hanswers : Answers cfg s a) (hfree : s.node.writer.flushPending = false)
      (hflag : t.node.writer.flushPending = true) (hclearers : t.clearers = s.clearers + 1)
  | refused (hrefused : ¬Answers cfg s a) (hfree : s.node.writer.flushPending = false)
      (hflag : t.node.writer.flushPending = true) (hclearers : t.clearers = s.clearers)
  | cleared (hanswers : Answers cfg s a) (hflag : t.node.writer.flushPending = false)
      (hclearers : s.clearers = t.clearers + 1)

/-- A task that goes on is taken from the running ones. -/
theorem resume_eq_some {phase : FlushPhase} {next : Flusher → Flusher}
    (h : s.resume phase next = some t) :
    ∃ running, s.running.countP FlushPhase.clears =
        running.countP FlushPhase.clears + phase.clears.toNat ∧
      t = next { s with running } := by
  unfold resume at h
  split at h
  · rename_i hmem
    refine ⟨_, ?_, (Option.some.inj h).symm⟩
    rw [(List.perm_cons_erase hmem).countP_eq, List.countP_cons]
    cases phase <;> rfl
  · exact nomatch h

/-- A request that finds the flag free sets it; the tasks grow if the executor takes one. -/
theorem moves_of_request {w : Writer} (hanswers : Answers cfg s a ↔ Writer.Answered accepts)
    (hfree : s.node.writer.flushPending = false) (ht : t.node.writer = w.flushAsync accepts)
    (hflag : w.flushPending = true) (htasks : w.tasks = s.node.writer.tasks)
    (hrunning : t.running.countP FlushPhase.clears = s.running.countP FlushPhase.clears) :
    Moves cfg s a t := by
  have hset : t.node.writer.flushPending = true := by
    rw [ht, Writer.flushPending_flushAsync, hflag]
  have hlength := Writer.length_tasks_flushAsync w accepts
  rw [← ht, htasks] at hlength
  by_cases hanswered : Writer.Answered accepts
  · rw [if_pos hanswered] at hlength
    refine .asked (hanswers.mpr hanswered) hfree hset ?_
    unfold clearers
    omega
  · rw [if_neg hanswered] at hlength
    refine .refused (mt hanswers.mp hanswered) hfree hset ?_
    unfold clearers
    omega

/-- `triggerBatch`, called by a write or by a retry. -/
theorem moves_of_triggerBatch
    (hanswers : Answers cfg s a ↔ (s.node.writer.Asks cfg → Writer.Answered accepts))
    (ht : t.node.writer = s.node.writer.triggerBatch cfg accepts)
    (hrunning : t.running.countP FlushPhase.clears = s.running.countP FlushPhase.clears) :
    Moves cfg s a t := by
  by_cases hasks : s.node.writer.Asks cfg
  · rw [Writer.triggerBatch_of_asks hasks] at ht
    have hanswered : Answers cfg s a ↔ Writer.Answered accepts :=
      hanswers.trans ⟨fun h => h hasks, fun h _ => h⟩
    exact moves_of_request hanswered hasks.1 ht rfl rfl hrunning
  · rw [Writer.triggerBatch_of_not_asks hasks] at ht
    refine .keeps (hanswers.mpr fun h => absurd h hasks) ?_ ?_
    · rw [ht]
    · unfold clearers
      rw [ht, hrunning]

/-- The timer. -/
theorem moves_of_onTimer (s : Flusher) (accepts : Nat → Bool) :
    Moves cfg s (.onTimer accepts) { s with node.writer := s.node.writer.onTimer accepts } := by
  by_cases hfree : s.node.writer.flushPending = false
  · have hasked : s.node.writer.onTimer accepts =
        Writer.flushAsync { s.node.writer with flushPending := true } accepts :=
      if_neg (by simp [hfree])
    exact moves_of_request ⟨fun h => h hfree, fun h _ => h⟩ hfree hasked rfl rfl rfl
  · have hsame : s.node.writer.onTimer accepts = s.node.writer :=
      if_pos (Bool.not_eq_false _ ▸ hfree)
    refine .keeps (fun h => absurd h hfree) ?_ ?_
    · dsimp only
      rw [hsame]
    · unfold clearers
      dsimp only
      rw [hsame]

theorem moves_of_step (h : step cfg s a = some t) : Moves cfg s a t := by
  cases a with
  | queue ops =>
    cases h
    exact .keeps trivial rfl rfl
  | triggerBatch accepts =>
    cases h
    exact moves_of_triggerBatch Iff.rfl rfl rfl
  | onTimer accepts =>
    cases h
    exact moves_of_onTimer s accepts
  | take =>
    simp only [step] at h
    split at h <;> cases h
    rename_i task tasks htasks
    refine .keeps trivial rfl ?_
    unfold clearers
    rw [htasks, List.length_cons, List.countP_cons]
    cases task <;> simp only [FlushTask.start, FlushPhase.clears, if_true] <;> omega
  | flush clock members accepts =>
    simp only [step] at h
    obtain ⟨running, hcount, rfl⟩ := resume_eq_some h
    refine .keeps trivial rfl ?_
    unfold clearers
    rw [hcount, List.countP_cons]
    rfl
  | clear =>
    simp only [step] at h
    obtain ⟨running, hcount, rfl⟩ := resume_eq_some h
    refine .cleared trivial rfl ?_
    unfold clearers
    rw [hcount]
    rfl
  | wake =>
    simp only [step] at h
    obtain ⟨running, hcount, rfl⟩ := resume_eq_some h
    split
    · refine .cleared trivial rfl ?_
      unfold clearers
      rw [hcount, List.countP_cons]
      rfl
    · rename_i hfree
      refine .cleared trivial (Bool.eq_false_iff.mpr hfree) ?_
      unfold clearers
      rw [hcount]
      rfl
  | retrigger accepts =>
    simp only [step] at h
    obtain ⟨running, hcount, rfl⟩ := resume_eq_some h
    exact moves_of_triggerBatch Iff.rfl rfl hcount.symm

/-! ### Whole runs -/

theorem Balanced.step (h : s.Balanced) (hstep : step cfg s a = some t) :
    (Answers cfg s a → t.Balanced) ∧ (¬Answers cfg s a → t.Wedged) := by
  unfold Balanced at h
  cases moves_of_step hstep with
  | keeps hanswers hflag hclearers =>
    refine ⟨fun _ => ?_, fun hnot => absurd hanswers hnot⟩
    rw [Balanced, hclearers, hflag, h]
  | asked hanswers hfree hflag hclearers =>
    refine ⟨fun _ => ?_, fun hnot => absurd hanswers hnot⟩
    rw [Balanced, hclearers, hflag, h, hfree]
    rfl
  | refused hrefused hfree hflag hclearers =>
    refine ⟨fun hanswers => absurd hanswers hrefused, fun _ => ⟨hflag, ?_⟩⟩
    rw [hclearers, h, hfree]
    rfl
  | cleared hanswers hflag hclearers =>
    refine ⟨fun _ => ?_, fun hnot => absurd hanswers hnot⟩
    have hle : s.node.writer.flushPending.toNat ≤ 1 := Bool.toNat_le _
    have hzero : t.clearers = 0 := by omega
    rw [Balanced, hzero, hflag]
    rfl

/-- A flag that nobody will clear stays set. -/
theorem Wedged.step (h : s.Wedged) (hstep : step cfg s a = some t) : t.Wedged := by
  obtain ⟨hset, hzero⟩ := h
  cases moves_of_step hstep with
  | keeps _ hflag hclearers => exact ⟨hflag.trans hset, hclearers.trans hzero⟩
  | asked _ hfree => exact nomatch hset.symm.trans hfree
  | refused _ hfree => exact nomatch hset.symm.trans hfree
  | cleared _ _ hclearers => omega

theorem Balanced.clearable (h : s.Balanced) : s.Clearable := by
  intro hset
  rw [h, hset]
  exact Nat.one_pos

theorem Wedged.not_clearable (h : s.Wedged) : ¬s.Clearable := by
  intro hclearable
  have hpos := hclearable h.1
  have hzero := h.2
  omega

theorem balanced_new : Balanced {} := rfl

/-- Whatever happens, the flag can still be cleared at the end if and only if each time a
    flush was asked for the executor took it or its retry. -/
theorem clearable_iff {as : List FlushAction} (hrun : Runs (step cfg) {} as t) :
    t.Clearable ↔ GuardedRun (step cfg) (Answers cfg) {} as t := by
  exact guardedRun_iff Balanced Wedged (fun _ _ _ h hstep => Balanced.step h hstep)
    (fun _ _ _ h hstep => Wedged.step h hstep) (fun _ => Balanced.clearable)
    (fun _ => Wedged.not_clearable) hrun balanced_new

/-- The retry is taken where the flush is not, and asks again. -/
theorem clearable_after_retry :
    ∃ t, Runs (step ClockedNode.solo) {}
      [.onTimer (fun i => i == 1), .take, .wake, .retrigger fun _ => true] t ∧ t.Clearable := by
  have hrun : ∃ t, GuardedRun (step ClockedNode.solo) (Answers ClockedNode.solo) {}
      [.onTimer (fun i => i == 1), .take, .wake, .retrigger fun _ => true] t :=
    ⟨_, .cons (fun _ => .inr rfl) rfl (.cons trivial rfl (.cons trivial rfl
      (.cons (fun _ => .inl rfl) rfl (.nil _))))⟩
  obtain ⟨t, hguarded⟩ := hrun
  have hrun := hguarded.runs
  exact ⟨t, hrun, (clearable_iff hrun).mpr hguarded⟩

/-- The queue of the executor is full when the timer fires, and the flag is set for good:
    when there is room again a further batch is full, and no flush is asked for. -/
theorem wedged_by_full_queue :
    ∃ t, Runs (step { ClockedNode.solo with batchThreshold := 1 }) {}
      [.onTimer (fun _ => false), .triggerBatch fun _ => true, .onTimer fun _ => true] t ∧
      t.node.writer.flushPending = true ∧ t.node.writer.tasks = [] ∧ t.running = [] :=
  ⟨_, runs_of_exec rfl, rfl, rfl, rfl⟩

end Flusher

end GridKV
