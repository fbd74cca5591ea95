import GridKV.ForStd.Run
import GridKV.Model.HintedHandoff
import GridKV.Model.MemStorage

/-!
# Overlapping retries of a hinted handoff

A retry removes as many operations as it copied.  These are the ones it has sent only if no
other retry has shortened the queue since the copy; otherwise they may be operations that
nobody has sent, or there may not be that many.  `nothingLost_of_run` is about the runs in
which no retry is overtaken like that.
-/

namespace GridKV

open Go Run List Function

/-! ### The queue of a node -/

namespace HandoffQueues

variable {α : Type} (h : HandoffQueues α) (nodeID : GoString)

theorem queue_hintedHandoff (ops : List α) :
    (h.hintedHandoff nodeID ops).queue nodeID = h.queue nodeID ++ ops := by
  unfold hintedHandoff
  split
  · rename_i hempty
    rw [eq_nil_of_length_eq_zero hempty, append_nil]
  · rw [queue, AList.lookup_insert, Option.getD_some]

/-- A removal of no more than there is takes the front of the queue away. -/
theorem removeSent_of_le {sent : Nat} (hle : sent ≤ (h.queue nodeID).length) :
    ∃ h', h.removeSent nodeID sent = .ok h' ∧
      h'.queue nodeID = (h.queue nodeID).drop sent := by
  have herased :
      ({ h with queues := h.queues.erase nodeID } : HandoffQueues α).queue nodeID = [] := by
    rw [queue, AList.lookup_erase, Option.getD_none]
  unfold removeSent
  by_cases hall : (h.queue nodeID).length = sent
  · rw [if_pos hall]
    exact ⟨_, rfl, by rw [herased, ← hall, drop_length]⟩
  · rw [if_neg hall, if_pos hle]
    dsimp only
    split
    · exact ⟨_, rfl, by rw [queue, AList.lookup_insert, Option.getD_some]⟩
    · rename_i hnone
      have hnil : (h.queue nodeID).drop sent = [] :=
        eq_nil_of_length_eq_zero (Nat.eq_zero_of_not_pos hnone)
      exact ⟨_, rfl, by rw [herased, hnil]⟩

end HandoffQueues

/-! ### Runs -/

/-- The queue of one node and the retries at work on it, with what has happened so far: the
    operations handed off and those passed to `Push`, how often a retry has shortened the
    queue, and how often it had when each retry made its copy.  Operations are of any type,
    so that they may carry a number that tells two of them apart. -/
structure Handoff (ι α : Type) where
  queues : HandoffQueues α := {}
  phase : ι → RetryPhase α := fun _ => .attempt 0
  handed : List α := []
  sent : List α := []
  removals : Nat := 0
  copiedAt : ι → Nat := fun _ => 0

namespace Handoff

variable {ι α : Type}

inductive Action (ι α : Type) where
  | handoff (ops : List α)
  | retry (i : ι) (view : PeerView)

variable [DecidableEq ι] (nodeID : GoString)

def step (s : Handoff ι α) : Action ι α → Option (Handoff ι α)
  | .handoff ops =>
    if ops.length ≠ 0 ∧ s.queues.locked then none
    else some { s with
      queues := s.queues.hintedHandoff nodeID ops
      handed := s.handed ++ ops }
  | .retry i view =>
    match s.queues.retryHintedHandoff nodeID view (s.phase i) with
    | none => none
    | some (queues, phase, sent) => some
        { s with
          queues
          phase := update s.phase i phase
          sent := s.sent ++ sent
          removals := match s.phase i with
            | .remove _ => s.removals + 1
            | _ => s.removals
          copiedAt := match s.phase i with
            | .attempt _ => update s.copiedAt i s.removals
            | _ => s.copiedAt }

omit [DecidableEq ι] in
/-- The node is alive and known, and `Push` succeeds. -/
def PushSucceeds (s : Handoff ι α) : Action ι α → Prop
  | .handoff _ => True
  | .retry i view =>
    match s.phase i with
    | .send _ _ => (∃ members, view.member = some (NodeState.alive, members)) ∧
        view.targetAddr nodeID ≠ [] ∧ view.pushed = some true
    | _ => True

omit [DecidableEq ι] in
/-- A retry that removes has made its copy after the last removal. -/
def NotOvertaken (s : Handoff ι α) : Action ι α → Prop
  | .handoff _ => True
  | .retry i _ =>
    match s.phase i with
    | .remove _ => s.copiedAt i = s.removals
    | _ => True

/-- Every operation that is not in the queue has been passed to `Push`, and no removal has
    gone out of range. -/
structure NothingLost (s : Handoff ι α) : Prop where
  mem_queue_or_sent : ∀ op ∈ s.handed, op ∈ s.queues.queue nodeID ∨ op ∈ s.sent
  not_panicked : ∀ i, s.phase i ≠ .panicked

/-! ### What a retry may rely on -/

omit [DecidableEq ι] in
/-- In its first attempt, a retry has a copy that is the front of the queue unless there was
    a removal since, and it has sent the copy before it removes. -/
def PhaseOk (queue sent : List α) (removals copiedAt : Nat) : RetryPhase α → Prop
  | .attempt i => i = 0
  | .send i opsCopy => i = 0 ∧ copiedAt ≤ removals ∧ (copiedAt = removals → opsCopy <+: queue)
  | .remove opsCopy =>
    opsCopy ⊆ sent ∧ copiedAt ≤ removals ∧ (copiedAt = removals → opsCopy <+: queue)
  | .done => True
  | .panicked => False

/-- The queue may grow at its end, and after a removal nothing is relied on any more. -/
theorem PhaseOk.mono {queue queue' sent sent' : List α} {removals removals' copiedAt : Nat}
    {p : RetryPhase α} (h : PhaseOk queue sent removals copiedAt p) (hsent : sent ⊆ sent')
    (hqueue : removals = removals' ∧ queue <+: queue' ∨ removals < removals') :
    PhaseOk queue' sent' removals' copiedAt p := by
  have hcopy : ∀ {opsCopy : List α},
      copiedAt ≤ removals ∧ (copiedAt = removals → opsCopy <+: queue) →
      copiedAt ≤ removals' ∧ (copiedAt = removals' → opsCopy <+: queue') := by
    rintro opsCopy ⟨hle, hfront⟩
    obtain ⟨rfl, hgrows⟩ | hlt := hqueue
    · exact ⟨hle, fun heq => (hfront heq).trans hgrows⟩
    · exact ⟨by omega, fun heq => by omega⟩
  cases p with
  | attempt | panicked => exact h
  | send i opsCopy => exact ⟨h.1, hcopy h.2⟩
  | remove opsCopy => exact ⟨List.Subset.trans h.1 hsent, hcopy h.2⟩
  | done => trivial

/-- What holds throughout. -/
structure Sound (s : Handoff ι α) : Prop where
  mem_queue_or_sent : ∀ op ∈ s.handed, op ∈ s.queues.queue nodeID ∨ op ∈ s.sent
  phaseOk : ∀ i, PhaseOk (s.queues.queue nodeID) s.sent s.removals (s.copiedAt i) (s.phase i)

variable {nodeID} {s t : Handoff ι α}

omit [DecidableEq ι] in
theorem Sound.nothingLost (h : Sound nodeID s) : NothingLost nodeID s where
  mem_queue_or_sent := h.mem_queue_or_sent
  not_panicked := by
    intro i hpanicked
    have hok := h.phaseOk i
    rw [hpanicked] at hok
    exact hok

omit [DecidableEq ι] in
theorem sound_start : Sound nodeID ({} : Handoff ι α) :=
  ⟨fun _ h => (nomatch h), fun _ => rfl⟩

theorem Sound.handoff (h : Sound nodeID s) {ops : List α}
    (hstep : step nodeID s (.handoff ops) = some t) : Sound nodeID t := by
  simp only [step] at hstep
  split at hstep <;> cases hstep
  have hqueue := HandoffQueues.queue_hintedHandoff s.queues nodeID ops
  refine ⟨fun op hop => ?_, fun i => ?_⟩
  · rw [hqueue]
    obtain hold | hnew := mem_append.mp hop
    · exact (h.mem_queue_or_sent op hold).imp_left (mem_append_left _)
    · exact .inl (mem_append_right _ hnew)
  · rw [hqueue]
    exact (h.phaseOk i).mono (List.Subset.refl _) (.inl ⟨rfl, prefix_append ..⟩)

/-- A step of one retry: no operation goes unsent, the others may go on relying on what
    they did, and the retry itself is where it should be. -/
theorem Sound.of_step (h : Sound nodeID s) {i : ι} (hhanded : t.handed = s.handed)
    (hsent : s.sent ⊆ t.sent)
    (hkept : ∀ op ∈ s.queues.queue nodeID, op ∈ t.queues.queue nodeID ∨ op ∈ t.sent)
    (hqueue : s.removals = t.removals ∧ s.queues.queue nodeID <+: t.queues.queue nodeID ∨
      s.removals < t.removals)
    (hothers : ∀ j, j ≠ i → t.phase j = s.phase j ∧ t.copiedAt j = s.copiedAt j)
    (hself : PhaseOk (t.queues.queue nodeID) t.sent t.removals (t.copiedAt i) (t.phase i)) :
    Sound nodeID t where
  mem_queue_or_sent := by
    intro op hop
    rw [hhanded] at hop
    exact (h.mem_queue_or_sent op hop).elim (hkept op) fun hold => .inr (hsent hold)
  phaseOk := by
    intro j
    by_cases hj : j = i
    · subst hj
      exact hself
    · obtain ⟨hphase, hcopied⟩ := hothers j hj
      rw [hphase, hcopied]
      exact (h.phaseOk j).mono hsent hqueue

variable {i : ι} {view : PeerView} {opsCopy : List α}

/-- The copy is the whole queue, and nothing has been removed since. -/
theorem Sound.attempt (h : Sound nodeID s) (hphase : s.phase i = .attempt 0)
    (hstep : step nodeID s (.retry i view) = some t) : Sound nodeID t := by
  simp only [step, hphase, HandoffQueues.retryHintedHandoff] at hstep
  by_cases hlocked : s.queues.locked
  · simp [hlocked] at hstep
  · by_cases hempty : (s.queues.queue nodeID).length = 0
    all_goals
      simp only [hlocked, HandoffQueues.maxRetries, hempty] at hstep
      cases hstep
      refine h.of_step (i := i) rfl (by simp) (fun _ hop => .inl hop)
        (.inl ⟨rfl, prefix_rfl⟩)
        (fun j hj => ⟨update_of_ne hj .., update_of_ne hj ..⟩) ?_
      simp [PhaseOk]

theorem Sound.send (h : Sound nodeID s) {n : Nat} (hphase : s.phase i = .send n opsCopy)
    (hpush : PushSucceeds nodeID s (.retry i view))
    (hstep : step nodeID s (.retry i view) = some t) : Sound nodeID t := by
  have hi := h.phaseOk i
  rw [hphase] at hi
  simp only [PushSucceeds, hphase] at hpush
  obtain ⟨⟨members, hmember⟩, haddr, hpushed⟩ := hpush
  simp only [step, hphase, HandoffQueues.retryHintedHandoff, hmember, haddr, hpushed] at hstep
  cases hstep
  refine h.of_step (i := i) rfl (subset_append_left ..) (fun _ hop => .inl hop)
    (.inl ⟨rfl, prefix_rfl⟩) (fun j hj => ⟨update_of_ne hj .., rfl⟩) ?_
  dsimp only
  rw [update_self]
  exact ⟨subset_append_right .., hi.2⟩

/-- The operations that go are the front of the queue, which is the copy. -/
theorem Sound.remove (h : Sound nodeID s) (hphase : s.phase i = .remove opsCopy)
    (hnot : NotOvertaken s (.retry i view))
    (hstep : step nodeID s (.retry i view) = some t) : Sound nodeID t := by
  have hi := h.phaseOk i
  rw [hphase] at hi
  simp only [NotOvertaken, hphase] at hnot
  obtain ⟨hsent, -, hfront⟩ := hi
  obtain ⟨rest, hqueue⟩ := hfront hnot
  have hle : opsCopy.length ≤ (s.queues.queue nodeID).length := by
    rw [← hqueue, length_append]
    omega
  obtain ⟨queues, hremove, hrest⟩ := HandoffQueues.removeSent_of_le s.queues nodeID hle
  rw [← hqueue, drop_left] at hrest
  simp only [step, hphase, HandoffQueues.retryHintedHandoff, hremove] at hstep
  split at hstep
  · exact nomatch hstep
  · rename_i hmove
    split at hmove <;> cases hmove
    cases hstep
    refine h.of_step (i := i) rfl (subset_append_left ..) (fun op hop => ?_)
      (.inr (Nat.lt_succ_self _)) (fun j hj => ⟨update_of_ne hj .., rfl⟩) ?_
    · rw [← hqueue] at hop
      rw [hrest, append_nil]
      exact (mem_append.mp hop).symm.imp_right fun hcopy => hsent hcopy
    · dsimp only
      rw [update_self]
      trivial

theorem Sound.step {a : Action ι α} (h : Sound nodeID s)
    (hguard : PushSucceeds nodeID s a ∧ NotOvertaken s a) (hstep : step nodeID s a = some t) :
    Sound nodeID t := by
  cases a with
  | handoff ops => exact h.handoff hstep
  | retry i view =>
    cases hphase : s.phase i with
    | attempt n =>
      have hi := h.phaseOk i
      rw [hphase] at hi
      obtain rfl : n = 0 := hi
      exact h.attempt hphase hstep
    | send n opsCopy => exact h.send hphase hguard.1 hstep
    | remove opsCopy => exact h.remove hphase hguard.2 hstep
    | done | panicked => simp [Handoff.step, hphase, HandoffQueues.retryHintedHandoff] at hstep

/-- **Hinted handoff.**  In every run in which `Push` succeeds and no retry removes with a
    copy that is older than the last removal, every operation handed off is in the queue or
    has been passed to `Push`, and no removal goes out of range. -/
theorem nothingLost_of_run {as : List (Action ι α)}
    (hrun : GuardedRun (Handoff.step nodeID)
      (fun s a => PushSucceeds nodeID s a ∧ NotOvertaken s a) {} as t) : NothingLost nodeID t :=
  (hrun.invariant (fun _ _ _ h hguard hstep => h.step hguard hstep) sound_start).nothingLost

/-- A view in which `n2` is alive and takes the push. -/
def n2Alive : PeerView where
  member := some (NodeState.alive, [⟨ascii "n2", ascii "host-n2", NodeState.alive, 1, 0⟩])
  pushed := some true

/-- A queued deletion. -/
def queuedOp (key : String) : SyncOperation := { key := ascii key, opType := .delete, item := none }

/-- One retry after a handoff of two operations. -/
theorem nothingLost_after_retry :
    ∃ s : Handoff Bool SyncOperation, s.handed.length = 2 ∧ s.queues.queue (ascii "n2") = [] ∧
      NothingLost (ascii "n2") s := by
  have hrun : GuardedRun (Handoff.step (ascii "n2"))
      (fun (s : Handoff Bool SyncOperation) a =>
        PushSucceeds (ascii "n2") s a ∧ NotOvertaken s a) {}
      [.handoff [queuedOp "a", queuedOp "b"], .retry true n2Alive, .retry true n2Alive,
        .retry true n2Alive] _ :=
    .cons ⟨trivial, trivial⟩ rfl (.cons ⟨trivial, trivial⟩ rfl
      (.cons ⟨⟨⟨_, rfl⟩, by decide, rfl⟩, trivial⟩ rfl (.cons ⟨trivial, rfl⟩ rfl (.nil _))))
  exact ⟨_, by decide, by decide, nothingLost_of_run hrun⟩

/-- Two retries send the same operation, and one of them removes it. -/
def sentTwice : List (Action Bool SyncOperation) :=
  [.handoff [queuedOp "a"], .retry true n2Alive, .retry false n2Alive, .retry true n2Alive,
    .retry false n2Alive, .retry true n2Alive]

/-- The first retry to come back has removed what the second has copied.  An operation handed
    off in the meantime goes in its stead and is never sent; and if there is none, the removal
    goes out of range. -/
theorem second_removal_loses_or_panics :
    ¬ (∀ (as : List (Action Bool SyncOperation)) (t : Handoff Bool SyncOperation),
      GuardedRun (Handoff.step (ascii "n2")) (PushSucceeds (ascii "n2")) {} as t →
      ∀ op ∈ t.handed, op ∈ t.queues.queue (ascii "n2") ∨ op ∈ t.sent) ∧
    ¬ (∀ (as : List (Action Bool SyncOperation)) (t : Handoff Bool SyncOperation),
      GuardedRun (Handoff.step (ascii "n2")) (PushSucceeds (ascii "n2")) {} as t →
      ∀ i, t.phase i ≠ .panicked) := by
  constructor
  · intro hall
    have hrun : GuardedRun (Handoff.step (ascii "n2")) (PushSucceeds (ascii "n2"))
        ({} : Handoff Bool SyncOperation)
        (sentTwice ++ [.handoff [queuedOp "b"], .retry false n2Alive]) _ :=
      .cons trivial rfl (.cons trivial rfl (.cons trivial rfl
        (.cons ⟨⟨_, rfl⟩, by decide, rfl⟩ rfl (.cons ⟨⟨_, rfl⟩, by decide, rfl⟩ rfl
          (.cons trivial rfl (.cons trivial rfl (.cons trivial rfl (.nil _))))))))
    have hlost := hall _ _ hrun (queuedOp "b") (by decide)
    revert hlost
    decide
  · intro hall
    have hrun : GuardedRun (Handoff.step (ascii "n2")) (PushSucceeds (ascii "n2"))
        ({} : Handoff Bool SyncOperation) (sentTwice ++ [.retry false n2Alive]) _ :=
      .cons trivial rfl (.cons trivial rfl (.cons trivial rfl
        (.cons ⟨⟨_, rfl⟩, by decide, rfl⟩ rfl (.cons ⟨⟨_, rfl⟩, by decide, rfl⟩ rfl
          (.cons trivial rfl (.cons trivial rfl (.nil _)))))))
    exact hall _ _ hrun false rfl

end Handoff

end GridKV
