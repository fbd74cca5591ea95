import GridKV.ForStd.Halting
import GridKV.Model.SpeculativeSteps
import GridKV.Spec.SpeculativeReads

/-!
# Do speculative reads come to an end?

The second loop of `GetSpeculative` waits for one result per live target, but the first loop
ends at the first target whose task the executor refuses.  Every result that is received was
sent by a task, and every task was accepted (`Balanced`), so after a refusal the count can
never get where the loop ends: the call hangs.  If nothing is refused, every step moves a
target on from pending to running, to sent, to counted, and the call returns.
-/

namespace GridKV

open Go Run List

namespace SpecRead

variable {env : ReadEnv} {key : GoString} {targets : List GoString} {s t : SpecRead}
  {a : SpecAction}

/-! ### The steps -/

/-- A result changes what has been found and nothing else. -/
theorem keep_eq (res : Option (Option StoredItem)) :
    s.keep res = { s with
      items := s.items ++ (ReadEnv.live res).toList
      best := (ReadEnv.live res).toList.foldl
        (Lww.put fun item : StoredItem => item.version.toInt) s.best } := by
  have hskip : ReadEnv.live res = none → s = { s with
      items := s.items ++ (ReadEnv.live res).toList
      best := (ReadEnv.live res).toList.foldl
        (Lww.put fun item : StoredItem => item.version.toInt) s.best } := by
    intro hlive
    rw [hlive, Option.toList_none, append_nil, foldl_nil]
  unfold keep
  split
  · rename_i item
    split
    · rename_i hitem
      have hlive : ReadEnv.live (some (some item)) = some item := if_pos hitem
      rw [hlive, ReadEnv.better_eq_put]
      rfl
    · rename_i hitem
      exact hskip (if_neg hitem)
  · rename_i hnone
    apply hskip
    unfold ReadEnv.live
    split
    · exact absurd rfl (hnone _)
    · rfl

/-- What a step does. -/
inductive SpecMove (env : ReadEnv) (key : GoString) (targets : List GoString) (s : SpecRead) :
    SpecRead → Prop
  | accept (target : GoString) (pending : List GoString) (hphase : s.phase = .submitting)
      (hpending : s.pending = target :: pending) (haccepts : env.accepts s.accepted = true) :
      SpecMove env key targets s { s with
        pending
        accepted := s.accepted + 1
        running := s.running ++ [target] }
  | wait (hphase : s.phase = .submitting)
      (hlast : s.pending = [] ∨ s.pending ≠ [] ∧ env.accepts s.accepted = false) :
      SpecMove env key targets s { s with phase := .waiting }
  | finish (target : GoString) (hmem : target ∈ s.running) :
      SpecMove env key targets s { s with
        running := s.running.erase target
        results := { s.results with buf := s.results.buf ++ [env.answer key target] } }
  | receive (res : Option (Option StoredItem)) (buf : List (Option (Option StoredItem)))
      (hphase : s.phase = .waiting) (hcount : s.count < targets.length)
      (hbuf : s.results.buf = res :: buf) :
      SpecMove env key targets s
        ({ s with results := { s.results with buf }, count := s.count + 1 }.keep res)
  | leave (hphase : s.phase = .waiting) (hcount : targets.length ≤ s.count) :
      SpecMove env key targets s { s with phase := .returned }

theorem specMove_of_step (h : s.step env key targets a = some t) :
    SpecMove env key targets s t := by
  cases a with
  | submit =>
    simp only [step] at h
    split at h
    · rename_i hphase
      split at h
      · rename_i hpending
        cases h
        exact .wait hphase (.inl hpending)
      · rename_i target pending hpending
        split at h
        · cases h
          exact .accept target pending hphase hpending ‹_›
        · cases h
          exact .wait hphase (.inr ⟨by simp [hpending], Bool.eq_false_iff.mpr ‹_›⟩)
    · cases h
  | finish target =>
    simp only [step] at h
    split at h
    · rename_i hmem
      split at h
      · rename_i results hsend
        obtain ⟨-, rfl⟩ := Chan.send_eq_sent hsend
        cases h
        exact .finish target hmem
      · cases h
      · cases h
    · cases h
  | receive =>
    simp only [step] at h
    split at h
    · rename_i hwaiting
      split at h
      · rename_i res results hrecv
        obtain ⟨hbuf, hresults⟩ := Chan.recv_eq_received hrecv
        cases h
        rw [hresults]
        exact .receive res results.buf hwaiting.1 hwaiting.2 hbuf
      · cases h
      · cases h
    · cases h
  | leave =>
    simp only [step] at h
    split at h <;> cases h
    rename_i hdone
    exact .leave hdone.1 (Nat.not_lt.mp hdone.2)

/-! ### Results and tasks -/

/-- Every result received was sent by a task, every task was accepted, and there is room in
    the channel for all of them. -/
structure Balanced (env : ReadEnv) (targets : List GoString) (s : SpecRead) : Prop where
  submitted : s.accepted + s.pending.length = targets.length
  answered : ∀ i < s.accepted, env.accepts i = true
  balance : s.count + s.results.buf.length + s.running.length = s.accepted
  cap : s.results.cap = targets.length
  isOpen : s.results.closed = false

theorem balanced_start (env : ReadEnv) (targets : List GoString) :
    Balanced env targets (start targets) where
  submitted := Nat.zero_add _
  answered i hi := absurd hi (Nat.not_lt_zero i)
  balance := rfl
  cap := rfl
  isOpen := rfl

theorem Balanced.step (h : Balanced env targets s) (hstep : s.step env key targets a = some t) :
    Balanced env targets t := by
  have hsubmitted := h.submitted
  have hbalance := h.balance
  cases specMove_of_step hstep with
  | accept target pending hphase hpending haccepts =>
    rw [hpending, length_cons] at hsubmitted
    refine ⟨?_, fun i hi => ?_, ?_, h.cap, h.isOpen⟩
    · dsimp only
      omega
    · obtain hlt | rfl := Nat.lt_succ_iff_lt_or_eq.mp hi
      · exact h.answered i hlt
      · exact haccepts
    · rw [length_append, length_singleton]
      dsimp only
      omega
  | wait | leave => exact ⟨hsubmitted, h.answered, hbalance, h.cap, h.isOpen⟩
  | finish target hmem =>
    have hpos : 0 < s.running.length := length_pos_of_mem hmem
    refine ⟨hsubmitted, h.answered, ?_, h.cap, h.isOpen⟩
    rw [length_append, length_singleton, length_erase_of_mem hmem]
    dsimp only
    omega
  | receive res buf hphase hcount hbuf =>
    rw [hbuf, length_cons] at hbalance
    rw [keep_eq]
    refine ⟨hsubmitted, h.answered, ?_, h.cap, h.isOpen⟩
    dsimp only
    omega

/-! ### When nothing is refused -/

/-- The second loop has begun only after every target was submitted. -/
structure Complete (env : ReadEnv) (targets : List GoString) (s : SpecRead) : Prop
    extends Balanced env targets s where
  whole : s.phase ≠ .submitting → s.pending = []

/-- Each step moves one target on, or the call itself. -/
def work (s : SpecRead) : Nat :=
  3 * s.pending.length + 2 * s.running.length + s.results.buf.length +
    match s.phase with
    | .submitting => 2
    | .waiting => 1
    | .returned => 0

theorem Complete.step (haccepts : ∀ i < targets.length, env.accepts i = true)
    (h : Complete env targets s) (hstep : s.step env key targets a = some t) :
    Complete env targets t ∧ t.work < s.work := by
  have hbalanced := h.toBalanced.step hstep
  have hsubmitted := h.submitted
  cases specMove_of_step hstep with
  | accept target pending hphase hpending =>
    refine ⟨⟨hbalanced, fun hlate => absurd hphase hlate⟩, ?_⟩
    simp only [work, hpending, length_cons, length_append, length_nil]
    omega
  | wait hphase hlast =>
    have hpending : s.pending = [] := by
      obtain hnil | ⟨hmore, hrefused⟩ := hlast
      · exact hnil
      · have hpos := length_pos_iff.mpr hmore
        have haccepted := haccepts s.accepted (by omega)
        exact absurd haccepted (by simp [hrefused])
    refine ⟨⟨hbalanced, fun _ => hpending⟩, ?_⟩
    simp only [work, hphase]
    omega
  | finish target hmem =>
    refine ⟨⟨hbalanced, h.whole⟩, ?_⟩
    have hpos : 0 < s.running.length := length_pos_of_mem hmem
    simp only [work, length_append, length_singleton, length_erase_of_mem hmem]
    omega
  | receive res buf hphase hcount hbuf =>
    rw [keep_eq] at hbalanced ⊢
    refine ⟨⟨hbalanced, h.whole⟩, ?_⟩
    simp only [work, hbuf, length_cons]
    omega
  | leave hphase =>
    refine ⟨⟨hbalanced, fun _ => h.whole (by simp [hphase])⟩, ?_⟩
    simp only [work, hphase]
    omega

theorem Complete.progress (h : Complete env targets s) (hphase : s.phase ≠ .returned) :
    ∃ a, s.step env key targets a ≠ none := by
  have hbalance := h.balance
  have hsubmitted := h.submitted
  cases hcase : s.phase with
  | returned => exact absurd hcase hphase
  | submitting =>
    refine ⟨.submit, ?_⟩
    simp only [SpecRead.step, hcase, if_true]
    split
    · simp
    · split <;> simp
  | waiting =>
    have hpending := h.whole (by simp [hcase])
    rw [hpending, length_nil] at hsubmitted
    by_cases hcount : s.count < targets.length
    · cases hbuf : s.results.buf with
      | cons res buf =>
        refine ⟨.receive, ?_⟩
        simp only [SpecRead.step, hcase, hcount, and_self, if_true, Chan.recv, hbuf]
        simp
      | nil =>
        -- Nothing has been sent, so some task is still running, and it finds room.
        rw [hbuf, length_nil] at hbalance
        obtain ⟨target, hmem⟩ := exists_mem_of_length_pos (l := s.running) (by omega)
        refine ⟨.finish target, ?_⟩
        have hroom : s.results.buf.length < s.results.cap := by
          rw [hbuf, h.cap, length_nil]
          omega
        simp only [SpecRead.step, hmem, if_true, Chan.send, h.isOpen, Bool.false_eq_true, if_false,
          hroom]
        simp
    · refine ⟨.leave, ?_⟩
      simp only [SpecRead.step, hcase, hcount, not_false_eq_true, and_self, if_true]
      simp

/-! ### When something is refused -/

/-- The first loop has not come to its end, or it ended at a refusal. -/
def Short (targets : List GoString) (s : SpecRead) : Prop :=
  s.phase = .submitting ∨ s.phase = .waiting ∧ s.accepted < targets.length

theorem Short.step (hrefused : ∃ i < targets.length, env.accepts i = false)
    (hbalanced : Balanced env targets s) (h : Short targets s)
    (hstep : s.step env key targets a = some t) : Short targets t := by
  have hsubmitted := hbalanced.submitted
  cases specMove_of_step hstep with
  | accept target pending hphase => exact .inl hphase
  | wait hphase hlast =>
    refine .inr ⟨rfl, ?_⟩
    obtain hnil | ⟨hmore, -⟩ := hlast
    · -- Then every task was accepted, the refused one among them.
      obtain ⟨i, hi, hfalse⟩ := hrefused
      rw [hnil, length_nil] at hsubmitted
      have htrue := hbalanced.answered i (by omega)
      exact absurd htrue (by simp [hfalse])
    · have hpos := length_pos_iff.mpr hmore
      dsimp only
      omega
  | finish | receive =>
    try rw [keep_eq]
    exact h
  | leave hphase hcount =>
    obtain hearly | ⟨-, hlt⟩ := h
    · exact absurd hphase (by simp [hearly])
    · have hbalance := hbalanced.balance
      omega

/-- The two loops come to an end if and only if no task is refused. -/
theorem halts_start_iff (env : ReadEnv) (key : GoString) (targets : List GoString) :
    Halts (SpecRead.step env key targets) (fun s => s.phase = .returned) (start targets) ↔
      ∀ i < targets.length, env.accepts i = true := by
  have hbalanced := balanced_start env targets
  constructor
  · intro hhalts
    by_contra hrefused
    push Not at hrefused
    simp only [ne_eq, Bool.not_eq_true] at hrefused
    obtain ⟨bs, t, hrun, hreturned⟩ := hhalts.reaches (.nil _)
    have hshort := hrun.invariant (I := fun s => Balanced env targets s ∧ Short targets s)
      (fun s a t h _ hstep => ⟨h.1.step hstep, h.2.step hrefused h.1 hstep⟩)
      ⟨hbalanced, .inl rfl⟩
    obtain hphase | ⟨hphase, -⟩ := hshort.2 <;> cases hphase.symm.trans hreturned
  · intro haccepts
    exact halts_of_measure (I := Complete env targets) (μ := work)
      (fun s a t h hstep => h.step haccepts hstep) (fun s h hphase => h.progress hphase)
      ⟨hbalanced, fun hlate => absurd rfl hlate⟩

/-- A call that has returned takes no more steps. -/
theorem halts_ended (env : ReadEnv) (key : GoString) (targets : List GoString) :
    Halts (SpecRead.step env key targets) (fun s => s.phase = .returned) ended := by
  have hstuck : ∀ a t, ended.step env key targets a ≠ some t := by
    intro a t hstep
    cases a <;> cases hstep
  refine halts_of_measure (I := fun s => s = ended) (μ := fun _ => 0) ?_ ?_ rfl
  · rintro s a t rfl hstep
    exact absurd hstep (hstuck a t)
  · rintro s rfl hphase
    exact absurd rfl hphase

end SpecRead

namespace ReadEnv

variable {env : ReadEnv} {key : GoString} {n : Int}

/-- The call gets to its loops if there is somebody to ask. -/
theorem launch_eq :
    env.launch key n =
      if key = [] ∨ env.aliveTargets key n = [] then .ended
      else .start (env.aliveTargets key n) := by
  unfold launch
  by_cases hkey : key = []
  · rw [if_pos hkey, if_pos (.inl hkey)]
  · by_cases hring : env.cfg.ring.getN key (if n ≤ 0 then 3 else n) = []
    · have halive : env.aliveTargets key n = [] := by
        rw [aliveTargets, hring, filter_nil]
      rw [if_neg hkey, if_pos hring, if_pos (.inr halive)]
    · rw [if_neg hkey, if_neg hring]
      by_cases halive : env.aliveTargets key n = []
      · rw [if_pos halive, if_pos (.inr halive)]
      · rw [if_neg halive, if_neg (not_or.mpr ⟨hkey, halive⟩)]

/-- **The end of a speculative read.**  The call returns, whatever the order in which its tasks
    finish, if and only if it has nobody to ask or the executor accepts a task for every live
    target. -/
theorem speculative_halts_iff (env : ReadEnv) (key : GoString) (n : Int) :
    Halts (SpecRead.step env key (env.aliveTargets key n)) (fun s => s.phase = .returned)
        (env.launch key n) ↔
      key = [] ∨ env.aliveTargets key n = [] ∨
        ∀ i < (env.aliveTargets key n).length, env.accepts i = true := by
  rw [launch_eq]
  by_cases hnobody : key = [] ∨ env.aliveTargets key n = []
  · rw [if_pos hnobody]
    exact iff_of_true (SpecRead.halts_ended ..) (or_assoc.mp (.inl hnobody))
  · rw [if_neg hnobody, ← or_assoc, or_iff_right hnobody]
    exact SpecRead.halts_start_iff ..

/-- A full queue: the third task is refused. -/
def queueForTwo : ReadEnv := { threeReplicas with accepts := fun i => i < 2 }

/-- Both results have been received, nothing is running, and the call waits for a third. -/
theorem speculative_hangs :
    (∃ t, exec (SpecRead.step queueForTwo (ascii "k") (queueForTwo.aliveTargets (ascii "k") 3))
        (queueForTwo.launch (ascii "k") 3)
        [.submit, .submit, .submit, .finish (ascii "n2"), .finish (ascii "n1"), .receive,
          .receive] = some t ∧
      t.phase = .waiting ∧ t.count = 2 ∧ t.running = [] ∧ t.results.buf = []) ∧
    ¬ Halts (SpecRead.step queueForTwo (ascii "k") (queueForTwo.aliveTargets (ascii "k") 3))
      (fun s => s.phase = .returned) (queueForTwo.launch (ascii "k") 3) := by
  refine ⟨⟨_, rfl, rfl, rfl, rfl, rfl⟩, fun hhalts => ?_⟩
  have hlaunch : queueForTwo.launch (ascii "k") 3 =
      .start (queueForTwo.aliveTargets (ascii "k") 3) := rfl
  rw [hlaunch, SpecRead.halts_start_iff] at hhalts
  exact absurd (hhalts 2 (by decide)) (by decide)

end ReadEnv

end GridKV
