import GridKV.Model.ReadAttempts
import GridKV.Spec.BulkReads

/-!
# Is unreachable told from absent?

`reader.Get` remembers whether a replica has answered and the first network error, and at the
end of its loop it asks for both: but the two branches of that test return the same, no item
and no error.  So when no replica could be reached, the caller is told that the key does not
exist.

That the loop never ends with an error, and that an item it returns is the answer of some
replica, holds in every interleaving of the loop with the goroutines it has left behind
(`Sourced`).  If the goroutines come back in time the loop does what `Reader.get` says
(`exists_runs_eq_get`).
-/

namespace GridKV

open Go Run Function

/-- The goroutine has assigned the outcome. -/
def AttemptPhase.kept : AttemptPhase → Bool
  | .idle | .started | .calling | .returned => false
  | .closing kept | .closed kept => kept

/-- The targets below this one have been tried, and no others. -/
def LoopPhase.begun : LoopPhase → Option Nat
  | .launching i => some i
  | .waiting i => some (i + 1)
  | .returned _ => none

/-- Not a network error. -/
def FetchOutcome.Answers (outcome : FetchOutcome) : Prop :=
  ∀ text, outcome.err ≠ some (.network text)

/-- An outcome as `Reader.get` sees it. -/
def FetchOutcome.toFetch (outcome : FetchOutcome) : Option (Option StoredItem) :=
  match outcome.err with
  | none => some outcome.item
  | some _ => none

namespace ReadAttempts

variable {key : GoString} {targets : List GoString} {outcomes : GoString → FetchOutcome}
  {s t : ReadAttempts} {a : AttemptAction} {i : Nat} {phase : AttemptPhase}

/-! ### The steps -/

/-- The shared variables hold an item to return. -/
def Found (s : ReadAttempts) (item : StoredItem) : Prop :=
  s.err = none ∧ s.item = some item ∧ ¬ item.isTombstone ∧ item.value.length ≠ 0

/-- What a step does. -/
inductive AttemptMove (targets : List GoString) (outcomes : GoString → FetchOutcome)
    (s : ReadAttempts) : ReadAttempts → Prop
  | expire : AttemptMove targets outcomes s { s with ctxDone := true }
  | launch (i : Nat) (target : GoString) (hphase : s.phase = .launching i)
      (htarget : targets[i]? = some target) :
      AttemptMove targets outcomes s
        { s with phase := .waiting i, attempts := update s.attempts i .started }
  | finish (i : Nat) (hphase : s.phase = .launching i) (hi : targets.length ≤ i) :
      AttemptMove targets outcomes s { s with phase := .returned (.ok none) }
  /-- The loop goes on: there is nothing to return, or the context is done. -/
  | next (i : Nat) (hphase : s.phase = .waiting i)
      (hready : (∃ kept, s.attempts i = .closed kept ∧ ∀ item, ¬ s.Found item) ∨
        s.ctxDone = true) (flag : Bool) (err : Option ReadError) :
      AttemptMove targets outcomes s
        { s with
          hasSuccessfulResponse := flag
          lastNetworkErr := err
          phase := .launching (i + 1) }
  | success (i : Nat) (kept : Bool) (hphase : s.phase = .waiting i)
      (hclosed : s.attempts i = .closed kept) (item : StoredItem) (hfound : s.Found item) :
      AttemptMove targets outcomes s { s with phase := .returned (.ok (some item)) }
  | call (i : Nat) (hphase : s.attempts i = .started) :
      AttemptMove targets outcomes s { s with attempts := update s.attempts i .calling }
  | back (i : Nat) (hphase : s.attempts i = .calling) :
      AttemptMove targets outcomes s { s with attempts := update s.attempts i .returned }
  | discard (i : Nat) (hphase : s.attempts i = .started ∨ s.attempts i = .returned)
      (hctx : s.ctxDone = true) :
      AttemptMove targets outcomes s
        { s with attempts := update s.attempts i (.closing false) }
  | keep (i : Nat) (target : GoString) (htarget : targets[i]? = some target)
      (hphase : s.attempts i = .returned) :
      AttemptMove targets outcomes s
        { s with
          item := (outcomes target).item
          err := (outcomes target).err
          attempts := update s.attempts i (.closing true) }
  | close (i : Nat) (kept : Bool) (hphase : s.attempts i = .closing kept) :
      AttemptMove targets outcomes s
        { s with attempts := update s.attempts i (.closed kept) }

/-- What the loop makes of the shared variables. -/
theorem attemptMove_of_evaluate {kept : Bool} (hphase : s.phase = .waiting i)
    (hclosed : s.attempts i = .closed kept) : AttemptMove targets outcomes s (s.evaluate i) := by
  have hnext : (∀ item, ¬ s.Found item) → ∀ flag err, AttemptMove targets outcomes s
      { s with
        hasSuccessfulResponse := flag
        lastNetworkErr := err
        phase := .launching (i + 1) } :=
    fun hnone => .next i hphase (.inl ⟨kept, hclosed, hnone⟩)
  unfold evaluate
  split
  · rename_i item herr hitem
    have hsame : ∀ found, s.Found found → found = item :=
      fun found hfound => Option.some.inj (hfound.2.1.symm.trans hitem)
    split
    · rename_i htomb
      exact hnext (fun found hfound => hfound.2.2.1 (hsame found hfound ▸ htomb)) ..
    · split
      · rename_i hempty
        exact hnext (fun found hfound => hfound.2.2.2 (hsame found hfound ▸ hempty)) ..
      · exact .success i kept hphase hclosed item ⟨herr, hitem, ‹_›, ‹_›⟩
  · rename_i herr hitem
    exact hnext (fun found hfound => by cases hitem.symm.trans hfound.2.1) ..
  · rename_i err herr
    have hnone : ∀ found, ¬ s.Found found := fun found hfound => by
      cases herr.symm.trans hfound.1
    split <;> exact hnext hnone ..

theorem attemptMove_of_loop {choice : WaitCase} (h : s.loop key targets choice = some t) :
    AttemptMove targets outcomes s t := by
  unfold loop at h
  split at h
  · rename_i i hphase
    split at h
    · rename_i hi
      cases h
      exact .launch i targets[i] hphase (List.getElem?_eq_getElem hi)
    · rename_i hi
      split at h <;>
      · cases h
        exact .finish i hphase (Nat.not_lt.mp hi)
  · rename_i i hphase
    split at h
    · split at h <;> cases h
      rename_i kept hclosed
      exact attemptMove_of_evaluate hphase hclosed
    · split at h <;> cases h
      rename_i hctx
      exact .next i hphase (.inr hctx) ..
  · cases h

theorem attemptMove_of_attempt {target : GoString} (htarget : targets[i]? = some target)
    (h : s.attempt (outcomes target) i = some t) : AttemptMove targets outcomes s t := by
  unfold attempt at h
  dsimp only at h
  split at h
  · cases h
  · cases h
  · rename_i hphase
    cases h
    split
    · exact .discard i (.inl hphase) ‹_›
    · exact .call i hphase
  · rename_i hphase
    cases h
    exact .back i hphase
  · rename_i hphase
    cases h
    split
    · exact .discard i (.inr hphase) ‹_›
    · exact .keep i target htarget hphase
  · rename_i kept hphase
    cases h
    exact .close i kept hphase

theorem attemptMove_of_step (h : s.step key targets outcomes a = some t) :
    AttemptMove targets outcomes s t := by
  cases a with
  | expire =>
    cases h
    exact .expire
  | loop choice => exact attemptMove_of_loop h
  | attempt i =>
    obtain ⟨target, htarget, hattempt⟩ := Option.bind_eq_some_iff.mp h
    exact attemptMove_of_attempt htarget hattempt

/-! ### Where items come from -/

/-- The replica's answer, not a network error, was there before the context was done. -/
def Answered (targets : List GoString) (outcomes : GoString → FetchOutcome) (s : ReadAttempts) :
    Prop :=
  ∃ i target, targets[i]? = some target ∧ (s.attempts i).kept = true ∧ (outcomes target).Answers

/-- Goroutines are started one by one, an item in the shared variables was assigned by one of
    them, and the loop returns such an item or none. -/
structure Sourced (targets : List GoString) (outcomes : GoString → FetchOutcome)
    (s : ReadAttempts) : Prop where
  fresh : ∀ n, s.phase.begun = some n → ∀ j ≥ n, s.attempts j = .idle
  shared : s.item ≠ none → ∃ i target, targets[i]? = some target ∧
    (s.attempts i).kept = true ∧ s.err = (outcomes target).err
  result : ∀ result, s.phase = .returned result →
    result = .ok none ∨ (∃ item, result = .ok (some item)) ∧ Answered targets outcomes s

/-- Moving goroutine `i` does not bring one back that has not been started. -/
theorem fresh_update {n : Nat} (h : ∀ j ≥ n, s.attempts j = .idle) (hi : s.attempts i ≠ .idle)
    (j : Nat) (hj : j ≥ n) : update s.attempts i phase j = .idle := by
  have hne : j ≠ i := by
    rintro rfl
    exact hi (h j hj)
  rw [update_of_ne hne]
  exact h j hj

/-- What has been assigned stays assigned. -/
theorem kept_update {j : Nat} (hi : (s.attempts i).kept = true → phase.kept = true)
    (h : (s.attempts j).kept = true) : (update s.attempts i phase j).kept = true := by
  by_cases hj : j = i
  · subst hj
    rw [update_self]
    exact hi h
  · rwa [update_of_ne hj]

theorem Answered.mono (h : Answered targets outcomes s)
    (hkept : ∀ j, (s.attempts j).kept = true → (t.attempts j).kept = true) :
    Answered targets outcomes t := by
  obtain ⟨i, target, htarget, hi, hanswers⟩ := h
  exact ⟨i, target, htarget, hkept i hi, hanswers⟩

/-- A goroutine moves on, and neither the loop nor the shared variables change. -/
theorem Sourced.move (h : Sourced targets outcomes s) (hidle : s.attempts i ≠ .idle)
    (hi : (s.attempts i).kept = true → phase.kept = true) :
    Sourced targets outcomes { s with attempts := update s.attempts i phase } where
  fresh n hn := fresh_update (h.fresh n hn) hidle
  shared hitem := by
    obtain ⟨j, target, htarget, hj, herr⟩ := h.shared hitem
    exact ⟨j, target, htarget, kept_update hi hj, herr⟩
  result result hphase := (h.result result hphase).imp_right fun hanswer =>
    ⟨hanswer.1, hanswer.2.mono fun _ => kept_update hi⟩

theorem Sourced.step (h : Sourced targets outcomes s)
    (hstep : s.step key targets outcomes a = some t) : Sourced targets outcomes t := by
  cases attemptMove_of_step hstep with
  | expire => exact ⟨h.fresh, h.shared, h.result⟩
  | launch i target hphase htarget =>
    have hidle : ∀ j ≥ i, s.attempts j = .idle := h.fresh i (by rw [hphase]; rfl)
    have hi : (s.attempts i).kept = true → AttemptPhase.started.kept = true := by
      rw [hidle i (Nat.le_refl i)]
      exact id
    refine ⟨fun n hn j hj => ?_, fun hitem => ?_, fun result hreturned => by cases hreturned⟩
    · obtain rfl : i + 1 = n := Option.some.inj hn
      have hne : j ≠ i := by omega
      dsimp only
      rw [update_of_ne hne]
      exact hidle j (by omega)
    · obtain ⟨j, target, htarget, hj, herr⟩ := h.shared hitem
      exact ⟨j, target, htarget, kept_update hi hj, herr⟩
  | finish i hphase =>
    refine ⟨fun n hn => (by cases hn), h.shared, fun result hreturned => .inl ?_⟩
    exact (LoopPhase.returned.inj hreturned).symm
  | next i hphase =>
    refine ⟨fun n hn => ?_, h.shared, fun result hreturned => by cases hreturned⟩
    exact h.fresh n (by rw [hphase]; exact hn)
  | success i kept hphase hclosed item hfound =>
    refine ⟨fun n hn => (by cases hn), h.shared, fun result hreturned => .inr ⟨⟨item, ?_⟩, ?_⟩⟩
    · exact (LoopPhase.returned.inj hreturned).symm
    · obtain ⟨herr, hitem, -⟩ := hfound
      obtain ⟨j, target, htarget, hj, hsame⟩ := h.shared (by simp [hitem])
      refine ⟨j, target, htarget, hj, fun text htext => ?_⟩
      cases herr.symm.trans (hsame.trans htext)
  | call i hphase => exact h.move (by simp [hphase]) (by rw [hphase]; exact id)
  | back i hphase => exact h.move (by simp [hphase]) (by rw [hphase]; exact id)
  | discard i hphase =>
    obtain hphase | hphase := hphase
    all_goals exact h.move (by simp [hphase]) (by rw [hphase]; exact id)
  | keep i target htarget hphase =>
    have hi : (s.attempts i).kept = true → (AttemptPhase.closing true).kept = true := fun _ => rfl
    refine ⟨fun n hn => fresh_update (h.fresh n hn) (by simp [hphase]), fun _ => ?_,
      fun result hreturned => ?_⟩
    · refine ⟨i, target, htarget, ?_, rfl⟩
      dsimp only
      rw [update_self]
      rfl
    · exact (h.result result hreturned).imp_right fun hanswer =>
        ⟨hanswer.1, hanswer.2.mono fun _ => kept_update hi⟩
  | close i kept hphase => exact h.move (by simp [hphase]) (by rw [hphase]; exact id)

theorem phase_of_returned {result : Except ReadError (Option StoredItem)}
    (h : s.phase = .returned result) (hstep : s.step key targets outcomes a = some t) :
    t.phase = .returned result := by
  cases attemptMove_of_step hstep with
  | expire | call | back | discard | keep | close => exact h
  | launch | finish | next | success => cases h.symm.trans ‹_›

/-! ### What the caller is told -/

/-- At least one replica has been asked. -/
def Tried (targets : List GoString) (s : ReadAttempts) : Prop :=
  ∃ i < targets.length, s.attempts i ≠ .idle

/-- No item and no error only if a replica has answered; an error if some replica was tried and
    none has. -/
def Distinguishes (targets : List GoString) (outcomes : GoString → FetchOutcome)
    (s : ReadAttempts) (result : Except ReadError (Option StoredItem)) : Prop :=
  (result = .ok none → Answered targets outcomes s) ∧
    (Tried targets s ∧ ¬ Answered targets outcomes s → ∃ err, result = .error err)

end ReadAttempts

namespace Reader

open ReadAttempts

variable {cfg : ReaderConfig} {now : Time} {store : MemStorage} {alive : GoString → Bool}
  {key : GoString} {outcomes : GoString → FetchOutcome}

/-- With nothing in the local store the call gets to its loop, unless there is nobody to
    ask. -/
theorem launchGet_of_absent (hkey : key ≠ [])
    (habsent : unexpired cfg.store now store key = none) :
    ∃ err, launchGet cfg now store alive key =
      if remoteTargets cfg alive key = [] then
        { err := some (.store err), phase := .returned (.ok none) }
      else { err := some (.store err), phase := .launching 0 } := by
  obtain ⟨err, herr, hget⟩ := get_of_unexpired_eq_none hkey habsent
  refine ⟨err, ?_⟩
  have hmissing : ¬ (err ≠ .notFound ∧ err ≠ .expired) :=
    fun hother => herr.elim hother.1 hother.2
  simp only [launchGet, hget, if_neg hmissing]

/-- The empty key is refused before the loop. -/
theorem launchGet_nil : (launchGet cfg now store alive []).phase =
    .returned (.error (.store .emptyKey)) := rfl

theorem sourced_launchGet (hkey : key ≠ [])
    (habsent : unexpired cfg.store now store key = none) :
    Sourced (remoteTargets cfg alive key) outcomes (launchGet cfg now store alive key) := by
  obtain ⟨err, hlaunch⟩ := launchGet_of_absent hkey habsent
  rw [hlaunch]
  split
  · refine ⟨fun n hn => (by cases hn), fun hitem => absurd rfl hitem, fun result hphase => .inl ?_⟩
    exact (LoopPhase.returned.inj hphase).symm
  · refine ⟨fun n hn j hj => rfl, fun hitem => absurd rfl hitem, fun result hphase => ?_⟩
    cases hphase

/-- **Unreachable and absent.**  With nothing in the local store, the result tells whether any
    replica has been reached if and only if one of them has answered (or the key is empty). -/
theorem distinguishes_iff_answered (cfg : ReaderConfig) (now : Time) (store : MemStorage)
    (alive : GoString → Bool) (key : GoString) (outcomes : GoString → FetchOutcome)
    (habsent : unexpired cfg.store now store key = none) (as : List AttemptAction)
    (t : ReadAttempts)
    (hrun : Runs (ReadAttempts.step key (remoteTargets cfg alive key) outcomes)
      (launchGet cfg now store alive key) as t)
    (result : Except ReadError (Option StoredItem)) (hphase : t.phase = .returned result) :
    Distinguishes (remoteTargets cfg alive key) outcomes t result ↔
      key = [] ∨ Answered (remoteTargets cfg alive key) outcomes t := by
  by_cases hkey : key = []
  · subst hkey
    have hend := hrun.invariant (fun s a t h _ hstep => phase_of_returned h hstep) launchGet_nil
    cases hphase.symm.trans hend
    exact iff_of_true ⟨fun hok => (by cases hok), fun _ => ⟨_, rfl⟩⟩ (.inl rfl)
  · rw [or_iff_right hkey]
    have hsourced := hrun.invariant (fun _ _ _ h _ hstep => h.step hstep)
      (sourced_launchGet hkey habsent)
    constructor
    · intro hdistinguishes
      obtain hnone | ⟨-, hanswered⟩ := hsourced.result result hphase
      · exact hdistinguishes.1 hnone
      · exact hanswered
    · intro hanswered
      exact ⟨fun _ => hanswered, fun hfailed => absurd hanswered hfailed.2⟩

/-- The node that is asked answers that it does not have the key. -/
def notThere (_ : GoString) : FetchOutcome where
  item := none
  err := none

/-- The node that is asked cannot be reached. -/
def refused (_ : GoString) : FetchOutcome where
  item := none
  err := some (.network (ascii "connection refused"))

/-- One replica is alive and is asked, and the goroutine comes back in time. -/
def oneAttempt : List AttemptAction :=
  [.loop .done, .attempt 0, .attempt 0, .attempt 0, .attempt 0, .loop .done, .loop .done]

/-- The only replica alive of three. -/
def firstAlive (target : GoString) : Bool := target = ascii "n1"

/-- The answer is that the key is not there, and so is the result. -/
theorem distinguishes_absent :
    ∃ t, exec (ReadAttempts.step (ascii "k")
        (remoteTargets ReadEnv.threeReplicas.cfg firstAlive (ascii "k")) notThere)
        (launchGet ReadEnv.threeReplicas.cfg 0 .empty firstAlive (ascii "k")) oneAttempt = some t ∧
      t.phase = .returned (.ok none) ∧
      (Distinguishes (remoteTargets ReadEnv.threeReplicas.cfg firstAlive (ascii "k")) notThere t
          (.ok none) ↔
        ascii "k" = [] ∨
          Answered (remoteTargets ReadEnv.threeReplicas.cfg firstAlive (ascii "k")) notThere t) :=
  ⟨_, rfl, rfl, distinguishes_iff_answered ReadEnv.threeReplicas.cfg 0 .empty firstAlive
    (ascii "k") notThere rfl oneAttempt _ (runs_of_exec rfl) _ rfl⟩

/-- The same result when the replica could not be reached. -/
theorem not_distinguishes_unreachable :
    ∃ t, exec (ReadAttempts.step (ascii "k")
        (remoteTargets ReadEnv.threeReplicas.cfg firstAlive (ascii "k")) refused)
        (launchGet ReadEnv.threeReplicas.cfg 0 .empty firstAlive (ascii "k")) oneAttempt = some t ∧
      t.phase = .returned (.ok none) ∧ t.lastNetworkErr ≠ none ∧
      ¬ Distinguishes (remoteTargets ReadEnv.threeReplicas.cfg firstAlive (ascii "k")) refused t
        (.ok none) := by
  refine ⟨_, rfl, rfl, by decide, fun hdistinguishes => ?_⟩
  obtain ⟨i, target, -, -, hanswers⟩ := hdistinguishes.1 rfl
  exact hanswers _ rfl

end Reader

/-! ### Agreement with the function -/

namespace ReadAttempts

variable {key : GoString} {targets rest : List GoString} {outcomes : GoString → FetchOutcome}
  {s : ReadAttempts} {i : Nat} {target : GoString}

/-- The loop returns the item of the outcome if it is live, or goes on to the next target. -/
theorem evaluate_cases (i : Nat) (rest : List GoString) (hitem : s.item = (outcomes target).item)
    (herr : s.err = (outcomes target).err) :
    (s.evaluate i).ctxDone = s.ctxDone ∧
      ((s.evaluate i).phase = .returned (.ok
          (Reader.firstLive (fun target => (outcomes target).toFetch) (target :: rest))) ∨
        (s.evaluate i).phase = .launching (i + 1) ∧
          Reader.firstLive (fun target => (outcomes target).toFetch) (target :: rest) =
            Reader.firstLive (fun target => (outcomes target).toFetch) rest) := by
  simp only [evaluate, Reader.firstLive, FetchOutcome.toFetch, ← herr, ← hitem]
  cases s.err with
  | some err =>
    dsimp only
    split <;> exact ⟨rfl, .inr ⟨rfl, rfl⟩⟩
  | none =>
    cases s.item with
    | none => exact ⟨rfl, .inr ⟨rfl, rfl⟩⟩
    | some item =>
      by_cases htomb : item.isTombstone
      · simp [htomb, next]
      · by_cases hempty : item.value.length = 0
        · simp [htomb, hempty, next]
        · simp [htomb, hempty]

/-- A round of the loop in which the goroutine comes back in time. -/
theorem exists_runs_evaluate (key : GoString) (hphase : s.phase = .launching i)
    (hctx : s.ctxDone = false) (htarget : targets[i]? = some target) :
    ∃ (as : List AttemptAction) (t : ReadAttempts),
      Runs (step key targets outcomes) s as (t.evaluate i) ∧ t.item = (outcomes target).item ∧
        t.err = (outcomes target).err ∧ t.ctxDone = false := by
  obtain ⟨hi, rfl⟩ := List.getElem?_eq_some_iff.mp htarget
  have hrun : exec (step key targets outcomes) s
      [.loop .done, .attempt i, .attempt i, .attempt i, .attempt i, .loop .done] = some
        ({ s with
            item := (outcomes targets[i]).item
            err := (outcomes targets[i]).err
            phase := .waiting i
            attempts := update s.attempts i (.closed true) }.evaluate i) := by
    simp [exec, step, loop, attempt, hphase, hctx, hi]
  exact ⟨_, _, runs_of_exec hrun, rfl, rfl, hctx⟩

/-- Rounds of that kind end with the first live answer. -/
theorem exists_runs_firstLive (key : GoString) (hphase : s.phase = .launching i)
    (hctx : s.ctxDone = false) (hrest : targets.drop i = rest) :
    ∃ as t, Runs (step key targets outcomes) s as t ∧ t.ctxDone = false ∧ t.phase =
      .returned (.ok (Reader.firstLive (fun target => (outcomes target).toFetch) rest)) := by
  induction rest generalizing s i with
  | nil =>
    have hi : ¬ i < targets.length := Nat.not_lt.mpr (List.drop_eq_nil_iff.mp hrest)
    have hreturn : s.step key targets outcomes (.loop .done) =
        some { s with phase := .returned (.ok none) } := by
      simp [step, loop, hphase, hi]
    exact ⟨_, _, .cons trivial hreturn (.nil _), hctx, rfl⟩
  | cons target rest ih =>
    have htarget : targets[i]? = some target := by
      rw [← List.head?_drop, hrest, List.head?_cons]
    have hdrop : targets.drop (i + 1) = rest := by
      rw [← List.tail_drop, hrest, List.tail_cons]
    obtain ⟨as, t, hrun, hitem, herr, hopen⟩ := exists_runs_evaluate key hphase hctx htarget
    obtain ⟨hsame, hreturned | ⟨hnext, hlive⟩⟩ := evaluate_cases i rest hitem herr
    · exact ⟨as, _, hrun, hsame.trans hopen, hreturned⟩
    · rw [hlive]
      obtain ⟨bs, u, hrun', hend⟩ := ih hnext (hsame.trans hopen) hdrop
      exact ⟨as ++ bs, u, hrun.append hrun', hend⟩

end ReadAttempts

namespace Reader

/-- A call whose goroutines come back before the context is done returns what `Reader.get`
    says. -/
theorem exists_runs_eq_get (cfg : ReaderConfig) (now : Time) (store : MemStorage)
    (alive : GoString → Bool) (key : GoString) (outcomes : GoString → FetchOutcome) :
    ∃ as t, Runs (ReadAttempts.step key (remoteTargets cfg alive key) outcomes)
        (launchGet cfg now store alive key) as t ∧ t.ctxDone = false ∧
      t.phase = .returned
        ((get cfg now store alive (fun target => (outcomes target).toFetch) key).2.mapError
          .store) := by
  unfold launchGet get
  cases hlocal : store.get cfg.store now key with
  | mk store' res =>
    cases res with
    | ok item => exact ⟨[], _, .nil _, rfl, rfl⟩
    | error err =>
      dsimp only
      by_cases hother : err ≠ .notFound ∧ err ≠ .expired
      · rw [if_pos hother, if_pos hother]
        exact ⟨[], _, .nil _, rfl, rfl⟩
      · rw [if_neg hother, if_neg hother]
        by_cases hnobody : remoteTargets cfg alive key = []
        · rw [if_pos hnobody]
          refine ⟨[], _, .nil _, rfl, ?_⟩
          change _ = LoopPhase.returned (.ok (firstLive _ (remoteTargets cfg alive key)))
          rw [hnobody]
          rfl
        · rw [if_neg hnobody]
          exact ReadAttempts.exists_runs_firstLive key rfl rfl rfl

end Reader

end GridKV
