import GridKV.ForStd.Interleave
import GridKV.Model.RingSteps
import GridKV.Spec.Placement

/-!
# Concurrent ring updates, one after the other

Calls of `Update` that overlap have the effect of calls made one after the other, in the
order in which they get the lock (`Inv`).  A call on the fast path reads the version while
another is between its two stores; it can only see a version that is too low, and then looks
again under the lock.  So the ring ends up as the first call with the highest version left
it, whatever the interleaving.
-/

namespace GridKV

open Go Run Interleave Function

namespace VersionedRing

/-- `update` in terms of the nodes it publishes. -/
theorem update_eq (cfg : RingConfig) (ring : VersionedRing) (version : Int64)
    (nodeIDs : List GoString) :
    (ring.update cfg version nodeIDs).1 =
      if version ≤ ring.version then ring else { version, data := cfg.ringData nodeIDs } := by
  unfold update RingConfig.ringData
  split
  · rfl
  · split <;> rfl

end VersionedRing

namespace RingUpdates

variable {ι : Type} (u : RingUpdates ι)

/-! ### One call after the other -/

/-- The ring after the calls of a list. -/
def sequential (ring : VersionedRing) (ids : List ι) : VersionedRing :=
  ids.foldl (fun ring i => (ring.update u.cfg (u.version i) (u.nodeIDs i)).1) ring

theorem sequential_concat (ring : VersionedRing) (ids : List ι) (i : ι) :
    u.sequential ring (ids ++ [i]) =
      ((u.sequential ring ids).update u.cfg (u.version i) (u.nodeIDs i)).1 := by
  rw [sequential, List.foldl_concat]
  rfl

/-- The first call of the highest version above that of the ring, if there is one, decides. -/
theorem sequential_cases (ring : VersionedRing) (ids : List ι) :
    (∀ j ∈ ids, u.version j ≤ (u.sequential ring ids).version) ∧
      (u.sequential ring ids = ring ∨
        ∃ before i after, ids = before ++ i :: after ∧ ring.version < u.version i ∧
          (∀ j ∈ before, u.version j < u.version i) ∧
          u.sequential ring ids =
            { version := u.version i, data := u.cfg.ringData (u.nodeIDs i) }) := by
  induction ids using List.reverseRecOn with
  | nil => exact ⟨fun j hj => absurd hj List.not_mem_nil, .inl rfl⟩
  | append_singleton ids i ih =>
    obtain ⟨hbelow, hcases⟩ := ih
    rw [sequential_concat, VersionedRing.update_eq]
    split
    · -- The call is refused and stands behind the one that decides.
      rename_i hold
      refine ⟨fun j hj => ?_, ?_⟩
      · rcases List.mem_append.mp hj with hj | hj
        · exact hbelow j hj
        · rw [List.mem_singleton.mp hj]
          exact hold
      · rcases hcases with hsame | ⟨before, k, after, rfl, hnew, hfirst, hring⟩
        · exact .inl hsame
        · exact .inr ⟨before, k, after ++ [i], by simp, hnew, hfirst, hring⟩
    · rename_i hnew
      have hlt : (u.sequential ring ids).version < u.version i := Int64.not_le.mp hnew
      refine ⟨fun j hj => ?_, .inr ⟨ids, i, [], rfl, ?_, ?_, rfl⟩⟩
      · rcases List.mem_append.mp hj with hj | hj
        · exact Int64.le_of_lt (Int64.lt_of_le_of_lt (hbelow j hj) hlt)
        · rw [List.mem_singleton.mp hj]
          exact Int64.le_refl _
      · rcases hcases with hsame | ⟨before, k, after, rfl, hup, -, hring⟩
        · rwa [hsame] at hlt
        · rw [hring] at hlt
          exact Int64.lt_trans hup hlt
      · exact fun j hj => Int64.lt_of_le_of_lt (hbelow j hj) hlt

/-! ### Overlapping calls -/

/-- All calls are about to be made. -/
def launch (ring : VersionedRing) : System ι (SharedRing ι) RingPhase where
  shared := { ring }
  phase _ := .check

/-- Whether the call holds the lock. -/
def locked : RingPhase → Bool
  | .recheck | .storeData | .storeVersion | .unlock _ => true
  | .check | .lock | .returned _ => false

/-- Whether the call has found or made the version of the ring as high as its own. -/
def settled : RingPhase → Bool
  | .unlock _ | .returned _ => true
  | .check | .lock | .recheck | .storeData | .storeVersion => false

/-- What the call that holds the lock has made of the ring `before`, by its phase. -/
def Progress (i : ι) (before now : VersionedRing) : RingPhase → Prop
  | .recheck => now = before
  | .storeData => now = before ∧ before.version < u.version i
  | .storeVersion =>
    now = { before with data := u.cfg.ringData (u.nodeIDs i) } ∧ before.version < u.version i
  | .unlock _ => now = (before.update u.cfg (u.version i) (u.nodeIDs i)).1
  | _ => False

/-- The ring is what the calls have made of it one after the other; the last of them may
    still be at it. -/
def Sequential (ring : VersionedRing) (s : System ι (SharedRing ι) RingPhase) : Prop :=
  match s.shared.mu with
  | none => s.shared.ring = u.sequential ring s.shared.entered
  | some i => ∃ before, s.shared.entered = before ++ [i] ∧
      u.Progress i (u.sequential ring before) s.shared.ring (s.phase i)

/-- The invariant of all interleavings. -/
structure Inv (ring : VersionedRing) (s : System ι (SharedRing ι) RingPhase) : Prop where
  holder : ∀ i, locked (s.phase i) ↔ s.shared.mu = some i
  sequential : u.Sequential ring s
  seen : ∀ i, settled (s.phase i) → u.version i ≤ s.shared.ring.version

variable {u} {ring : VersionedRing} {i : ι} {s t : System ι (SharedRing ι) RingPhase}

theorem inv_launch (ring : VersionedRing) : u.Inv ring (launch ring) where
  holder i := by simp [launch, locked]
  sequential := rfl
  seen i h := by cases h

/-- The call that holds the lock. -/
theorem Inv.progress (h : u.Inv ring s) (hlocked : locked (s.phase i)) :
    s.shared.mu = some i ∧ ∃ before, s.shared.entered = before ++ [i] ∧
      u.Progress i (u.sequential ring before) s.shared.ring (s.phase i) := by
  have hmu := (h.holder i).mp hlocked
  have hseq := h.sequential
  unfold Sequential at hseq
  rw [hmu] at hseq
  exact ⟨hmu, hseq⟩

/-- One of the calls makes its next atomic operation. -/
def step [DecidableEq ι] (u : RingUpdates ι) :
    System ι (SharedRing ι) RingPhase → ι → Option (System ι (SharedRing ι) RingPhase) :=
  Interleave.step u.updateStep

theorem sequential_of_holder {before : List ι} (hmu : s.shared.mu = some i)
    (hentered : s.shared.entered = before ++ [i])
    (hprogress : u.Progress i (u.sequential ring before) s.shared.ring (s.phase i)) :
    u.Sequential ring s := by
  unfold Sequential
  rw [hmu]
  exact ⟨before, hentered, hprogress⟩

/-- What the atomic operations of call `i` do, by the phases they lead from and to. -/
inductive Move (u : RingUpdates ι) (i : ι) (s : SharedRing ι) :
    RingPhase → SharedRing ι → RingPhase → Prop
  | refused (hold : u.version i ≤ s.ring.version) : Move u i s .check s (.returned false)
  | passed (hnew : ¬ u.version i ≤ s.ring.version) : Move u i s .check s .lock
  | lock (hfree : s.mu = none) :
      Move u i s .lock { s with mu := some i, entered := s.entered ++ [i] } .recheck
  | outrun (hold : u.version i ≤ s.ring.version) : Move u i s .recheck s (.unlock false)
  | newer (hnew : ¬ u.version i ≤ s.ring.version) : Move u i s .recheck s .storeData
  | storeData : Move u i s .storeData
      { s with ring := { s.ring with data := u.cfg.ringData (u.nodeIDs i) } } .storeVersion
  | storeVersion : Move u i s .storeVersion
      { s with ring := { s.ring with version := u.version i } } (.unlock true)
  | unlock (ok : Bool) : Move u i s (.unlock ok) { s with mu := none } (.returned ok)

theorem move_of_updateStep {s t : SharedRing ι} {p q : RingPhase}
    (h : u.updateStep i s p = some (t, q)) : Move u i s p t q := by
  cases p with
  | check =>
    cases h
    split
    · exact .refused ‹_›
    · exact .passed ‹_›
  | lock =>
    rw [updateStep] at h
    split at h <;> cases h
    exact .lock ‹_›
  | recheck =>
    cases h
    split
    · exact .outrun ‹_›
    · exact .newer ‹_›
  | storeData =>
    cases h
    exact .storeData
  | storeVersion =>
    cases h
    exact .storeVersion
  | unlock ok =>
    cases h
    exact .unlock ok
  | returned ok => cases h

variable [DecidableEq ι]

/-- Who holds the lock after a step of call `i`: the others as before. -/
theorem holder_of_step {q : RingPhase} (h : ∀ j, locked (s.phase j) ↔ s.shared.mu = some j)
    (hphase : t.phase = update s.phase i q) (hself : locked q ↔ t.shared.mu = some i)
    (hothers : ∀ j, j ≠ i → (t.shared.mu = some j ↔ s.shared.mu = some j)) (j : ι) :
    locked (t.phase j) ↔ t.shared.mu = some j := by
  rw [hphase]
  by_cases hj : j = i
  · subst hj
    rwa [update_self]
  · rw [update_of_ne hj, hothers j hj]
    exact h j

/-- Versions that were reached stay reached while the version of the ring rises. -/
theorem seen_of_step {q : RingPhase}
    (h : ∀ j, settled (s.phase j) → u.version j ≤ s.shared.ring.version)
    (hphase : t.phase = update s.phase i q)
    (hmono : s.shared.ring.version ≤ t.shared.ring.version)
    (hself : settled q → u.version i ≤ t.shared.ring.version) (j : ι) :
    settled (t.phase j) → u.version j ≤ t.shared.ring.version := by
  rw [hphase]
  by_cases hj : j = i
  · subst hj
    rwa [update_self]
  · rw [update_of_ne hj]
    exact fun hsettled => Int64.le_trans (h j hsettled) hmono

/-- A step of call `i` that leaves the ring and the lock as they are. -/
theorem Inv.step_check (h : u.Inv ring s) (hphase : s.phase i = .check) {q : RingPhase}
    (hq : locked q = false) (hsettled : settled q → u.version i ≤ s.shared.ring.version) :
    u.Inv ring ⟨s.shared, update s.phase i q⟩ := by
  have hfree : s.shared.mu ≠ some i := by
    rw [ne_eq, ← h.holder i, hphase]
    decide
  refine ⟨holder_of_step h.holder rfl ?_ fun _ _ => Iff.rfl, ?_, seen_of_step h.seen rfl
    (Int64.le_refl _) hsettled⟩
  · simp [hq, hfree]
  · have hseq := h.sequential
    unfold Sequential at hseq ⊢
    dsimp only
    cases hmu : s.shared.mu with
    | none => rwa [hmu] at hseq
    | some j =>
      -- The call that holds the lock is another one.
      rw [hmu] at hseq
      have hj : j ≠ i := fun heq => hfree (heq ▸ hmu)
      dsimp only
      rwa [update_of_ne hj]

/-- A step of the call that holds the lock, from one phase under it to another. -/
theorem Inv.step_locked (h : u.Inv ring s) (hlocked : locked (s.phase i)) {q : RingPhase}
    {now : VersionedRing} (hq : locked q) (hmono : s.shared.ring.version ≤ now.version)
    (hsettled : settled q → u.version i ≤ now.version)
    (hprogress : ∀ before, u.Progress i before s.shared.ring (s.phase i) →
      u.Progress i before now q) :
    u.Inv ring ⟨{ s.shared with ring := now }, update s.phase i q⟩ := by
  obtain ⟨hmu, before, hentered, hbefore⟩ := h.progress hlocked
  refine ⟨holder_of_step h.holder rfl ?_ fun _ _ => Iff.rfl, ?_, seen_of_step h.seen rfl hmono
    hsettled⟩
  · simp [hq, hmu]
  · refine sequential_of_holder hmu hentered ?_
    dsimp only
    rw [update_self]
    exact hprogress _ hbefore

/-- A call gets the lock: the calls before it are done. -/
theorem Inv.step_lock (h : u.Inv ring s) (hmu : s.shared.mu = none) :
    u.Inv ring ⟨{ s.shared with mu := some i, entered := s.shared.entered ++ [i] },
      update s.phase i .recheck⟩ := by
  have hring : s.shared.ring = u.sequential ring s.shared.entered := by
    have hseq := h.sequential
    unfold Sequential at hseq
    rwa [hmu] at hseq
  refine ⟨holder_of_step h.holder rfl (by simp [locked]) fun j hj => ?_, ?_,
    seen_of_step h.seen rfl (Int64.le_refl _) fun hsettled => by cases hsettled⟩
  · simp [hmu, Ne.symm hj]
  · refine sequential_of_holder rfl rfl ?_
    dsimp only
    rw [update_self]
    exact hring

/-- A call lets go of the lock: it is done, too. -/
theorem Inv.step_unlock {ok : Bool} (h : u.Inv ring s) (hphase : s.phase i = .unlock ok) :
    u.Inv ring ⟨{ s.shared with mu := none }, update s.phase i (.returned ok)⟩ := by
  obtain ⟨hmu, before, hentered, hprogress⟩ := h.progress (i := i) (by rw [hphase]; rfl)
  rw [hphase] at hprogress
  refine ⟨holder_of_step h.holder rfl (by simp [locked]) fun j hj => ?_, ?_,
    seen_of_step h.seen rfl (Int64.le_refl _) fun _ => h.seen i (by rw [hphase]; rfl)⟩
  · simp [hmu, Ne.symm hj]
  · show s.shared.ring = u.sequential ring s.shared.entered
    rw [hentered, sequential_concat]
    exact hprogress

/-- Every atomic operation keeps the invariant, and no version is taken back. -/
theorem Inv.step (h : u.Inv ring s) (hstep : u.step s i = some t) :
    u.Inv ring t ∧ s.shared.ring.version ≤ t.shared.ring.version := by
  obtain ⟨⟨shared, q⟩, hact, rfl⟩ := Option.map_eq_some_iff.mp hstep
  have hmove := move_of_updateStep hact
  dsimp only
  generalize hphase : s.phase i = p at hmove
  cases hmove with
  | refused hold => exact ⟨h.step_check hphase rfl fun _ => hold, Int64.le_refl _⟩
  | passed hnew =>
    exact ⟨h.step_check hphase rfl fun hsettled => (by cases hsettled), Int64.le_refl _⟩
  | lock hfree => exact ⟨h.step_lock hfree, Int64.le_refl _⟩
  | outrun hold =>
    refine ⟨h.step_locked (by rw [hphase]; rfl) rfl (Int64.le_refl _) (fun _ => hold) ?_,
      Int64.le_refl _⟩
    intro before hbefore
    rw [hphase] at hbefore
    have hring : s.shared.ring = before := hbefore
    show s.shared.ring = (before.update u.cfg (u.version i) (u.nodeIDs i)).1
    rw [VersionedRing.update_eq, ← hring, if_pos hold]
  | newer hnew =>
    refine ⟨h.step_locked (by rw [hphase]; rfl) rfl (Int64.le_refl _)
      (fun hsettled => by cases hsettled) ?_, Int64.le_refl _⟩
    intro before hbefore
    rw [hphase] at hbefore
    have hring : s.shared.ring = before := hbefore
    exact ⟨hring, hring ▸ Int64.not_le.mp hnew⟩
  | storeData =>
    refine ⟨h.step_locked (by rw [hphase]; rfl) rfl (Int64.le_refl _)
      (fun hsettled => by cases hsettled) ?_, Int64.le_refl _⟩
    intro before hbefore
    rw [hphase] at hbefore
    obtain ⟨hring, hlt⟩ := hbefore
    exact ⟨by rw [hring], hlt⟩
  | storeVersion =>
    have hlocked : locked (s.phase i) := by rw [hphase]; rfl
    have hup : s.shared.ring.version ≤ u.version i := by
      obtain ⟨-, before, -, hbefore⟩ := h.progress hlocked
      rw [hphase] at hbefore
      obtain ⟨hring, hlt⟩ := hbefore
      rw [hring]
      exact Int64.le_of_lt hlt
    refine ⟨h.step_locked hlocked rfl hup (fun _ => Int64.le_refl _) ?_, hup⟩
    intro before hbefore
    rw [hphase] at hbefore
    obtain ⟨hring, hlt⟩ := hbefore
    show _ = (before.update u.cfg (u.version i) (u.nodeIDs i)).1
    rw [VersionedRing.update_eq, if_neg (Int64.not_le.mpr hlt), hring]
  | unlock ok => exact ⟨h.step_unlock hphase, Int64.le_refl _⟩

theorem inv_of_runs {is : List ι} (hrun : Runs u.step (launch ring) is s) : u.Inv ring s :=
  hrun.invariant (fun _ _ _ h _ hstep => (h.step hstep).1) (inv_launch ring)

/-! ### Calls that return false -/

/-- Whether the call has stored its nodes. -/
def committed : RingPhase → Bool
  | .storeVersion => true
  | .unlock ok | .returned ok => ok
  | .check | .lock | .recheck | .storeData => false

/-- Only a call that goes on to return true changes the ring. -/
theorem ring_eq_or_committed (hstep : u.step s i = some t) :
    t.shared.ring = s.shared.ring ∨ committed (t.phase i) := by
  obtain ⟨q, hact, hphase⟩ := step_eq_some hstep
  rw [hphase, update_self]
  have hmove := move_of_updateStep hact
  generalize s.phase i = p, t.shared = shared at hmove ⊢
  cases hmove with
  | storeData | storeVersion => exact .inr rfl
  | _ => exact .inl rfl

theorem committed_step {j : ι} (hstep : u.step s j = some t) (h : committed (s.phase i)) :
    committed (t.phase i) := by
  obtain ⟨q, hact, hphase⟩ := step_eq_some hstep
  rw [hphase]
  by_cases hj : i = j
  · subst hj
    rw [update_self]
    have hmove := move_of_updateStep hact
    generalize s.phase i = p, t.shared = shared at h hmove
    cases hmove with
    | storeVersion => rfl
    | unlock ok => exact h
    | _ => cases h
  · rwa [update_of_ne hj]

theorem ring_eq_of_returned_false {js : List ι} {v : System ι (SharedRing ι) RingPhase}
    (hstep : u.step s i = some t) (hrun : Runs u.step t js v)
    (hfalse : v.phase i = .returned false) : t.shared.ring = s.shared.ring := by
  rcases ring_eq_or_committed hstep with hsame | hcommitted
  · exact hsame
  · have hend := hrun.invariant (I := fun s => committed (s.phase i))
      (fun _ _ _ h _ hstep => committed_step hstep h) hcommitted
    rw [hfalse] at hend
    cases hend

/-! ### When all have returned -/

omit [DecidableEq ι] in
/-- The lock is free, and no call has a version above that of the ring. -/
theorem Inv.of_returned (h : u.Inv ring s) (hall : ∀ i, ∃ ok, s.phase i = .returned ok) :
    s.shared.ring = u.sequential ring s.shared.entered ∧
      ∀ i, u.version i ≤ s.shared.ring.version := by
  refine ⟨?_, fun i => ?_⟩
  · have hseq := h.sequential
    unfold Sequential at hseq
    cases hmu : s.shared.mu with
    | none => rwa [hmu] at hseq
    | some i =>
      obtain ⟨ok, hok⟩ := hall i
      have hlocked := (h.holder i).mpr hmu
      rw [hok] at hlocked
      cases hlocked
  · obtain ⟨ok, hok⟩ := hall i
    exact h.seen i (by rw [hok]; rfl)

/-- **Ring updates linearise by version.**  In every interleaving of calls with any versions
    and nodes: no step lowers the version of the ring; the steps of a call that returns false
    leave the ring as it is; and when all calls have returned, the ring is that of the first
    call to get the lock among those with the highest version, provided that this is above
    the version the ring had, and the old ring otherwise. -/
theorem updates_linearise (u : RingUpdates ι) (ring : VersionedRing) {is : List ι}
    {s : System ι (SharedRing ι) RingPhase} (hrun : Runs u.step (launch ring) is s) :
    (∀ i t, u.step s i = some t → s.shared.ring.version ≤ t.shared.ring.version) ∧
      (∀ i t js v, u.step s i = some t → Runs u.step t js v → v.phase i = .returned false →
        t.shared.ring = s.shared.ring) ∧
      ((∀ i, ∃ ok, s.phase i = .returned ok) →
        ((∀ i, u.version i ≤ ring.version) ∧ s.shared.ring = ring) ∨
        ∃ before i after, s.shared.entered = before ++ i :: after ∧
          ring.version < u.version i ∧ (∀ j, u.version j ≤ u.version i) ∧
          (∀ j ∈ before, u.version j ≠ u.version i) ∧
          s.shared.ring =
            { version := u.version i, data := u.cfg.ringData (u.nodeIDs i) }) := by
  have hinv := inv_of_runs hrun
  refine ⟨fun i t hstep => (hinv.step hstep).2,
    fun i t js v hstep hrest hfalse => ring_eq_of_returned_false hstep hrest hfalse, fun hall => ?_⟩
  obtain ⟨hseq, hhighest⟩ := hinv.of_returned hall
  rcases (u.sequential_cases ring s.shared.entered).2 with
    hsame | ⟨before, i, after, hentered, hnew, hfirst, hring⟩
  · rw [hsame] at hseq
    exact .inl ⟨fun i => hseq ▸ hhighest i, hseq⟩
  · rw [hring] at hseq
    refine .inr ⟨before, i, after, hentered, hnew, fun j => ?_, fun j hj => ?_, hseq⟩
    · have hle := hhighest j
      rwa [hseq] at hle
    · exact Int64.ne_of_lt (hfirst j hj)

/-- One call that brings the nodes of version 5. -/
def single : RingUpdates Unit where
  cfg := VersionedRing.lengthRing
  version _ := 5
  nodeIDs _ := [ascii "a"]

theorem updates_linearise_single :
    ∃ s, Runs single.step (launch VersionedRing.lengthRing.newHashRing) [(), (), (), (), (), ()] s ∧
      s.shared.ring.version = 5 := by
  have hrun : Runs single.step (launch VersionedRing.lengthRing.newHashRing)
      [(), (), (), (), (), ()] _ :=
    .cons trivial (step_alone rfl) (.cons trivial (step_alone rfl) (.cons trivial (step_alone rfl)
      (.cons trivial (step_alone rfl) (.cons trivial (step_alone rfl)
        (.cons trivial (step_alone rfl) (.nil _))))))
  refine ⟨_, hrun, ?_⟩
  rcases (updates_linearise single _ hrun).2.2 fun _ => ⟨true, rfl⟩ with
    ⟨hold, -⟩ | ⟨_, _, _, -, -, -, -, hring⟩
  · exact absurd (hold ()) (by decide)
  · rw [hring]
    rfl

end RingUpdates

end GridKV
