import GridKV.Spec.ExpiryRace
import GridKV.Spec.HonestCounters

/-!
# Is expiry counted once?

Any number of `Get`, `GetNoCopy`, `BatchGet` and `BatchGetNoCopy` calls run concurrently on one
key.  Each looks at the entry, deletes the key if the entry has expired and then takes one off
`totalKeys`, without asking whether the deletion has found anything.  What the counter loses and
what the map loses are balanced up to the deletions that came too late (`Balanced`), so the
decrease is right exactly in the runs without such a deletion.
-/

namespace GridKV

open Go Run Interleave MemStorage

/-- Calls that read one key, each with the time it compares with. -/
structure ExpiringReads (ι : Type) where
  store : StoreConfig
  key : GoString
  call : ι → ExpiringCall
  now : ι → Time
  reads : ∀ i, call i ≠ .cleanExpired

namespace ExpiringReads

variable {ι : Type}

/-- The calls and the store they share. -/
abbrev State (ι : Type) := System ι (SharedStore ι) ExpiryPhase

def step [DecidableEq ι] (cfg : ExpiringReads ι) : State ι → ι → Option (State ι) :=
  Interleave.step fun i => expiryStep cfg.store cfg.key (cfg.call i) (cfg.now i)

/-- All calls are at their beginning. -/
def start (store : MemStorage) : State ι where
  shared := { store }
  phase _ := .load

/-- A deletion finds an entry. -/
def Finds (cfg : ExpiringReads ι) (s : State ι) (i : ι) : Prop :=
  s.phase i = .delete → entry cfg.store s.shared.store cfg.key ≠ none

/-- The decrease of `totalKeys` is the number of entries that were removed from the map. -/
def CountedOnce (cfg : ExpiringReads ι) (s t : MemStorage) : Prop :=
  s.totals.keys - t.totals.keys = Int64.ofNat (stored cfg.store s - stored cfg.store t)

variable {cfg : ExpiringReads ι} {store : MemStorage} {s t : State ι} {i : ι} {misses : Nat}

/-! ### Steps -/

/-- Between its deletion and the counter. -/
def counting : ExpiryPhase → Nat
  | .uncount _ => 1
  | _ => 0

/-- Before its deletion. -/
def waiting : ExpiryPhase → Nat
  | .load | .delete => 1
  | _ => 0

/-- What one step of a call does to the map and the counter of keys. -/
inductive ReadMove (cfg : ExpiringReads ι) :
    MemStorage → ExpiryPhase → MemStorage → ExpiryPhase → Prop
  /-- Nothing: `Load`, or a section under the lock of the list. -/
  | quiet {s t : MemStorage} {p q : ExpiryPhase} (hstored : stored cfg.store t = stored cfg.store s)
      (hkeys : t.totals.keys = s.totals.keys) (hp : p ≠ .delete) (hcounting : counting p = 0)
      (hcounting' : counting q = 0) (hwaiting : waiting q ≤ waiting p) : ReadMove cfg s p t q
  | delete {s t : MemStorage} (hstored : stored cfg.store t +
        (if entry cfg.store s cfg.key = none then 0 else 1) = stored cfg.store s)
      (hkeys : t.totals.keys = s.totals.keys) :
      ReadMove cfg s .delete t (.uncount { keys := -1 })
  | uncount {s t : MemStorage} (change : Counters)
      (hstored : stored cfg.store t = stored cfg.store s)
      (hkeys : t.totals.keys = s.totals.keys + change.keys) :
      ReadMove cfg s (.uncount change) t .unlink

/-- A deletion removes one entry if it finds one. -/
theorem stored_erase (cfg : StoreConfig) (s : MemStorage) (key : GoString) :
    stored cfg (s.erase (cfg.shardIndex key) key) +
      (if entry cfg s key = none then 0 else 1) = stored cfg s := by
  rw [stored_eq_weight, stored_eq_weight]
  cases he : entry cfg s key with
  | none =>
    have hsame : (s.shards (cfg.shardIndex key)).data.erase key =
        (s.shards (cfg.shardIndex key)).data :=
      AList.ext (List.kerase_of_notMem_keys (AList.lookup_eq_none.mp he))
    rw [if_pos rfl, erase, weight_modifyShard_of_data hsame]
    rfl
  | some e =>
    rw [if_neg (Option.some_ne_none e)]
    exact weight_erase (shardIndex_lt cfg key) he

theorem readMove_of_expiryStep {call : ExpiringCall} (hreads : call ≠ .cleanExpired) {now : Time}
    {x y : SharedStore ι} {p q : ExpiryPhase}
    (h : expiryStep cfg.store cfg.key call now x p = some (y, q)) :
    ReadMove cfg x.store p y.store q := by
  cases p with
  | load =>
    simp only [expiryStep] at h
    repeat' split at h
    all_goals
      cases h
      exact .quiet rfl rfl ExpiryPhase.noConfusion rfl rfl (by decide)
  | delete =>
    simp only [expiryStep] at h
    split at h
    · exact absurd rfl hreads
    all_goals
      cases h
      exact .delete (stored_erase cfg.store x.store cfg.key) rfl
  | uncount change =>
    cases h
    refine .uncount change ?_ rfl
    rw [stored_eq_weight, stored_eq_weight, weight_addStats]
  | unlink =>
    cases h
    refine .quiet ?_ rfl ExpiryPhase.noConfusion rfl rfl (Nat.le_refl 0)
    rw [stored_eq_weight, stored_eq_weight, weight_removeFromLRU]
  | touch =>
    cases h
    refine .quiet ?_ rfl ExpiryPhase.noConfusion rfl rfl (Nat.le_refl 0)
    rw [stored_eq_weight, stored_eq_weight, weight_touchLRU]
  | done => cases h

/-! ### The balance -/

variable [Fintype ι]

/-- What the counter of keys has lost, the map has lost or is a miss, but for the calls that have
    yet to come to the counter. -/
structure Balanced (cfg : ExpiringReads ι) (store : MemStorage) (misses : Nat) (s : State ι) :
    Prop where
  keys : s.shared.store.totals.keys + .ofNat (misses + stored cfg.store store) =
    store.totals.keys + .ofNat (stored cfg.store s.shared.store + tally counting s.phase)
  stored_le : stored cfg.store s.shared.store ≤ stored cfg.store store
  few : misses + tally waiting s.phase ≤ Fintype.card ι
  change : ∀ i, ∀ change, s.phase i = .uncount change → change = { keys := -1 }

theorem balanced_start (cfg : ExpiringReads ι) (store : MemStorage) :
    Balanced cfg store 0 (start store) where
  keys := by
    have hnone : tally counting (start store : State ι).phase = Fintype.card ι * 0 :=
      tally_const fun _ => rfl
    rw [hnone, Nat.zero_add]
    rfl
  stored_le := Nat.le_refl _
  few := by
    have hall : tally waiting (start store : State ι).phase = Fintype.card ι * 1 :=
      tally_const fun _ => rfl
    omega
  change _ _ h := by cases h

/-- Only the misses are counted wrongly. -/
theorem countedOnce_of_balanced (h : Balanced cfg store misses t)
    (hsettled : ∀ i change, t.phase i ≠ .uncount change) :
    CountedOnce cfg store t.shared.store ↔ Int64.ofNat misses = 0 := by
  have hzero : tally counting t.phase = Fintype.card ι * 0 := by
    refine tally_const fun i => ?_
    unfold counting
    split
    · rename_i change hp
      exact absurd hp (hsettled i change)
    · rfl
  have hkeys := h.keys
  have hremoved := congrArg Int64.ofNat (Nat.sub_add_cancel h.stored_le)
  rw [hzero, Nat.mul_zero, Nat.add_zero, Int64.ofNat_add] at hkeys
  rw [Int64.ofNat_add] at hremoved
  unfold CountedOnce
  constructor
  · intro hcounted
    grind only
  · intro hnone
    grind only

variable [DecidableEq ι] {as : List ι}

/-- A step keeps the balance, with one miss more if it is a deletion that finds nothing. -/
theorem Balanced.step (h : Balanced cfg store misses s) (hstep : cfg.step s i = some t) :
    (Finds cfg s i → Balanced cfg store misses t) ∧
      (¬ Finds cfg s i → Balanced cfg store (misses + 1) t) := by
  obtain ⟨q, hact, hphase⟩ := step_eq_some hstep
  have hmove := readMove_of_expiryStep (cfg.reads i) hact
  have hcounting := tally_step counting hphase
  have hwaiting := tally_step waiting hphase
  obtain ⟨hkeys, hle, hfew, hchange⟩ := h
  have hchange' : (∀ change, q = .uncount change → change = { keys := -1 }) →
      ∀ j change, t.phase j = .uncount change → change = { keys := -1 } :=
    forall_phase_update (J := fun _ p => ∀ change, p = .uncount change → change = _) hphase hchange
  have hmine := hchange i
  unfold Finds
  generalize s.phase i = p at *
  cases hmove with
  | quiet hstored hsame hp hnone hnone' hless =>
    rw [hnone, hnone'] at hcounting
    refine ⟨fun _ => ⟨?_, ?_, ?_, ?_⟩, fun hmiss => absurd (fun hp' => absurd hp' hp) hmiss⟩
    · rw [hsame, hkeys]
      congr 2
      omega
    · omega
    · omega
    · refine hchange' fun change hq => ?_
      rw [hq] at hnone'
      cases hnone'
  | delete hstored hsame =>
    simp only [counting, waiting] at hcounting hwaiting
    have hown : ∀ j change, t.phase j = .uncount change → change = { keys := -1 } :=
      hchange' fun change hq => (ExpiryPhase.uncount.inj hq).symm
    constructor
    · intro hfinds
      rw [if_neg (hfinds rfl)] at hstored
      refine ⟨?_, by omega, by omega, hown⟩
      rw [hsame, hkeys]
      congr 2
      omega
    · intro hmiss
      have hnone : entry cfg.store s.shared.store cfg.key = none := by
        by_contra hsome
        exact hmiss fun _ => hsome
      rw [if_pos hnone] at hstored
      refine ⟨?_, by omega, by omega, hown⟩
      rw [hsame, Nat.add_right_comm, Int64.ofNat_add, ← Int64.add_assoc, hkeys, Int64.add_assoc,
        ← Int64.ofNat_add]
      congr 2
      omega
  | uncount change hstored hless =>
    simp only [counting, waiting, Nat.add_zero] at hcounting hwaiting
    refine ⟨fun _ => ⟨?_, by omega, by omega, ?_⟩,
      fun hmiss => absurd ExpiryPhase.noConfusion hmiss⟩
    · have hone : Int64.ofNat (stored cfg.store s.shared.store + tally counting s.phase) =
          Int64.ofNat (stored cfg.store t.shared.store + tally counting t.phase) + 1 := by
        rw [← hcounting, ← hstored, ← Nat.add_assoc, Int64.ofNat_add]
        rfl
      rw [hone] at hkeys
      rw [hless, hmine change rfl]
      grind only
    · exact hchange' fun change hq => by cases hq

/-- **Expiry and the counter.**  Once no call is between its deletion and the counter, `totalKeys`
    has decreased by the number of entries removed from the map if every deletion has found an
    entry; and only then, as long as there are fewer calls than the counter has values. -/
theorem countedOnce_of_guardedRun (hrun : Runs cfg.step (start store) as t)
    (hsettled : ∀ i change, t.phase i ≠ .uncount change) :
    (GuardedRun cfg.step (Finds cfg) (start store) as t →
        CountedOnce cfg store t.shared.store) ∧
      (Fintype.card ι < 2 ^ 64 → CountedOnce cfg store t.shared.store →
        GuardedRun cfg.step (Finds cfg) (start store) as t) := by
  constructor
  · intro hguarded
    have hend := hguarded.invariant (I := Balanced cfg store 0)
      (fun s i t h hfinds hstep => (h.step hstep).1 hfinds) (balanced_start cfg store)
    exact (countedOnce_of_balanced hend hsettled).mpr rfl
  · intro hcard hcounted
    refine guardedRun_of_not_bad (Balanced cfg store 0)
      (fun s => ∃ misses, 0 < misses ∧ Balanced cfg store misses s)
      (fun s i t h hstep => ?_) (fun s i t h hstep => ?_) hrun (balanced_start cfg store) ?_
    · obtain ⟨hfound, hmissed⟩ := h.step hstep
      exact ⟨hfound, fun hmiss => ⟨1, Nat.one_pos, hmissed hmiss⟩⟩
    · obtain ⟨misses, hpos, hbalanced⟩ := h
      obtain ⟨hfound, hmissed⟩ := hbalanced.step hstep
      by_cases hfinds : Finds cfg s i
      · exact ⟨misses, hpos, hfound hfinds⟩
      · exact ⟨misses + 1, Nat.succ_pos misses, hmissed hfinds⟩
    · rintro ⟨misses, hpos, hbalanced⟩
      have hzero := (countedOnce_of_balanced hbalanced hsettled).mp hcounted
      have hfew := hbalanced.few
      have hmod : (Int64.ofNat misses).toBitVec.toNat = 0 := by rw [hzero]; rfl
      rw [Int64.toBitVec_ofNat', BitVec.toNat_ofNat] at hmod
      omega

/-- Two `Get` calls on a key that has expired. -/
def twoGets : ExpiringReads Bool where
  store := oneShard
  key := ascii "k"
  call _ := .get
  now _ := 2
  reads _ h := by cases h

/-- The second call comes when the first one has returned. -/
theorem countedOnce_one_by_one : ∃ t,
    Runs twoGets.step (start ExpiryRace.expiredStore) [true, true, true, true, false] t ∧
      CountedOnce twoGets ExpiryRace.expiredStore t.shared.store := by
  have hguarded : ∃ t : State Bool,
      GuardedRun twoGets.step (Finds twoGets) (start ExpiryRace.expiredStore)
        [true, true, true, true, false] t ∧ ∀ i, t.phase i = .done := by
    refine ⟨_, .cons ExpiryPhase.noConfusion rfl (.cons (fun _ => Option.some_ne_none _) rfl
      (.cons ExpiryPhase.noConfusion rfl (.cons ExpiryPhase.noConfusion rfl
        (.cons ExpiryPhase.noConfusion rfl (.nil _))))), fun i => ?_⟩
    cases i <;> rfl
  obtain ⟨t, hrun, hdone⟩ := hguarded
  refine ⟨t, hrun.runs, (countedOnce_of_guardedRun hrun.runs fun i change hp => ?_).1 hrun⟩
  rw [hdone i] at hp
  cases hp

/-- Both calls look at the entry before one of them deletes it: one entry is removed, and
    `totalKeys` goes from one to minus one. -/
theorem not_countedOnce_together :
    ¬ ∀ (ι : Type) (_ : DecidableEq ι) (_ : Fintype ι) (cfg : ExpiringReads ι)
      (store : MemStorage) (e : CompressedItem) (as : List ι) (t : State ι),
      entry cfg.store store cfg.key = some e → (∀ i, (cfg.call i).expired (cfg.now i) e) →
      Runs cfg.step (start store) as t → (∀ i, t.phase i = .done) →
      CountedOnce cfg store t.shared.store := by
  intro hall
  have hrun : ∃ t : State Bool, Runs twoGets.step (start ExpiryRace.expiredStore)
      [true, false, true, false, true, false, true, false] t ∧ (∀ i, t.phase i = .done) ∧
      ¬ CountedOnce twoGets ExpiryRace.expiredStore t.shared.store := by
    refine ⟨_, runs_of_exec rfl, ?_, ?_⟩
    · intro i
      cases i <;> rfl
    · unfold CountedOnce
      decide
  obtain ⟨t, hrun, hdone, hwrong⟩ := hrun
  exact hwrong (hall Bool _ inferInstance twoGets ExpiryRace.expiredStore _ _ t rfl (by decide)
    hrun hdone)

/-! ### A call by itself -/

/-- A batch that is not interrupted does to the key what it does in the sequential store. -/
theorem runs_batchGet_alone (cfg : ExpiringReads Unit)
    (hcall : cfg.call () = .batchGet ∨ cfg.call () = .batchGetNoCopy) (store : MemStorage)
    (result : GoMap StoredItem) : ∃ as t, Runs cfg.step (start store) as t ∧
      t.shared.store = (batchGetKey cfg.store (cfg.now ()) (store, result) cfg.key).1 ∧
      t.phase () = .done := by
  have hexpired : (cfg.call ()).expired (cfg.now ()) = expiredBy (cfg.now ()) := by
    obtain h | h := hcall <;> rw [h] <;> rfl
  obtain ⟨as, hrun⟩ := exists_runs_of_alone (alone_expiryStep (cfg.reads ()) { store })
  rw [hexpired, ← batchGetKey_fst (store, result)] at hrun
  exact ⟨as, _, hrun, rfl, rfl⟩

end ExpiringReads

end GridKV
