import GridKV.Spec.LocalWrites
import GridKV.Spec.StoreLww

/-!
# Do reads of a key go back in time?

While an entry is there, `Set` and `applyOps` only replace it by a newer version.  But the
version is remembered nowhere else: a read that finds the entry expired removes it, and
then any version is new again.

- `Watched.le_of_read`: as long as whatever is stored while the key has no entry is at least
  as new as everything stored before, no read returns an older version than a stored one.
- `Watched.older_version_read_after_expiry`: a run in which an item expires, is removed by a
  read and is followed by an older one.
-/

namespace GridKV

open Go Run MemStorage

/-- A store, and the versions it has held for the key under observation. -/
structure Watched where
  store : MemStorage
  seen : List Int64

namespace Watched

/-- The calls on the key.  A batch given to `applyOps` is one step for each of its
    operations. -/
inductive Action where
  | set (item : StoredItem)
  | apply (now : Time) (item : StoredItem)
  | get (now : Time)
  | getNoCopy (now : Time)
  | cleanExpired (now : Time)

variable (cfg : NodeConfig) (key : GoString)

/-- The version held for the key. -/
def held (s : MemStorage) : List Int64 := ((entry cfg.store s key).map (·.version)).toList

/-- Begin to watch a store. -/
def watch (s : MemStorage) : Watched where
  store := s
  seen := held cfg key s

/-- The store after a call. -/
def after (s : MemStorage) : Action → MemStorage
  | .set item => (s.set cfg.store key (some item)).1
  | .apply now item => (Gossip.applyOp cfg now s key item).1
  | .get now => (s.get cfg.store now key).1
  | .getNoCopy now => (s.getNoCopy cfg.store now key).1
  | .cleanExpired now => s.cleanExpired cfg.store now

def step (w : Watched) (a : Action) : Option Watched :=
  some
    { store := after cfg key w.store a
      seen := held cfg key (after cfg key w.store a) ++ w.seen }

/-- The item a call hands to `Set`, and the store that `Set` finds; an operation is applied
    after a read that may have removed an expired entry. -/
def offer (s : MemStorage) : Action → Option (MemStorage × StoredItem)
  | .set item => some (s, item)
  | .apply now item =>
    if cfg.isReplica key then
      match s.getNoCopy cfg.store now key with
      | (s, .ok existing) => if existing.version ≥ item.version then none else some (s, item)
      | (s, .error _) => some (s, item)
    else none
  | .get _ => none
  | .getNoCopy _ => none
  | .cleanExpired _ => none

/-- The memory check does not evict the key. -/
def NoEviction (w : Watched) (a : Action) : Prop :=
  ∀ s item, offer cfg key w.store a = some (s, item) →
    entry cfg.store (s.makeRoom cfg.store key (prepareCompressedItem cfg.store item)).1 key =
      entry cfg.store s key

/-- An item that finds no entry of the key is at least as new as all that were stored. -/
def NotOlder (w : Watched) (a : Action) : Prop :=
  ∀ s item, offer cfg key w.store a = some (s, item) → entry cfg.store s key = none →
    ∀ v ∈ w.seen, v ≤ item.version

/-- What is held is at least as new as everything held before. -/
def Newest (w : Watched) : Prop :=
  ∀ e, entry cfg.store w.store key = some e → ∀ v ∈ w.seen, v ≤ e.version

variable {cfg key} {s t : MemStorage} {w u : Watched} {a : Action}

/-- A call at most removes entries, or it is a `Set` after that. -/
theorem after_cases (cfg : NodeConfig) (key : GoString) (s : MemStorage) (a : Action) :
    (∃ r item, offer cfg key s a = some (r, item) ∧ Removes cfg.store s r ∧
      after cfg key s a = (r.set cfg.store key (some item)).1) ∨
    Removes cfg.store s (after cfg key s a) := by
  cases a with
  | set item => exact .inl ⟨s, item, rfl, .refl _ _, rfl⟩
  | apply now item =>
    have hread := removes_getNoCopy cfg.store now s key
    simp only [offer, after, Gossip.applyOp]
    by_cases hreplica : cfg.isReplica key
    · simp only [if_pos hreplica]
      cases hresult : s.getNoCopy cfg.store now key with
      | mk r result =>
        rw [hresult] at hread
        cases result with
        | ok existing =>
          dsimp only
          by_cases hold : existing.version ≥ item.version
          · rw [if_pos hold, if_pos hold]
            exact .inr hread
          · rw [if_neg hold, if_neg hold]
            exact .inl ⟨r, item, rfl, hread, rfl⟩
        | error err => exact .inl ⟨r, item, rfl, hread, rfl⟩
    · simp only [if_neg hreplica]
      exact .inr (.refl _ _)
  | get now => exact .inr (removes_getNoCopy cfg.store now s key)
  | getNoCopy now => exact .inr (removes_getNoCopy cfg.store now s key)
  | cleanExpired now => exact .inr (removes_cleanExpired cfg.store now s)

/-- An entry found after a `Set` was there before, or it is the item and newer than what was
    there. -/
theorem entry_of_entry_set_of_kept {item : StoredItem} {e : CompressedItem}
    (hkept : entry cfg.store
      (s.makeRoom cfg.store key (prepareCompressedItem cfg.store item)).1 key =
        entry cfg.store s key)
    (he : entry cfg.store (s.set cfg.store key (some item)).1 key = some e) :
    entry cfg.store s key = some e ∨
      e.version = item.version ∧
        ∀ old, entry cfg.store s key = some old → old.version < e.version := by
  by_cases hstores : setStores cfg.store s key item
  · obtain ⟨-, hinstalls⟩ := set_of_setStores hstores
    rw [hinstalls.entry_eq, if_pos rfl] at he
    cases he
    refine .inr ⟨rfl, fun old hold => ?_⟩
    simp only [setStores, decide_eq_true_eq] at hstores
    have haccepts := hstores.2.2
    unfold accepts at haccepts
    rw [hkept, hold] at haccepts
    exact of_decide_eq_true haccepts
  · exact .inl ((removes_set_of_not_setStores hstores).entry_of_entry he)

theorem newest_watch (cfg : NodeConfig) (key : GoString) (s : MemStorage) :
    (watch cfg key s).Newest cfg key := by
  intro e he v hv
  simp only [watch, held] at hv he
  rw [he] at hv
  rw [List.mem_singleton.mp hv]
  exact Int64.le_refl _

theorem Newest.step (h : w.Newest cfg key) (hno : w.NoEviction cfg key a)
    (hnew : w.NotOlder cfg key a) (hstep : w.step cfg key a = some u) : u.Newest cfg key := by
  cases hstep
  intro e he v hv
  dsimp only at he hv
  rw [List.mem_append, held, he] at hv
  obtain hnow | hold := hv
  · rw [List.mem_singleton.mp hnow]
    exact Int64.le_refl _
  · -- The entry may be the old one or the item of this call.
    obtain ⟨r, item, hoffer, hread, hafter⟩ | hremoves := after_cases cfg key w.store a
    · rw [hafter] at he
      obtain hkept | ⟨hversion, hnewer⟩ := entry_of_entry_set_of_kept (hno r item hoffer) he
      · exact h e (hread.entry_of_entry hkept) v hold
      · cases hentry : entry cfg.store r key with
        | none =>
          -- The register was empty, so only the guard relates the item to the past.
          rw [hversion]
          exact hnew r item hoffer hentry v hold
        | some old =>
          exact Int64.le_trans (h old (hread.entry_of_entry hentry) v hold)
            (Int64.le_of_lt (hnewer old hentry))
    · exact h e (hremoves.entry_of_entry he) v hold

/-- **Reads do not go back.**  In every run of `Set`s, applied operations and reads of the key,
    at any clock readings and without eviction, in which an item that finds no entry is at
    least as new as everything stored before: no read, now or later, returns a version below
    one that was stored. -/
theorem le_of_read {as : List Action}
    (hrun : GuardedRun (step cfg key)
      (fun w a => w.NoEviction cfg key a ∧ w.NotOlder cfg key a) (watch cfg key s) as w)
    {v : Int64} (hv : v ∈ w.seen) {now : Time} {item : StoredItem}
    (hread : (w.store.get cfg.store now key).2 = .ok item ∨
      (w.store.getNoCopy cfg.store now key).2 = .ok item) : v ≤ item.version := by
  have hnewest : w.Newest cfg key :=
    hrun.invariant (fun _ _ _ h hguard hstep => h.step hguard.1 hguard.2 hstep)
      (newest_watch cfg key s)
  have hnoCopy : (w.store.getNoCopy cfg.store now key).2 = .ok item := hread.elim id id
  obtain ⟨e, he, hversion⟩ := version_of_getNoCopy_eq_ok hnoCopy
  rw [← hversion]
  exact hnewest e he v hv

/-- Version 2 expires at 10. -/
def shortLived : StoredItem := { plainItem 2 "a" with expireAt := 10 }

theorem noEviction_solo_set {w : Watched} {item : StoredItem}
    (hroom : HasMemory oneShard w.store (ascii "k") item) :
    w.NoEviction ClockedNode.solo (ascii "k") (.set item) := by
  intro s x hoffer
  cases hoffer
  exact hroom.roomFor.2 (ascii "k")

theorem notOlder_solo_set {w : Watched} {item : StoredItem}
    (hle : (w.seen.all fun v => v ≤ item.version) = true) :
    w.NotOlder ClockedNode.solo (ascii "k") (.set item) := by
  intro s x hoffer _ v hv
  cases hoffer
  exact of_decide_eq_true (List.all_eq_true.mp hle v hv)

theorem noEviction_get (w : Watched) (now : Time) : w.NoEviction cfg key (.get now) := by
  intro s item hoffer
  cases hoffer

/-- Version 2 is stored, expires and is removed by a read at 20; version 1 is stored after
    that, and a read at 30 returns it. -/
theorem older_version_read_after_expiry :
    ∃ w, GuardedRun (step ClockedNode.solo (ascii "k"))
        (fun w a => w.NoEviction ClockedNode.solo (ascii "k") a)
        (watch ClockedNode.solo (ascii "k") .empty)
        [.set shortLived, .get 20, .set (plainItem 1 "b"), .get 30] w ∧
      2 ∈ w.seen ∧ (w.store.get oneShard 30 (ascii "k")).2 = .ok (plainItem 1 "b") := by
  refine ⟨_, .cons ?_ rfl (.cons ?_ rfl (.cons ?_ rfl (.cons ?_ rfl (.nil _)))), ?_, ?_⟩
  · exact noEviction_solo_set (by unfold HasMemory; decide)
  · exact noEviction_get _ _
  · exact noEviction_solo_set (by unfold HasMemory; decide)
  · exact noEviction_get _ _
  · decide
  · decide

/-- After the same expiry, an item of version 3 is read. -/
theorem newer_version_read_after_expiry :
    ∃ w : Watched, 2 ∈ w.seen ∧
      (w.store.get oneShard 30 (ascii "k")).2 = .ok (plainItem 3 "c") ∧
      (2 : Int64) ≤ (plainItem 3 "c").version := by
  have hrun : ∃ w, GuardedRun (step ClockedNode.solo (ascii "k"))
      (fun w a => w.NoEviction ClockedNode.solo (ascii "k") a ∧
        w.NotOlder ClockedNode.solo (ascii "k") a)
      (watch ClockedNode.solo (ascii "k") .empty)
      [.set shortLived, .get 20, .set (plainItem 3 "c")] w ∧ 2 ∈ w.seen ∧
      (w.store.get oneShard 30 (ascii "k")).2 = .ok (plainItem 3 "c") := by
    refine ⟨_, .cons ⟨?_, ?_⟩ rfl (.cons ⟨?_, ?_⟩ rfl (.cons ⟨?_, ?_⟩ rfl (.nil _))), ?_, ?_⟩
    · exact noEviction_solo_set (by unfold HasMemory; decide)
    · exact notOlder_solo_set rfl
    · exact noEviction_get _ _
    · intro s item hoffer
      cases hoffer
    · exact noEviction_solo_set (by unfold HasMemory; decide)
    · exact notOlder_solo_set rfl
    · decide
    · decide
  obtain ⟨w, hrun, hseen, hread⟩ := hrun
  exact ⟨w, hseen, hread, le_of_read hrun hseen (.inl hread)⟩

end Watched

end GridKV
