import GridKV.Model.BulkRead
import GridKV.Spec.ConsistencyLevels
import GridKV.Spec.StoreLww

/-!
# Is a bulk read complete?

`BatchGet` submits one task per key and stops submitting at the first one that the executor
refuses.  The keys behind it are not read, and the error is dropped: the caller cannot tell
a key that was not read from one that is not there.

The tasks do not disturb each other.  A read changes the store only by dropping an entry that
has expired, which no read would return (`unexpired_get`), so in whatever order the tasks run
each of them finds what `Get` would have found before the call.
-/

namespace GridKV

open Go MemStorage

/-! ### Reads do not disturb reads -/

/-- The entry of a key, unless it has expired. -/
def unexpired (cfg : StoreConfig) (now : Time) (s : MemStorage) (key : GoString) :
    Option CompressedItem :=
  (entry cfg s key).filter fun e => ¬ expiredAt now e

/-- A read drops nothing but an expired entry. -/
theorem unexpired_get (cfg : StoreConfig) (now : Time) (s : MemStorage) (key k : GoString) :
    unexpired cfg now (s.get cfg now key).1 k = unexpired cfg now s k := by
  by_cases hkey : key = []
  · simp only [MemStorage.get, getNoCopy, if_pos hkey]
  · by_cases hfresh : Unexpired cfg now s key
    · unfold unexpired
      rw [MemStorage.get, (getNoCopy_fst_of_unexpired hfresh).1 k]
    · unfold Unexpired at hfresh
      push Not at hfresh
      obtain ⟨e, he, hexpired⟩ := hfresh
      rw [ne_eq, Bool.not_eq_false] at hexpired
      have hlookup : (s.shards (cfg.shardIndex key)).data.lookup key = some e := he
      have hstore : (s.get cfg now key).1 = ((s.erase (cfg.shardIndex key) key).addStats
          (cfg.shardIndex key) { keys := -1 }).removeFromLRU (cfg.shardIndex key) key := by
        simp only [MemStorage.get, getNoCopy, if_neg hkey, hlookup, if_pos hexpired]
      unfold unexpired
      rw [hstore, entry_removeFromLRU, entry_addStats, entry_erase]
      split
      · rename_i hk
        rw [hk.1, he]
        simp [Option.filter, hexpired]
      · rfl

/-- A read of a key without an unexpired entry. -/
theorem get_of_unexpired_eq_none {cfg : StoreConfig} {now : Time} {s : MemStorage}
    {key : GoString} (hkey : key ≠ []) (h : unexpired cfg now s key = none) :
    ∃ err, (err = .notFound ∨ err = .expired) ∧ (s.get cfg now key).2 = .error err := by
  simp only [MemStorage.get, getNoCopy, if_neg hkey]
  cases hentry : (s.shards (cfg.shardIndex key)).data.lookup key with
  | none => exact ⟨.notFound, .inl rfl, rfl⟩
  | some e =>
    have hexpired : expiredAt now e = true := by
      rw [unexpired, entry, hentry] at h
      simpa [Option.filter] using h
    simp only [if_pos hexpired]
    exact ⟨.expired, .inr rfl, rfl⟩

namespace Reader

variable {cfg : ReaderConfig} {now : Time} {s s' : MemStorage} {alive : GoString → Bool}
  {fetch : GoString → Option (Option StoredItem)} {key : GoString}

theorem get_fst : (get cfg now s alive fetch key).1 = (s.get cfg.store now key).1 := by
  unfold get
  split
  · rename_i h
    rw [h]
  · rename_i h
    rw [h]
    split <;> rfl

/-- What `Get` returns depends on the store only through the entry of the key, and an expired
    one is as good as none. -/
theorem get_snd :
    (get cfg now s alive fetch key).2 =
      if key = [] then .error .emptyKey
      else
        match unexpired cfg.store now s key with
        | none => .ok (firstLive fetch ((cfg.ring.getN key cfg.replicaCount).filter fun target =>
            target ≠ cfg.nodeID ∧ alive target))
        | some e =>
          match valueOf cfg.store e with
          | none => .error .decompressFailed
          | some value => .ok (some
              { version := e.version, expireAt := e.expireAt, value, key := [] }) := by
  unfold get MemStorage.get getNoCopy
  by_cases hkey : key = []
  · simp [hkey]
  · simp only [if_neg hkey]
    cases hentry : (s.shards (cfg.store.shardIndex key)).data.lookup key with
    | none =>
      have hnone : unexpired cfg.store now s key = none := by
        rw [unexpired, entry, hentry]
        rfl
      simp [hnone]
    | some e =>
      by_cases hexpired : expiredAt now e
      · have hnone : unexpired cfg.store now s key = none := by
          rw [unexpired, entry, hentry]
          simp [Option.filter, hexpired]
        simp [hnone, hexpired]
      · have hsome : unexpired cfg.store now s key = some e := by
          rw [unexpired, entry, hentry]
          simp [Option.filter, hexpired]
        simp only [hsome, if_neg hexpired]
        cases valueOf cfg.store e <;> simp

theorem get_snd_congr (h : unexpired cfg.store now s' key = unexpired cfg.store now s key) :
    (get cfg now s' alive fetch key).2 = (get cfg now s alive fetch key).2 := by
  rw [get_snd, get_snd, h]

end Reader

namespace BatchEnv

variable {env : BatchEnv} {s : MemStorage} {key : GoString} {keys : List GoString}

/-- A `Get` before another one changes nothing about its answer. -/
theorem get_get (k : GoString) : (env.get (env.get s key).1 k).2 = (env.get s k).2 := by
  apply Reader.get_snd_congr
  rw [get, Reader.get_fst, unexpired_get]

/-! ### The result -/

/-- A task sends its result exactly when `Get` returns an item. -/
theorem mem_runTasks {item : StoredItem} :
    (key, item) ∈ (env.runTasks s keys).2 ↔
      key ∈ keys ∧ (env.get s key).2 = .ok (some item) := by
  induction keys generalizing s with
  | nil => simp [runTasks]
  | cons k keys ih =>
    have hrest : (key, item) ∈ (env.runTasks (env.get s k).1 keys).2 ↔
        key ∈ keys ∧ (env.get s key).2 = .ok (some item) := by
      rw [ih, get_get]
    simp only [runTasks]
    split
    · rename_i found hfound
      rw [List.mem_cons, hrest, List.mem_cons, Prod.mk.injEq, or_and_right]
      refine or_congr_left ⟨?_, ?_⟩
      · rintro ⟨rfl, rfl⟩
        exact ⟨rfl, hfound⟩
      · rintro ⟨rfl, hitem⟩
        exact ⟨rfl, Option.some.inj (Except.ok.inj (hitem.symm.trans hfound))⟩
    · rename_i hnone
      rw [hrest, List.mem_cons, or_and_right, or_iff_right]
      rintro ⟨rfl, hitem⟩
      exact hnone item hitem

/-- The loop that fills the map. -/
theorem mem_foldl_insert {results : List (GoString × StoredItem)} {m : GoMap StoredItem} :
    key ∈ results.foldl (fun result res => result.insert res.1 res.2) m ↔
      key ∈ m ∨ ∃ item, (key, item) ∈ results := by
  induction results generalizing m with
  | nil => simp
  | cons res results ih =>
    rw [List.foldl_cons, ih, AList.mem_insert]
    constructor
    · rintro ((rfl | hmem) | ⟨item, hmem⟩)
      · exact .inr ⟨res.2, List.mem_cons_self⟩
      · exact .inl hmem
      · exact .inr ⟨item, List.mem_cons_of_mem _ hmem⟩
    · rintro (hmem | ⟨item, hmem⟩)
      · exact .inl (.inr hmem)
      · obtain heq | hmem := List.mem_cons.mp hmem
        · exact .inl (.inl (congrArg Prod.fst heq))
        · exact .inr ⟨item, hmem⟩

/-- `Get` of the key returns an item. -/
def Finds (env : BatchEnv) (s : MemStorage) (key : GoString) : Prop :=
  ∃ item, (env.get s key).2 = .ok (some item)

/-- The result holds the keys that were submitted and are found. -/
theorem mem_batchGet {result : GoMap StoredItem} (h : (env.batchGet s keys).2 = .ok result) :
    key ∈ result ↔ key ∈ ReadEnv.submitted env.accepts keys ∧ env.Finds s key := by
  unfold batchGet at h
  by_cases hkeys : keys = []
  · rw [if_pos hkeys] at h
    cases h
    rw [hkeys]
    exact iff_of_false (AList.notMem_empty key) fun hmem => nomatch hmem.1
  · rw [if_neg hkeys] at h
    cases h
    rw [mem_foldl_insert, or_iff_right (AList.notMem_empty key)]
    unfold Finds
    simp only [(env.arrive_perm _).mem_iff, mem_runTasks, (env.order_perm _).mem_iff,
      exists_and_left]

/-- If the call returns no error, the result contains a listed key exactly when `Get` of it
    returns an item. -/
def Complete (env : BatchEnv) (s : MemStorage) (keys : List GoString) : Prop :=
  ∀ result, (env.batchGet s keys).2 = .ok result →
    ∀ key ∈ keys, key ∈ result ↔ env.Finds s key

/-- **Bulk reads.**  A bulk read is complete if and only if every listed key that `Get` finds is
    submitted before the executor refuses a task. -/
theorem batchGet_complete_iff (env : BatchEnv) (s : MemStorage) (keys : List GoString) :
    env.Complete s keys ↔
      ∀ key ∈ keys, env.Finds s key → key ∈ ReadEnv.submitted env.accepts keys := by
  constructor
  · intro h key hkey hfinds
    obtain ⟨result, hresult⟩ : ∃ result, (env.batchGet s keys).2 = .ok result := by
      unfold batchGet
      split <;> exact ⟨_, rfl⟩
    exact ((mem_batchGet hresult).mp ((h result hresult key hkey).mpr hfinds)).1
  · intro h result hresult key hkey
    rw [mem_batchGet hresult]
    exact and_iff_right_of_imp (h key hkey)

/-- The three replicas of `threeReplicas`, read through a queue with room for one task. -/
def queueForOne : BatchEnv where
  cfg := ReadEnv.threeReplicas.cfg
  now := 0
  alive _ := true
  fetch _ := ReadEnv.threeReplicas.fetch
  accepts i := i < 1
  order keys := keys
  order_perm _ := .refl _
  arrive results := results
  arrive_perm _ := .refl _

/-- The second of two keys is there, and it is missing from the result. -/
theorem batchGet_misses_key :
    (queueForOne.get .empty (ascii "b")).2 = .ok (some (plainItem 1 "a")) ∧
      (∃ result, (queueForOne.batchGet .empty [ascii "a", ascii "b"]).2 = .ok result ∧
        result.keys = [ascii "a"]) ∧
      ¬ queueForOne.Complete .empty [ascii "a", ascii "b"] := by
  have hget : (queueForOne.get .empty (ascii "b")).2 = .ok (some (plainItem 1 "a")) := rfl
  obtain ⟨result, hresult, hkeys⟩ : ∃ result,
      (queueForOne.batchGet .empty [ascii "a", ascii "b"]).2 = .ok result ∧
        result.keys = [ascii "a"] := ⟨_, rfl, rfl⟩
  refine ⟨hget, ⟨result, hresult, hkeys⟩, fun hcomplete => ?_⟩
  have hmem := (hcomplete result hresult (ascii "b") (by decide)).mpr ⟨_, hget⟩
  exact absurd ((mem_batchGet hresult).mp hmem).1 (by decide)

end BatchEnv

end GridKV
