import GridKV.ForStd.Run
import GridKV.Model.MemStorage

/-!
# What the methods of the store are made of

The methods of the store do only a few things to the map, the list and the counters of a shard
(`StoreMove`), and each of them is a sequence of such moves (`Path`).  For every method there is
one lemma that says which moves it makes.  What the moves preserve is preserved by all methods
(`Path.invariant`), so that an invariant of the store needs no induction over its loops.
-/

namespace GridKV

open Go Run List

namespace MemStorage

variable {cfg : StoreConfig} {s t u : MemStorage} {i : Nat} {key : GoString} {e : CompressedItem}

/-- The entry of a key. -/
def entry (cfg : StoreConfig) (s : MemStorage) (key : GoString) : Option CompressedItem :=
  (s.shards (cfg.shardIndex key)).data.lookup key

/-- `t` has no entry that `s` does not have. -/
def Shrinks (s t : MemStorage) : Prop :=
  ∀ i k e, (t.shards i).data.lookup k = some e → (s.shards i).data.lookup k = some e

theorem Shrinks.refl (s : MemStorage) : Shrinks s s := fun _ _ _ h => h

theorem Shrinks.trans (h : Shrinks s t) (h' : Shrinks t u) : Shrinks s u :=
  fun i k e hu => h i k e (h' i k e hu)

theorem and_shardMask_lt (cfg : StoreConfig) (x : UInt64) :
    (x &&& cfg.shardMask).toNat < cfg.shardCount := by
  rw [UInt64.toNat_and]
  exact Nat.lt_succ_of_le Nat.and_le_right

theorem shardIndex_lt (cfg : StoreConfig) (key : GoString) :
    cfg.shardIndex key < cfg.shardCount := and_shardMask_lt cfg _

theorem modifyShard_self (s : MemStorage) (i : Nat) (f : Shard → Shard) :
    (s.modifyShard i f).shards i = f (s.shards i) := by
  simp [modifyShard]

theorem modifyShard_of_ne (s : MemStorage) {i j : Nat} (f : Shard → Shard) (h : j ≠ i) :
    (s.modifyShard i f).shards j = s.shards j := by
  simp [modifyShard, h]

theorem lookup_removeFromLRU (j : Nat) (k : GoString) :
    ((s.removeFromLRU i key).shards j).data.lookup k = (s.shards j).data.lookup k := by
  by_cases hj : j = i
  · subst hj
    rw [removeFromLRU, modifyShard_self]
  · rw [removeFromLRU, modifyShard_of_ne s _ hj]

theorem lookup_erase (i : Nat) (key : GoString) (j : Nat) (k : GoString) :
    ((s.erase i key).shards j).data.lookup k =
      if j = i ∧ k = key then none else (s.shards j).data.lookup k := by
  by_cases hj : j = i
  · subst hj
    rw [erase, modifyShard_self]
    by_cases hk : k = key
    · rw [hk, AList.lookup_erase, if_pos ⟨rfl, rfl⟩]
    · rw [AList.lookup_erase_ne hk, if_neg fun h => hk h.2]
  · rw [erase, modifyShard_of_ne s _ hj, if_neg fun h => hj h.1]

theorem lookup_addStats (d : Counters) (j : Nat) (k : GoString) :
    ((s.addStats i d).shards j).data.lookup k = (s.shards j).data.lookup k := by
  by_cases hj : j = i
  · subst hj
    simp [addStats, modifyShard]
  · simp [addStats, modifyShard, Function.update_of_ne hj]

theorem lookup_touchLRU (j : Nat) (k : GoString) :
    ((s.touchLRU i key).shards j).data.lookup k = (s.shards j).data.lookup k := by
  by_cases hj : j = i
  · subst hj
    rw [touchLRU, modifyShard_self]
  · rw [touchLRU, modifyShard_of_ne s _ hj]

theorem lookup_drainShard (j : Nat) (k : GoString) :
    ((s.drainShard i).shards j).data.lookup k = (s.shards j).data.lookup k := by
  by_cases hj : j = i
  · subst hj
    rw [drainShard, modifyShard_self]
  · rw [drainShard, modifyShard_of_ne s _ hj]

theorem lookup_eraseItem (j : Nat) (k : GoString) :
    ((s.eraseItem i key e).shards j).data.lookup k =
      if j = i ∧ k = key then none else (s.shards j).data.lookup k := by
  rw [eraseItem, lookup_addStats, lookup_erase]

/-- The order in which an entry leaves the map and the list does not matter. -/
theorem eraseItem_removeFromLRU (k : GoString) :
    (s.removeFromLRU i k).eraseItem i key e = (s.eraseItem i key e).removeFromLRU i k := by
  simp [eraseItem, removeFromLRU, erase, addStats, modifyShard, Function.update_idem]

/-! ### Moves -/

/-- What is done to a store. -/
inductive StoreMove where
  /-- Store an item, count it and put its key in front. -/
  | install (key : GoString) (compItem : CompressedItem)
  /-- Remove an entry with its share of all the counters. -/
  | drop (i : Nat) (key : GoString)
  /-- Remove an entry, and of the counters adjust only the number of keys. -/
  | expire (key : GoString)
  /-- Remove an entry from the map, and from nothing else. -/
  | forget (i : Nat) (key : GoString)
  /-- Put a stored key in front. -/
  | touch (key : GoString)
  /-- Take a key that is not stored out of the list. -/
  | unlist (i : Nat) (key : GoString)
  /-- Replace the pending operations of a shard. -/
  | queue (i : Nat) (ops : RingBuffer SyncOperation syncCapacity)
  /-- Turn to another shard for eviction. -/
  | rotate (idx : UInt64)
  | clear

/-- The counters change by the new item, or by the difference to the one it replaces. -/
def installCounters (key : GoString) (compItem : CompressedItem) :
    Option CompressedItem → Counters
  | none => itemCounters key compItem
  | some old => replaceCounters key old compItem

def move (cfg : StoreConfig) (s : MemStorage) : StoreMove → Option MemStorage
  | .install key compItem =>
    let i := cfg.shardIndex key
    some (((s.store i key compItem).addStats i
      (installCounters key compItem ((s.shards i).data.lookup key))).touchLRU i key)
  | .drop i key =>
    if i < cfg.shardCount then
      ((s.shards i).data.lookup key).map fun compItem =>
        (s.eraseItem i key compItem).removeFromLRU i key
    else none
  | .expire key =>
    let i := cfg.shardIndex key
    ((s.shards i).data.lookup key).map fun _ =>
      ((s.erase i key).addStats i { keys := -1 }).removeFromLRU i key
  | .forget i key =>
    if i < cfg.shardCount then ((s.shards i).data.lookup key).map fun _ => s.erase i key else none
  | .touch key =>
    let i := cfg.shardIndex key
    ((s.shards i).data.lookup key).map fun _ => s.touchLRU i key
  | .unlist i key =>
    if (s.shards i).data.lookup key = none then some (s.removeFromLRU i key) else none
  | .queue i ops => some (s.modifyShard i fun shard => { shard with syncBuffer := ops })
  | .rotate idx => some { s with evictShardIdx := idx }
  | .clear => some (s.clear cfg)

/-- What a move has found and what it leaves behind. -/
inductive Moved (cfg : StoreConfig) (s : MemStorage) : StoreMove → MemStorage → Prop
  | install (key : GoString) (compItem : CompressedItem) :
      Moved cfg s (.install key compItem)
        (((s.store (cfg.shardIndex key) key compItem).addStats (cfg.shardIndex key)
          (installCounters key compItem
            ((s.shards (cfg.shardIndex key)).data.lookup key))).touchLRU (cfg.shardIndex key) key)
  | drop (i : Nat) (key : GoString) (e : CompressedItem) (hi : i < cfg.shardCount)
      (he : (s.shards i).data.lookup key = some e) :
      Moved cfg s (.drop i key) ((s.eraseItem i key e).removeFromLRU i key)
  | expire (key : GoString) (e : CompressedItem)
      (he : (s.shards (cfg.shardIndex key)).data.lookup key = some e) :
      Moved cfg s (.expire key)
        (((s.erase (cfg.shardIndex key) key).addStats (cfg.shardIndex key)
          { keys := -1 }).removeFromLRU (cfg.shardIndex key) key)
  | forget (i : Nat) (key : GoString) : Moved cfg s (.forget i key) (s.erase i key)
  | touch (key : GoString) : Moved cfg s (.touch key) (s.touchLRU (cfg.shardIndex key) key)
  | unlist (i : Nat) (key : GoString) (hnone : (s.shards i).data.lookup key = none) :
      Moved cfg s (.unlist i key) (s.removeFromLRU i key)
  | queue (i : Nat) (ops : RingBuffer SyncOperation syncCapacity) :
      Moved cfg s (.queue i ops) (s.modifyShard i fun shard => { shard with syncBuffer := ops })
  | rotate (idx : UInt64) : Moved cfg s (.rotate idx) { s with evictShardIdx := idx }
  | clear : Moved cfg s .clear (s.clear cfg)

theorem moved_of_move {a : StoreMove} (h : move cfg s a = some t) : Moved cfg s a t := by
  cases a with
  | install | queue | rotate | clear =>
    cases h
    constructor
  | drop i key =>
    rw [move] at h
    split at h
    · rename_i hi
      obtain ⟨e, he, rfl⟩ := Option.map_eq_some_iff.mp h
      exact .drop i key e hi he
    · cases h
  | expire key =>
    obtain ⟨e, he, rfl⟩ := Option.map_eq_some_iff.mp h
    exact .expire key e he
  | forget i key =>
    rw [move] at h
    split at h
    · obtain ⟨e, -, rfl⟩ := Option.map_eq_some_iff.mp h
      exact .forget i key
    · cases h
  | touch key =>
    obtain ⟨e, -, rfl⟩ := Option.map_eq_some_iff.mp h
    exact .touch key
  | unlist i key =>
    rw [move] at h
    split at h <;> cases h
    rename_i hnone
    exact .unlist i key hnone

namespace StoreMove

/-- The moves that make room. -/
def evicts : StoreMove → Bool
  | .drop .. | .unlist .. | .rotate _ => true
  | _ => false

/-- The moves of the methods that write. -/
def writes : StoreMove → Bool
  | .install .. | .queue .. | .drop .. | .unlist .. | .rotate _ => true
  | _ => false

/-- The moves that store nothing and leave the pending operations alone. -/
def removes : StoreMove → Bool
  | .drop .. | .expire _ | .forget .. | .touch _ | .unlist .. | .rotate _ => true
  | _ => false

theorem removes_of_evicts {a : StoreMove} (h : a.evicts) : a.removes := by
  cases a <;> first | rfl | exact h

theorem writes_of_evicts {a : StoreMove} (h : a.evicts) : a.writes := by
  cases a <;> first | rfl | exact h

end StoreMove

/-- A sequence of moves that meet `P`. -/
def Path (cfg : StoreConfig) (P : MemStorage → StoreMove → Prop) (s t : MemStorage) : Prop :=
  ∃ moves, GuardedRun (move cfg) P s moves t

namespace Path

variable {P : MemStorage → StoreMove → Prop}

theorem refl (s : MemStorage) : Path cfg P s s := ⟨[], .nil s⟩

theorem trans (h : Path cfg P s t) (h' : Path cfg P t u) : Path cfg P s u := by
  obtain ⟨moves, hrun⟩ := h
  obtain ⟨moves', hrun'⟩ := h'
  exact ⟨moves ++ moves', hrun.append hrun'⟩

theorem single {a : StoreMove} (hP : P s a) (hmove : move cfg s a = some t) : Path cfg P s t :=
  ⟨[a], .cons hP hmove (.nil t)⟩

/-- What every move preserves holds after every method. -/
theorem invariant {I : MemStorage → Prop}
    (hpres : ∀ s a t, I s → P s a → move cfg s a = some t → I t)
    (h : Path cfg P s t) (hs : I s) : I t := by
  obtain ⟨moves, hrun⟩ := h
  exact hrun.invariant hpres hs

end Path

variable {P : MemStorage → StoreMove → Prop}

theorem move_drop (hi : i < cfg.shardCount) (he : (s.shards i).data.lookup key = some e) :
    move cfg s (.drop i key) = some ((s.eraseItem i key e).removeFromLRU i key) := by
  rw [move, if_pos hi, he]
  rfl

/-- Entries with distinct keys are all still there when it is their turn. -/
theorem path_visit {σ : Type} (view : σ → MemStorage)
    {f : σ → (Sigma fun _ : GoString => CompressedItem) → σ}
    {entries : List (Sigma fun _ : GoString => CompressedItem)}
    (hnodup : (entries.map Sigma.fst).Nodup) (out : σ)
    (hthere : ∀ x ∈ entries, ((view out).shards i).data.lookup x.1 = some x.2)
    (hvisit : ∀ out, ∀ x ∈ entries, ((view out).shards i).data.lookup x.1 = some x.2 →
      Path cfg P (view out) (view (f out x)) ∧ Shrinks (view out) (view (f out x)) ∧
        ∀ k ≠ x.1, ((view (f out x)).shards i).data.lookup k =
          ((view out).shards i).data.lookup k) :
    Path cfg P (view out) (view (entries.foldl f out)) ∧
      Shrinks (view out) (view (entries.foldl f out)) := by
  induction entries generalizing out with
  | nil => exact ⟨.refl _, .refl _⟩
  | cons x entries ih =>
    rw [map_cons, nodup_cons] at hnodup
    obtain ⟨hpath, hshrinks, hkept⟩ := hvisit out x mem_cons_self (hthere x mem_cons_self)
    have hrest : ∀ y ∈ entries, ((view (f out x)).shards i).data.lookup y.1 = some y.2 := by
      intro y hy
      rw [hkept y.1 fun heq => hnodup.1 (heq ▸ mem_map_of_mem hy)]
      exact hthere y (mem_cons_of_mem _ hy)
    obtain ⟨hpath', hshrinks'⟩ := ih hnodup.2 (f out x) hrest fun out y hy =>
      hvisit out y (mem_cons_of_mem _ hy)
    exact ⟨hpath.trans hpath', hshrinks.trans hshrinks'⟩

/-! ### Eviction -/

section Evicting

variable (hP : ∀ u a, StoreMove.evicts a → P u a)

include hP

theorem path_evictLoop (hi : i < cfg.shardCount) (batchSize rounds : Nat) (s : MemStorage)
    (evicted : Nat) : Path cfg P s (evictLoop i batchSize rounds s evicted).1 := by
  induction rounds generalizing s evicted with
  | zero => exact .refl s
  | succ rounds ih =>
    unfold evictLoop
    split
    · split
      · exact .refl s
      · rename_i key _
        split
        · -- A key of the list without an entry costs a round and frees nothing.
          rename_i hnone
          have hmove : move cfg s (.unlist i key) = some (s.removeFromLRU i key) := if_pos hnone
          exact (Path.single (hP _ _ rfl) hmove).trans (ih _ _)
        · rename_i e he
          have hmove := move_drop hi he
          rw [← eraseItem_removeFromLRU] at hmove
          exact (Path.single (hP _ _ rfl) hmove).trans (ih _ _)
    · exact .refl s

theorem path_evictBatchLRU (s : MemStorage) (batchSize : Int) :
    Path cfg P s (s.evictBatchLRU cfg batchSize).1 := by
  have hrotate : move cfg s (.rotate (s.evictShardIdx + 1)) =
      some { s with evictShardIdx := s.evictShardIdx + 1 } := rfl
  exact (Path.single (hP _ _ rfl) hrotate).trans
    (path_evictLoop hP (and_shardMask_lt cfg _) _ _ _ _)

theorem path_evictWhile (tooLarge : Int64 → Bool) (maxEvictions : Int) (rounds : Nat)
    (s : MemStorage) (current : Int64) (evicted : Int) :
    Path cfg P s (evictWhile cfg tooLarge maxEvictions rounds s current evicted).1 := by
  induction rounds generalizing s current evicted with
  | zero => exact .refl s
  | succ rounds ih =>
    have hbatch : Path cfg P s (s.evictBatchLRU cfg cfg.evictBatchSize).1 :=
      path_evictBatchLRU hP s cfg.evictBatchSize
    simp only [evictWhile]
    split
    · split
      · exact hbatch
      · exact hbatch.trans (ih _ _ _)
    · exact .refl s

theorem path_checkAndEvict (s : MemStorage) (itemSize : Int64) :
    Path cfg P s (s.checkAndEvict cfg itemSize).1 := by
  have hquick : Path cfg P s (s.evictBatchLRU cfg 5).1 := path_evictBatchLRU hP s 5
  simp only [checkAndEvict]
  split
  · exact .refl s
  · split
    · split
      · split <;> exact hquick
      · exact .refl s
    · split <;> exact path_evictWhile hP _ _ _ _ _ _

theorem path_runAsyncEviction (s : MemStorage) : Path cfg P s (s.runAsyncEviction cfg) := by
  simp only [runAsyncEviction]
  split
  · exact .refl s
  · split
    · exact .refl s
    · exact path_evictWhile hP _ _ _ _ _ _

theorem path_makeRoom (s : MemStorage) (key : GoString) (compItem : CompressedItem) :
    Path cfg P s (s.makeRoom cfg key compItem).1 := by
  unfold makeRoom
  split
  · exact path_checkAndEvict hP s _
  · exact .refl s

theorem path_batchRoom (s : MemStorage) (items : List (GoString × StoredItem)) :
    Path cfg P s (s.batchRoom cfg items).1 := by
  unfold batchRoom
  dsimp only
  split
  · exact path_checkAndEvict hP s _
  · exact .refl s

theorem path_cleanShard (now : Time) (hi : i < cfg.shardCount) (s : MemStorage) :
    Path cfg P s (cleanShard now s i) := by
  have hnodup : ((s.shards i).data.entries.map Sigma.fst).Nodup := (s.shards i).data.nodupKeys
  refine (path_visit id (hnodup.sublist (filter_sublist.map _)) s
    (fun x hx => mem_dlookup (s.shards i).data.nodupKeys (mem_of_mem_filter hx)) ?_).1
  intro u x _ he
  have hlookup : ∀ j k, (((u.eraseItem i x.1 x.2).removeFromLRU i x.1).shards j).data.lookup k =
      if j = i ∧ k = x.1 then none else (u.shards j).data.lookup k := fun j k => by
    rw [lookup_removeFromLRU, lookup_eraseItem]
  refine ⟨.single (hP _ _ rfl) (move_drop hi he), fun j k e h => ?_, fun k hne => ?_⟩
  · have hfound := (hlookup j k).symm.trans h
    split at hfound
    · cases hfound
    · exact hfound
  · exact (hlookup i k).trans (if_neg fun h => hne h.2)

theorem path_cleanExpired (now : Time) (s : MemStorage) :
    Path cfg P s (s.cleanExpired cfg now) := by
  refine foldlRecOn _ _ (.refl s) fun u hu i hi => ?_
  exact hu.trans (path_cleanShard hP now (mem_range.mp hi) u)

end Evicting

/-! ### Writing -/

section Writing

variable (hP : ∀ u a, StoreMove.writes a → P u a)

include hP

theorem path_storeItem (s : MemStorage) (key : GoString) (compItem : CompressedItem)
    (item : StoredItem) :
    Path cfg P s (s.storeItemWithConflictResolution cfg key compItem item) := by
  have hqueue : ∀ u : MemStorage, ∀ item, Path cfg P u
      (u.addToSyncBuffer (cfg.shardIndex key) key .set item) :=
    fun u item => Path.single (a := .queue (cfg.shardIndex key) _) (hP _ _ rfl) rfl
  have hinstall : Path cfg P s (((s.store (cfg.shardIndex key) key compItem).addStats
      (cfg.shardIndex key) (installCounters key compItem
        ((s.shards (cfg.shardIndex key)).data.lookup key))).touchLRU (cfg.shardIndex key) key) :=
    Path.single (hP _ (.install key compItem) rfl) rfl
  unfold storeItemWithConflictResolution
  dsimp only
  cases hlookup : (s.shards (cfg.shardIndex key)).data.lookup key with
  | none =>
    rw [hlookup] at hinstall
    exact hinstall.trans (hqueue _ _)
  | some existing =>
    rw [hlookup] at hinstall
    dsimp only [tryUpdateExistingKey]
    split
    · exact .refl s
    · exact hinstall.trans (hqueue _ _)

theorem path_set (s : MemStorage) (key : GoString) (item : Option StoredItem) :
    Path cfg P s (s.set cfg key item).1 := by
  have hevict : ∀ u a, StoreMove.evicts a → P u a :=
    fun u a ha => hP u a (StoreMove.writes_of_evicts ha)
  unfold set
  split
  · exact .refl s
  · cases item with
    | none => exact .refl s
    | some item =>
      have hroom : Path cfg P s (s.makeRoom cfg key (prepareCompressedItem cfg item)).1 :=
        path_makeRoom hevict s key _
      dsimp only
      split
      · rename_i room err heq
        rw [heq] at hroom
        exact hroom
      · rename_i room heq
        rw [heq] at hroom
        exact hroom.trans (path_storeItem hP _ _ _ _)

theorem path_batchSet (s : MemStorage) (items : List (GoString × Option StoredItem)) :
    Path cfg P s (s.batchSet cfg items).1 := by
  have hevict : ∀ u a, StoreMove.evicts a → P u a :=
    fun u a ha => hP u a (StoreMove.writes_of_evicts ha)
  unfold batchSet
  split
  · exact .refl s
  · have hroom : Path cfg P s (s.batchRoom cfg (batchItems items)).1 :=
      path_batchRoom hevict s _
    split
    · rename_i room err heq
      rw [heq] at hroom
      exact hroom
    · rename_i room heq
      rw [heq] at hroom
      exact foldlRecOn _ _ hroom fun u hu entry _ => hu.trans (path_set hP u _ _)

end Writing

theorem path_delete (hdrop : ∀ u i k, P u (.drop i k)) (hqueue : ∀ u i ops, P u (.queue i ops))
    (s : MemStorage) (key : GoString) (version : Int64) :
    Path cfg P s (s.delete cfg key version).1 := by
  unfold delete
  split
  · exact .refl s
  · dsimp only
    split
    · exact .refl s
    · rename_i e he
      split
      · exact .refl s
      · have hdropped := Path.single (hdrop s _ key) (move_drop (shardIndex_lt cfg key) he)
        exact hdropped.trans (Path.single (a := .queue (cfg.shardIndex key) _) (hqueue ..) rfl)

/-! ### Reading -/

theorem shrinks_erase (s : MemStorage) (i : Nat) (key : GoString) : Shrinks s (s.erase i key) := by
  intro j k e h
  rw [lookup_erase] at h
  split at h
  · cases h
  · exact h

/-- What the read methods do to an entry that has expired. -/
theorem shrinks_expire (s : MemStorage) (key : GoString) (d : Counters) :
    Shrinks s (((s.erase i key).addStats i d).removeFromLRU i key) := by
  intro j k e h
  rw [lookup_removeFromLRU, lookup_addStats] at h
  exact shrinks_erase s i key j k e h

theorem shrinks_touchLRU (s : MemStorage) (key : GoString) : Shrinks s (s.touchLRU i key) := by
  intro j k e h
  rwa [lookup_touchLRU] at h

theorem move_expire (he : entry cfg s key = some e) :
    move cfg s (.expire key) = some (((s.erase (cfg.shardIndex key) key).addStats
      (cfg.shardIndex key) { keys := -1 }).removeFromLRU (cfg.shardIndex key) key) := by
  rw [entry] at he
  rw [move, he]
  rfl

theorem move_touch (he : entry cfg s key = some e) :
    move cfg s (.touch key) = some (s.touchLRU (cfg.shardIndex key) key) := by
  rw [entry] at he
  rw [move, he]
  rfl

/-- What a read of a key leaves of the store: an entry that has expired goes, another one
    counts as used. -/
def afterRead (cfg : StoreConfig) (expired : CompressedItem → Bool) (s : MemStorage)
    (key : GoString) : MemStorage :=
  match entry cfg s key with
  | none => s
  | some e =>
    let i := cfg.shardIndex key
    if expired e then ((s.erase i key).addStats i { keys := -1 }).removeFromLRU i key
    else s.touchLRU i key

theorem getNoCopy_fst {now : Time} (hkey : key ≠ []) :
    (s.getNoCopy cfg now key).1 = s.afterRead cfg (expiredAt now) key := by
  simp only [getNoCopy, if_neg hkey, afterRead, entry]
  cases (s.shards (cfg.shardIndex key)).data.lookup key with
  | none => rfl
  | some e =>
    dsimp only
    split
    · rfl
    · split <;> rfl

theorem batchGetKey_fst {now : Time} (out : MemStorage × GoMap StoredItem) :
    (batchGetKey cfg now out key).1 = out.1.afterRead cfg (expiredBy now) key := by
  simp only [batchGetKey, afterRead, entry]
  cases (out.1.shards (cfg.shardIndex key)).data.lookup key with
  | none => rfl
  | some e =>
    dsimp only
    split
    · rfl
    · split <;> rfl

section Reading

variable (htouch : ∀ u k, P u (.touch k))

include htouch

theorem path_afterRead {expired : CompressedItem → Bool} (s : MemStorage) (key : GoString)
    (hexpire : ∀ e, entry cfg s key = some e → expired e → P s (.expire key)) :
    Path cfg P s (s.afterRead cfg expired key) ∧ Shrinks s (s.afterRead cfg expired key) := by
  unfold afterRead
  split
  · exact ⟨.refl s, .refl s⟩
  · rename_i e he
    split
    · rename_i hexpired
      exact ⟨.single (hexpire e he hexpired) (move_expire he), shrinks_expire s key _⟩
    · exact ⟨.single (htouch s key) (move_touch he), shrinks_touchLRU s key⟩

theorem path_getNoCopy (now : Time) (s : MemStorage) (key : GoString)
    (hexpire : ∀ e, entry cfg s key = some e → expiredAt now e → P s (.expire key)) :
    Path cfg P s (s.getNoCopy cfg now key).1 ∧ Shrinks s (s.getNoCopy cfg now key).1 := by
  by_cases hkey : key = []
  · rw [getNoCopy, if_pos hkey]
    exact ⟨.refl s, .refl s⟩
  · rw [getNoCopy_fst hkey]
    exact path_afterRead htouch s key hexpire

/-- An entry that a batch finds was there before the batch. -/
theorem path_batchGetNoCopy (now : Time) (s : MemStorage) (keys : List GoString) (visit : List Nat)
    (hexpire : ∀ u key e, key ∈ keys → entry cfg s key = some e → entry cfg u key = some e →
      expiredBy now e → P u (.expire key)) :
    Path cfg P s (s.batchGetNoCopy cfg now keys visit).1 := by
  refine (foldlRecOn (motive := fun out : _ × GoMap StoredItem =>
    Path cfg P s out.1 ∧ Shrinks s out.1) _ _ ⟨.refl s, .refl s⟩
    fun out ⟨hpath, hshrinks⟩ key hkey => ?_).1
  obtain ⟨i, -, hmem⟩ := mem_flatMap.mp hkey
  obtain ⟨hread, hstep⟩ := path_afterRead htouch out.1 key fun e he hexpired =>
    hexpire out.1 key e (mem_of_mem_filter hmem) (hshrinks _ _ _ he) he hexpired
  rw [← batchGetKey_fst] at hread hstep
  exact ⟨hpath.trans hread, hshrinks.trans hstep⟩

theorem path_fillOp (now : Time) (s : MemStorage) (op : SyncOperation)
    (hexpire : ∀ key e, entry cfg s key = some e → expiredAt now e → P s (.expire key)) :
    Path cfg P s (s.fillOp cfg now op).1 ∧ Shrinks s (s.fillOp cfg now op).1 := by
  have hget := path_getNoCopy htouch now s op.key (hexpire op.key)
  unfold fillOp
  split
  · exact ⟨.refl s, .refl s⟩
  · split
    · split
      · rename_i heq
        rw [heq] at hget
        split <;> exact hget
      · rename_i heq
        rw [heq] at hget
        exact hget
    · exact ⟨.refl s, .refl s⟩

theorem path_fillOps (clock : Nat → Time) (s₀ : MemStorage)
    (hexpire : ∀ u key e n, entry cfg s₀ key = some e → entry cfg u key = some e →
      expiredAt (clock n) e → P u (.expire key))
    (ops : List SyncOperation) (n : Nat) (s : MemStorage) (hs : Shrinks s₀ s) :
    Path cfg P s (fillOps cfg clock n s ops).1 ∧ Shrinks s₀ (fillOps cfg clock n s ops).1 := by
  induction ops generalizing n s with
  | nil => exact ⟨.refl s, hs⟩
  | cons op ops ih =>
    obtain ⟨hpath, hstep⟩ := path_fillOp htouch (clock n) s op fun key e he =>
      hexpire s key e n (hs _ _ _ he) he
    obtain ⟨hpath', hstep'⟩ := ih (n + 1) _ (hs.trans hstep)
    exact ⟨hpath.trans hpath', hstep'⟩

theorem path_getSyncBuffer (hqueue : ∀ u i ops, P u (.queue i ops)) (clock : Nat → Time)
    (s : MemStorage)
    (hexpire : ∀ u key e n, entry cfg s key = some e → entry cfg u key = some e →
      expiredAt (clock n) e → P u (.expire key)) :
    Path cfg P s (s.getSyncBuffer cfg clock).1 := by
  have hshards : ∀ (is : List Nat) (u : MemStorage) (n : Nat), Shrinks s u →
      Path cfg P u (drainShards cfg clock u n is).1 := by
    intro is
    induction is with
    | nil => exact fun u _ _ => .refl u
    | cons i is ih =>
      intro u n hu
      have hdrain : Path cfg P u (u.drainShard i) :=
        Path.single (a := .queue i (u.shards i).syncBuffer.drain.2) (hqueue _ _ _) rfl
      have hkept : Shrinks s (u.drainShard i) := by
        intro j k e h
        rw [lookup_drainShard] at h
        exact hu j k e h
      obtain ⟨hfill, hfilled⟩ := path_fillOps htouch clock s hexpire
        (u.shards i).syncBuffer.drain.1 n _ hkept
      exact (hdrain.trans hfill).trans (ih _ _ hfilled)
  exact hshards _ s 0 (.refl s)

end Reading

/-! ### `Keys` -/

/-- The entries `Keys` comes to are still there. -/
theorem path_keysOfShard (now : Time) (hi : i < cfg.shardCount)
    (out : MemStorage × List GoString)
    (hforget : ∀ u k e, (out.1.shards i).data.lookup k = some e → expiredBy now e →
      P u (.forget i k)) :
    Path cfg P out.1 (keysOfShard now out i).1 ∧ Shrinks out.1 (keysOfShard now out i).1 := by
  refine path_visit Prod.fst (out.1.shards i).data.nodupKeys out
    (fun x hx => mem_dlookup (out.1.shards i).data.nodupKeys hx) fun u x hx he => ?_
  have hthere := mem_dlookup (out.1.shards i).data.nodupKeys hx
  split
  · rename_i hexpired
    have hmove : move cfg u.1 (.forget i x.1) = some (u.1.erase i x.1) := by
      rw [move, if_pos hi, he]
      rfl
    refine ⟨.single (hforget _ _ _ hthere hexpired) hmove, shrinks_erase _ _ _, fun k hne => ?_⟩
    rw [lookup_erase, if_neg fun h => hne h.2]
  · exact ⟨.refl _, .refl _, fun _ _ => rfl⟩

theorem path_keys (now : Time) (s : MemStorage)
    (hforget : ∀ u i k e, i < cfg.shardCount → (s.shards i).data.lookup k = some e →
      expiredBy now e → P u (.forget i k)) : Path cfg P s (s.keys cfg now).1 := by
  refine (foldlRecOn (motive := fun out : _ × List GoString =>
    Path cfg P s out.1 ∧ Shrinks s out.1) _ _ ⟨.refl s, .refl s⟩
    fun out ⟨hpath, hshrinks⟩ i hi => ?_).1
  obtain ⟨hvisit, hstep⟩ := path_keysOfShard now (mem_range.mp hi) out fun u k e he =>
    hforget u i k e (mem_range.mp hi) (hshrinks i k e he)
  exact ⟨hpath.trans hvisit, hshrinks.trans hstep⟩

/-! ### All the methods -/

/-- A call of a method, with what it reads from the clock. -/
inductive StoreCall where
  | set (key : GoString) (item : Option StoredItem)
  | batchSet (items : List (GoString × Option StoredItem))
  | delete (key : GoString) (version : Int64)
  | get (now : Time) (key : GoString)
  | getNoCopy (now : Time) (key : GoString)
  | batchGet (now : Time) (keys : List GoString) (visit : List Nat)
  | batchGetNoCopy (now : Time) (keys : List GoString) (visit : List Nat)
  | keys (now : Time)
  | getSyncBuffer (clock : Nat → Time)
  | evictBatchLRU (batchSize : Int)
  | runAsyncEviction
  | cleanExpired (now : Time)
  | clear

/-- The store after a call. -/
def call (cfg : StoreConfig) (s : MemStorage) : StoreCall → MemStorage
  | .set key item => (s.set cfg key item).1
  | .batchSet items => (s.batchSet cfg items).1
  | .delete key version => (s.delete cfg key version).1
  | .get now key => (s.get cfg now key).1
  | .getNoCopy now key => (s.getNoCopy cfg now key).1
  | .batchGet now keys visit => (s.batchGet cfg now keys visit).1
  | .batchGetNoCopy now keys visit => (s.batchGetNoCopy cfg now keys visit).1
  | .keys now => (s.keys cfg now).1
  | .getSyncBuffer clock => (s.getSyncBuffer cfg clock).1
  | .evictBatchLRU batchSize => (s.evictBatchLRU cfg batchSize).1
  | .runAsyncEviction => s.runAsyncEviction cfg
  | .cleanExpired now => s.cleanExpired cfg now
  | .clear => s.clear cfg

/-- The store after a sequence of calls, from the start. -/
def reached (cfg : StoreConfig) (calls : List StoreCall) : MemStorage :=
  calls.foldl (call cfg) .empty

theorem path_call (s : MemStorage) (c : StoreCall) :
    Path cfg (fun _ _ => True) s (s.call cfg c) := by
  cases c with
  | set key item => exact path_set (fun _ _ _ => trivial) s key item
  | batchSet items => exact path_batchSet (fun _ _ _ => trivial) s items
  | delete key version =>
    exact path_delete (fun _ _ _ => trivial) (fun _ _ _ => trivial) s key version
  | get now key | getNoCopy now key =>
    exact (path_getNoCopy (fun _ _ => trivial) now s key fun _ _ _ => trivial).1
  | batchGet now keys visit | batchGetNoCopy now keys visit =>
    exact path_batchGetNoCopy (fun _ _ => trivial) now s keys visit fun _ _ _ _ _ _ _ => trivial
  | keys now => exact path_keys now s fun _ _ _ _ _ _ _ => trivial
  | getSyncBuffer clock =>
    exact path_getSyncBuffer (fun _ _ => trivial) (fun _ _ _ => trivial) clock s
      fun _ _ _ _ _ _ _ => trivial
  | evictBatchLRU batchSize => exact path_evictBatchLRU (fun _ _ _ => trivial) s batchSize
  | runAsyncEviction => exact path_runAsyncEviction (fun _ _ _ => trivial) s
  | cleanExpired now => exact path_cleanExpired (fun _ _ _ => trivial) now s
  | clear => exact .single (a := .clear) trivial rfl

/-- What every move preserves holds in every state that is reached. -/
theorem invariant_reached {I : MemStorage → Prop} (hempty : I .empty)
    (hmove : ∀ s a t, I s → move cfg s a = some t → I t) (calls : List StoreCall) :
    I (reached cfg calls) :=
  foldlRecOn _ _ hempty fun s hs c _ =>
    (path_call s c).invariant (fun s a t hs _ => hmove s a t hs) hs

end MemStorage

end GridKV
