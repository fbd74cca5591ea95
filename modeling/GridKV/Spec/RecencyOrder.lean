import GridKV.Spec.MemoryLimit

/-!
# The order of the LRU lists

`ShardLRU` carries that no key is listed twice and that `keyMap` leads from the listed keys to
their own elements.  What is left is how the lists relate to the maps and to the past: every
stored key is listed, in the list of its own shard (`Linked`), and the lists are ordered by the
last `Set` that stored the key or `Get` that hit it (`Recent`).  So `evictBatchLRU` removes what
has not been used for longest (`recency_order`), and as many entries as its argument says once
that is brought into the range from 1 to 100.
-/

namespace GridKV

open Go List Function

/-- The key that a move puts in front of its list. -/
def MemStorage.StoreMove.used : MemStorage.StoreMove → Option GoString
  | .install key _ | .touch key => some key
  | _ => none

namespace MemStorage

variable {cfg : StoreConfig} {s t : MemStorage} {i : Nat} {key k : GoString} {e : CompressedItem}
  {a : StoreMove}

/-! ### What the updates do to the lists and the maps -/

/-- The listed keys of a shard, most recently used first. -/
def order (s : MemStorage) (i : Nat) : List GoString := (s.shards i).lru.order

theorem order_modifyShard {f : Shard → Shard} (h : (f (s.shards i)).lru = (s.shards i).lru)
    (j : Nat) : order (s.modifyShard i f) j = order s j := by
  by_cases hj : j = i
  · subst hj
    rw [order, modifyShard_self, h]
    rfl
  · rw [order, modifyShard_of_ne s f hj]
    rfl

@[simp] theorem order_store (j : Nat) :
    order (s.store i k e) j = order s j := order_modifyShard rfl j

@[simp] theorem order_erase (i : Nat) (k : GoString) (j : Nat) :
    order (s.erase i k) j = order s j := order_modifyShard rfl j

@[simp] theorem order_addStats (d : Counters) (j : Nat) : order (s.addStats i d) j = order s j :=
  order_modifyShard (s := s) (i := i)
    (f := fun shard => { shard with counters := shard.counters.add d }) rfl j

theorem order_touchLRU (j : Nat) :
    order (s.touchLRU i key) j = if j = i then key :: (order s i).erase key else order s j := by
  split
  · subst j
    rw [order, touchLRU, modifyShard_self]
    exact ShardLRU.order_touch _ _
  · rename_i hj
    rw [order, touchLRU, modifyShard_of_ne s _ hj]
    rfl

theorem order_removeFromLRU (j : Nat) :
    order (s.removeFromLRU i key) j = if j = i then (order s i).erase key else order s j := by
  split
  · subst j
    rw [order, removeFromLRU, modifyShard_self]
    exact ShardLRU.order_remove _ _
  · rename_i hj
    rw [order, removeFromLRU, modifyShard_of_ne s _ hj]
    rfl

theorem order_clear : order (s.clear cfg) i = if i < cfg.shardCount then [] else order s i := by
  simp only [order, clear]
  split <;> rfl

theorem lookup_store (j : Nat) :
    ((s.store i key e).shards j).data.lookup k =
      if j = i ∧ k = key then some e else (s.shards j).data.lookup k := by
  by_cases hj : j = i
  · subst hj
    rw [store, modifyShard_self]
    by_cases hk : k = key
    · rw [hk, AList.lookup_insert, if_pos ⟨rfl, rfl⟩]
    · rw [AList.lookup_insert_ne hk, if_neg fun h => hk h.2]
  · rw [store, modifyShard_of_ne s _ hj, if_neg fun h => hj h.1]

/-- A move that uses a key puts it in front and leaves the rest in order. -/
theorem order_of_used (hused : a.used = some key) (hmove : move cfg s a = some t) (i : Nat) :
    order t i =
      if i = cfg.shardIndex key then key :: (order s i).erase key else order s i := by
  cases moved_of_move hmove with
  | install key' compItem =>
    cases hused
    rw [order_touchLRU]
    split
    · subst i
      rw [order_addStats, order_store]
    · rw [order_addStats, order_store]
  | touch key' =>
    cases hused
    rw [order_touchLRU]
    split
    · subst i
      rfl
    · rfl
  | drop | expire | forget | unlist | queue | rotate | clear => cases hused

theorem order_removeFromLRU_sublist (s : MemStorage) (i : Nat) (key : GoString) (j : Nat) :
    (order (s.removeFromLRU i key) j).Sublist (order s j) := by
  rw [order_removeFromLRU]
  split
  · subst j
    exact erase_sublist
  · exact .refl _

/-- A move that uses no key at most takes keys out of the lists. -/
theorem sublist_of_unused (hused : a.used = none) (hmove : move cfg s a = some t) (i : Nat) :
    (order t i).Sublist (order s i) := by
  cases moved_of_move hmove with
  | install | touch => cases hused
  | drop j key =>
    refine (order_removeFromLRU_sublist _ j key i).trans ?_
    rw [eraseItem, order_addStats, order_erase]
  | expire key =>
    refine (order_removeFromLRU_sublist _ _ key i).trans ?_
    rw [order_addStats, order_erase]
  | forget j key => rw [order_erase]
  | unlist j key => exact order_removeFromLRU_sublist s j key i
  | queue j ops => rw [order_modifyShard rfl]
  | rotate idx => exact .refl _
  | clear =>
    rw [order_clear]
    split
    · exact nil_sublist _
    · exact .refl _

/-! ### Lists and maps -/

/-- Every key is listed in its own shard, and every stored key is listed. -/
structure Linked (cfg : StoreConfig) (s : MemStorage) : Prop where
  placed : ∀ i k, k ∈ order s i → cfg.shardIndex k = i
  listed : ∀ i k e, (s.shards i).data.lookup k = some e → k ∈ order s i

theorem placed_move (h : Linked cfg s) (hmove : move cfg s a = some t) (i : Nat) (k : GoString)
    (hk : k ∈ order t i) : cfg.shardIndex k = i := by
  cases hused : a.used with
  | none => exact h.placed i k ((sublist_of_unused hused hmove i).subset hk)
  | some key =>
    rw [order_of_used hused hmove] at hk
    split at hk
    · obtain rfl | hold := mem_cons.mp hk
      · exact Eq.symm ‹_›
      · exact h.placed i k (mem_of_mem_erase hold)
    · exact h.placed i k hk

/-- What is stored and not the key that leaves the list stays listed. -/
theorem mem_order_removeFromLRU (hk : k ∈ order s i) {j : Nat} (hne : ¬ (i = j ∧ k = key)) :
    k ∈ order (s.removeFromLRU j key) i := by
  rw [order_removeFromLRU]
  split
  · subst i
    exact (mem_erase_of_ne fun heq => hne ⟨rfl, heq⟩).mpr hk
  · exact hk

/-- A use of one key takes no other off the list. -/
theorem mem_order_of_used (hused : a.used = some key) (hmove : move cfg s a = some t)
    (hold : k ∈ order s i) : k ∈ order t i := by
  rw [order_of_used hused hmove]
  split
  · by_cases hk : k = key
    · rw [hk]
      exact mem_cons_self
    · exact mem_cons_of_mem _ ((mem_erase_of_ne hk).mpr hold)
  · exact hold

theorem listed_move (h : Linked cfg s) (hmove : move cfg s a = some t) (i : Nat) (k : GoString)
    (e : CompressedItem) (he : (t.shards i).data.lookup k = some e) : k ∈ order t i := by
  cases moved_of_move hmove with
  | install key compItem =>
    have hstays : k ∈ order s i → k ∈ order _ i := mem_order_of_used rfl hmove
    rw [lookup_touchLRU, lookup_addStats, lookup_store] at he
    split at he
    · rename_i hself
      rw [order_of_used rfl hmove i, if_pos hself.1, hself.2]
      exact mem_cons_self
    · exact hstays (h.listed i k e he)
  | touch key =>
    rw [lookup_touchLRU] at he
    exact mem_order_of_used rfl hmove (h.listed i k e he)
  | drop j key =>
    rw [lookup_removeFromLRU, lookup_eraseItem] at he
    split at he
    · cases he
    · refine mem_order_removeFromLRU ?_ ‹_›
      rw [eraseItem, order_addStats, order_erase]
      exact h.listed i k e he
  | expire key =>
    rw [lookup_removeFromLRU, lookup_addStats, lookup_erase] at he
    split at he
    · cases he
    · refine mem_order_removeFromLRU ?_ ‹_›
      rw [order_addStats, order_erase]
      exact h.listed i k e he
  | forget j key =>
    rw [order_erase]
    exact h.listed i k e (shrinks_erase s j key i k e he)
  | unlist j key hnone =>
    rw [lookup_removeFromLRU] at he
    refine mem_order_removeFromLRU (h.listed i k e he) fun hself => ?_
    -- The key that leaves the list is not stored.
    rw [hself.1, hself.2, hnone] at he
    cases he
  | queue j ops =>
    rw [order_modifyShard rfl]
    refine h.listed i k e ?_
    by_cases hj : i = j
    · subst hj
      rwa [modifyShard_self] at he
    · rwa [modifyShard_of_ne s _ hj] at he
  | rotate idx => exact h.listed i k e he
  | clear =>
    rw [order_clear]
    simp only [clear] at he
    split
    · rename_i hi
      rw [if_pos hi] at he
      cases he
    · rename_i hi
      rw [if_neg hi] at he
      exact h.listed i k e he

theorem Linked.move (h : Linked cfg s) (hmove : move cfg s a = some t) : Linked cfg t :=
  ⟨placed_move h hmove, listed_move h hmove⟩

theorem Linked.of_path {P : MemStorage → StoreMove → Prop} (hs : Linked cfg s)
    (hpath : Path cfg P s t) : Linked cfg t :=
  hpath.invariant (fun _ _ _ hu _ hmove => hu.move hmove) hs

theorem linked_empty (cfg : StoreConfig) : Linked cfg .empty :=
  ⟨fun _ _ h => (not_mem_nil h).elim, fun _ _ _ h => (Option.some_ne_none _ h.symm).elim⟩

theorem linked_reached (cfg : StoreConfig) (calls : List StoreCall) :
    Linked cfg (reached cfg calls) :=
  invariant_reached (linked_empty cfg) (fun _ _ _ h hmove => h.move hmove) calls

/-- The keys of `byAge` are the listed keys that are stored, oldest first. -/
theorem keys_byAge (shard : Shard) :
    shard.byAge.map Prod.fst =
      shard.lru.order.reverse.filter fun k => (shard.data.lookup k).isSome := by
  rw [Shard.byAge, map_filterMap, ← filterMap_eq_filter]
  apply filterMap_congr
  intro k _
  cases hlookup : shard.data.lookup k <;> simp [Option.guard, hlookup]

/-- `byAge` has all the entries, if all stored keys are listed. -/
theorem length_byAge (hlinked : Linked cfg s) :
    (s.shards i).byAge.length = (s.shards i).data.entries.length := by
  have hnodup : ((s.shards i).byAge.map Prod.fst).Nodup := by
    rw [keys_byAge]
    exact (nodup_reverse.mpr (s.shards i).lru.nodup).filter _
  have hperm : ((s.shards i).byAge.map Prod.fst).Perm (s.shards i).data.keys := by
    refine (perm_ext_iff_of_nodup hnodup (s.shards i).data.keys_nodup).mpr fun k => ?_
    rw [keys_byAge, mem_filter, mem_reverse, AList.lookup_isSome]
    refine ⟨fun hk => hk.2, fun hk => ⟨?_, hk⟩⟩
    obtain ⟨e, he⟩ := Option.isSome_iff_exists.mp (AList.lookup_isSome.mpr hk)
    exact hlinked.listed i k e he
  have hlength := hperm.length_eq
  rw [length_map, AList.keys, List.keys, length_map] at hlength
  exact hlength

/-! ### Lists and the past -/

/-- The lists are ordered by the last use of their keys, all of them up to `now`. -/
structure Recent (lastUse : GoString → Nat) (now : Nat) (s : MemStorage) : Prop where
  sorted : ∀ i, (order s i).Pairwise fun a b => lastUse b < lastUse a
  le : ∀ i, ∀ k ∈ order s i, lastUse k ≤ now

variable {lastUse : GoString → Nat} {now : Nat}

theorem Recent.of_sublist (h : Recent lastUse now s) (hsub : ∀ i, (order t i).Sublist (order s i)) :
    Recent lastUse now t where
  sorted i := (h.sorted i).sublist (hsub i)
  le i k hk := h.le i k ((hsub i).subset hk)

theorem Recent.use (h : Recent lastUse now s) (hlinked : Linked cfg s) (hused : a.used = some key)
    (hmove : move cfg s a = some t) : Recent (update lastUse key (now + 1)) (now + 1) t := by
  have hother : ∀ k, k ≠ key → update lastUse key (now + 1) k = lastUse k :=
    fun k hk => update_of_ne hk ..
  have herase : ∀ i, ∀ k ∈ (order s i).erase key, k ≠ key := by
    rintro i k hk rfl
    exact (s.shards i).lru.nodup.not_mem_erase hk
  -- The key is in no list but that of its own shard.
  have helse : ∀ i, i ≠ cfg.shardIndex key → ∀ k ∈ order s i, k ≠ key := by
    rintro i hi k hk rfl
    exact hi (hlinked.placed i k hk).symm
  constructor
  · intro i
    rw [order_of_used hused hmove]
    split
    · rw [pairwise_cons, update_self]
      refine ⟨fun k hk => ?_, ?_⟩
      · rw [hother k (herase i k hk)]
        exact Nat.lt_succ_of_le (h.le i k (mem_of_mem_erase hk))
      · refine ((h.sorted i).sublist erase_sublist).imp_of_mem fun {x y} hx hy hlt => ?_
        rw [hother x (herase i x hx), hother y (herase i y hy)]
        exact hlt
    · rename_i hi
      refine (h.sorted i).imp_of_mem fun {x y} hx hy hlt => ?_
      rw [hother x (helse i hi x hx), hother y (helse i hi y hy)]
      exact hlt
  · intro i k hk
    by_cases hself : k = key
    · rw [hself, update_self]
    · rw [hother k hself]
      rw [order_of_used hused hmove] at hk
      have hold : k ∈ order s i := by
        split at hk
        · exact mem_of_mem_erase ((mem_cons.mp hk).resolve_left hself)
        · exact hk
      exact Nat.le_succ_of_le (h.le i k hold)

/-- Moves that use no key. -/
abbrev Unused (cfg : StoreConfig) : MemStorage → MemStorage → Prop :=
  Path cfg fun _ a => a.used = none

theorem used_of_evicts {a : StoreMove} (h : a.evicts) : a.used = none := by
  cases a <;> first | rfl | cases h

theorem sublist_of_path (h : Unused cfg s t) (i : Nat) : (order t i).Sublist (order s i) :=
  h.invariant (fun _ _ _ hs hused hmove => (sublist_of_unused hused hmove i).trans hs) (.refl _)

/-! ### Calls -/

/-- The calls of the methods that use, store and remove single keys. -/
inductive LruCall where
  | set (key : GoString) (item : Option StoredItem)
  | get (now : Time) (key : GoString)
  | delete (key : GoString) (version : Int64)
  | evictBatchLRU (batchSize : Int)
  | cleanExpired (now : Time)
  | clear

def LruCall.toStoreCall : LruCall → StoreCall
  | .set key item => .set key item
  | .get now key => .get now key
  | .delete key version => .delete key version
  | .evictBatchLRU batchSize => .evictBatchLRU batchSize
  | .cleanExpired now => .cleanExpired now
  | .clear => .clear

/-- The key that a call uses: that of a `Set` which stores its item, and of a `Get` which finds
    one that has not expired. -/
def uses (cfg : StoreConfig) (s : MemStorage) : LruCall → Option GoString
  | .set key (some item) => if setStores cfg s key item then some key else none
  | .get now key =>
    match entry cfg s key with
    | some e => if key ≠ [] ∧ ¬ expiredAt now e then some key else none
    | none => none
  | _ => none

/-- A call makes moves that use no key, and between them one for the key that it uses. -/
def UsesOnce (cfg : StoreConfig) (s t : MemStorage) (key : GoString) : Prop :=
  ∃ u a v, Unused cfg s u ∧ move cfg u a = some v ∧ a.used = some key ∧ Unused cfg v t

theorem usesOnce_set {item : StoredItem} (h : setStores cfg s key item) :
    UsesOnce cfg s (s.set cfg key (some item)).1 key := by
  simp only [setStores, decide_eq_true_eq] at h
  obtain ⟨hkey, hroom, haccepts⟩ := h
  rw [set_of_ne_nil hkey, hroom]
  dsimp only
  have hpath : Unused cfg s (s.makeRoom cfg key (prepareCompressedItem cfg item)).1 :=
    path_makeRoom (fun _ _ => used_of_evicts) s key _
  generalize (s.makeRoom cfg key (prepareCompressedItem cfg item)).1 = room at hpath haccepts
  refine ⟨room, .install key (prepareCompressedItem cfg item), _, hpath, rfl, rfl, ?_⟩
  have hqueue : ∀ u : MemStorage, Unused cfg u
      (u.addToSyncBuffer (cfg.shardIndex key) key .set (some item)) :=
    fun u => Path.single (a := .queue (cfg.shardIndex key) _) rfl rfl
  unfold storeItemWithConflictResolution
  dsimp only
  cases hlookup : (room.shards (cfg.shardIndex key)).data.lookup key with
  | none => exact hqueue _
  | some existing =>
    have hentry : entry cfg room key = some existing := hlookup
    simp only [accepts, hentry, decide_eq_true_eq] at haccepts
    have hnew : ¬ (prepareCompressedItem cfg item).version ≤ existing.version :=
      Int64.not_le.mpr haccepts
    dsimp only [tryUpdateExistingKey]
    rw [if_neg hnew]
    exact hqueue _

theorem unused_set {item : StoredItem} (h : ¬ setStores cfg s key item) :
    Unused cfg s (s.set cfg key (some item)).1 := by
  by_cases hkey : key = []
  · rw [set, if_pos hkey]
    exact .refl s
  · have hpath : Unused cfg s (s.makeRoom cfg key (prepareCompressedItem cfg item)).1 :=
      path_makeRoom (fun _ _ => used_of_evicts) s key _
    rw [set_of_ne_nil hkey]
    cases hroom : (s.makeRoom cfg key (prepareCompressedItem cfg item)).2 with
    | some err => exact hpath
    | none =>
      have hold : ¬ accepts cfg (s.makeRoom cfg key (prepareCompressedItem cfg item)).1 key
          item.version := by
        simpa [setStores, hkey, hroom] using h
      simpa only [storeItem_of_not_accepts hold] using hpath

theorem usesOnce_get {now : Time} (he : entry cfg s key = some e) (hkey : key ≠ [])
    (hlive : ¬ expiredAt now e) : UsesOnce cfg s (s.get cfg now key).1 key := by
  have hlookup : (s.shards (cfg.shardIndex key)).data.lookup key = some e := he
  have hget : (s.get cfg now key).1 = s.touchLRU (cfg.shardIndex key) key := by
    rw [get, getNoCopy, if_neg hkey]
    dsimp only
    rw [hlookup]
    dsimp only
    rw [if_neg hlive]
    split <;> rfl
  rw [hget]
  exact ⟨s, .touch key, _, .refl s, move_touch he, rfl, .refl _⟩

theorem unused_get {now : Time} (h : uses cfg s (.get now key) = none) :
    Unused cfg s (s.get cfg now key).1 := by
  unfold get getNoCopy
  split
  · exact .refl s
  · rename_i hkey
    dsimp only
    split
    · exact .refl s
    · rename_i e he
      split
      · exact .single rfl (move_expire he)
      · rename_i hlive
        have hentry : entry cfg s key = some e := he
        simp [uses, hentry, hkey, hlive] at h

/-- What a call does to the lists. -/
theorem call_uses (cfg : StoreConfig) (s : MemStorage) (c : LruCall) :
    match uses cfg s c with
    | some key => UsesOnce cfg s (s.call cfg c.toStoreCall) key
    | none => Unused cfg s (s.call cfg c.toStoreCall) := by
  cases c with
  | set key item =>
    cases item with
    | none =>
      simp only [uses, LruCall.toStoreCall, call, set]
      split <;> exact .refl s
    | some item =>
      by_cases hstores : setStores cfg s key item
      · simp only [uses, hstores, if_true]
        exact usesOnce_set hstores
      · simp only [uses, hstores, Bool.false_eq_true, if_false]
        exact unused_set hstores
  | get now key =>
    cases huses : uses cfg s (.get now key) with
    | none => exact unused_get huses
    | some k =>
      simp only [uses] at huses
      split at huses
      · rename_i e he
        split at huses <;> cases huses
        rename_i hhit
        exact usesOnce_get he hhit.1 hhit.2
      · cases huses
  | delete key version => exact path_delete (fun _ _ _ => rfl) (fun _ _ _ => rfl) s key version
  | evictBatchLRU batchSize => exact path_evictBatchLRU (fun _ _ => used_of_evicts) s batchSize
  | cleanExpired now => exact path_cleanExpired (fun _ _ => used_of_evicts) now s
  | clear => exact .single (a := .clear) rfl rfl

/-! ### Runs -/

/-- A store, the number of calls so far, and for every key the number of the last call that used
    it. -/
structure History where
  store : MemStorage := .empty
  calls : Nat := 0
  lastUse : GoString → Nat := fun _ => 0

namespace History

def act (cfg : StoreConfig) (h : History) (c : LruCall) : History where
  store := h.store.call cfg c.toStoreCall
  calls := h.calls + 1
  lastUse :=
    match uses cfg h.store c with
    | some key => update h.lastUse key (h.calls + 1)
    | none => h.lastUse

/-- The history of a sequence of calls. -/
def of (cfg : StoreConfig) (calls : List LruCall) : History := calls.foldl (act cfg) {}

variable {h : History}

theorem recent_act (hlinked : Linked cfg h.store) (hrecent : Recent h.lastUse h.calls h.store)
    (c : LruCall) :
    Recent (h.act cfg c).lastUse (h.act cfg c).calls (h.act cfg c).store := by
  have hcall := call_uses cfg h.store c
  unfold act
  dsimp only
  split at hcall
  · obtain ⟨u, a, v, hbefore, hmove, hused, hafter⟩ := hcall
    have hu := hrecent.of_sublist (sublist_of_path hbefore)
    exact (hu.use (hlinked.of_path hbefore) hused hmove).of_sublist (sublist_of_path hafter)
  · have hnext := hrecent.of_sublist (sublist_of_path hcall)
    exact ⟨hnext.sorted, fun i k hk => Nat.le_succ_of_le (hnext.le i k hk)⟩

theorem invariants_of (cfg : StoreConfig) (calls : List LruCall) :
    Linked cfg (of cfg calls).store ∧
      Recent (of cfg calls).lastUse (of cfg calls).calls (of cfg calls).store := by
  refine foldlRecOn (motive := fun h : History =>
    Linked cfg h.store ∧ Recent h.lastUse h.calls h.store) calls (act cfg)
    ⟨linked_empty cfg, fun i => ?_, fun i k hk => ?_⟩ fun h ⟨hlinked, hrecent⟩ c _ => ?_
  · exact List.Pairwise.nil
  · exact (not_mem_nil hk).elim
  · exact ⟨hlinked.of_path (path_call h.store _), recent_act hlinked hrecent c⟩

/-! ### Eviction -/

/-- `evictBatchLRU(batchSize)` removes the `n` least recently used of the keys stored in the shard
    whose turn it is, and no others. -/
def EvictsOldest (cfg : StoreConfig) (h : History) (batchSize : Int) (n : Nat) : Prop :=
  ∃ gone : List GoString, gone.Nodup ∧ gone.length = n ∧
    (∀ k ∈ gone, ((h.store.shards (nextShard cfg h.store)).data.lookup k).isSome) ∧
    (∀ k ∈ gone, ∀ k', k' ∉ gone →
      ((h.store.shards (nextShard cfg h.store)).data.lookup k').isSome →
        h.lastUse k < h.lastUse k') ∧
    ∀ j k, ((h.store.evictBatchLRU cfg batchSize).1.shards j).data.lookup k =
      if j = nextShard cfg h.store ∧ k ∈ gone then none else (h.store.shards j).data.lookup k

/-- The number of keys stored in the shard whose turn it is. -/
def turnSize (cfg : StoreConfig) (h : History) : Nat :=
  (h.store.shards (nextShard cfg h.store)).data.entries.length

theorem evictsOldest (hlinked : Linked cfg h.store) (hrecent : Recent h.lastUse h.calls h.store)
    (batchSize : Int) :
    EvictsOldest cfg h batchSize (min (clampBatch batchSize) (turnSize cfg h)) := by
  obtain ⟨-, hdrops⟩ := drops_evictBatchLRU cfg h.store batchSize
  have hkeys := keys_byAge (h.store.shards (nextShard cfg h.store))
  have hsorted : ((h.store.shards (nextShard cfg h.store)).byAge.map Prod.fst).Pairwise
      fun x y => h.lastUse x < h.lastUse y := by
    rw [hkeys]
    exact (pairwise_reverse.mpr (hrecent.sorted _)).filter _
  have hnodup : ((h.store.shards (nextShard cfg h.store)).byAge.map Prod.fst).Nodup := by
    rw [hkeys]
    exact (nodup_reverse.mpr (h.store.shards _).lru.nodup).filter _
  refine ⟨((h.store.shards (nextShard cfg h.store)).byAge.map Prod.fst).take
    (clampBatch batchSize), hnodup.sublist (take_sublist ..), ?_, fun k hk => ?_,
    fun k hk k' hk' hstored => ?_, fun j k => ?_⟩
  · rw [length_take, length_map, length_byAge hlinked]
    rfl
  · have hmem := mem_of_mem_take hk
    rw [hkeys] at hmem
    exact (mem_filter.mp hmem).2
  · -- A stored key that stays comes behind those that go.
    have hmem : k' ∈ (h.store.shards (nextShard cfg h.store)).byAge.map Prod.fst := by
      rw [hkeys, mem_filter, mem_reverse]
      obtain ⟨e, he⟩ := Option.isSome_iff_exists.mp hstored
      exact ⟨hlinked.listed _ k' e he, hstored⟩
    rw [← take_append_drop (clampBatch batchSize)
      ((h.store.shards (nextShard cfg h.store)).byAge.map Prod.fst)] at hmem hsorted
    have hlater := (mem_append.mp hmem).resolve_left hk'
    exact (pairwise_append.mp hsorted).2.2 k hk k' hlater
  · rw [hdrops.lookup, map_take]

/-- The lists of a store, as they should be. -/
structure Ordered (h : History) (i : Nat) : Prop where
  nodup : (h.store.shards i).lru.order.Nodup
  keyMap_iff : ∀ key elem, (h.store.shards i).lru.keyMap.lookup key = some elem ↔
    elem ∈ (h.store.shards i).lru.list ∧ elem.key = key
  listed : ∀ key e, (h.store.shards i).data.lookup key = some e →
    key ∈ (h.store.shards i).lru.order
  sorted : (h.store.shards i).lru.order.Pairwise fun a b => h.lastUse b < h.lastUse a

/-- **LRU order.**  After any sequence of calls, the list of every shard has no key twice, `keyMap`
    leads from the listed keys to their own elements, every stored key is listed, and the list is
    ordered from the most to the least recently used key.  `evictBatchLRU` removes as many of the
    least recently used keys of its shard as its argument says, at least 1 and at most 100, or all
    of them if there are fewer, and no others. -/
theorem recency_order (cfg : StoreConfig) (calls : List LruCall) :
    (∀ i, Ordered (of cfg calls) i) ∧ ∀ batchSize,
      EvictsOldest cfg (of cfg calls) batchSize
        (min (clampBatch batchSize) (turnSize cfg (of cfg calls))) := by
  obtain ⟨hlinked, hrecent⟩ := invariants_of cfg calls
  refine ⟨fun i => ⟨?_, ?_, ?_, hrecent.sorted i⟩, evictsOldest hlinked hrecent⟩
  · exact ((of cfg calls).store.shards i).lru.nodup
  · exact ((of cfg calls).store.shards i).lru.inStep.lookup_iff
  · exact hlinked.listed i

/-- A batch of 0 entries is one of 1. -/
theorem evicts_one_of_batch_zero :
    ¬ ∀ (cfg : StoreConfig) (calls : List LruCall) (batchSize : Int),
      EvictsOldest cfg (of cfg calls) batchSize
        (min batchSize.toNat (turnSize cfg (of cfg calls))) := by
  intro hall
  obtain ⟨gone, -, hlength, -, -, hlookup⟩ :=
    hall oneShard [.set (ascii "k") (some (plainItem 1 "a"))] 0
  obtain rfl := eq_nil_of_length_eq_zero (hlength.trans (Nat.zero_min _))
  have hkept := hlookup 0 (ascii "k")
  rw [if_neg fun h => not_mem_nil h.2] at hkept
  exact absurd hkept (by decide)

end History

end MemStorage

end GridKV
