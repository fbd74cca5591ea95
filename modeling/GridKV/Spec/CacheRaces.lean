import GridKV.ForStd.Interleave
import GridKV.Model.HotCache
import GridKV.Spec.StoreLww

/-!
# Reads behind the hot cache

Any number of `reader.Get` and `writer.Set` calls on one key interleave at one node.  A
`Set` stores its item and then empties the cache, so what is cached afterwards was put
there later.  That need not be recent: a `Get` that found the key neither cached nor stored
may still be waiting for another node when the `Set` returns, and then fills the cache with
the older item it was sent.

A version counts as *acknowledged* from the return of its `Set` on, until the store loses
the key.  If no older item than an acknowledged one is ever put into the cache, every `Get`
returns at least the versions acknowledged when it started (`atLeast_of_run`).
-/

namespace GridKV

open Go Run Interleave MemStorage

/-! ### The cache -/

namespace CacheShard

variable {now : Time} {s : CacheShard} {key : GoString} {e : CacheEntry}

@[simp] theorem lookup_moveToFront : (s.moveToFront key).items = s.items := rfl

theorem lookup_of_lookup_get (h : (s.get now key).1.items.lookup key = some e) :
    s.items.lookup key = some e := by
  unfold get at h
  split at h
  · exact h
  · split at h
    · simp [remove] at h
    · exact h

theorem lookup_of_get_snd {item : StoredItem} (h : (s.get now key).2 = some item) :
    ∃ e, s.items.lookup key = some e ∧ e.value = item := by
  unfold get at h
  split at h
  · exact nomatch h
  · rename_i e he
    split at h
    · exact nomatch h
    · exact ⟨e, he, Option.some.inj h⟩

/-- Whatever is thrown out to make room, the key is bound to the new value. -/
theorem value_of_lookup_set {maxSize : Nat} {estimate : GoString → Nat} {ttl : Time}
    {value : StoredItem}
    (h : (s.set maxSize estimate now ttl key value).items.lookup key = some e) :
    e.value = value := by
  simp only [set] at h
  split at h
  all_goals
    rw [lookup_moveToFront, AList.lookup_insert] at h
    exact (Option.some.inj h) ▸ rfl

end CacheShard

namespace HotCache

/-- What the cache holds for a key, expired or not. -/
def held (cfg : CacheConfig) (c : HotCache) (key : GoString) : Option StoredItem :=
  ((c.shards (cfg.shardIndex key)).items.lookup key).map (·.value)

variable {cfg : CacheConfig} {c : HotCache} {key : GoString} {item : StoredItem}

/-- A lookup adds nothing to the cache. -/
theorem held_of_held_get {now : Time} (h : held cfg (c.get cfg now key).1 key = some item) :
    held cfg c key = some item := by
  unfold get at h
  split at h
  · exact h
  · simp only [held, Function.update_self, Option.map_eq_some_iff] at h ⊢
    obtain ⟨e, he, rfl⟩ := h
    exact ⟨e, CacheShard.lookup_of_lookup_get he, rfl⟩

theorem held_of_get_snd {now : Time} (h : (c.get cfg now key).2 = some item) :
    held cfg c key = some item := by
  unfold get at h
  split at h
  · exact nomatch h
  · exact Option.map_eq_some_iff.mpr (CacheShard.lookup_of_get_snd h)

theorem eq_of_held_set {estimate : GoString → Nat} {now ttl : Time} {value : StoredItem}
    (hkey : key ≠ []) (h : held cfg (c.set cfg estimate now ttl key value) key = some item) :
    item = value := by
  simp only [set, if_neg hkey, held, Function.update_self, Option.map_eq_some_iff] at h
  obtain ⟨e, he, rfl⟩ := h
  exact CacheShard.value_of_lookup_set he

theorem held_delete (hkey : key ≠ []) : held cfg (c.delete cfg key) key = none := by
  simp [delete, hkey, held, CacheShard.remove]

end HotCache

/-! ### The interleavings -/

/-- The node, the versions acknowledged, and how often the store has lost the key. -/
structure AckedStore where
  node : CachedStore := {}
  acked : List Int64 := []
  losses : Nat := 0

/-- The two calls. -/
inductive CacheCall where
  | get (call : GetCall)
  /-- The item has the version that `writer.Set` has given it. -/
  | set (item : StoredItem)

/-- Where a call stands.  A `Get` carries the versions that were acknowledged when it
    started, and both carry the count of losses: a `Get` from its start, a `Set` from the
    moment it stored its item. -/
inductive CachePhase where
  | idle
  | getting (since : List Int64) (losses : Nat) (phase : GetPhase)
  | setting (losses : Nat) (phase : StorePhase)

namespace AckedStore

variable (cfg : CachedConfig) (key : GoString) {call : GetCall} {since : List Int64}
  {item : StoredItem} {losses : Nat} {y : AckedStore} {p q : CachePhase}

/-- What the store holds for the key. -/
def held (s : AckedStore) : Option CompressedItem := entry cfg.store s.node.store key

/-- The store did not lose the key, and did not go back to an older version of it. -/
def kept (before after : Option CompressedItem) : Bool :=
  match before, after with
  | none, _ => true
  | some _, none => false
  | some e, some e' => e.version ≤ e'.version

/-- The node after a step; if the key is lost, no version is acknowledged any more. -/
def update (s : AckedStore) (node : CachedStore) : AckedStore :=
  if kept (entry cfg.store s.node.store key) (entry cfg.store node.store key) then { s with node }
  else { node, acked := [], losses := s.losses + 1 }

/-- Acknowledge a version, unless the key was lost after it was stored. -/
def acknowledge (s : AckedStore) (losses : Nat) (version : Int64) : AckedStore :=
  if losses = s.losses then { s with acked := version :: s.acked } else s

/-- The next step of a call. -/
def act (call : CacheCall) (s : AckedStore) (p : CachePhase) : Option (AckedStore × CachePhase) :=
  match call, p with
  | .get call, .idle =>
    (getStep cfg key call s.node .start).map fun out =>
      (s.update cfg key out.1, .getting s.acked s.losses out.2)
  | .get call, .getting since losses phase =>
    (getStep cfg key call s.node phase).map fun out =>
      (s.update cfg key out.1, .getting since losses out.2)
  | .set item, .idle =>
    (storeStep cfg key item s.node .start).map fun out =>
      (s.update cfg key out.1, .setting (s.update cfg key out.1).losses out.2)
  | .set item, .setting losses phase =>
    (storeStep cfg key item s.node phase).map fun out =>
      ((s.update cfg key out.1).acknowledge losses item.version, .setting losses out.2)
  | _, _ => none

/-- The result has at least the version. -/
def AtLeast (result : Except StoreError (Option StoredItem)) (v : Int64) : Prop :=
  ∃ item, result = .ok (some item) ∧ v ≤ item.version

/-- The condition on a step: a value that is found in the store can be read back, and the
    cache is not filled with an item older than one that is acknowledged. -/
def CarefulAt (call : CacheCall) (s : AckedStore) (p : CachePhase) : Prop :=
  match call, p with
  | .get call, .getting _ _ .lookup =>
    ∀ e, entry cfg.store s.node.store key = some e → expiredAt call.now e = false →
      valueOf cfg.store e ≠ none
  | .get _, .getting _ _ (.fill item) => ∀ v ∈ s.acked, v ≤ item.version
  | _, _ => True

/-- What is acknowledged has been reached by the store, and nothing older is cached. -/
def Coherent (s : AckedStore) : Prop :=
  ∀ v ∈ s.acked, Lww.Reached versionOf (s.held cfg key) v.toInt ∧
    ∀ item, HotCache.held cfg.cache s.node.cache key = some item → v ≤ item.version

/-- What is known of a call as long as the key is not lost. -/
def Knows (call : CacheCall) (s : AckedStore) : CachePhase → Prop
  | .idle => True
  | .getting _ _ .start => False
  | .setting _ .start => False
  | .getting since losses phase =>
    losses ≤ s.losses ∧ (losses = s.losses →
      match phase with
      | .start => False
      | .lookup => since ⊆ s.acked
      | .fetch => since = []
      | .fill _ => since = []
      | .returned result => ∀ v ∈ since, AtLeast result v)
  | .setting losses phase =>
    losses ≤ s.losses ∧ (losses = s.losses → phase = .uncache →
      ∀ item, call = .set item → Lww.Reached versionOf (s.held cfg key) item.version.toInt)

/-- What a step may do to the others: unless the key is lost, acknowledged versions stay so
    and the store only moves on. -/
def Advances (s t : AckedStore) : Prop :=
  s.losses ≤ t.losses ∧ (s.losses = t.losses → s.acked ⊆ t.acked ∧
    ∀ v, Lww.Reached versionOf (s.held cfg key) v → Lww.Reached versionOf (t.held cfg key) v)

variable {cfg key} {s t : AckedStore}

theorem reached_of_kept {before after : Option CompressedItem} (h : kept before after) {v : Int}
    (hreached : Lww.Reached versionOf before v) : Lww.Reached versionOf after v := by
  obtain ⟨e, rfl, hle⟩ := hreached
  cases after with
  | none => exact nomatch h
  | some e' =>
    have hversion : e.version ≤ e'.version := of_decide_eq_true h
    exact ⟨e', rfl, le_trans hle (Int64.le_iff_toInt_le.mp hversion)⟩

theorem advances_update (s : AckedStore) (node : CachedStore) :
    s.Advances cfg key (s.update cfg key node) := by
  unfold update
  split
  · rename_i hkept
    exact ⟨le_refl _, fun _ => ⟨List.Subset.refl _, fun v => reached_of_kept hkept⟩⟩
  · refine ⟨Nat.le_succ _, fun heq => ?_⟩
    exact absurd heq (Nat.ne_of_lt (Nat.lt_succ_self _))

@[simp] theorem node_update (s : AckedStore) (node : CachedStore) :
    (s.update cfg key node).node = node := by
  unfold update
  split <;> rfl

theorem kept_refl (e : Option CompressedItem) : kept e e := by
  cases e with
  | none => rfl
  | some e => exact decide_eq_true (Int64.le_refl _)

/-- A step that leaves the store alone loses nothing. -/
theorem update_cache (s : AckedStore) (cache : HotCache) :
    s.update cfg key { s.node with cache } = { s with node := { s.node with cache } } := by
  unfold update
  rw [if_pos (kept_refl _)]

theorem update_self (s : AckedStore) : s.update cfg key s.node = s := update_cache s s.node.cache

theorem Coherent.update (h : s.Coherent cfg key) {node : CachedStore}
    (hcache : ∀ v ∈ s.acked, ∀ item, HotCache.held cfg.cache node.cache key = some item →
      v ≤ item.version) :
    (s.update cfg key node).Coherent cfg key := by
  unfold AckedStore.update
  split
  · rename_i hkept
    exact fun v hv => ⟨reached_of_kept hkept (h v hv).1, hcache v hv⟩
  · exact fun v hv => nomatch hv

/-- A step that leaves the cache alone. -/
theorem Coherent.update_store (h : s.Coherent cfg key) (store : MemStorage) :
    (s.update cfg key { s.node with store }).Coherent cfg key :=
  h.update fun v hv => (h v hv).2

theorem Knows.advance {call : CacheCall} (h : Knows cfg key call s p)
    (hadv : s.Advances cfg key t) : Knows cfg key call t p := by
  cases p with
  | idle => trivial
  | getting since losses phase =>
    cases phase with
    | start => exact h
    | lookup =>
      refine ⟨le_trans h.1 hadv.1, fun heq => ?_⟩
      -- The count has not moved, so nothing has been lost since the call started.
      have hsame : losses = s.losses := le_antisymm h.1 (heq ▸ hadv.1)
      exact List.Subset.trans (h.2 hsame) (hadv.2 (hsame.symm.trans heq)).1
    | _ => exact ⟨le_trans h.1 hadv.1, fun heq => h.2 (le_antisymm h.1 (heq ▸ hadv.1))⟩
  | setting losses phase =>
    cases phase with
    | start => exact h
    | _ =>
      refine ⟨le_trans h.1 hadv.1, fun heq hphase item hcall => ?_⟩
      have hsame : losses = s.losses := le_antisymm h.1 (heq ▸ hadv.1)
      exact (hadv.2 (hsame.symm.trans heq)).2 _ (h.2 hsame hphase item hcall)

/-! ### The steps of `Get` -/

/-- The lookup in the cache finds nothing older than what is acknowledged. -/
theorem act_get_start (hcoherent : s.Coherent cfg key)
    (h : act cfg key (.get call) s .idle = some (y, q)) :
    y.Coherent cfg key ∧ Knows cfg key (.get call) y q ∧ s.Advances cfg key y := by
  simp only [act, getStep] at h
  have hless : ∀ v ∈ s.acked, ∀ item,
      HotCache.held cfg.cache (s.node.cache.get cfg.cache call.cacheNow key).1 key = some item →
      v ≤ item.version :=
    fun v hv item hitem => (hcoherent v hv).2 item (HotCache.held_of_held_get hitem)
  cases hfound : s.node.cache.get cfg.cache call.cacheNow key with
  | mk cache found =>
    rw [hfound] at hless
    cases found with
    | some item =>
      simp only [hfound, Option.map_some] at h
      cases h
      refine ⟨hcoherent.update hless, ?_, advances_update ..⟩
      rw [update_cache]
      refine ⟨le_refl _, fun _ v hv => ⟨item, rfl, (hcoherent v hv).2 item ?_⟩⟩
      exact HotCache.held_of_get_snd (congrArg Prod.snd hfound)
    | none =>
      simp only [hfound, Option.map_some] at h
      cases h
      refine ⟨hcoherent.update hless, ?_, advances_update ..⟩
      rw [update_cache]
      exact ⟨le_refl _, fun _ => List.Subset.refl _⟩

/-- The lookup in the store: as long as it has not lost the key, what is acknowledged is
    found. -/
theorem act_get_lookup (hkey : key ≠ []) (hcoherent : s.Coherent cfg key)
    (hknows : Knows cfg key (.get call) s (.getting since losses .lookup))
    (hcareful : CarefulAt cfg key (.get call) s (.getting since losses .lookup))
    (h : act cfg key (.get call) s (.getting since losses .lookup) = some (y, q)) :
    y.Coherent cfg key ∧ Knows cfg key (.get call) y q ∧ s.Advances cfg key y := by
  simp only [act, getStep] at h
  -- While nothing is lost, the versions of the call have been reached by the store.
  have hreached : ∀ node, losses = (s.update cfg key node).losses → ∀ v ∈ since,
      Lww.Reached versionOf (entry cfg.store s.node.store key) v.toInt := by
    intro node heq v hv
    have hsame : losses = s.losses := le_antisymm hknows.1 (heq ▸ (advances_update s node).1)
    exact (hcoherent v (hknows.2 hsame hv)).1
  have hle : ∀ node, losses ≤ (s.update cfg key node).losses :=
    fun node => le_trans hknows.1 (advances_update s node).1
  cases hread : s.node.store.get cfg.store call.now key with
  | mk store result =>
    have hresult : (s.node.store.getNoCopy cfg.store call.now key).2 = result :=
      congrArg Prod.snd hread
    have hstore : (s.node.store.getNoCopy cfg.store call.now key).1 = store :=
      congrArg Prod.fst hread
    cases result with
    | ok item =>
      simp only [hread, Option.map_some] at h
      cases h
      refine ⟨hcoherent.update_store store, ⟨hle _, fun heq v hv => ⟨item, rfl, ?_⟩⟩,
        advances_update ..⟩
      obtain ⟨e, he, hversion⟩ := version_of_getNoCopy_eq_ok hresult
      obtain ⟨e', he', hv'⟩ := hreached _ heq v hv
      cases he.symm.trans he'
      rw [← hversion]
      exact Int64.le_iff_toInt_le.mpr hv'
    | error err =>
      obtain ⟨rfl, hnone⟩ | ⟨rfl, hremoved, e, he⟩ | ⟨rfl, e, he, hfresh, hvalue⟩ :=
        getNoCopy_error_cases hkey hresult
      · -- Not found, so nothing was acknowledged when the call started.
        simp only [hread, ne_eq, not_true_eq_false, false_and, if_false, Option.map_some,
          Option.some.injEq, Prod.mk.injEq] at h
        obtain ⟨rfl, rfl⟩ := h
        refine ⟨hcoherent.update_store store, ⟨hle _, fun heq => ?_⟩, advances_update ..⟩
        rw [List.eq_nil_iff_forall_not_mem]
        intro v hv
        obtain ⟨e, he, -⟩ := hreached _ heq v hv
        rw [hnone] at he
        exact nomatch he
      · -- The entry has expired and is gone: the key is lost.
        simp only [hread, ne_eq, not_true_eq_false, and_false, if_false, Option.map_some,
          Option.some.injEq, Prod.mk.injEq] at h
        obtain ⟨rfl, rfl⟩ := h
        refine ⟨hcoherent.update_store store, ⟨hle _, fun heq => ?_⟩, advances_update ..⟩
        have hlost : (s.update cfg key { s.node with store }).losses = s.losses + 1 := by
          rw [hstore] at hremoved
          simp [AckedStore.update, he, hremoved, kept]
        exact absurd (heq.trans hlost) (Nat.ne_of_lt (Nat.lt_succ_of_le hknows.1))
      · -- An entry that cannot be decompressed would be fetched from elsewhere.
        exact absurd hvalue (hcareful e he hfresh)

theorem act_get_fetch (hcoherent : s.Coherent cfg key)
    (hknows : Knows cfg key (.get call) s (.getting since losses .fetch))
    (h : act cfg key (.get call) s (.getting since losses .fetch) = some (y, q)) :
    y.Coherent cfg key ∧ Knows cfg key (.get call) y q ∧ s.Advances cfg key y := by
  have hadv : s.Advances cfg key (s.update cfg key s.node) := advances_update s s.node
  rw [update_self] at hadv
  simp only [act, getStep] at h
  split at h
  · simp only [Option.map_some, Option.some.injEq, Prod.mk.injEq, update_self] at h
    obtain ⟨rfl, rfl⟩ := h
    refine ⟨hcoherent, ⟨hknows.1, fun heq v hv => ?_⟩, hadv⟩
    rw [show since = [] from hknows.2 heq] at hv
    exact nomatch hv
  · simp only [Option.map_some, Option.some.injEq, Prod.mk.injEq, update_self] at h
    obtain ⟨rfl, rfl⟩ := h
    exact ⟨hcoherent, hknows, hadv⟩

/-- Filling the cache is where care is needed. -/
theorem act_get_fill (hkey : key ≠ []) (hcoherent : s.Coherent cfg key)
    (hknows : Knows cfg key (.get call) s (.getting since losses (.fill item)))
    (hcareful : CarefulAt cfg key (.get call) s (.getting since losses (.fill item)))
    (h : act cfg key (.get call) s (.getting since losses (.fill item)) = some (y, q)) :
    y.Coherent cfg key ∧ Knows cfg key (.get call) y q ∧ s.Advances cfg key y := by
  simp only [act, getStep, Option.map_some] at h
  cases h
  refine ⟨hcoherent.update fun v hv cached hcached => ?_, ?_, advances_update ..⟩
  · rw [HotCache.eq_of_held_set hkey hcached]
    exact hcareful v hv
  · rw [update_cache]
    refine ⟨hknows.1, fun heq v hv => ?_⟩
    rw [show since = [] from hknows.2 heq] at hv
    exact nomatch hv

/-! ### The steps of `Set` -/

theorem act_set_start (hcoherent : s.Coherent cfg key)
    (h : act cfg key (.set item) s .idle = some (y, q)) :
    y.Coherent cfg key ∧ Knows cfg key (.set item) y q ∧ s.Advances cfg key y := by
  simp only [act, storeStep] at h
  split at h
  · simp only [Option.map_some] at h
    cases h
    exact ⟨hcoherent.update_store s.node.store, ⟨le_refl _, fun _ hphase => nomatch hphase⟩,
      advances_update ..⟩
  · cases hset : s.node.store.set cfg.store key (some item) with
    | mk store err =>
      cases err with
      | some err =>
        simp only [hset, Option.map_some] at h
        cases h
        exact ⟨hcoherent.update_store store, ⟨le_refl _, fun _ hphase => nomatch hphase⟩,
          advances_update ..⟩
      | none =>
        simp only [hset, Option.map_some] at h
        cases h
        refine ⟨hcoherent.update_store store, ⟨le_refl _, fun _ _ x hcall => ?_⟩,
          advances_update ..⟩
        cases hcall
        -- `Set` returned nil, so the store holds the item or something as new.
        have hreached := reached_of_set_eq_none (congrArg Prod.snd hset)
        rw [hset] at hreached
        simpa only [held, node_update] using hreached

/-- The cache is empty when the version is acknowledged. -/
theorem act_set_uncache (hkey : key ≠ []) (hcoherent : s.Coherent cfg key)
    (hknows : Knows cfg key (.set item) s (.setting losses .uncache))
    (h : act cfg key (.set item) s (.setting losses .uncache) = some (y, q)) :
    y.Coherent cfg key ∧ Knows cfg key (.set item) y q ∧ s.Advances cfg key y := by
  simp only [act, storeStep, Option.map_some, update_cache, Option.some.injEq,
    Prod.mk.injEq] at h
  obtain ⟨rfl, rfl⟩ := h
  have hempty : ∀ x, HotCache.held cfg.cache (s.node.cache.delete cfg.cache key) key ≠ some x := by
    intro x hx
    rw [HotCache.held_delete hkey] at hx
    exact nomatch hx
  unfold acknowledge
  dsimp only
  split
  · -- The key was not lost since it was stored: the version joins the acknowledged ones.
    rename_i hsame
    refine ⟨fun v hv => ⟨?_, fun x hx => absurd hx (hempty x)⟩, ⟨hknows.1, ?_⟩, ⟨le_refl _, ?_⟩⟩
    · obtain rfl | hold := List.mem_cons.mp hv
      · exact hknows.2 hsame rfl item rfl
      · exact (hcoherent v hold).1
    · exact fun _ hphase => nomatch hphase
    · exact fun _ => ⟨List.subset_cons_self _ _, fun v hv => hv⟩
  · refine ⟨fun v hv => ⟨(hcoherent v hv).1, fun x hx => absurd hx (hempty x)⟩,
      ⟨hknows.1, fun _ hphase => nomatch hphase⟩, ⟨le_refl _, ?_⟩⟩
    exact fun _ => ⟨List.Subset.refl _, fun v hv => hv⟩

/-- Every step of every call. -/
theorem act_keeps {call : CacheCall} (hkey : key ≠ []) (hcoherent : s.Coherent cfg key)
    (hknows : Knows cfg key call s p) (hcareful : CarefulAt cfg key call s p)
    (h : act cfg key call s p = some (y, q)) :
    y.Coherent cfg key ∧ Knows cfg key call y q ∧ s.Advances cfg key y := by
  cases call with
  | get call =>
    cases p with
    | idle => exact act_get_start hcoherent h
    | getting since losses phase =>
      cases phase with
      | start => exact hknows.elim
      | lookup => exact act_get_lookup hkey hcoherent hknows hcareful h
      | fetch => exact act_get_fetch hcoherent hknows h
      | fill item => exact act_get_fill hkey hcoherent hknows hcareful h
      | returned result => exact nomatch h
    | setting losses phase => exact nomatch h
  | set item =>
    cases p with
    | idle => exact act_set_start hcoherent h
    | getting since losses phase => exact nomatch h
    | setting losses phase =>
      cases phase with
      | start => exact hknows.elim
      | uncache => exact act_set_uncache hkey hcoherent hknows h
      | returned err => exact nomatch h

/-! ### Runs -/

/-- **Reads after a write.**  In every interleaving of any number of `Get`s and `Set`s of the
    key at a node, from any store and cache, all of whose steps are careful: a `Get` that
    has returned, while the store kept the key, returned an item at least as new as every
    version that was acknowledged when it started. -/
theorem atLeast_of_run {ι : Type} [DecidableEq ι] {calls : ι → CacheCall} {schedule : List ι}
    {node : CachedStore} {s : System ι AckedStore CachePhase} (hkey : key ≠ [])
    (hrun : GuardedRun (Interleave.step fun i => act cfg key (calls i))
      (fun s i => CarefulAt cfg key (calls i) s.shared (s.phase i))
      ⟨{ node }, fun _ => .idle⟩ schedule s)
    {i : ι} {since : List Int64} {losses : Nat} {result : Except StoreError (Option StoredItem)}
    (hphase : s.phase i = .getting since losses (.returned result))
    (hkept : losses = s.shared.losses) {v : Int64} (hv : v ∈ since) : AtLeast result v := by
  have hsat : Satisfies (Coherent cfg key) (fun i => Knows cfg key (calls i)) s := by
    refine hrun.invariant (fun s i t hs hcareful hstep => ?_)
      ⟨fun v hv => (nomatch hv), fun _ => trivial⟩
    refine satisfies_step (fun y q hact => act_keeps hkey hs.1 (hs.2 i) hcareful hact) ?_ hs hstep
    exact fun j x p y hknows hadv => hknows.advance hadv
  have hknows := hsat.2 i
  rw [hphase] at hknows
  exact hknows.2 hkept v hv

/-- Two nodes, of which this one is the first. -/
def cachedPair : CachedConfig where
  nodeID := ascii "n1"
  store := oneShard
  ring :=
    { hashHi := fun _ => 0
      nodes := [⟨1, ascii "n1"⟩, ⟨2, ascii "n2"⟩]
      sorted := by simp }
  cache := { hashLo := fun _ => 0, hashHi := fun _ => 0, shardMask := 0, maxSize := 10 }
  cacheTTL := 100

/-- A `Get` at the beginning; the other node has version 1. -/
def staleGet : GetCall where
  cacheNow := 0
  now := 0
  alive _ := true
  fetch _ := some (some (plainItem 1 "a"))
  fillNow := 5
  estimate _ := 0

/-- Two reads and a write of version 2. -/
def staleCalls : Fin 3 → CacheCall
  | 0 => .get staleGet
  | 1 => .set (plainItem 2 "b")
  | 2 => .get staleGet

/-- The first read has version 1 from the other node when version 2 is written and
    acknowledged, and puts it into the cache; the second read finds it there. -/
theorem stale_read_after_write :
    ∃ s, Runs (Interleave.step fun i => act cachedPair (ascii "k") (staleCalls i))
        ⟨{ node := {} }, fun _ => .idle⟩ [0, 0, 0, 1, 1, 0, 2] s ∧
      s.phase 2 = .getting [2] 0 (.returned (.ok (some (plainItem 1 "a")))) ∧
      s.shared.losses = 0 ∧ ¬ AtLeast (.ok (some (plainItem 1 "a"))) 2 := by
  refine ⟨_, runs_of_exec rfl, rfl, rfl, ?_⟩
  rintro ⟨item, hitem, hle⟩
  cases hitem
  exact absurd hle (by decide)

/-- The same calls, when the first read is done before the write. -/
theorem fresh_read_after_write :
    ∃ s : System (Fin 3) AckedStore CachePhase,
      s.phase 2 = .getting [2] 0 (.returned (.ok (some (plainItem 2 "b")))) ∧
      s.shared.losses = 0 ∧ AtLeast (.ok (some (plainItem 2 "b"))) 2 := by
  have hrun : ∃ s, GuardedRun (Interleave.step fun i => act cachedPair (ascii "k") (staleCalls i))
      (fun s i => CarefulAt cachedPair (ascii "k") (staleCalls i) s.shared (s.phase i))
      ⟨{ node := {} }, fun _ => .idle⟩ [0, 0, 0, 0, 1, 1, 2, 2] s ∧
      s.phase 2 = .getting [2] 0 (.returned (.ok (some (plainItem 2 "b")))) ∧
      s.shared.losses = 0 := by
    refine ⟨_, .cons trivial rfl (.cons ?_ rfl (.cons trivial rfl (.cons ?_ rfl
      (.cons trivial rfl (.cons trivial rfl (.cons trivial rfl (.cons ?_ rfl (.nil _)))))))),
      rfl, rfl⟩
    · exact fun e he => nomatch he
    · exact fun v hv => nomatch hv
    · intro e he _
      cases he
      decide
  obtain ⟨s, hrun, hphase, hlosses⟩ := hrun
  exact ⟨s, hphase, hlosses, atLeast_of_run (by decide) hrun hphase hlosses.symm
    (List.mem_singleton.mpr rfl)⟩

end AckedStore

end GridKV
