import GridKV.ForStd.LinkedList
import GridKV.ForStd.MapWeight
import GridKV.Model.TtlCache

/-!
# The lists of the cache

In each shard the entries in the map are linked from the most recently used one to the
oldest, and no entry is linked in two shards or while it waits in the pool.  `Sound` says
so, with the list of each shard as an argument; the methods of the cache keep it, and the
search for a victim ends because of it.
-/

namespace GridKV

open Go List Function

/-- An entry without its links. -/
def TtlEntry.data {V : Type} (entry : TtlEntry V) : GoString × V × Int64 :=
  (entry.key, entry.value, entry.expireAt)

namespace TtlCache

variable {V : Type} {c c' : TtlCache V} {cfg : TtlConfig} {i j e p q : Nat} {key k : GoString}
  {ps : List Nat}

/-! ### The list of a shard -/

/-- The list between `head` and `tail` of a shard. -/
def links (c : TtlCache V) (i : Nat) : LinkedList Nat where
  next p := (c.heap p).next
  prev p := (c.heap p).prev
  head := (c.shards i).head
  tail := (c.shards i).tail

theorem links_setNext (next : Option Nat) :
    (c.setNext p next).links i =
      { c.links i with next := update (c.links i).next p next } := by
  refine LinkedList.ext (funext fun q => ?_) (funext fun q => ?_) rfl rfl
  all_goals
    by_cases hq : q = p
    · subst hq
      simp [links, setNext]
    · simp [links, setNext, hq]

theorem links_setPrev (prev : Option Nat) :
    (c.setPrev p prev).links i =
      { c.links i with prev := update (c.links i).prev p prev } := by
  refine LinkedList.ext (funext fun q => ?_) (funext fun q => ?_) rfl rfl
  all_goals
    by_cases hq : q = p
    · subst hq
      simp [links, setPrev]
    · simp [links, setPrev, hq]

theorem shards_modifyShard_self (f : TtlShard → TtlShard) :
    (c.modifyShard i f).shards i = f (c.shards i) := update_self ..

theorem shards_modifyShard_of_ne (c : TtlCache V) (f : TtlShard → TtlShard) (h : j ≠ i) :
    (c.modifyShard i f).shards j = c.shards j := update_of_ne h ..

theorem links_modifyShard (c : TtlCache V) (i : Nat) (f : TtlShard → TtlShard) :
    (c.modifyShard i f).links i =
      { c.links i with head := (f (c.shards i)).head, tail := (f (c.shards i)).tail } := by
  simp [links, modifyShard]

@[simp] theorem shards_setNext (c : TtlCache V) (p : Nat) (next : Option Nat) :
    (c.setNext p next).shards = c.shards := rfl

@[simp] theorem shards_setPrev (c : TtlCache V) (p : Nat) (prev : Option Nat) :
    (c.setPrev p prev).shards = c.shards := rfl

@[simp] theorem heap_modifyShard (c : TtlCache V) (i : Nat) (f : TtlShard → TtlShard) :
    (c.modifyShard i f).heap = c.heap := rfl

@[simp] theorem shards_poolPut : (c.poolPut e).shards = c.shards := rfl

theorem links_addToFront : (c.addToFront i e).links i = (c.links i).pushFront e := by
  cases hhead : (c.shards i).head <;> cases htail : (c.shards i).tail <;>
    simp [addToFront, hhead, htail, shards_modifyShard_self, links_modifyShard, links_setNext,
      links_setPrev, LinkedList.pushFront, LinkedList.setAt] <;> simp [links, hhead, htail]

theorem links_removeEntry (h : (c.heap e).prev ≠ some e) :
    (c.removeEntry i e).links i = (c.links i).unlink e := by
  -- The second half reads the links of `e` after the first has written to the entry before it.
  have hself : ∀ prev, (c.heap e).prev = some prev → ∀ next,
      (c.setNext prev next).heap e = c.heap e := by
    intro prev hprev next
    refine update_of_ne (fun heq => ?_) ..
    exact h (heq ▸ hprev)
  cases hprev : (c.heap e).prev <;> cases hnext : (c.heap e).next <;>
    simp [removeEntry, hprev, hnext, hself, shards_modifyShard_self, links_modifyShard,
      links_setNext, links_setPrev, LinkedList.unlink, LinkedList.setAt] <;>
    simp [links, hprev, hnext]

/-! ### Filling in entries -/

/-- Change the value and the expiry of an entry. -/
def overwrite (c : TtlCache V) (e : Nat) (value : V) (expireAt : Int64) : TtlCache V :=
  { c with heap := update c.heap e { c.heap e with value, expireAt } }

/-- Fill in an entry and file it under its key. -/
def writeEntry (c : TtlCache V) (i e : Nat) (key : GoString) (value : V) (expireAt : Int64) :
    TtlCache V :=
  { c with heap := update c.heap e { key, value, expireAt } }.modifyShard i fun s =>
    { s with items := s.items.insert key e }

/-- Fill in an entry, file it and put it in front. -/
def fileEntry (c : TtlCache V) (i e : Nat) (key : GoString) (value : V) (expireAt : Int64) :
    TtlCache V :=
  (c.writeEntry i e key value expireAt).addToFront i e

theorem insertEntry_eq (pick : Nat) (value : V) (expireAt : Int64) :
    c.insertEntry i pick key value expireAt =
      (c.poolGet pick).1.fileEntry i (c.poolGet pick).2 key value expireAt := rfl

/-! ### What relinking leaves alone -/

/-- Only the links of entries and the ends of shard `i` differ. -/
structure Relinks (i : Nat) (c c' : TtlCache V) : Prop where
  data_eq : ∀ q, (c'.heap q).data = (c.heap q).data
  shards_eq : ∀ j, j ≠ i → c'.shards j = c.shards j
  items_eq : (c'.shards i).items = (c.shards i).items
  pool_eq : c'.pool = c.pool
  allocated_eq : c'.allocated = c.allocated
  closed_eq : c'.closed = c.closed

namespace Relinks

theorem refl (i : Nat) (c : TtlCache V) : Relinks i c c :=
  ⟨fun _ => rfl, fun _ _ => rfl, rfl, rfl, rfl, rfl⟩

theorem trans {c'' : TtlCache V} (h : Relinks i c c') (h' : Relinks i c' c'') :
    Relinks i c c'' where
  data_eq q := (h'.data_eq q).trans (h.data_eq q)
  shards_eq j hj := (h'.shards_eq j hj).trans (h.shards_eq j hj)
  items_eq := h'.items_eq.trans h.items_eq
  pool_eq := h'.pool_eq.trans h.pool_eq
  allocated_eq := h'.allocated_eq.trans h.allocated_eq
  closed_eq := h'.closed_eq.trans h.closed_eq

/-- Writing a cell without changing what the entry holds. -/
theorem update (c : TtlCache V) (i : Nat) {p : Nat} {entry : TtlEntry V}
    (h : entry.data = (c.heap p).data) :
    Relinks i c { c with heap := update c.heap p entry } := by
  refine ⟨fun q => ?_, fun _ _ => rfl, rfl, rfl, rfl, rfl⟩
  by_cases hq : q = p
  · subst hq
    simpa using h
  · simp [hq]

theorem setNext (c : TtlCache V) (i p : Nat) (next : Option Nat) :
    Relinks i c (c.setNext p next) := update c i rfl

theorem setPrev (c : TtlCache V) (i p : Nat) (prev : Option Nat) :
    Relinks i c (c.setPrev p prev) := update c i rfl

theorem modifyShard (c : TtlCache V) {i : Nat} {f : TtlShard → TtlShard}
    (h : (f (c.shards i)).items = (c.shards i).items) : Relinks i c (c.modifyShard i f) where
  data_eq _ := rfl
  shards_eq _ hj := shards_modifyShard_of_ne c f hj
  items_eq := by rw [shards_modifyShard_self, h]
  pool_eq := rfl
  allocated_eq := rfl
  closed_eq := rfl

end Relinks

theorem relinks_addToFront (c : TtlCache V) (i e : Nat) : Relinks i c (c.addToFront i e) := by
  have hlinked : Relinks i c ((c.setNext e (c.shards i).head).setPrev e none) :=
    (Relinks.setNext ..).trans (Relinks.setPrev ..)
  have hends : ∀ c : TtlCache V, Relinks i c
      (let c := c.modifyShard i fun s => { s with head := some e }
      if (c.shards i).tail = none then c.modifyShard i fun s => { s with tail := some e }
      else c) := by
    intro c
    dsimp only
    have hhead : Relinks i c (c.modifyShard i fun s => { s with head := some e }) :=
      .modifyShard c rfl
    split
    · exact hhead.trans (.modifyShard _ rfl)
    · exact hhead
  refine Relinks.trans ?_ (hends _)
  split
  · exact hlinked.trans (Relinks.setPrev ..)
  · exact hlinked

theorem relinks_removeEntry (c : TtlCache V) (i e : Nat) : Relinks i c (c.removeEntry i e) := by
  unfold removeEntry
  dsimp only
  split
  · refine Relinks.trans ?_ (.setPrev ..)
    split
    · exact .setNext ..
    · exact .modifyShard c rfl
  · refine Relinks.trans ?_ (.modifyShard _ rfl)
    split
    · exact .setNext ..
    · exact .modifyShard c rfl

theorem relinks_moveToFront (c : TtlCache V) (i e : Nat) : Relinks i c (c.moveToFront i e) := by
  unfold moveToFront
  split
  · exact .refl i c
  · exact (relinks_removeEntry c i e).trans (relinks_addToFront _ i e)

/-- A cell whose links have not changed has not changed. -/
theorem Relinks.heap_eq (h : Relinks i c c') (hnext : (c'.links i).next q = (c.links i).next q)
    (hprev : (c'.links i).prev q = (c.links i).prev q) : c'.heap q = c.heap q := by
  have hdata := h.data_eq q
  simp only [TtlEntry.data, Prod.mk.injEq] at hdata
  simp only [links] at hnext hprev
  cases hcell' : c'.heap q
  cases hcell : c.heap q
  simp_all

theorem heap_addToFront (h : (c.links i).Represents ps) (hq : q ∉ e :: ps) :
    (c.addToFront i e).heap q = c.heap q := by
  refine (relinks_addToFront c i e).heap_eq ?_ ?_
  · rw [links_addToFront]
    exact LinkedList.Represents.next_pushFront_of_not_mem hq
  · rw [links_addToFront]
    exact h.prev_pushFront_of_not_mem hq

theorem heap_removeEntry (h : (c.links i).Represents ps) (he : e ∈ ps) (hq : q ∉ ps) :
    (c.removeEntry i e).heap q = c.heap q := by
  have hlinks : (c.removeEntry i e).links i = (c.links i).unlink e :=
    links_removeEntry (h.prev_ne_self he)
  refine (relinks_removeEntry c i e).heap_eq ?_ ?_
  · rw [hlinks]
    exact h.next_unlink_of_not_mem he hq
  · rw [hlinks]
    exact h.prev_unlink_of_not_mem he hq

theorem represents_removeEntry (h : (c.links i).Represents ps) (he : e ∈ ps) :
    ((c.removeEntry i e).links i).Represents (ps.erase e) := by
  rw [links_removeEntry (h.prev_ne_self he)]
  exact h.unlink he

theorem heap_moveToFront (h : (c.links i).Represents ps) (he : e ∈ ps) (hq : q ∉ ps) :
    (c.moveToFront i e).heap q = c.heap q := by
  unfold moveToFront
  split
  · rfl
  · have hq' : q ∉ e :: ps.erase e := by
      rw [mem_cons, not_or]
      exact ⟨fun heq => hq (heq ▸ he), fun hmem => hq (mem_of_mem_erase hmem)⟩
    rw [heap_addToFront (represents_removeEntry h he) hq', heap_removeEntry h he hq]

theorem items_fileEntry (value : V) (expireAt : Int64) :
    ((c.fileEntry i e key value expireAt).shards i).items =
      (c.shards i).items.insert key e := by
  rw [fileEntry, (relinks_addToFront _ i e).items_eq, writeEntry, shards_modifyShard_self]

theorem shards_fileEntry_of_ne (c : TtlCache V) (e : Nat) (key : GoString) (value : V)
    (expireAt : Int64) (hj : j ≠ i) :
    (c.fileEntry i e key value expireAt).shards j = c.shards j := by
  rw [fileEntry, (relinks_addToFront _ i e).shards_eq j hj]
  exact shards_modifyShard_of_ne _ _ hj

theorem represents_writeEntry (h : (c.links i).Represents ps) (he : e ∉ ps) (value : V)
    (expireAt : Int64) : ((c.writeEntry i e key value expireAt).links i).Represents ps := by
  rw [writeEntry, links_modifyShard]
  refine h.congr rfl rfl ?_ ?_
  all_goals
    intro p hp
    have hne : p ≠ e := fun heq => he (heq ▸ hp)
    simp [links, hne]

/-! ### Taking an entry out -/

theorem links_deleteItem : (c.deleteItem i key).links i = c.links i := links_modifyShard ..

theorem items_removeItem (c : TtlCache V) (i : Nat) (key : GoString) (e : Nat) :
    (((c.deleteItem i key).removeEntry i e).shards i).items = (c.shards i).items.erase key := by
  rw [(relinks_removeEntry _ i e).items_eq, deleteItem, shards_modifyShard_self]

theorem shards_removeItem_of_ne (c : TtlCache V) (key : GoString) (e : Nat) (hj : j ≠ i) :
    ((c.deleteItem i key).removeEntry i e).shards j = c.shards j := by
  rw [(relinks_removeEntry _ i e).shards_eq j hj]
  exact shards_modifyShard_of_ne _ _ hj

/-! ### A shard -/

/-- The list of a shard has the entries `ps`, and these are the entries in its map, each
    under its own key. -/
structure ShardOk (c : TtlCache V) (i : Nat) (ps : List Nat) : Prop where
  represents : (c.links i).Represents ps
  lookup_iff : ∀ k p, (c.shards i).items.lookup k = some p ↔ p ∈ ps ∧ (c.heap p).key = k

namespace ShardOk

theorem congr (h : ShardOk c i ps) (hshard : c'.shards i = c.shards i)
    (hheap : ∀ q ∈ ps, c'.heap q = c.heap q) : ShardOk c' i ps where
  represents := by
    refine h.represents.congr ?_ ?_ (fun q hq => ?_) fun q hq => ?_
    · exact congrArg TtlShard.head hshard
    · exact congrArg TtlShard.tail hshard
    · exact congrArg TtlEntry.next (hheap q hq)
    · exact congrArg TtlEntry.prev (hheap q hq)
  lookup_iff k p := by
    rw [hshard, h.lookup_iff]
    refine and_congr_right fun hp => ?_
    rw [hheap p hp]

theorem mem_of_lookup (h : ShardOk c i ps) (hlookup : (c.shards i).items.lookup key = some e) :
    e ∈ ps := ((h.lookup_iff key e).mp hlookup).1

theorem key_of_lookup (h : ShardOk c i ps) (hlookup : (c.shards i).items.lookup key = some e) :
    (c.heap e).key = key := ((h.lookup_iff key e).mp hlookup).2

/-- Taking an entry out of the map and the list. -/
theorem removeItem (h : ShardOk c i ps) (hlookup : (c.shards i).items.lookup key = some e) :
    ShardOk ((c.deleteItem i key).removeEntry i e) i (ps.erase e) where
  represents := by
    refine represents_removeEntry ?_ (h.mem_of_lookup hlookup)
    rw [links_deleteItem]
    exact h.represents
  lookup_iff k p := by
    have hkey : (((c.deleteItem i key).removeEntry i e).heap p).key = (c.heap p).key :=
      congrArg Prod.fst ((relinks_removeEntry (c.deleteItem i key) i e).data_eq p)
    rw [items_removeItem, hkey, h.represents.nodup.mem_erase_iff]
    by_cases hk : k = key
    · -- Another entry of the list with this key would have been in the map instead of `e`.
      subst hk
      rw [AList.lookup_erase]
      simp only [reduceCtorEq, false_iff]
      rintro ⟨⟨hne, hp⟩, hpk⟩
      have hsame := hlookup.symm.trans ((h.lookup_iff k p).mpr ⟨hp, hpk⟩)
      exact hne (Option.some.inj hsame).symm
    · rw [AList.lookup_erase_ne hk, h.lookup_iff]
      refine and_congr_left fun hpk => ⟨fun hp => ⟨?_, hp⟩, And.right⟩
      rintro rfl
      exact hk (hpk.symm.trans (h.key_of_lookup hlookup))

/-- Moving an entry of the list to its front. -/
theorem moveToFront (h : ShardOk c i ps) (he : e ∈ ps) :
    ShardOk (c.moveToFront i e) i (e :: ps.erase e) := by
  have hmem : ∀ p, p ∈ e :: ps.erase e ↔ p ∈ ps := by
    intro p
    rw [mem_cons, h.represents.nodup.mem_erase_iff]
    constructor
    · rintro (rfl | hp)
      · exact he
      · exact hp.2
    · intro hp
      exact (em (p = e)).imp_right fun hne => ⟨hne, hp⟩
  have hrelinks := relinks_moveToFront c i e
  refine ⟨?_, fun k p => ?_⟩
  · unfold TtlCache.moveToFront
    split
    · rename_i hhead
      -- The entry is in front already.
      obtain ⟨rest, rfl⟩ := head?_eq_some_iff.mp (h.represents.head_eq.symm.trans hhead)
      rw [erase_cons_head]
      exact h.represents
    · rw [links_addToFront]
      exact (represents_removeEntry h.represents he).pushFront h.represents.nodup.not_mem_erase
  · have hkey : ((c.moveToFront i e).heap p).key = (c.heap p).key :=
      congrArg Prod.fst (hrelinks.data_eq p)
    rw [hrelinks.items_eq, hkey, hmem, h.lookup_iff]

/-- Filing a new entry and putting it in front. -/
theorem fileEntry (h : ShardOk c i ps) (he : e ∉ ps) (hnone : (c.shards i).items.lookup key = none)
    (value : V) (expireAt : Int64) :
    ShardOk (c.fileEntry i e key value expireAt) i (e :: ps) where
  represents := by
    rw [TtlCache.fileEntry, links_addToFront]
    exact (represents_writeEntry h.represents he value expireAt).pushFront he
  lookup_iff k p := by
    have hrelinks := relinks_addToFront (c.writeEntry i e key value expireAt) i e
    have hkey : ((c.fileEntry i e key value expireAt).heap p).key =
        ((c.writeEntry i e key value expireAt).heap p).key :=
      congrArg Prod.fst (hrelinks.data_eq p)
    rw [items_fileEntry, hkey, mem_cons]
    by_cases hpe : p = e
    · -- The new entry is found under its key and under no other.
      subst hpe
      by_cases hk : k = key
      · subst hk
        rw [AList.lookup_insert]
        simp [writeEntry]
      · have hp : (c.shards i).items.lookup k ≠ some p := fun h' => he (h.mem_of_lookup h')
        rw [AList.lookup_insert_ne hk]
        simp [writeEntry, hp, Ne.symm hk]
    · -- The others are where they were; none of them had the new key.
      have hcell : (c.writeEntry i e key value expireAt).heap p = c.heap p :=
        update_of_ne hpe ..
      have hold := h.lookup_iff k p
      by_cases hk : k = key
      · subst hk
        rw [hnone] at hold
        rw [AList.lookup_insert, hcell]
        simp only [Option.some.injEq, Ne.symm hpe, hpe, false_or, false_iff]
        exact fun hmem => nomatch hold.mpr hmem
      · rw [AList.lookup_insert_ne hk, hcell, hold, or_iff_right hpe]

theorem heap_fileEntry (h : ShardOk c i ps) (he : e ∉ ps) (hq : q ∉ e :: ps) (value : V)
    (expireAt : Int64) : (c.fileEntry i e key value expireAt).heap q = c.heap q := by
  have hqe : q ≠ e := fun heq => hq (heq ▸ mem_cons_self)
  rw [TtlCache.fileEntry, heap_addToFront (represents_writeEntry h.represents he value expireAt) hq]
  exact update_of_ne hqe ..

end ShardOk

/-! ### The whole cache -/

/-- The lists of the shards are `lists`.  No shard has more entries than it may have, and
    no entry is in two lists, or in a list and in the pool. -/
structure Sound (cfg : TtlConfig) (c : TtlCache V) (lists : Nat → List Nat) : Prop where
  shardOk : ∀ i, ShardOk c i (lists i)
  length_le : ∀ i, (c.shards i).items.entries.length ≤ cfg.maxSize
  disjoint : ∀ i j, ∀ p ∈ lists i, p ∈ lists j → i = j
  pool_nodup : c.pool.Nodup
  not_pooled : ∀ i, ∀ p ∈ lists i, p ∉ c.pool
  lists_allocated : ∀ i, ∀ p ∈ lists i, p < c.allocated
  pool_allocated : ∀ p ∈ c.pool, p < c.allocated

/-- An entry that is neither linked nor in the pool. -/
structure Unused (c : TtlCache V) (lists : Nat → List Nat) (e : Nat) : Prop where
  not_linked : ∀ i, e ∉ lists i
  not_pooled : e ∉ c.pool
  allocated : e < c.allocated

theorem sound_empty [Inhabited V] (cfg : TtlConfig) :
    Sound cfg (empty : TtlCache V) fun _ => [] where
  shardOk _ := ⟨LinkedList.represents_nil rfl rfl, fun k p => by simp [empty]⟩
  length_le _ := Nat.zero_le _
  disjoint _ _ _ hp := nomatch hp
  pool_nodup := .nil
  not_pooled _ _ hp := nomatch hp
  lists_allocated _ _ hp := nomatch hp
  pool_allocated _ hp := nomatch hp

namespace Sound

variable {lists : Nat → List Nat} (h : Sound cfg c lists)

include h

/-- Only shard `i` and entries that are in its list or in none have changed. -/
theorem modify (hpool : c'.pool = c.pool) (hallocated : c'.allocated = c.allocated)
    (hshards : ∀ j, j ≠ i → c'.shards j = c.shards j)
    (hheap : ∀ j, j ≠ i → ∀ q ∈ lists j, c'.heap q = c.heap q) (hok : ShardOk c' i ps)
    (hlength : (c'.shards i).items.entries.length ≤ cfg.maxSize)
    (hps : ∀ p ∈ ps, p ∈ lists i ∨ Unused c lists p) :
    Sound cfg c' (update lists i ps) := by
  -- Whatever is in a list now was in it before, or is new in shard `i` and was in none.
  have hmem : ∀ j p, p ∈ update lists i ps j → p ∈ lists j ∨ j = i ∧ Unused c lists p := by
    intro j p hp
    by_cases hj : j = i
    · subst hj
      rw [update_self] at hp
      exact (hps p hp).imp_right fun hunused => ⟨rfl, hunused⟩
    · rw [update_of_ne hj] at hp
      exact .inl hp
  refine ⟨fun j => ?_, fun j => ?_, fun j j' p hp hp' => ?_, ?_, fun j p hp => ?_,
    fun j p hp => ?_, fun p hp => ?_⟩
  · by_cases hj : j = i
    · subst hj
      rwa [update_self]
    · rw [update_of_ne hj]
      exact (h.shardOk j).congr (hshards j hj) (hheap j hj)
  · by_cases hj : j = i
    · subst hj
      exact hlength
    · rw [hshards j hj]
      exact h.length_le j
  · obtain hold | ⟨hj, hunused⟩ := hmem j p hp
    · obtain hold' | ⟨_, hunused⟩ := hmem j' p hp'
      · exact h.disjoint j j' p hold hold'
      · exact absurd hold (hunused.not_linked j)
    · obtain hold' | ⟨hj', _⟩ := hmem j' p hp'
      · exact absurd hold' (hunused.not_linked j')
      · exact hj.trans hj'.symm
  · rw [hpool]
    exact h.pool_nodup
  · rw [hpool]
    obtain hp | ⟨_, hunused⟩ := hmem j p hp
    · exact h.not_pooled j p hp
    · exact hunused.not_pooled
  · rw [hallocated]
    obtain hp | ⟨_, hunused⟩ := hmem j p hp
    · exact h.lists_allocated j p hp
    · exact hunused.allocated
  · rw [hallocated]
    rw [hpool] at hp
    exact h.pool_allocated p hp

theorem not_mem_of_ne (hj : j ≠ i) (hq : q ∈ lists j) : q ∉ lists i :=
  fun hq' => hj (h.disjoint j i q hq hq')

/-- What happens in one shard does not touch the entries of another. -/
theorem heap_removeItem (he : e ∈ lists i) (hj : j ≠ i) (hq : q ∈ lists j) :
    ((c.deleteItem i key).removeEntry i e).heap q = c.heap q := by
  have hlinks : ((c.deleteItem i key).links i).Represents (lists i) := by
    rw [links_deleteItem]
    exact (h.shardOk i).represents
  exact heap_removeEntry hlinks he (h.not_mem_of_ne hj hq)

theorem heap_moveToFront (he : e ∈ lists i) (hj : j ≠ i) (hq : q ∈ lists j) :
    (c.moveToFront i e).heap q = c.heap q :=
  TtlCache.heap_moveToFront (h.shardOk i).represents he (h.not_mem_of_ne hj hq)

theorem heap_fileEntry (hunused : Unused c lists e) (hj : j ≠ i) (hq : q ∈ lists j) (value : V)
    (expireAt : Int64) : (c.fileEntry i e key value expireAt).heap q = c.heap q := by
  have hq' : q ∉ e :: lists i := by
    rw [mem_cons, not_or]
    exact ⟨fun heq => hunused.not_linked j (heq ▸ hq), h.not_mem_of_ne hj hq⟩
  exact (h.shardOk i).heap_fileEntry (hunused.not_linked i) hq' value expireAt

/-- Taking an entry out of the map and the list of its shard. -/
theorem removeItem (hlookup : (c.shards i).items.lookup key = some e) :
    Sound cfg ((c.deleteItem i key).removeEntry i e)
      (update lists i ((lists i).erase e)) := by
  have hrelinks := relinks_removeEntry (c.deleteItem i key) i e
  have he := (h.shardOk i).mem_of_lookup hlookup
  refine h.modify hrelinks.pool_eq hrelinks.allocated_eq
    (fun j hj => shards_removeItem_of_ne c key e hj) (fun j hj q hq => h.heap_removeItem he hj hq)
    ((h.shardOk i).removeItem hlookup) ?_ fun p hp => .inl (mem_of_mem_erase hp)
  have hlength := AList.length_erase hlookup
  have hle := h.length_le i
  rw [items_removeItem]
  omega

/-- An entry that has been taken out may go to the pool. -/
theorem unused_removeItem (hlookup : (c.shards i).items.lookup key = some e) :
    Unused ((c.deleteItem i key).removeEntry i e) (update lists i ((lists i).erase e))
      e := by
  have hrelinks := relinks_removeEntry (c.deleteItem i key) i e
  have he := (h.shardOk i).mem_of_lookup hlookup
  refine ⟨fun j hmem => ?_, ?_, ?_⟩
  · by_cases hj : j = i
    · subst hj
      rw [update_self] at hmem
      exact (h.shardOk j).represents.nodup.not_mem_erase hmem
    · rw [update_of_ne hj] at hmem
      exact hj (h.disjoint j i e hmem he)
  · rw [hrelinks.pool_eq]
    exact h.not_pooled i e he
  · rw [hrelinks.allocated_eq]
    exact h.lists_allocated i e he

theorem moveToFront (he : e ∈ lists i) :
    Sound cfg (c.moveToFront i e) (update lists i (e :: (lists i).erase e)) := by
  have hrelinks := relinks_moveToFront c i e
  refine h.modify hrelinks.pool_eq hrelinks.allocated_eq hrelinks.shards_eq
    (fun j hj q hq => h.heap_moveToFront he hj hq) ((h.shardOk i).moveToFront he) ?_
    fun p hp => .inl ?_
  · rw [hrelinks.items_eq]
    exact h.length_le i
  · obtain rfl | hp := mem_cons.mp hp
    · exact he
    · exact mem_of_mem_erase hp

/-- Filing an unused entry under a key that has none, where there is room for it. -/
theorem fileEntry (hunused : Unused c lists e) (hnone : (c.shards i).items.lookup key = none)
    (hroom : (c.shards i).items.entries.length < cfg.maxSize) (value : V) (expireAt : Int64) :
    Sound cfg (c.fileEntry i e key value expireAt) (update lists i (e :: lists i)) := by
  have hrelinks := relinks_addToFront (c.writeEntry i e key value expireAt) i e
  refine h.modify hrelinks.pool_eq hrelinks.allocated_eq
    (fun j hj => shards_fileEntry_of_ne c e key value expireAt hj)
    (fun j hj q hq => h.heap_fileEntry hunused hj hq value expireAt)
    ((h.shardOk i).fileEntry (hunused.not_linked i) hnone value expireAt) ?_ fun p hp => ?_
  · rw [items_fileEntry, AList.length_insert_of_none hnone]
    exact hroom
  · obtain rfl | hp := mem_cons.mp hp
    · exact .inr hunused
    · exact .inl hp

/-- Entries that are not used may go to the pool. -/
theorem poolAppend {es : List Nat} (hnodup : es.Nodup) (hunused : ∀ e ∈ es, Unused c lists e) :
    Sound cfg { c with pool := es ++ c.pool } lists where
  shardOk i := (h.shardOk i).congr rfl fun _ _ => rfl
  length_le := h.length_le
  disjoint := h.disjoint
  pool_nodup := by
    refine nodup_append.mpr ⟨hnodup, h.pool_nodup, ?_⟩
    rintro p hp _ hp' rfl
    exact (hunused p hp).not_pooled hp'
  not_pooled i p hp := by
    rw [mem_append, not_or]
    exact ⟨fun hmem => (hunused p hmem).not_linked i hp, h.not_pooled i p hp⟩
  lists_allocated := h.lists_allocated
  pool_allocated p hp := by
    obtain hp | hp := mem_append.mp hp
    · exact (hunused p hp).allocated
    · exact h.pool_allocated p hp

theorem poolPut (hunused : Unused c lists e) : Sound cfg (c.poolPut e) lists :=
  h.poolAppend (nodup_singleton e) (by simpa using hunused)

/-- An entry from the pool, or a new one, is not used. -/
theorem poolGet (pick : Nat) :
    Sound cfg (c.poolGet pick).1 lists ∧ Unused (c.poolGet pick).1 lists (c.poolGet pick).2 := by
  unfold TtlCache.poolGet
  cases hpick : c.pool[pick]? with
  | some e =>
    -- Each entry is in the pool once, so the one that is taken is not left there.
    obtain ⟨hlt, rfl⟩ := List.getElem?_eq_some_iff.mp hpick
    have herase : c.pool.eraseIdx pick = c.pool.erase c.pool[pick] :=
      (h.pool_nodup.erase_getElem pick hlt).symm
    have hsub : ∀ p ∈ c.pool.eraseIdx pick, p ∈ c.pool := fun p => mem_of_mem_eraseIdx
    refine ⟨⟨fun i => (h.shardOk i).congr rfl fun _ _ => rfl, h.length_le, h.disjoint, ?_,
      fun i p hp hp' => h.not_pooled i p hp (hsub p hp'), h.lists_allocated,
      fun p hp => h.pool_allocated p (hsub p hp)⟩, ?_⟩
    · exact h.pool_nodup.sublist (eraseIdx_sublist ..)
    · refine ⟨fun i hp => h.not_pooled i _ hp (getElem_mem hlt), ?_, ?_⟩
      · dsimp only
        rw [herase]
        exact h.pool_nodup.not_mem_erase
      · exact h.pool_allocated _ (getElem_mem hlt)
  | none =>
    refine ⟨⟨fun i => (h.shardOk i).congr rfl fun _ _ => rfl, h.length_le, h.disjoint,
      h.pool_nodup, h.not_pooled, fun i p hp => Nat.lt_succ_of_lt (h.lists_allocated i p hp),
      fun p hp => Nat.lt_succ_of_lt (h.pool_allocated p hp)⟩, ?_⟩
    exact ⟨fun i hp => Nat.lt_irrefl _ (h.lists_allocated i _ hp),
      fun hp => Nat.lt_irrefl _ (h.pool_allocated _ hp), Nat.lt_succ_self _⟩

/-- Changing the value and the expiry of an entry. -/
theorem overwrite (e : Nat) (value : V) (expireAt : Int64) :
    Sound cfg (c.overwrite e value expireAt) lists := by
  have hcell : ∀ q, ((c.overwrite e value expireAt).heap q).key = (c.heap q).key ∧
      ((c.overwrite e value expireAt).heap q).next = (c.heap q).next ∧
      ((c.overwrite e value expireAt).heap q).prev = (c.heap q).prev := by
    intro q
    by_cases hq : q = e
    · subst hq
      simp [TtlCache.overwrite]
    · simp [TtlCache.overwrite, hq]
  refine ⟨fun i => ⟨?_, fun k p => ?_⟩, h.length_le, h.disjoint, h.pool_nodup, h.not_pooled,
    h.lists_allocated, h.pool_allocated⟩
  · exact (h.shardOk i).represents.congr rfl rfl (fun q _ => (hcell q).2.1) fun q _ =>
      (hcell q).2.2
  · rw [(hcell p).1]
    exact (h.shardOk i).lookup_iff k p

/-! ### `Clear` -/

/-- The entries in the map of a shard. -/
theorem mem_of_mem_entries {item : Sigma fun _ : GoString => Nat}
    (hitem : item ∈ (c.shards i).items.entries) : item.2 ∈ lists i ∧ (c.heap item.2).key = item.1 :=
  ((h.shardOk i).lookup_iff item.1 item.2).mp (AList.mem_lookup_iff.mpr hitem)

theorem nodup_entries (i : Nat) : ((c.shards i).items.entries.map Sigma.snd).Nodup := by
  -- An entry that two keys share would have both of them as its own key.
  refine List.Nodup.map_on ?_ (c.shards i).items.nodupKeys.nodup
  intro item hitem item' hitem' heq
  have hkey := (h.mem_of_mem_entries hitem).2
  have hkey' := (h.mem_of_mem_entries hitem').2
  rw [← heq] at hkey'
  exact Sigma.ext (hkey.symm.trans hkey') (heq_of_eq heq)

theorem clearShard (i : Nat) : Sound cfg (c.clearShard i) (update lists i []) := by
  have hemptied : Sound cfg (c.modifyShard i fun _ => {}) (update lists i []) := by
    refine h.modify rfl rfl (fun j hj => shards_modifyShard_of_ne _ _ hj) (fun _ _ _ _ => rfl)
      ⟨?_, fun k p => ?_⟩ ?_ fun p hp => nomatch hp
    · rw [links_modifyShard]
      exact LinkedList.represents_nil rfl rfl
    · rw [shards_modifyShard_self]
      simp
    · rw [shards_modifyShard_self]
      exact Nat.zero_le _
  refine hemptied.poolAppend (h.nodup_entries i) fun e he => ?_
  obtain ⟨item, hitem, rfl⟩ := mem_map.mp he
  have hmem := (h.mem_of_mem_entries hitem).1
  refine ⟨fun j hmem' => ?_, h.not_pooled i _ hmem, h.lists_allocated i _ hmem⟩
  by_cases hj : j = i
  · subst hj
    simp at hmem'
  · rw [update_of_ne hj] at hmem'
    exact hj (h.disjoint j i _ hmem' hmem)

theorem clear : ∃ lists', Sound cfg (c.clear cfg) lists' := by
  unfold TtlCache.clear
  induction range cfg.shardCount generalizing c lists with
  | nil => exact ⟨lists, h⟩
  | cons i is ih => exact ih (h.clearShard i)

/-! ### The search for a victim -/

omit h in
/-- From an entry of the list the search comes to an end after as many rounds as there are
    entries before it, and what it finds is in the list. -/
theorem rareEntry_ends {us vs : List Nat} (h : (c.links i).Represents (us ++ p :: vs))
    (estimate : GoString → Nat) (newFreq : Nat) {fuel : Nat} (hfuel : us.length < fuel) :
    ∃ found, c.rareEntry estimate i newFreq fuel (some p) = some found ∧
      ∀ e ∈ found, e ∈ us ++ p :: vs := by
  -- Each round goes one entry back in `us` and uses one unit of fuel.
  induction fuel generalizing p us vs with
  | zero => exact absurd hfuel (Nat.not_lt_zero _)
  | succ fuel ih =>
    have hprev : (c.heap p).prev = us.getLast? := h.prev_eq us p vs rfl
    unfold rareEntry
    by_cases hrare : estimate (c.heap p).key < newFreq
    · refine ⟨some p, if_pos hrare, ?_⟩
      simp
    rw [if_neg hrare]
    by_cases hhead : (c.heap p).prev = (c.shards i).head
    · exact ⟨none, if_pos hhead, by simp⟩
    dsimp only
    rw [if_neg hhead, hprev]
    cases us using reverseRecOn with
    | nil =>
      -- The first entry has none before it.
      exact ⟨none, by rw [getLast?_nil, rareEntry], by simp⟩
    | append_singleton us q =>
      rw [getLast?_concat]
      have hlist : us ++ [q] ++ p :: vs = us ++ q :: p :: vs := by simp
      rw [hlist] at h ⊢
      rw [length_append, length_singleton] at hfuel
      exact ih h (by omega)

theorem length_list_le (i : Nat) : (lists i).length ≤ c.allocated := by
  have hsub : lists i ⊆ range c.allocated :=
    fun p hp => mem_range.mpr (h.lists_allocated i p hp)
  have hle := (subperm_of_subset (h.shardOk i).represents.nodup hsub).length_le
  rwa [length_range] at hle

/-- A victim is always found, and it is in the map under its key. -/
theorem victim_eq_some {oldest : Nat} (htail : (c.shards i).tail = some oldest)
    (estimate : GoString → Nat) (key : GoString) :
    ∃ e, c.victim estimate i key oldest = some e ∧
      (c.shards i).items.lookup (c.heap e).key = some e := by
  have hold : oldest ∈ lists i := (h.shardOk i).represents.tail_mem htail
  have hfiled : ∀ e ∈ lists i, (c.shards i).items.lookup (c.heap e).key = some e :=
    fun e he => ((h.shardOk i).lookup_iff _ e).mpr ⟨he, rfl⟩
  unfold victim
  dsimp only
  split
  · -- There are no more entries than have been allocated, so the fuel lasts.
    obtain ⟨us, vs, hlist⟩ := append_of_mem hold
    have hfuel : us.length < c.allocated := by
      have hle := h.length_list_le i
      rw [hlist, length_append, length_cons] at hle
      omega
    have hlinks := hlist ▸ (h.shardOk i).represents
    obtain ⟨found, hfound, hmem⟩ := rareEntry_ends hlinks estimate (estimate key) hfuel
    refine ⟨found.getD oldest, by rw [hfound, Option.map_some], hfiled _ ?_⟩
    cases found with
    | none => exact hold
    | some e => exact hlist ▸ hmem e rfl
  · exact ⟨oldest, rfl, hfiled oldest hold⟩

/-- A shard that is not empty has a last entry. -/
theorem tail_ne_none (hpos : 0 < (c.shards i).items.entries.length) : (c.shards i).tail ≠ none := by
  intro htail
  obtain ⟨item, hitem⟩ := exists_mem_of_length_pos hpos
  have hlast : (lists i).getLast? = none := (h.shardOk i).represents.tail_eq.symm.trans htail
  have hmem := (h.mem_of_mem_entries hitem).1
  rw [getLast?_eq_none_iff.mp hlast] at hmem
  exact nomatch hmem

/-- Making room comes to an end; if nothing is left as it was, one entry has gone to the
    pool. -/
theorem makeRoom_eq_some (hmax : 0 < cfg.maxSize) (estimate : GoString → Nat) (i : Nat)
    (key : GoString) :
    ∃ c', c.makeRoom cfg estimate i key = some c' ∧
      (c'.shards i).items.entries.length < cfg.maxSize ∧
      (c' = c ∨ ∃ k e, (c.shards i).items.lookup k = some e ∧
        c' = ((c.deleteItem i k).removeEntry i e).poolPut e) := by
  unfold makeRoom
  by_cases hfull : cfg.maxSize > 0 ∧ (c.shards i).items.entries.length ≥ cfg.maxSize
  · rw [if_pos hfull]
    cases htail : (c.shards i).tail with
    | none => exact absurd htail (h.tail_ne_none (hmax.trans_le hfull.2))
    | some oldest =>
      obtain ⟨e, hvictim, hlookup⟩ := h.victim_eq_some htail estimate key
      refine ⟨((c.deleteItem i (c.heap e).key).removeEntry i e).poolPut e,
        by simp only [hvictim, Option.map_some], ?_, .inr ⟨_, e, hlookup, rfl⟩⟩
      have hlength := AList.length_erase hlookup
      have hle := h.length_le i
      have hitems := items_removeItem c i (c.heap e).key e
      rw [shards_poolPut, hitems]
      omega
  · rw [if_neg hfull]
    exact ⟨c, rfl, by omega, .inl rfl⟩

end Sound

end TtlCache

end GridKV
