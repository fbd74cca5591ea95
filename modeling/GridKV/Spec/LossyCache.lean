import GridKV.ForStd.Run
import GridKV.Spec.CacheLists

/-!
# The cache is a lossy map

A map that remembers for each key the last `Set` that no later `Delete`, `Del` or `Clear`
has undone is all a caller may expect of the cache: what the cache holds under a key is
what the map has there (`Refines`), and it may hold less, because entries are evicted and
expire.  Every method keeps this, with the links of `Sound`, whatever the clock, the
frequency sketch and the pool answer; so it holds after every sequence of calls.
-/

namespace GridKV

open Go Run Function

/-- A reading of the system clock in nanoseconds; the clock does not show times before 1970
    or times that `UnixNano` cannot represent. -/
structure ClockReading where
  time : Int
  nonneg : 0 ≤ time
  representable : time < 2 ^ 63

/-- The calls of the methods of a cache. -/
inductive TtlCall (V : Type) where
  | get (now : ClockReading) (key : GoString)
  /-- `estimate` and `pick` are the answers of the sketch and the pool. -/
  | set (estimate : GoString → Nat) (pick : Nat) (now : ClockReading) (key : GoString) (value : V)
      (ttl : Int64)
  | delete (key : GoString)
  | del (key : GoString)
  | clear
  | close

/-! ### The map -/

/-- What a call of `Set` has asked for. -/
structure Setting (V : Type) where
  value : V
  setAt : ClockReading
  ttl : Int64

/-- The time to live has passed; without a positive one it never does. -/
def Setting.Passed {V : Type} (s : Setting V) (now : ClockReading) : Prop :=
  s.ttl > 0 ∧ s.setAt.time + s.ttl.toInt < now.time

/-- The most recent `Set` of each key that has not been deleted or cleared. -/
abbrev LossyMap (V : Type) := GoString → Option (Setting V)

namespace LossyMap

variable {V : Type}

def empty : LossyMap V := fun _ => none

def put (m : LossyMap V) (key : GoString) (s : Option (Setting V)) : LossyMap V :=
  update m key s

def apply (m : LossyMap V) : TtlCall V → LossyMap V
  | .get _ _ => m
  | .set _ _ now key value ttl => m.put key (some ⟨value, now, ttl⟩)
  | .delete key => m.put key none
  | .del key => m.put key none
  | .clear => empty
  | .close => m

/-- The map after a sequence of calls. -/
def after (calls : List (TtlCall V)) : LossyMap V := calls.foldl apply empty

end LossyMap

/-- The value and the expiry in the entry of a `Set`. -/
def Setting.entry {V : Type} (s : Setting V) : V × Int64 :=
  (s.value, TtlCache.expiry s.setAt.time s.ttl)

/-- `Get` finds an entry expired exactly when the time to live has passed.  A sum beyond the
    range of `int64` wraps to a negative number, which never expires, and no clock reading
    passes it either. -/
theorem Setting.expired_iff {V : Type} (s : Setting V) (now : ClockReading) :
    (TtlCache.expiry s.setAt.time s.ttl > 0 ∧
      unixNano now.time > TtlCache.expiry s.setAt.time s.ttl) ↔ s.Passed now := by
  have hnow := now.nonneg
  have hnow' := now.representable
  have hset := s.setAt.nonneg
  have hset' := s.setAt.representable
  have hreading : (unixNano now.time).toInt = now.time :=
    Int64.toInt_ofInt_of_le (by omega) hnow'
  unfold TtlCache.expiry Setting.Passed
  by_cases httl : s.ttl > 0
  · have hpos : 0 < s.ttl.toInt := Int64.lt_iff_toInt_lt.mp httl
    have hlt : s.ttl.toInt < 2 ^ 63 := s.ttl.toInt_lt
    rw [if_pos httl, gt_iff_lt, gt_iff_lt, Int64.lt_iff_toInt_lt, Int64.lt_iff_toInt_lt, hreading,
      Int64.toInt_zero]
    by_cases hsum : s.setAt.time + s.ttl.toInt < 2 ^ 63
    · -- The expiry is the exact sum, and positive.
      have hexpiry : (unixNano (s.setAt.time + s.ttl.toInt)).toInt = s.setAt.time + s.ttl.toInt :=
        Int64.toInt_ofInt_of_le (by omega) hsum
      rw [hexpiry]
      constructor
      · exact fun h => ⟨httl, h.2⟩
      · exact fun h => ⟨by omega, h.2⟩
    · -- It has wrapped, and neither side can hold.
      have hexpiry : (unixNano (s.setAt.time + s.ttl.toInt)).toInt =
          s.setAt.time + s.ttl.toInt - 2 ^ 64 := by
        rw [unixNano, Int64.toInt_ofInt, Int.bmod_def]
        simp only [Int64.size]
        omega
      rw [hexpiry]
      omega
  · rw [if_neg httl]
    simp [httl]

namespace TtlCache

variable {V : Type} {c c' : TtlCache V} {cfg : TtlConfig} {i j e p : Nat} {key k : GoString}
  {m : LossyMap V} {lists : Nat → List Nat}

/-! ### What a shard holds -/

/-- The value and the expiry a shard holds under a key. -/
def held (c : TtlCache V) (i : Nat) (k : GoString) : Option (V × Int64) :=
  ((c.shards i).items.lookup k).map fun p => (c.heap p).data.2

theorem held_congr (c' : TtlCache V)
    (hitems : (c'.shards i).items.lookup k = (c.shards i).items.lookup k)
    (hdata : ∀ p, (c.shards i).items.lookup k = some p → (c'.heap p).data = (c.heap p).data) :
    c'.held i k = c.held i k := by
  unfold held
  rw [hitems]
  cases hlookup : (c.shards i).items.lookup k with
  | none => rfl
  | some p => rw [Option.map_some, Option.map_some, hdata p hlookup]

theorem Relinks.held_eq (h : Relinks i c c') (j : Nat) (k : GoString) :
    c'.held j k = c.held j k := by
  refine held_congr _ ?_ fun p _ => h.data_eq p
  by_cases hj : j = i
  · subst hj
    rw [h.items_eq]
  · rw [h.shards_eq j hj]

/-- After an entry has been taken out, its shard does not hold its key. -/
theorem held_removeItem :
    ((c.deleteItem i key).removeEntry i e).held j k =
      if j = i ∧ k = key then none else c.held j k := by
  have hdata := (relinks_removeEntry (c.deleteItem i key) i e).data_eq
  by_cases hj : j = i
  · subst hj
    by_cases hk : k = key
    · subst hk
      rw [if_pos ⟨rfl, rfl⟩, held, items_removeItem, AList.lookup_erase]
      rfl
    · rw [if_neg fun h => hk h.2]
      refine held_congr _ ?_ fun p _ => hdata p
      rw [items_removeItem, AList.lookup_erase_ne hk]
  · rw [if_neg fun h => hj h.1]
    refine held_congr _ ?_ fun p _ => hdata p
    rw [shards_removeItem_of_ne c key e hj]

theorem held_clearShard : (c.clearShard i).held j k = if j = i then none else c.held j k := by
  by_cases hj : j = i
  · subst hj
    rw [if_pos rfl, held, TtlCache.clearShard, shards_modifyShard_self]
    rfl
  · rw [if_neg hj]
    refine held_congr _ ?_ fun _ _ => rfl
    rw [TtlCache.clearShard, shards_modifyShard_of_ne _ _ hj]

theorem held_clear (c : TtlCache V) (k : GoString) (hj : j < cfg.shardCount) :
    (c.clear cfg).held j k = none := by
  have hfold : ∀ (is : List Nat) (c : TtlCache V), (is.foldl TtlCache.clearShard c).held j k =
      if j ∈ is then none else c.held j k := by
    intro is
    induction is with
    | nil => simp
    | cons i is ih =>
      intro c
      rw [List.foldl_cons, ih, held_clearShard]
      by_cases hmem : j ∈ is <;> simp [hmem]
  rw [TtlCache.clear, hfold, if_pos (List.mem_range.mpr hj)]

/-- An entry that is filed under another key is another entry. -/
theorem held_overwrite_of_ne (h : Sound cfg c lists)
    (hlookup : (c.shards i).items.lookup key = some e) (hk : k ≠ key) (value : V)
    (expireAt : Int64) : (c.overwrite e value expireAt).held j k = c.held j k := by
  refine held_congr (c.overwrite e value expireAt) rfl fun p hp => ?_
  have hne : p ≠ e := by
    rintro rfl
    exact hk (((h.shardOk j).key_of_lookup hp).symm.trans ((h.shardOk i).key_of_lookup hlookup))
  exact congrArg TtlEntry.data (update_of_ne hne ..)

theorem held_overwrite_self (hlookup : (c.shards i).items.lookup key = some e) (value : V)
    (expireAt : Int64) : (c.overwrite e value expireAt).held i key = some (value, expireAt) := by
  simp [held, overwrite, hlookup, TtlEntry.data]

theorem held_fileEntry_of_ne (h : Sound cfg c lists) (hunused : Unused c lists e) (hk : k ≠ key)
    (value : V) (expireAt : Int64) :
    (c.fileEntry i e key value expireAt).held j k = c.held j k := by
  rw [fileEntry, (relinks_addToFront _ i e).held_eq]
  refine held_congr (c.writeEntry i e key value expireAt) ?_ fun p hp => ?_
  · by_cases hj : j = i
    · subst hj
      rw [writeEntry, shards_modifyShard_self]
      exact AList.lookup_insert_ne hk
    · rw [writeEntry, shards_modifyShard_of_ne _ _ hj]
  · have hne : p ≠ e := by
      rintro rfl
      exact hunused.not_linked j ((h.shardOk j).mem_of_lookup hp)
    exact congrArg TtlEntry.data (update_of_ne hne ..)

theorem held_fileEntry_self (value : V) (expireAt : Int64) :
    (c.fileEntry i e key value expireAt).held i key = some (value, expireAt) := by
  have hdata := (relinks_addToFront (c.writeEntry i e key value expireAt) i e).data_eq e
  rw [held, items_fileEntry, AList.lookup_insert, Option.map_some, fileEntry, hdata]
  simp [writeEntry, TtlEntry.data]

/-! ### Finding a key -/

/-- The shard and the entry of a key, for a call that does not return before the lookup. -/
def find (cfg : TtlConfig) (c : TtlCache V) (key : GoString) : Option (Nat × Nat) :=
  if c.closed then none
  else if key = [] then none
  else (cfg.getShard key).bind fun i => ((c.shards i).items.lookup key).map fun e => (i, e)

theorem get_eq (cfg : TtlConfig) (now : Time) (c : TtlCache V) (key : GoString) :
    c.get cfg now key =
      match c.find cfg key with
      | none => (c, none)
      | some (i, e) =>
        if (c.heap e).expireAt > 0 ∧ unixNano now > (c.heap e).expireAt then
          (((c.deleteItem i key).removeEntry i e).poolPut e, none)
        else (c.moveToFront i e, some (c.heap e).value) := by
  unfold get find
  split
  · rfl
  split
  · rfl
  cases cfg.getShard key with
  | none => rfl
  | some i =>
    dsimp only [Option.bind_some]
    cases (c.shards i).items.lookup key <;> rfl

theorem delete_eq (cfg : TtlConfig) (c : TtlCache V) (key : GoString) :
    c.delete cfg key =
      match c.find cfg key with
      | none => (c, false)
      | some (i, e) => ((c.deleteItem i key).removeEntry i e, true) := by
  unfold delete find
  by_cases hclosed : c.closed
  · simp [hclosed]
  by_cases hkey : key = []
  · simp [hkey]
  rw [if_neg (not_or.mpr ⟨hclosed, hkey⟩), if_neg hclosed, if_neg hkey]
  cases cfg.getShard key with
  | none => rfl
  | some i =>
    dsimp only [Option.bind_some]
    cases (c.shards i).items.lookup key <;> rfl

theorem del_eq :
    c.del cfg key =
      match c.find cfg key with
      | none => c
      | some (i, e) => ((c.deleteItem i key).removeEntry i e).poolPut e := by
  unfold del find
  split
  · rfl
  split
  · rfl
  cases cfg.getShard key with
  | none => rfl
  | some i =>
    dsimp only [Option.bind_some]
    cases (c.shards i).items.lookup key <;> rfl

theorem find_eq_some (h : c.find cfg key = some (i, e)) :
    c.closed = false ∧ key ≠ [] ∧ cfg.getShard key = some i ∧
      (c.shards i).items.lookup key = some e := by
  unfold find at h
  split at h
  · exact nomatch h
  · rename_i hopen
    split at h
    · exact nomatch h
    · rename_i hkey
      obtain ⟨j, hshard, h⟩ := Option.bind_eq_some_iff.mp h
      obtain ⟨e', hlookup, heq⟩ := Option.map_eq_some_iff.mp h
      cases heq
      exact ⟨Bool.eq_false_iff.mpr hopen, hkey, hshard, hlookup⟩

theorem lookup_eq_none_of_find (h : c.find cfg key = none) (hopen : c.closed = false)
    (hkey : key ≠ []) (hshard : cfg.getShard key = some i) :
    (c.shards i).items.lookup key = none := by
  simpa [find, hopen, hkey, hshard] using h

theorem getShard_lt (h : cfg.getShard key = some i) : i < cfg.shardCount := by
  unfold TtlConfig.getShard at h
  split at h
  · exact nomatch h
  · split at h <;> cases h
    rename_i hlt
    have hmod := Nat.mod_le cfg.shardCount (2 ^ 32)
    omega

theorem shards_poolGet (c : TtlCache V) (pick : Nat) : (c.poolGet pick).1.shards = c.shards := by
  unfold poolGet
  split <;> rfl

/-! ### Refinement -/

/-- While the cache is open, what it holds under a key is what the map has there. -/
def Refines (cfg : TtlConfig) (m : LossyMap V) (c : TtlCache V) : Prop :=
  c.closed = false → ∀ k i, k ≠ [] → cfg.getShard k = some i → ∀ x, c.held i k = some x →
    (m k).map Setting.entry = some x

namespace Refines

/-- Losing entries. -/
theorem mono (h : Refines cfg m c) (hclosed : c'.closed = c.closed)
    (hheld : ∀ j k x, c'.held j k = some x → c.held j k = some x) : Refines cfg m c' :=
  fun hopen k i hk hshard x hx => h (hclosed ▸ hopen) k i hk hshard x (hheld i k x hx)

/-- Changing what is held under one key, and losing entries of others. -/
theorem put (h : Refines cfg m c) (hclosed : c'.closed = c.closed) {s : Option (Setting V)}
    (hheld : ∀ j k x, k ≠ key → c'.held j k = some x → c.held j k = some x)
    (hkey : ∀ i, c.closed = false → key ≠ [] → cfg.getShard key = some i → ∀ x,
      c'.held i key = some x → s.map Setting.entry = some x) : Refines cfg (m.put key s) c' := by
  intro hopen k i hk hshard x hx
  rw [hclosed] at hopen
  by_cases hkk : k = key
  · subst hkk
    rw [LossyMap.put, update_self]
    exact hkey i hopen hk hshard x hx
  · rw [LossyMap.put, update_of_ne hkk]
    exact h hopen k i hk hshard x (hheld i k x hkk hx)

/-- A map with more in it. -/
theorem of_put_none (h : Refines cfg (m.put key none) c) : Refines cfg m c := by
  intro hopen k i hk hshard x hx
  have hput := h hopen k i hk hshard x hx
  by_cases hkk : k = key
  · subst hkk
    rw [LossyMap.put, update_self] at hput
    exact nomatch hput
  · rwa [LossyMap.put, update_of_ne hkk] at hput

end Refines

/-- The links are in place, and the cache holds nothing the map does not have. -/
def Tracks (cfg : TtlConfig) (m : LossyMap V) (c : TtlCache V) : Prop :=
  (∃ lists, Sound cfg c lists) ∧ Refines cfg m c

theorem tracks_empty [Inhabited V] (cfg : TtlConfig) :
    Tracks cfg LossyMap.empty (empty : TtlCache V) :=
  ⟨⟨_, sound_empty cfg⟩, fun _ _ _ _ _ _ hx => nomatch hx⟩

namespace Tracks

variable (h : Tracks cfg m c)

include h

/-- Taking an entry out, when the map forgets its key. -/
theorem removeItem (hshard : cfg.getShard key = some i)
    (hlookup : (c.shards i).items.lookup key = some e) :
    Tracks cfg (m.put key none) ((c.deleteItem i key).removeEntry i e) := by
  obtain ⟨⟨lists, hsound⟩, hrefines⟩ := h
  have hclosed := (relinks_removeEntry (c.deleteItem i key) i e).closed_eq
  refine ⟨⟨_, hsound.removeItem hlookup⟩,
    hrefines.put hclosed (fun j k x hk hx => ?_) fun j _ _ hshard' x hx => ?_⟩
  · rwa [held_removeItem, if_neg fun h => hk h.2] at hx
  · cases hshard.symm.trans hshard'
    rw [held_removeItem, if_pos ⟨rfl, rfl⟩] at hx
    exact nomatch hx

/-- The same, and the entry goes to the pool. -/
theorem removeItem_poolPut (hshard : cfg.getShard key = some i)
    (hlookup : (c.shards i).items.lookup key = some e) :
    Tracks cfg (m.put key none) (((c.deleteItem i key).removeEntry i e).poolPut e) := by
  have hrefines := (h.removeItem hshard hlookup).2
  obtain ⟨⟨lists, hsound⟩, -⟩ := h
  exact ⟨⟨_, (hsound.removeItem hlookup).poolPut (hsound.unused_removeItem hlookup)⟩,
    hrefines.mono rfl fun _ _ _ hx => hx⟩

/-- A key that is not found may be deleted from the map. -/
theorem put_none (hfind : c.find cfg key = none) : Tracks cfg (m.put key none) c := by
  refine ⟨h.1, h.2.put rfl (fun _ _ _ _ hx => hx) fun i hopen hne hshard x hx => ?_⟩
  rw [held, lookup_eq_none_of_find hfind hopen hne hshard] at hx
  exact nomatch hx

theorem get (now : Time) (key : GoString) : Tracks cfg m (c.get cfg now key).1 := by
  rw [get_eq]
  cases hfind : c.find cfg key with
  | none => exact h
  | some found =>
    obtain ⟨i, e⟩ := found
    obtain ⟨_, _, hshard, hlookup⟩ := find_eq_some hfind
    dsimp only
    split
    · -- The map keeps what has expired; the cache may lose it.
      have hremoved := h.removeItem_poolPut hshard hlookup
      exact ⟨hremoved.1, hremoved.2.of_put_none⟩
    · obtain ⟨⟨lists, hsound⟩, hrefines⟩ := h
      have hrelinks := relinks_moveToFront c i e
      refine ⟨⟨_, hsound.moveToFront ((hsound.shardOk i).mem_of_lookup hlookup)⟩,
        hrefines.mono hrelinks.closed_eq fun j k x hx => ?_⟩
      rwa [hrelinks.held_eq] at hx

theorem delete (key : GoString) : Tracks cfg (m.put key none) (c.delete cfg key).1 := by
  rw [delete_eq]
  cases hfind : c.find cfg key with
  | none => exact h.put_none hfind
  | some found =>
    obtain ⟨_, _, hshard, hlookup⟩ := find_eq_some hfind
    exact h.removeItem hshard hlookup

theorem del (key : GoString) : Tracks cfg (m.put key none) (c.del cfg key) := by
  rw [del_eq]
  cases hfind : c.find cfg key with
  | none => exact h.put_none hfind
  | some found =>
    obtain ⟨_, _, hshard, hlookup⟩ := find_eq_some hfind
    exact h.removeItem_poolPut hshard hlookup

theorem clear : Tracks cfg LossyMap.empty (c.clear cfg) := by
  obtain ⟨⟨lists, hsound⟩, -⟩ := h
  refine ⟨hsound.clear, fun _ k i _ hshard x hx => ?_⟩
  rw [held_clear c k (getShard_lt hshard)] at hx
  exact nomatch hx

theorem close : Tracks cfg m c.close := by
  obtain ⟨⟨lists, hsound⟩, -⟩ := h
  refine ⟨⟨lists, ?_⟩, fun hopen => nomatch hopen⟩
  exact { hsound with shardOk := fun i => (hsound.shardOk i).congr rfl fun _ _ => rfl }

/-- `Set` of a key that is there. -/
theorem overwrite (hshard : cfg.getShard key = some i)
    (hlookup : (c.shards i).items.lookup key = some e) (value : V) (now : ClockReading)
    (ttl : Int64) :
    Tracks cfg (m.put key (some ⟨value, now, ttl⟩))
      ((c.overwrite e value (expiry now.time ttl)).moveToFront i e) := by
  obtain ⟨⟨lists, hsound⟩, hrefines⟩ := h
  have hrelinks := relinks_moveToFront (c.overwrite e value (expiry now.time ttl)) i e
  have hmem := (hsound.shardOk i).mem_of_lookup hlookup
  refine ⟨⟨_, (hsound.overwrite e value _).moveToFront hmem⟩,
    hrefines.put hrelinks.closed_eq (fun j k x hk hx => ?_) fun j _ _ hshard' x hx => ?_⟩
  · rwa [hrelinks.held_eq, held_overwrite_of_ne hsound hlookup hk] at hx
  · cases hshard.symm.trans hshard'
    rwa [hrelinks.held_eq, held_overwrite_self hlookup] at hx

theorem poolGet (pick : Nat) : Tracks cfg m (c.poolGet pick).1 := by
  obtain ⟨⟨lists, hsound⟩, hrefines⟩ := h
  refine ⟨⟨lists, (hsound.poolGet pick).1⟩, ?_⟩
  unfold TtlCache.poolGet
  split
  all_goals exact hrefines.mono rfl fun _ _ _ hx => hx

/-- Filing an entry for a new key where there is room for it. -/
theorem insertEntry (hshard : cfg.getShard key = some i)
    (hnone : (c.shards i).items.lookup key = none)
    (hroom : (c.shards i).items.entries.length < cfg.maxSize) (pick : Nat) (value : V)
    (now : ClockReading) (ttl : Int64) :
    Tracks cfg (m.put key (some ⟨value, now, ttl⟩))
      (c.insertEntry i pick key value (expiry now.time ttl)) := by
  have hrefines := (h.poolGet pick).2
  obtain ⟨⟨lists, hsound⟩, -⟩ := h
  obtain ⟨hgot, hunused⟩ := hsound.poolGet pick
  rw [← shards_poolGet c pick] at hnone hroom
  have hclosed : ((c.poolGet pick).1.fileEntry i (c.poolGet pick).2 key value
      (expiry now.time ttl)).closed = (c.poolGet pick).1.closed :=
    (relinks_addToFront ..).closed_eq
  rw [insertEntry_eq]
  refine ⟨⟨_, hgot.fileEntry hunused hnone hroom value _⟩,
    hrefines.put hclosed (fun j k x hk hx => ?_) fun j _ _ hshard' x hx => ?_⟩
  · rwa [held_fileEntry_of_ne hgot hunused hk] at hx
  · cases hshard.symm.trans hshard'
    rwa [held_fileEntry_self] at hx

/-- Making room for a new key loses at most one entry. -/
theorem makeRoom (hmax : 0 < cfg.maxSize) (hnone : (c.shards i).items.lookup key = none)
    (estimate : GoString → Nat) :
    ∃ c', c.makeRoom cfg estimate i key = some c' ∧ Tracks cfg m c' ∧
      (c'.shards i).items.lookup key = none ∧
      (c'.shards i).items.entries.length < cfg.maxSize := by
  obtain ⟨⟨lists, hsound⟩, hrefines⟩ := h
  obtain ⟨c', hc', hroom, rfl | ⟨k, e, hlookup, rfl⟩⟩ :=
    hsound.makeRoom_eq_some hmax estimate i key
  · exact ⟨_, hc', ⟨⟨lists, hsound⟩, hrefines⟩, hnone, hroom⟩
  · have hrelinks := relinks_removeEntry (c.deleteItem i k) i e
    refine ⟨_, hc', ⟨⟨_, (hsound.removeItem hlookup).poolPut (hsound.unused_removeItem hlookup)⟩,
      hrefines.mono hrelinks.closed_eq fun j k' x hx => ?_⟩, ?_, hroom⟩
    · -- The victim is lost, and everything else is held as before.
      have hheld : ((c.deleteItem i k).removeEntry i e).held j k' = some x := hx
      rw [held_removeItem] at hheld
      split at hheld
      · exact nomatch hheld
      · exact hheld
    · have hkey : key ≠ k := by
        rintro rfl
        exact nomatch hnone.symm.trans hlookup
      rw [shards_poolPut, items_removeItem, AList.lookup_erase_ne hkey]
      exact hnone

/-- `Set` returns. -/
theorem set (hmax : 0 < cfg.maxSize) (estimate : GoString → Nat) (pick : Nat) (now : ClockReading)
    (key : GoString) (value : V) (ttl : Int64) :
    ∃ c', c.set cfg estimate pick now.time key value ttl = some c' ∧
      Tracks cfg (m.put key (some ⟨value, now, ttl⟩)) c' := by
  -- A call that does nothing changes what is expected of a key the cache does not look at.
  have hignored : (c.closed = true ∨ key = [] ∨ cfg.getShard key = none) →
      Tracks cfg (m.put key (some ⟨value, now, ttl⟩)) c := by
    intro hcase
    refine ⟨h.1, h.2.put rfl (fun _ _ _ _ hx => hx) fun i hopen hne hshard => ?_⟩
    simp [hopen, hne, hshard] at hcase
  unfold TtlCache.set
  by_cases hclosed : c.closed
  · exact ⟨c, if_pos hclosed, hignored (.inl hclosed)⟩
  by_cases hkey : key = []
  · exact ⟨c, by rw [if_neg hclosed, if_pos hkey], hignored (.inr (.inl hkey))⟩
  rw [if_neg hclosed, if_neg hkey]
  cases hshard : cfg.getShard key with
  | none => exact ⟨c, rfl, hignored (.inr (.inr hshard))⟩
  | some i =>
    dsimp only
    cases hlookup : (c.shards i).items.lookup key with
    | some e => exact ⟨_, rfl, h.overwrite hshard hlookup value now ttl⟩
    | none =>
      obtain ⟨c', hc', htracks, hnone, hroom⟩ := h.makeRoom hmax hlookup estimate
      refine ⟨_, ?_, htracks.insertEntry hshard hnone hroom pick value now ttl⟩
      dsimp only
      rw [hc', Option.map_some]

end Tracks

/-- A hit is the value the map has under the key, and its time to live has not passed. -/
theorem Tracks.get_eq_some (h : Tracks cfg m c) {now : ClockReading} {value : V}
    (hget : (c.get cfg now.time key).2 = some value) :
    ∃ s, m key = some s ∧ s.value = value ∧ ¬ s.Passed now := by
  rw [get_eq] at hget
  cases hfind : c.find cfg key with
  | none =>
    rw [hfind] at hget
    exact nomatch hget
  | some found =>
    obtain ⟨i, e⟩ := found
    obtain ⟨hopen, hkey, hshard, hlookup⟩ := find_eq_some hfind
    have hheld : c.held i key = some ((c.heap e).value, (c.heap e).expireAt) := by
      rw [held, hlookup]
      rfl
    obtain ⟨s, hs, hentry⟩ := Option.map_eq_some_iff.mp (h.2 hopen key i hkey hshard _ hheld)
    obtain ⟨hvalue, hexpiry⟩ := Prod.mk.inj hentry
    rw [hfind] at hget
    dsimp only at hget
    split at hget
    · exact nomatch hget
    · rename_i hfresh
      refine ⟨s, hs, hvalue.trans (Option.some.inj hget), ?_⟩
      rwa [← hexpiry, s.expired_iff] at hfresh

/-! ### Runs -/

/-- One call; `none` if it does not return. -/
def step (cfg : TtlConfig) (c : TtlCache V) : TtlCall V → Option (TtlCache V)
  | .get now key => some (c.get cfg now.time key).1
  | .set estimate pick now key value ttl => c.set cfg estimate pick now.time key value ttl
  | .delete key => some (c.delete cfg key).1
  | .del key => some (c.del cfg key)
  | .clear => some (c.clear cfg)
  | .close => some c.close

theorem Tracks.step (h : Tracks cfg m c) (hmax : 0 < cfg.maxSize) (call : TtlCall V) :
    ∃ c', c.step cfg call = some c' ∧ Tracks cfg (m.apply call) c' := by
  cases call with
  | get now key => exact ⟨_, rfl, h.get now.time key⟩
  | set estimate pick now key value ttl => exact h.set hmax estimate pick now key value ttl
  | delete key => exact ⟨_, rfl, h.delete key⟩
  | del key => exact ⟨_, rfl, h.del key⟩
  | clear => exact ⟨_, rfl, h.clear⟩
  | close => exact ⟨_, rfl, h.close⟩

theorem Tracks.exec (h : Tracks cfg m c) (hmax : 0 < cfg.maxSize) (calls : List (TtlCall V)) :
    ∃ c', Run.exec (TtlCache.step cfg) c calls = some c' ∧
      Tracks cfg (calls.foldl LossyMap.apply m) c' := by
  induction calls generalizing m c with
  | nil => exact ⟨c, rfl, h⟩
  | cons call calls ih =>
    obtain ⟨c', hstep, htracks⟩ := h.step hmax call
    rw [Run.exec, hstep]
    exact ih htracks

/-- `New` leaves room for an entry in every shard. -/
theorem maxSize_pos_of_new {opts : CacheOpts} {hashLo hashHi : GoString → UInt64}
    (h : opts.new hashLo hashHi = some cfg) : 0 < cfg.maxSize := by
  unfold CacheOpts.new at h
  extract_lets shards shards' size shardSize shardSize' at h
  have hsize : size > 0 := by
    by_cases hopts : opts.size ≤ 0
    · have hdefault : size = 10000 := if_pos hopts
      rw [hdefault]
      decide
    · have hgiven : size = opts.size := if_neg hopts
      rw [hgiven]
      exact Int64.not_le.mp hopts
  have hshardSize : (1 : Int64) ≤ shardSize' := by
    by_cases hsmall : shardSize < 1
    · have hone : shardSize' = 1 := if_pos ⟨hsmall, hsize⟩
      rw [hone]
      decide
    · have hlarge : shardSize' = shardSize := if_neg fun hboth => hsmall hboth.1
      rw [hlarge]
      exact Int64.not_lt.mp hsmall
  split at h <;> cases h
  have hle : (1 : Int64).toInt ≤ shardSize'.toInt := Int64.le_iff_toInt_le.mp hshardSize
  have hone : (1 : Int64).toInt = 1 := rfl
  dsimp only
  omega

/-- After every sequence of calls on a cache that `New` has built: every call returns, the
    list of each shard has the entries of its map, each once and filed under its own key, with
    the links inverse to each other, no shard has more entries than it may have, and a `Get`
    that hits returns what the map has. -/
theorem refines_lossyMap [Inhabited V] {opts : CacheOpts} {hashLo hashHi : GoString → UInt64}
    (hnew : opts.new hashLo hashHi = some cfg) (calls : List (TtlCall V)) :
    ∃ c, Run.exec (step cfg) (empty : TtlCache V) calls = some c ∧
      (∀ i, ∃ ps, c.ShardOk i ps ∧
        (∀ p ∈ ps, ∀ q ∈ ps, (c.heap p).next = some q ↔ (c.heap q).prev = some p) ∧
        (c.shards i).items.entries.length ≤ cfg.maxSize) ∧
      ∀ (now : ClockReading) (key : GoString) (value : V),
        (c.get cfg now.time key).2 = some value →
          ∃ s, LossyMap.after calls key = some s ∧ s.value = value ∧ ¬ s.Passed now := by
  obtain ⟨c, hexec, htracks⟩ := (tracks_empty cfg).exec (maxSize_pos_of_new hnew) calls
  refine ⟨c, hexec, fun i => ?_, fun now key value hget => htracks.get_eq_some hget⟩
  obtain ⟨⟨lists, hsound⟩, -⟩ := htracks
  have hok := hsound.shardOk i
  exact ⟨lists i, hok, fun p hp q hq => hok.represents.next_eq_some_iff hp hq, hsound.length_le i⟩

/-- A cache for two entries in one shard. -/
def twoEntries : TtlConfig where
  hashLo _ := 0
  hashHi _ := 0
  shardMask := 0
  maxSize := 2
  shardCount := 1

/-- Three keys; the first of them has to go. -/
def threeSets : List (TtlCall Nat) :=
  [.set (fun _ => 0) 0 ⟨0, by decide, by decide⟩ [1] 10 0,
    .set (fun _ => 0) 0 ⟨1, by decide, by decide⟩ [2] 20 0,
    .set (fun _ => 0) 0 ⟨2, by decide, by decide⟩ [3] 30 5]

/-- The last of three keys is still held five nanoseconds after it was set, and the first
    one is not. -/
theorem threeSets_refine_lossyMap :
    (⟨1, 2⟩ : CacheOpts).new (fun _ => 0) (fun _ => 0) = some twoEntries ∧
    ∃ c, Run.exec (step twoEntries) empty threeSets = some c ∧
      (c.get twoEntries 7 [1]).2 = none ∧ (c.get twoEntries 7 [3]).2 = some 30 ∧
      ∃ s, LossyMap.after threeSets [3] = some s ∧ s.value = 30 ∧
        ¬ s.Passed ⟨7, by decide, by decide⟩ := by
  have hnew : (⟨1, 2⟩ : CacheOpts).new (fun _ => 0) (fun _ => 0) = some twoEntries := rfl
  obtain ⟨c, hexec, -, hget⟩ := refines_lossyMap hnew threeSets
  have hevicted : (Run.exec (step twoEntries) empty threeSets).map (fun c =>
      (c.get twoEntries 7 [1]).2) = some none := by decide +kernel
  have hheld : (Run.exec (step twoEntries) empty threeSets).map (fun c =>
      (c.get twoEntries 7 [3]).2) = some (some 30) := by decide +kernel
  rw [hexec, Option.map_some] at hevicted hheld
  have hhit := Option.some.inj hheld
  exact ⟨hnew, c, hexec, Option.some.inj hevicted, hhit,
    hget ⟨7, by decide, by decide⟩ [3] 30 hhit⟩

end TtlCache

end GridKV
