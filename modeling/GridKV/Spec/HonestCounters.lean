import GridKV.Spec.MemoryAccounting
import GridKV.Spec.ShardCounters

/-!
# Do reads keep the statistics honest?

`Set`, `Delete`, eviction and `cleanExpired` adjust every counter with the entries they store and
remove.  A read that comes to an expired entry removes it as well, but takes only the key off the
counters and leaves its bytes in them; `Keys` adjusts nothing at all.  As long as no read removes
an entry with bytes and `Keys` removes none, the statistics are those of the stored entries
(`honest_of_guardedRun`).
-/

namespace GridKV

open Go Run

namespace MemStorage

variable {cfg : StoreConfig} {s t : MemStorage} {i : Nat} {key : GoString} {e : CompressedItem}
  {counter : Counters → Int64} {w : GoString → CompressedItem → Nat}

/-! ### Counters and what they measure -/

/-- The number of stored entries. -/
def stored (cfg : StoreConfig) (s : MemStorage) : Nat :=
  ∑ i ∈ Finset.range cfg.shardCount, (s.shards i).data.entries.length

theorem stored_eq_weight : stored cfg s = weight cfg (fun _ _ => 1) s :=
  Finset.sum_congr rfl fun _ _ => AList.length_entries _

/-- `counter` changes with the entries as their weights do. -/
structure Measures (counter : Counters → Int64) (w : GoString → CompressedItem → Nat) :
    Prop where
  additive : Additive counter
  item : ∀ key e, counter (itemCounters key e) = Int64.ofNat (w key e)
  neg : ∀ key e, counter (itemCounters key e).neg = -Int64.ofNat (w key e)
  replace : ∀ key old e,
    counter (replaceCounters key old e) = Int64.ofNat (w key e) - Int64.ofNat (w key old)
  -- What the read methods do to the counters is right for an entry without bytes.
  expire : ∀ key e, e.value = [] → e.origSize = 0 →
    counter { keys := -1 } = -Int64.ofNat (w key e)

theorem measures_keys : Measures Counters.keys fun _ _ => 1 where
  additive := additive_keys
  item _ _ := rfl
  neg _ _ := rfl
  replace _ _ _ := rfl
  expire _ _ _ _ := rfl

theorem measures_compressed : Measures Counters.compressed fun _ e => e.value.length where
  additive := additive_compressed
  item _ _ := rfl
  neg _ _ := rfl
  replace _ _ _ := (Int64.sub_eq_add_neg _ _).symm
  expire _ e hvalue _ := by rw [hvalue]; rfl

theorem measures_original : Measures Counters.original fun _ e => e.origSize where
  additive := additive_original
  item _ _ := rfl
  neg _ _ := rfl
  replace _ _ _ := (Int64.sub_eq_add_neg _ _).symm
  expire _ e _ hsize := by rw [hsize]; rfl

/-- The counter of the store is the sum of the weights of its entries. -/
def Tracks (cfg : StoreConfig) (counter : Counters → Int64) (w : GoString → CompressedItem → Nat)
    (s : MemStorage) : Prop :=
  counter s.totals = Int64.ofNat (weight cfg w s)

namespace Tracks

theorem of_eq (h : Tracks cfg counter w s) (htotals : t.totals = s.totals)
    (hweight : weight cfg w t = weight cfg w s) : Tracks cfg counter w t := by
  rw [Tracks, htotals, hweight]
  exact h

theorem install (h : Tracks cfg counter w s) (hm : Measures counter w) (hi : i < cfg.shardCount) :
    Tracks cfg counter w ((s.store i key e).addStats i
      (installCounters key e ((s.shards i).data.lookup key))) := by
  rw [Tracks, weight_addStats]
  show counter (s.totals.add _) = _
  rw [hm.additive.add, h]
  cases hlookup : (s.shards i).data.lookup key with
  | none => rw [installCounters, hm.item, weight_store_of_none hi hlookup, Int64.ofNat_add]
  | some old =>
    have hstore := congrArg Int64.ofNat (weight_store_of_some (e := e) (w := w) hi hlookup)
    rw [Int64.ofNat_add, Int64.ofNat_add] at hstore
    rw [installCounters, hm.replace, Int64.sub_eq_add_neg, ← Int64.add_assoc, ← hstore,
      ← Int64.sub_eq_add_neg, Int64.add_sub_cancel]

/-- Removing an entry and its weight. -/
theorem erase (h : Tracks cfg counter w s) (hm : Measures counter w) (hi : i < cfg.shardCount)
    (he : (s.shards i).data.lookup key = some e) {d : Counters}
    (hd : counter d = -Int64.ofNat (w key e)) :
    Tracks cfg counter w ((s.erase i key).addStats i d) := by
  have herase := congrArg Int64.ofNat (weight_erase (w := w) hi he)
  rw [Int64.ofNat_add] at herase
  rw [Tracks, weight_addStats]
  show counter (s.totals.add d) = _
  rw [hm.additive.add, h, hd, ← herase, ← Int64.sub_eq_add_neg, Int64.add_sub_cancel]

end Tracks

/-! ### Moves -/

/-- A read removes no entry with bytes, and nothing is removed from the map alone. -/
def Harmless (cfg : StoreConfig) (s : MemStorage) : StoreMove → Prop
  | .expire key => ∀ e, entry cfg s key = some e → e.value = [] ∧ e.origSize = 0
  | .forget .. => False
  | _ => True

theorem Tracks.move (h : Tracks cfg counter w s) (hm : Measures counter w) {a : StoreMove}
    (ha : Harmless cfg s a) (hmove : move cfg s a = some t) : Tracks cfg counter w t := by
  cases moved_of_move hmove with
  | install key compItem =>
    exact (h.install hm (shardIndex_lt cfg key)).of_eq rfl (weight_touchLRU _ _)
  | drop i key e hi he =>
    exact (h.erase hm hi he (hm.neg key e)).of_eq rfl (weight_removeFromLRU _ _)
  | expire key e he =>
    obtain ⟨hvalue, hsize⟩ := ha e he
    exact (h.erase hm (shardIndex_lt cfg key) he (hm.expire key e hvalue hsize)).of_eq rfl
      (weight_removeFromLRU _ _)
  | forget => exact ha.elim
  | touch key => exact h.of_eq rfl (weight_touchLRU _ _)
  | unlist i key => exact h.of_eq rfl (weight_removeFromLRU _ _)
  | queue i ops => exact h.of_eq rfl (weight_modifyShard_of_data rfl)
  | rotate idx => exact h
  | clear =>
    rw [Tracks, weight_clear]
    exact hm.additive.zero

/-! ### Calls -/

/-- The call removes no entry with bytes as expired, unless it is `cleanExpired`, and `Keys` finds
    nothing that has expired. -/
def LosesNoBytes (cfg : StoreConfig) (s : MemStorage) : StoreCall → Prop
  | .get now key | .getNoCopy now key =>
    ∀ e, entry cfg s key = some e → expiredAt now e → e.value = [] ∧ e.origSize = 0
  | .batchGet now keys _ | .batchGetNoCopy now keys _ =>
    ∀ key ∈ keys, ∀ e, entry cfg s key = some e → expiredBy now e → e.value = [] ∧ e.origSize = 0
  | .keys now =>
    ∀ i k e, i < cfg.shardCount → (s.shards i).data.lookup k = some e → ¬ expiredBy now e
  | .getSyncBuffer clock =>
    ∀ n key e, entry cfg s key = some e → expiredAt (clock n) e → e.value = [] ∧ e.origSize = 0
  | _ => True

theorem harmless_of_writes {a : StoreMove} (ha : a.writes) : Harmless cfg s a := by
  cases a with
  | expire | forget => cases ha
  | install | drop | touch | unlist | queue | rotate | clear => trivial

theorem harmless_of_evicts {a : StoreMove} (ha : a.evicts) : Harmless cfg s a :=
  harmless_of_writes (StoreMove.writes_of_evicts ha)

/-- An entry that is found later in the call is the one that was there when it began. -/
theorem harmless_expire {u : MemStorage} (hu : entry cfg u key = some e)
    (h : e.value = [] ∧ e.origSize = 0) : Harmless cfg u (.expire key) := by
  intro e' he'
  cases hu.symm.trans he'
  exact h

theorem path_of_losesNoBytes {c : StoreCall} (h : LosesNoBytes cfg s c) :
    Path cfg (Harmless cfg) s (s.call cfg c) := by
  cases c with
  | set key item => exact path_set (fun _ _ => harmless_of_writes) s key item
  | batchSet items => exact path_batchSet (fun _ _ => harmless_of_writes) s items
  | delete key version =>
    exact path_delete (fun _ _ _ => trivial) (fun _ _ _ => trivial) s key version
  | get now key | getNoCopy now key =>
    exact (path_getNoCopy (fun _ _ => trivial) now s key fun e he hexpired =>
      harmless_expire he (h e he hexpired)).1
  | batchGet now keys visit | batchGetNoCopy now keys visit =>
    exact path_batchGetNoCopy (fun _ _ => trivial) now s keys visit
      fun u key e hkey he hu hexpired => harmless_expire hu (h key hkey e he hexpired)
  | keys now =>
    exact path_keys now s fun u i k e hi he hexpired => absurd hexpired (h i k e hi he)
  | getSyncBuffer clock =>
    exact path_getSyncBuffer (fun _ _ => trivial) (fun _ _ _ => trivial) clock s
      fun u key e n he hu hexpired => harmless_expire hu (h n key e he hexpired)
  | evictBatchLRU batchSize => exact path_evictBatchLRU (fun _ _ => harmless_of_evicts) s batchSize
  | runAsyncEviction => exact path_runAsyncEviction (fun _ _ => harmless_of_evicts) s
  | cleanExpired now => exact path_cleanExpired (fun _ _ => harmless_of_evicts) now s
  | clear => exact .single (a := .clear) trivial rfl

/-! ### Runs -/

/-- The statistics are those of the stored entries. -/
def Honest (cfg : StoreConfig) (s : MemStorage) : Prop :=
  s.totals.keys = Int64.ofNat (stored cfg s) ∧
    s.totals.compressed = Int64.ofNat (weight cfg (fun _ e => e.value.length) s) ∧
    s.totals.original = Int64.ofNat (weight cfg (fun _ e => e.origSize) s)

instance (cfg : StoreConfig) (s : MemStorage) : Decidable (Honest cfg s) :=
  inferInstanceAs (Decidable (_ ∧ _ ∧ _))

theorem tracks_of_guardedRun (hm : Measures counter w) {calls : List StoreCall}
    (hrun : GuardedRun (fun s c => some (s.call cfg c)) (LosesNoBytes cfg) .empty calls s) :
    Tracks cfg counter w s := by
  apply hrun.invariant
  · intro s c t hs hguard hstep
    cases hstep
    exact (path_of_losesNoBytes hguard).invariant (fun _ _ _ hu ha => hu.move hm ha) hs
  · rw [Tracks, weight_empty]
    exact hm.additive.zero

/-- **Statistics.**  In every run of calls in which no read removes an entry with bytes as expired
    and no `Keys` finds an expired one, the counters of keys, stored bytes and original bytes are
    those of the stored entries. -/
theorem honest_of_guardedRun {calls : List StoreCall}
    (hrun : GuardedRun (fun s c => some (s.call cfg c)) (LosesNoBytes cfg) .empty calls s) :
    Honest cfg s := by
  refine ⟨?_, tracks_of_guardedRun measures_compressed hrun,
    tracks_of_guardedRun measures_original hrun⟩
  rw [stored_eq_weight]
  exact tracks_of_guardedRun measures_keys hrun

/-! ### A key that expires -/

/-- A value of one byte that expires at time 1. -/
def shortLived : StoredItem where
  version := 1
  expireAt := 1
  value := ascii "x"
  key := []

/-- Writing a key and reading it in time. -/
theorem honest_after_timely_read :
    Honest oneShard
      (reached oneShard [.set (ascii "k") (some shortLived), .get 1 (ascii "k")]) := by
  have hrun : GuardedRun (fun s c => some (s.call oneShard c)) (LosesNoBytes oneShard) .empty
      [.set (ascii "k") (some shortLived), .get 1 (ascii "k")]
      (reached oneShard [.set (ascii "k") (some shortLived), .get 1 (ascii "k")]) := by
    refine .cons trivial rfl (.cons ?_ rfl (.nil _))
    -- At time 1 the entry has not expired yet.
    intro e he hexpired
    cases he
    cases hexpired
  exact honest_of_guardedRun hrun

/-- `Keys` removes an expired entry from the map only, and `Get` leaves its bytes in the
    counters. -/
theorem not_honest_after_expiry :
    ¬ Honest oneShard (reached oneShard [.set (ascii "k") (some shortLived), .keys 2]) ∧
      ¬ Honest oneShard
        (reached oneShard [.set (ascii "k") (some shortLived), .get 2 (ascii "k")]) := by
  decide

end MemStorage

end GridKV
