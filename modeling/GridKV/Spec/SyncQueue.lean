import GridKV.ForStd.RingBuffer
import GridKV.Model.SyncRing

/-!
# Is the sync buffer a queue that drops its oldest operations?

The ring of a shard counts in `uint64`, and its counters wrap around.  It follows a ring whose
counters do not (`Follows`): the two have the same window of operations, in every state.  Adding
computes with the difference of the counters, which is right all the same; a drain compares them,
and once the head has wrapped around and the tail has not, it returns nothing
(`getSyncBuffer_snd`).
-/

namespace GridKV

open List Function

namespace SyncRing

variable {α : Type} {k : Nat} {r : SyncRing α} {q : RingBuffer α (2 ^ k)}

/-- The ring has the same window of operations as one with counters that do not wrap. -/
structure Follows (r : SyncRing α) (q : RingBuffer α (2 ^ k)) : Prop where
  capacity : r.syncCapacity.toNat = 2 ^ k
  mask : r.syncMask = r.syncCapacity - 1
  head : r.syncHead.toNat = q.head % 2 ^ 64
  tail : r.syncTail.toNat = q.tail % 2 ^ 64
  window : ∀ i, q.tail ≤ i → i < q.head → r.syncBuffer (i % 2 ^ k) = q.slots (i % 2 ^ k)

namespace Follows

theorem capacity_le (h : Follows r q) : 2 ^ k ≤ 2 ^ 63 := by
  have hlt : 2 ^ k < 2 ^ 64 := h.capacity ▸ r.syncCapacity.toNat_lt
  have hk : k < 64 := (Nat.pow_lt_pow_iff_right Nat.one_lt_two).mp hlt
  exact Nat.pow_le_pow_right Nat.two_pos (Nat.le_of_lt_succ hk)

/-- Counter values that differ by a turn of the counter have the same slot. -/
theorem slot_eq (h : Follows r q) {i : UInt64} {n : Nat} (hi : i.toNat = n % 2 ^ 64) :
    r.slot i = n % 2 ^ k := by
  have hdvd : 2 ^ k ∣ 2 ^ 64 := by
    refine Nat.pow_dvd_pow 2 ?_
    exact (Nat.pow_le_pow_iff_right Nat.one_lt_two).mp (h.capacity_le.trans (by decide))
  have hone : 1 ≤ r.syncCapacity.toNat := by
    rw [h.capacity]
    exact Nat.two_pow_pos k
  have hmask : r.syncMask.toNat = 2 ^ k - 1 := by
    rw [h.mask, ← h.capacity]
    exact UInt64.toNat_sub_of_le _ 1 hone
  rw [slot, UInt64.toNat_and, hmask, Nat.and_two_pow_sub_one_eq_mod, hi,
    Nat.mod_mod_of_dvd n hdvd]

theorem toNat_head_sub_tail (h : Follows r q) :
    (r.syncHead - r.syncTail).toNat = q.head - q.tail := by
  have hcapacity := h.capacity_le
  have hwindow := q.window_le
  have hle := q.tail_le_head
  rw [UInt64.toNat_sub, h.head, h.tail]
  omega

end Follows

/-! ### Adding -/

theorem foldl_clear_of_ne {is : List UInt64} {p : Nat} (buffer : Nat → Option α)
    (hne : ∀ i ∈ is, r.slot i ≠ p) :
    is.foldl (fun buffer i => update buffer (r.slot i) none) buffer p = buffer p := by
  induction is generalizing buffer with
  | nil => rfl
  | cons i is ih =>
    rw [foldl_cons, ih _ fun j hj => hne j (mem_cons_of_mem i hj),
      update_of_ne (hne i mem_cons_self).symm]

theorem mem_counters {first last i : UInt64} (h : i ∈ counters first last) :
    first.toNat ≤ i.toNat ∧ i.toNat < last.toNat := by
  obtain ⟨n, hn, rfl⟩ := mem_map.mp h
  rw [mem_range'_1] at hn
  have hlt := last.toNat_lt
  rw [UInt64.toNat_ofNat', Nat.mod_eq_of_lt (by omega)]
  omega

namespace Follows

/-- A full ring drops its oldest operation. -/
theorem dropOldest (h : Follows r q) (hfull : q.head - q.tail ≥ 2 ^ k)
    (hge : q.tail ≤ q.head - 2 ^ k + 1) (hle : q.head - 2 ^ k + 1 ≤ q.head) :
    Follows { r with
      syncBuffer := (counters r.syncTail (r.syncHead - r.syncCapacity + 1)).foldl
        (fun buffer i => update buffer (r.slot i) none) r.syncBuffer
      syncTail := r.syncHead - r.syncCapacity + 1 } (q.dropOldest (q.head - 2 ^ k + 1) hge hle) := by
  have hcapacity := h.capacity_le
  have hwindow := q.window_le
  have hnew : (r.syncHead - r.syncCapacity + 1).toNat = (q.head - 2 ^ k + 1) % 2 ^ 64 := by
    have hone : (1 : UInt64).toNat = 1 := rfl
    rw [UInt64.toNat_add, UInt64.toNat_sub, h.head, h.capacity, hone]
    omega
  refine ⟨h.capacity, h.mask, h.head, hnew, fun i hi hlt => ?_⟩
  dsimp only [RingBuffer.dropOldest] at hi hlt ⊢
  rw [foldl_clear_of_ne, RingBuffer.clearSlots_of_ne]
  · exact h.window i (by omega) hlt
  · intro j hj hjlt
    exact RingBuffer.mod_ne_mod (by omega) (by omega)
  · -- At most the slot of the old tail is emptied.
    intro j hj
    obtain ⟨hfirst, hlast⟩ := mem_counters hj
    have hj : j.toNat = q.tail % 2 ^ 64 := by
      rw [hnew] at hlast
      rw [h.tail] at hfirst
      omega
    rw [h.slot_eq hj]
    exact RingBuffer.mod_ne_mod (by omega) (by omega)

/-- A ring with room takes one more. -/
theorem append (h : Follows r q) (op : α) (hroom : q.head - q.tail < 2 ^ k) :
    Follows { r with
      syncBuffer := update r.syncBuffer (r.slot r.syncHead) (some op)
      syncHead := r.syncHead + 1 } (q.append op hroom) := by
  have hhead : (r.syncHead + 1).toNat = (q.head + 1) % 2 ^ 64 := by
    have hone : (1 : UInt64).toNat = 1 := rfl
    rw [UInt64.toNat_add, h.head, hone]
    omega
  refine ⟨h.capacity, h.mask, hhead, h.tail, fun i hi hlt => ?_⟩
  dsimp only [RingBuffer.append] at hi hlt ⊢
  rw [h.slot_eq h.head]
  by_cases hlast : i = q.head
  · rw [hlast, update_self, update_self]
  · have hne : i % 2 ^ k ≠ q.head % 2 ^ k := RingBuffer.mod_ne_mod (by omega) (by omega)
    rw [update_of_ne hne, update_of_ne hne]
    exact h.window i hi (by omega)

theorem addToSyncBuffer (h : Follows r q) (op : α) :
    Follows (r.addToSyncBuffer op) (q.push op) := by
  have hdiff := h.toNat_head_sub_tail
  have hcapacity := h.capacity
  unfold SyncRing.addToSyncBuffer RingBuffer.push
  dsimp only
  by_cases hfull : q.head - q.tail ≥ 2 ^ k
  · have hge : r.syncHead - r.syncTail ≥ r.syncCapacity := by
      rw [ge_iff_le, UInt64.le_iff_toNat_le, hdiff, hcapacity]
      exact hfull
    rw [if_pos hge, dif_pos hfull]
    exact (h.dropOldest hfull _ _).append op _
  · have hlt : ¬ r.syncHead - r.syncTail ≥ r.syncCapacity := by
      rw [ge_iff_le, UInt64.le_iff_toNat_le, hdiff, hcapacity]
      exact hfull
    rw [if_neg hlt, dif_neg hfull]
    exact h.append op _

end Follows

/-! ### Draining -/

/-- The loop takes out what is in the slots, as long as no two counter values share one. -/
theorem snd_foldl_collect {is : List UInt64} (hnodup : (is.map r.slot).Nodup)
    (buffer : Nat → Option α) (ops : List α) :
    (is.foldl r.collect (buffer, ops)).2 = ops ++ (is.map r.slot).filterMap buffer := by
  induction is generalizing buffer ops with
  | nil => simp
  | cons i is ih =>
    rw [map_cons, nodup_cons] at hnodup
    rw [foldl_cons, map_cons]
    cases hop : buffer (r.slot i) with
    | none =>
      have hskip : r.collect (buffer, ops) i = (buffer, ops) := by simp only [collect, hop]
      rw [hskip, filterMap_cons_none hop]
      exact ih hnodup.2 buffer ops
    | some op =>
      have htake : r.collect (buffer, ops) i =
          (update buffer (r.slot i) none, ops ++ [op]) := by simp only [collect, hop]
      have hrest : (is.map r.slot).filterMap (update buffer (r.slot i) none) =
          (is.map r.slot).filterMap buffer := by
        refine filterMap_congr fun p hp => update_of_ne ?_ _ _
        exact fun heq => hnodup.1 (heq ▸ hp)
      rw [htake, filterMap_cons_some hop, ih hnodup.2, hrest, append_assoc]
      rfl

namespace Follows

/-- While the head has not wrapped around, a drain comes to the slots of the window. -/
theorem map_slot_counters (h : Follows r q) (hle : r.syncTail ≤ r.syncHead) :
    (counters r.syncTail r.syncHead).map r.slot =
      (range' q.tail (q.head - q.tail)).map (· % 2 ^ k) := by
  have hcapacity := h.capacity_le
  have hwindow := q.window_le
  have horder := q.tail_le_head
  rw [UInt64.le_iff_toNat_le, h.head, h.tail] at hle
  have hlength : r.syncHead.toNat - r.syncTail.toNat = q.head - q.tail := by
    rw [h.head, h.tail]
    omega
  rw [counters, hlength, range'_eq_map_range, range'_eq_map_range, map_map,
    map_map, map_map]
  refine map_congr_left fun j _ => ?_
  simp only [comp_apply]
  apply h.slot_eq
  rw [UInt64.toNat_ofNat', h.tail, Nat.mod_add_mod]

theorem nodup_slots (q : RingBuffer α (2 ^ k)) :
    ((range' q.tail (q.head - q.tail)).map (· % 2 ^ k)).Nodup := by
  have hwindow := q.window_le
  refine List.Nodup.map_on (fun i hi j hj heq => ?_) (nodup_range' ..)
  rw [mem_range'_1] at hi hj
  by_contra hne
  obtain hlt | hlt := Nat.lt_or_gt_of_ne hne
  · exact RingBuffer.mod_ne_mod hlt (by omega) heq
  · exact RingBuffer.mod_ne_mod hlt (by omega) heq.symm

/-- Equal counters mean that nothing is pending. -/
theorem head_eq_tail (h : Follows r q) (heq : r.syncHead = r.syncTail) : q.head = q.tail := by
  have hcapacity := h.capacity_le
  have hwindow := q.window_le
  have horder := q.tail_le_head
  have hmod : q.head % 2 ^ 64 = q.tail % 2 ^ 64 := by rw [← h.head, ← h.tail, heq]
  omega

/-- A drain returns what is pending, or nothing if the head has wrapped around. -/
theorem getSyncBuffer_snd (h : Follows r q) :
    r.getSyncBuffer.2 = if r.syncTail ≤ r.syncHead then q.toList else [] := by
  unfold SyncRing.getSyncBuffer
  dsimp only
  split
  · rename_i heq
    have hnil : q.toList = [] := by
      rw [← length_eq_zero_iff, q.length_toList, h.head_eq_tail heq, Nat.sub_self]
    rw [hnil, ite_self]
  · split
    · rename_i hle
      have hslots := h.map_slot_counters hle
      rw [snd_foldl_collect (hslots ▸ nodup_slots q), hslots, nil_append, filterMap_map,
        RingBuffer.toList]
      refine filterMap_congr fun i hi => ?_
      rw [mem_range'_1] at hi
      exact h.window i hi.1 (by omega)
    · rename_i hlt
      rw [UInt64.le_iff_toNat_le] at hlt
      have hzero : r.syncHead.toNat - r.syncTail.toNat = 0 := by omega
      rw [counters, hzero]
      rfl

theorem getSyncBuffer_snd_eq_iff (h : Follows r q) :
    r.getSyncBuffer.2 = q.toList ↔ r.syncTail ≤ r.syncHead := by
  rw [h.getSyncBuffer_snd]
  split
  · rename_i hle
    exact iff_of_true rfl hle
  · rename_i hlt
    refine iff_of_false (fun hnil => hlt ?_) hlt
    have hlength := q.length_toList
    have horder := q.tail_le_head
    rw [← hnil, length_nil] at hlength
    have heq : q.head = q.tail := by omega
    rw [UInt64.le_iff_toNat_le, h.head, h.tail, heq]

theorem getSyncBuffer_fst (h : Follows r q) : Follows r.getSyncBuffer.1 q.drain.2 := by
  have hempty : ∀ buffer : Nat → Option α, ∀ i, q.head ≤ i → i < q.head →
      buffer (i % 2 ^ k) = q.drain.2.slots (i % 2 ^ k) := by
    intro buffer i hge hlt
    omega
  unfold SyncRing.getSyncBuffer
  dsimp only
  split
  · rename_i heq
    exact ⟨h.capacity, h.mask, h.head, heq ▸ h.head, hempty _⟩
  · exact ⟨h.capacity, h.mask, h.head, h.head, hempty _⟩

theorem clear (h : Follows r q) : Follows r.clear q.forget :=
  ⟨h.capacity, h.mask, h.head, h.head, fun _ hge hlt => absurd hlt (Nat.not_lt_of_le hge)⟩

end Follows

theorem follows_new (k : Fin 64) :
    Follows (new (.ofNat (2 ^ k.val)) : SyncRing α) (.empty (Nat.two_pow_pos k.val)) := by
  have hlt : 2 ^ k.val < 2 ^ 64 := Nat.pow_lt_pow_right Nat.one_lt_two k.isLt
  refine ⟨?_, rfl, rfl, rfl, fun i _ hlt => absurd hlt (Nat.not_lt_zero i)⟩
  rw [new, UInt64.toNat_ofNat', Nat.mod_eq_of_lt hlt]

end SyncRing

/-! ### Sequences of calls -/

/-- A call that works on the ring of a shard. -/
inductive RingCall (α : Type) where
  | add (op : α)
  | drain
  | clear

/-- The ring, with what has been added to it and returned from it. -/
structure SyncLog (α : Type) where
  ring : SyncRing α
  /-- Added since the last drain or `Clear`. -/
  pending : List α := []
  added : List α := []
  returned : List α := []

namespace SyncLog

variable {α : Type} {k : Nat} {s : SyncLog α} (n : Nat) (op : α) (syncCapacity : UInt64)

def call (s : SyncLog α) : RingCall α → SyncLog α
  | .add op =>
    { s with
      ring := s.ring.addToSyncBuffer op
      pending := s.pending ++ [op]
      added := s.added ++ [op] }
  | .drain =>
    { s with
      ring := s.ring.getSyncBuffer.1
      pending := []
      returned := s.returned ++ s.ring.getSyncBuffer.2 }
  | .clear => { s with ring := s.ring.clear, pending := [] }

/-- The ring of a new shard after a sequence of calls. -/
def reached (syncCapacity : UInt64) (calls : List (RingCall α)) : SyncLog α :=
  calls.foldl call { ring := .new syncCapacity }

/-- The queue that the ring stands for. -/
structure Queues (s : SyncLog α) (q : RingBuffer α (2 ^ k)) : Prop where
  follows : s.ring.Follows q
  last : q.toList = s.pending.rtake (2 ^ k)
  head : q.head = s.added.length
  once : (s.returned ++ s.pending).Sublist s.added

theorem queues_call {q : RingBuffer α (2 ^ k)} (h : Queues s q) (c : RingCall α) :
    ∃ q' : RingBuffer α (2 ^ k), Queues (s.call c) q' := by
  cases c with
  | add op =>
    refine ⟨q.push op, h.follows.addToSyncBuffer op, ?_, ?_, ?_⟩
    · rw [q.toList_push, h.last, List.rtake_rtake_append (Nat.two_pow_pos k)]
      rfl
    · rw [q.head_push, h.head]
      dsimp only [call]
      rw [length_append]
      rfl
    · dsimp only [call]
      rw [← append_assoc]
      exact h.once.append (List.Sublist.refl [op])
  | drain =>
    refine ⟨q.drain.2, h.follows.getSyncBuffer_fst, ?_, h.head, ?_⟩
    · rw [q.toList_drain]
      exact (rtake_nil _).symm
    · have hsub : s.ring.getSyncBuffer.2.Sublist s.pending := by
        rw [h.follows.getSyncBuffer_snd]
        split
        · rw [h.last, rtake]
          exact drop_sublist _ _
        · exact nil_sublist _
      dsimp only [call]
      rw [append_nil]
      exact ((List.Sublist.refl s.returned).append hsub).trans h.once
  | clear =>
    refine ⟨q.forget, h.follows.clear, ?_, h.head, ?_⟩
    · rw [q.toList_forget]
      exact (rtake_nil _).symm
    · dsimp only [call]
      rw [append_nil]
      exact (sublist_append_left _ _).trans h.once

theorem exists_queue (k : Fin 64) (calls : List (RingCall α)) :
    ∃ q : RingBuffer α (2 ^ k.val), Queues (reached (.ofNat (2 ^ k.val)) calls) q := by
  refine foldlRecOn (motive := fun s => ∃ q : RingBuffer α (2 ^ k.val), Queues s q) calls call
    ⟨.empty (Nat.two_pow_pos k.val), SyncRing.follows_new k, ?_, rfl, ?_⟩
    fun s ⟨q, h⟩ c _ => queues_call h c
  · exact (rtake_nil _).symm
  · exact List.Sublist.refl []

theorem drain_eq_pending_iff (k : Fin 64) (calls : List (RingCall α)) :
    (reached (.ofNat (2 ^ k.val)) calls).ring.getSyncBuffer.2 =
        (reached (.ofNat (2 ^ k.val)) calls).pending.rtake (2 ^ k.val) ↔
      (reached (.ofNat (2 ^ k.val)) calls).ring.syncTail ≤
        (reached (.ofNat (2 ^ k.val)) calls).ring.syncHead := by
  obtain ⟨q, hqueues⟩ := exists_queue k calls
  rw [← hqueues.last]
  exact hqueues.follows.getSyncBuffer_snd_eq_iff

/-- **Sync buffer.**  With any power of two for its capacity and after any sequence of calls, a
    drain returns exactly the last operations added since the previous drain or `Clear`, as many
    as there are slots and in their order, if and only if the head has not wrapped around past the
    tail; and what the drains have returned so far are operations that were added, each at most
    once and in their order. -/
theorem drains_last_iff (k : Fin 64) (calls : List (RingCall α)) :
    ((reached (.ofNat (2 ^ k.val)) calls).ring.getSyncBuffer.2 =
        (reached (.ofNat (2 ^ k.val)) calls).pending.rtake (2 ^ k.val) ↔
      (reached (.ofNat (2 ^ k.val)) calls).ring.syncTail ≤
        (reached (.ofNat (2 ^ k.val)) calls).ring.syncHead) ∧
      (reached (.ofNat (2 ^ k.val)) calls).returned.Sublist
        (reached (.ofNat (2 ^ k.val)) calls).added := by
  refine ⟨drain_eq_pending_iff k calls, ?_⟩
  obtain ⟨q, hqueues⟩ := exists_queue k calls
  exact (sublist_append_left _ _).trans hqueues.once

/-- Below `2 ^ 64` operations the head has not wrapped around. -/
theorem tail_le_head_of_few (k : Fin 64) (calls : List (RingCall α))
    (hfew : (reached (.ofNat (2 ^ k.val)) calls).added.length < 2 ^ 64) :
    (reached (.ofNat (2 ^ k.val)) calls).ring.syncTail ≤
      (reached (.ofNat (2 ^ k.val)) calls).ring.syncHead := by
  obtain ⟨q, hqueues⟩ := exists_queue k calls
  have hhead := hqueues.head
  have horder := q.tail_le_head
  rw [UInt64.le_iff_toNat_le, hqueues.follows.head, hqueues.follows.tail]
  omega

/-! ### A counter that wraps around -/

/-- `n` operations that are drained, and one more. -/
def oneAfter (n : Nat) (op : α) : List (RingCall α) :=
  replicate n (.add op) ++ [.drain, .add op]

theorem length_added_replicate (s : SyncLog α) :
    ((replicate n (.add op)).foldl call s).added.length = s.added.length + n := by
  induction n generalizing s with
  | zero => rfl
  | succ n ih =>
    rw [replicate_succ, foldl_cons, ih]
    dsimp only [call]
    rw [length_append, length_singleton]
    omega

theorem added_oneAfter : (reached syncCapacity (oneAfter n op)).added.length = n + 1 := by
  rw [reached, oneAfter, foldl_append]
  dsimp only [List.foldl, call]
  rw [length_append, length_added_replicate, length_nil, Nat.zero_add]
  rfl

theorem pending_oneAfter : (reached syncCapacity (oneAfter n op)).pending = [op] := by
  rw [reached, oneAfter, foldl_append]
  rfl

/-- The last of `2 ^ 64` operations takes the head back to zero. -/
theorem wraps_oneAfter (k : Fin 64) (op : α) {n : Nat} (hn : n + 1 = 2 ^ 64) :
    ¬ (reached (.ofNat (2 ^ k.val)) (oneAfter n op)).ring.syncTail ≤
      (reached (.ofNat (2 ^ k.val)) (oneAfter n op)).ring.syncHead := by
  obtain ⟨q, hqueues⟩ := exists_queue k (oneAfter n op)
  have hhead := hqueues.head
  have hlast := congrArg List.length hqueues.last
  have hone : ([op].rtake (2 ^ k.val)).length = 1 := by
    have hpos := Nat.two_pow_pos k.val
    rw [rtake, length_drop, length_singleton]
    omega
  rw [added_oneAfter] at hhead
  rw [q.length_toList, pending_oneAfter, hone] at hlast
  rw [UInt64.le_iff_toNat_le, hqueues.follows.head, hqueues.follows.tail]
  omega

/-- A drain that returns nothing although one operation is pending. -/
theorem not_drains_last_of_wrap :
    ¬ ∀ (k : Fin 64) (calls : List (RingCall Nat)),
      (reached (.ofNat (2 ^ k.val)) calls).ring.getSyncBuffer.2 =
          (reached (.ofNat (2 ^ k.val)) calls).pending.rtake (2 ^ k.val) ∧
        (reached (.ofNat (2 ^ k.val)) calls).returned.Sublist
          (reached (.ofNat (2 ^ k.val)) calls).added := by
  intro hall
  have hwraps := wraps_oneAfter 13 (0 : Nat) (Nat.sub_add_cancel (Nat.one_le_two_pow (n := 64)))
  exact hwraps ((drain_eq_pending_iff 13 _).mp (hall 13 _).1)

end SyncLog

end GridKV
