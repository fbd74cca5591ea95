import GridKV.Spec.StoreEntries

/-!
# Do batch reads agree with single reads?

`Get` and the batch methods look up, test and decode an entry alike (`answer`), but they test its
expiry differently: `Get` compares the nanoseconds that `UnixNano` gives, which wrap around, and
the batch methods compare the times.  What a batch removes on its way has expired, so it changes no
answer (`answer_batchGetKey`), and a batch answers as if it read every key from the state in which
it began (`lookup_batchGetNoCopy`).  The methods agree where the two comparisons do.
-/

namespace GridKV

open Go

namespace MemStorage

variable {cfg : StoreConfig} {now : Time} {s : MemStorage} {e : CompressedItem}
  {expired : CompressedItem → Bool} {key : GoString}

/-- What is read from an entry. -/
def itemOf (e : CompressedItem) (value : Bytes) : StoredItem where
  version := e.version
  expireAt := e.expireAt
  value
  key := []

/-- What a read method with this expiry test finds under a key. -/
def answer (cfg : StoreConfig) (expired : CompressedItem → Bool) (s : MemStorage)
    (key : GoString) : Option StoredItem :=
  (entry cfg s key).bind fun e =>
    if expired e then none else (valueOf cfg e).map (itemOf e)

theorem answer_of_expired (he : entry cfg s key = some e) (hexpired : expired e) :
    answer cfg expired s key = none := by
  rw [answer, he, Option.bind_some, if_pos hexpired]

theorem answer_of_not_expired (he : entry cfg s key = some e) (hexpired : ¬ expired e) :
    answer cfg expired s key = (valueOf cfg e).map (itemOf e) := by
  rw [answer, he, Option.bind_some, if_neg hexpired]

/-! ### Single reads -/

theorem toOption_getNoCopy (hkey : key ≠ []) :
    (s.getNoCopy cfg now key).2.toOption = answer cfg (expiredAt now) s key := by
  unfold getNoCopy
  rw [if_neg hkey]
  dsimp only
  split
  · rename_i hnone
    rw [answer, entry, hnone]
    rfl
  · rename_i e he
    split
    · rename_i hexpired
      rw [answer_of_expired he hexpired]
      rfl
    · rename_i hfresh
      rw [answer_of_not_expired he hfresh]
      split
      · rename_i hvalue
        rw [hvalue]
        rfl
      · rename_i value hvalue
        rw [hvalue]
        rfl

/-! ### Batch reads -/

theorem answer_touchLRU (s : MemStorage) (i : Nat) (key k : GoString) :
    answer cfg expired (s.touchLRU i key) k = answer cfg expired s k := by
  rw [answer, entry, lookup_touchLRU]
  rfl

/-- An expired entry answers as one that is not there. -/
theorem answer_expire (he : entry cfg s key = some e) (hexpired : expired e) (d : Counters)
    (k : GoString) :
    answer cfg expired (((s.erase (cfg.shardIndex key) key).addStats
        (cfg.shardIndex key) d).removeFromLRU (cfg.shardIndex key) key) k =
      answer cfg expired s k := by
  by_cases hk : k = key
  · subst hk
    rw [answer_of_expired he hexpired, answer, entry, lookup_removeFromLRU, lookup_addStats,
      lookup_erase, if_pos ⟨rfl, rfl⟩]
    rfl
  · rw [answer, entry, lookup_removeFromLRU, lookup_addStats, lookup_erase,
      if_neg fun h => hk h.2]
    rfl

/-- One key of a batch: its answer goes to the result, and all answers stay. -/
theorem batchGetKey_spec (cfg : StoreConfig) (now : Time) (out : MemStorage × GoMap StoredItem)
    (key : GoString) :
    (∀ k, answer cfg (expiredBy now) (batchGetKey cfg now out key).1 k =
        answer cfg (expiredBy now) out.1 k) ∧
      ∀ k, (batchGetKey cfg now out key).2.lookup k =
        (if k = key then answer cfg (expiredBy now) out.1 key else none).or (out.2.lookup k) := by
  obtain ⟨s, result⟩ := out
  unfold batchGetKey
  dsimp only
  split
  · rename_i hnone
    have hanswer : answer cfg (expiredBy now) s key = none := by
      rw [answer, entry, hnone]
      rfl
    refine ⟨fun _ => rfl, fun k => ?_⟩
    rw [hanswer, ite_self, Option.none_or]
  · rename_i e he
    split
    · rename_i hexpired
      refine ⟨answer_expire he hexpired _, fun k => ?_⟩
      rw [answer_of_expired he hexpired, ite_self, Option.none_or]
    · rename_i hfresh
      rw [answer_of_not_expired he hfresh]
      split
      · rename_i hvalue
        refine ⟨answer_touchLRU s _ key, fun k => ?_⟩
        rw [hvalue, Option.map_none, ite_self, Option.none_or]
      · rename_i value hvalue
        refine ⟨answer_touchLRU s _ key, fun k => ?_⟩
        rw [hvalue]
        by_cases hk : k = key
        · subst hk
          rw [AList.lookup_insert, if_pos rfl]
          rfl
        · rw [AList.lookup_insert_ne hk, if_neg hk, Option.none_or]

theorem lookup_foldl_batchGetKey (order : List GoString) (out : MemStorage × GoMap StoredItem)
    (k : GoString) :
    (order.foldl (batchGetKey cfg now) out).2.lookup k =
      (if k ∈ order then answer cfg (expiredBy now) out.1 k else none).or (out.2.lookup k) := by
  induction order generalizing out with
  | nil => simp
  | cons key order ih =>
    obtain ⟨hkept, hfound⟩ := batchGetKey_spec cfg now out key
    rw [List.foldl_cons, ih, hkept, hfound]
    by_cases hk : k = key
    · subst hk
      by_cases hmem : k ∈ order <;> cases answer cfg (expiredBy now) out.1 k <;> simp [hmem]
    · simp [hk]

/-- A batch answers from the state in which it begins, however often a key occurs in it and in
    whatever order the shards come up. -/
theorem lookup_batchGetNoCopy {keys : List GoString} {visit : List Nat} (hkey : key ≠ [])
    (hmem : key ∈ keys) (hvisit : cfg.shardIndex key ∈ visit) :
    (s.batchGetNoCopy cfg now keys visit).2.lookup key = answer cfg (expiredBy now) s key := by
  have horder : key ∈ visit.flatMap (batchKeys cfg keys) :=
    List.mem_flatMap.mpr ⟨_, hvisit, List.mem_filter.mpr ⟨hmem, by simp [hkey]⟩⟩
  rw [batchGetNoCopy, lookup_foldl_batchGetKey, if_pos horder]
  exact Option.or_none

/-! ### The expiry tests -/

/-- The wrapping comparison of `Get` agrees with the exact one, or neither is made. -/
def SameTest (now : Time) (e : CompressedItem) : Prop :=
  e.expireAt = zeroTime ∨ (unixNano e.expireAt < unixNano now ↔ e.expireAt < now)

theorem expiredAt_eq_iff : expiredAt now e = expiredBy now e ↔ SameTest now e := by
  unfold expiredAt expiredBy SameTest
  rw [Bool.eq_iff_iff, decide_eq_true_iff, decide_eq_true_iff]
  by_cases hzero : e.expireAt = zeroTime <;> simp [hzero]

/-- Times between 1678 and 2262 are compared alike. -/
theorem sameTest_of_inRange (hnow : -2 ^ 63 ≤ now ∧ now < 2 ^ 63)
    (he : -2 ^ 63 ≤ e.expireAt ∧ e.expireAt < 2 ^ 63) : SameTest now e := by
  right
  rw [unixNano, unixNano, Int64.lt_iff_toInt_lt, Int64.toInt_ofInt_of_le he.1 he.2,
    Int64.toInt_ofInt_of_le hnow.1 hnow.2]

/-- Only an entry that can be decoded shows which test was made. -/
theorem answer_eq_iff (expired' : CompressedItem → Bool) :
    answer cfg expired s key = answer cfg expired' s key ↔
      ∀ e, entry cfg s key = some e → valueOf cfg e ≠ none → expired e = expired' e := by
  unfold answer
  cases entry cfg s key with
  | none => simp
  | some e =>
    cases hvalue : valueOf cfg e with
    | none => simp [hvalue]
    | some value => cases h : expired e <;> cases h' : expired' e <;> simp [hvalue, h, h']

/-- A store with one item that expires. -/
def expiring (expireAt : Time) : MemStorage :=
  (MemStorage.empty.set oneShard (ascii "a") (some { plainItem 1 "x" with expireAt })).1

end MemStorage

end GridKV
