import GridKV.Model.AntiEntropy
import GridKV.Spec.BatchReads
import GridKV.Spec.ReadBack
import GridKV.Spec.RecencyOrder

/-!
# What anti-entropy finds

`Sync` at one store, given the digest of another, looks at the keys of the store and at those
of the version vector.  A key that is stored on both sides is in both filters, whatever the
hash function makes of it, so what the filter adds are keys the other side lacks for sure.  The
rest depends on the version vector.  It has the keys that can be read at the other side, but
only those with a version above zero: `Digest` compares with the version the map has for the
key, and that is zero to begin with.  A key with a version of zero or less that the store lacks
is therefore not found, and one that both stores have in the same version is always found.
-/

namespace GridKV

open Go BitArray List

namespace MemStorage

variable {cfg : StoreConfig} {s t u : MemStorage} {now : Time} {key : GoString}

/-! ### Stores without expiry -/

/-- No entry has an expiry. -/
def NoExpiry (s : MemStorage) : Prop :=
  ∀ i k e, (s.shards i).data.lookup k = some e → e.expireAt = zeroTime

/-- The same maps; the lists and the counters may differ. -/
def SameData (s t : MemStorage) : Prop := ∀ i, (t.shards i).data = (s.shards i).data

/-- The version of a stored key. -/
def storedVersion (cfg : StoreConfig) (s : MemStorage) (key : GoString) : Option Int64 :=
  (entry cfg s key).map (·.version)

/-- The version that `Get` returns when nothing expires. -/
def readVersion (cfg : StoreConfig) (s : MemStorage) (key : GoString) : Option Int64 :=
  if key = [] then none else (answer cfg (fun _ => false) s key).map (·.version)

theorem SameData.trans (h : SameData s t) (h' : SameData t u) : SameData s u :=
  fun i => (h' i).trans (h i)

theorem SameData.noExpiry (h : SameData s t) (hs : NoExpiry s) : NoExpiry t := by
  intro i k e he
  rw [h i] at he
  exact hs i k e he

theorem SameData.readVersion_eq (h : SameData s t) :
    readVersion cfg t key = readVersion cfg s key := by
  unfold readVersion answer entry
  rw [h]

theorem sameData_touchLRU (s : MemStorage) (i : Nat) (key : GoString) :
    SameData s (s.touchLRU i key) := by
  intro j
  by_cases hj : j = i
  · subst hj
    rw [touchLRU, modifyShard_self]
  · rw [touchLRU, modifyShard_of_ne s _ hj]

/-- What can be read is stored in that version. -/
theorem storedVersion_of_readVersion {v : Int64} (h : readVersion cfg s key = some v) :
    storedVersion cfg s key = some v := by
  unfold readVersion at h
  split at h
  · cases h
  · obtain ⟨item, hitem, rfl⟩ := Option.map_eq_some_iff.mp h
    obtain ⟨e, he, hread⟩ := Option.bind_eq_some_iff.mp hitem
    obtain ⟨value, -, rfl⟩ := Option.map_eq_some_iff.mp hread
    rw [storedVersion, he]
    rfl

theorem NoExpiry.expiredAt_eq (h : NoExpiry s) {e : CompressedItem}
    (he : entry cfg s key = some e) (now : Time) : expiredAt now e = false := by
  have hzero := h _ _ _ he
  simp [expiredAt, hzero]

theorem NoExpiry.answer_eq (h : NoExpiry s) :
    answer cfg (expiredAt now) s key = answer cfg (fun _ => false) s key := by
  unfold answer
  cases he : entry cfg s key with
  | none => rfl
  | some e => simp only [Option.bind_some, h.expiredAt_eq he]

/-- Reading changes no map. -/
theorem NoExpiry.sameData_get (h : NoExpiry s) (cfg : StoreConfig) (now : Time)
    (key : GoString) : SameData s (s.get cfg now key).1 := by
  simp only [MemStorage.get, getNoCopy]
  split
  · exact fun _ => rfl
  · split
    · exact fun _ => rfl
    · rename_i e he
      rw [if_neg (Bool.not_eq_true _ ▸ h.expiredAt_eq he now)]
      split <;> exact sameData_touchLRU s _ key

theorem NoExpiry.toOption_get (h : NoExpiry s) (cfg : StoreConfig) (now : Time)
    (key : GoString) :
    (s.get cfg now key).2.toOption.map (·.version) = readVersion cfg s key := by
  unfold readVersion
  split
  · rename_i hkey
    simp [MemStorage.get, getNoCopy, hkey, Except.toOption]
  · rename_i hkey
    rw [MemStorage.get, toOption_getNoCopy hkey, h.answer_eq]

/-- A read either finds the version or fails, also after other reads. -/
theorem NoExpiry.get_cases (h : NoExpiry s) (hdata : SameData s t) (cfg : StoreConfig) (now : Time)
    (key : GoString) :
    ∃ u, SameData s u ∧
      ((∃ item, t.get cfg now key = (u, .ok item) ∧
          readVersion cfg s key = some item.version) ∨
        ∃ err, t.get cfg now key = (u, .error err) ∧ readVersion cfg s key = none) := by
  have ht := hdata.noExpiry h
  have hsame := hdata.trans (ht.sameData_get cfg now key)
  have hread := (ht.toOption_get cfg now key).trans hdata.readVersion_eq
  generalize t.get cfg now key = out at hsame hread ⊢
  obtain ⟨u, result⟩ := out
  refine ⟨u, hsame, ?_⟩
  cases result with
  | ok item => exact .inl ⟨item, rfl, hread.symm⟩
  | error err => exact .inr ⟨err, rfl, hread.symm⟩

/-! ### The keys of a store -/

theorem NoExpiry.keysOfShard_eq (h : NoExpiry s) (now : Time) (i : Nat) (keys : List GoString) :
    keysOfShard now (s, keys) i = (s, keys ++ (s.shards i).data.keys) := by
  have hfold : ∀ (entries : List (Sigma fun _ : GoString => CompressedItem)) (keys : List GoString),
      entries ⊆ (s.shards i).data.entries →
      entries.foldl (fun out entry =>
        if expiredBy now entry.2 then (MemStorage.erase out.1 i entry.1, out.2)
        else (out.1, out.2 ++ [entry.1])) (s, keys) = (s, keys ++ entries.keys) := by
    intro entries
    induction entries with
    | nil =>
      intro keys _
      simp
    | cons entry entries ih =>
      intro keys hsub
      obtain ⟨hmem, hsub⟩ := cons_subset.mp hsub
      have hzero := h i entry.1 entry.2 (AList.mem_lookup_iff.mpr hmem)
      have hfresh : expiredBy now entry.2 = false := by simp [expiredBy, hzero]
      rw [foldl_cons, hfresh, if_neg Bool.false_ne_true, ih _ hsub, keys_cons,
        append_assoc, singleton_append]
  exact hfold _ keys (List.Subset.refl _)

/-- `Keys` lists what the shards hold. -/
theorem NoExpiry.keys_eq (h : NoExpiry s) (cfg : StoreConfig) (now : Time) :
    s.keys cfg now =
      (s, (range cfg.shardCount).flatMap fun i => (s.shards i).data.keys) := by
  have hfold : ∀ (is : List Nat) (keys : List GoString),
      is.foldl (keysOfShard now) (s, keys) =
        (s, keys ++ is.flatMap fun i => (s.shards i).data.keys) := by
    intro is
    induction is with
    | nil =>
      intro keys
      simp
    | cons i is ih =>
      intro keys
      rw [foldl_cons, h.keysOfShard_eq, ih, flatMap_cons, append_assoc]
  exact hfold _ []

/-- In a store whose keys are in their own shards, these are the keys with a version. -/
theorem mem_keys_iff (hs : NoExpiry s) (hlinked : Linked cfg s) :
    key ∈ (s.keys cfg now).2 ↔ (storedVersion cfg s key).isSome := by
  rw [hs.keys_eq, storedVersion, Option.isSome_map]
  constructor
  · intro hmem
    obtain ⟨i, -, hkey⟩ := mem_flatMap.mp hmem
    obtain ⟨e, he⟩ := Option.isSome_iff_exists.mp (AList.lookup_isSome.mpr hkey)
    rw [entry, hlinked.placed i key (hlinked.listed i key e he), he]
    rfl
  · intro hsome
    exact mem_flatMap.mpr ⟨cfg.shardIndex key, mem_range.mpr (shardIndex_lt cfg key),
      AList.lookup_isSome.mp hsome⟩

end MemStorage

namespace AntiEntropy

open MemStorage

variable {hash : GoString → UInt64} {cfg : StoreConfig} {s : MemStorage} {key : GoString}
  {vv : GoMap Int64} {v : Int64} {keys : List GoString} {d : DigestState} {bloom : Bytes}
  {out : MemStorage × List GoString}

/-! ### Digests -/

/-- The place of a key in the filter. -/
def place (hash : GoString → UInt64) (key : GoString) : Nat := (hash key).toNat % bloomSize

/-- The version of a key in the version vector: what is read, if it is above zero. -/
def advertised (cfg : StoreConfig) (s : MemStorage) (key : GoString) : Option Int64 :=
  (readVersion cfg s key).filter fun v => 0 < v

/-- A digest of these keys of a store. -/
structure Digests (hash : GoString → UInt64) (cfg : StoreConfig) (s : MemStorage)
    (keys : List GoString) (d : DigestState) : Prop where
  data : SameData s d.store
  length : d.bloom.length = bloomSize / 8
  bits : ∀ p, getBit d.bloom p = true ↔ ∃ key ∈ keys, place hash key = p
  versions : ∀ key, d.vv.lookup key = if key ∈ keys then advertised cfg s key else none

theorem place_div_lt (hash : GoString → UInt64) (key : GoString) :
    place hash key / 8 < bloomSize / 8 := by
  have hlt : place hash key < bloomSize := Nat.mod_lt _ (by decide)
  simp only [bloomSize] at hlt ⊢
  omega

theorem advertised_of_readVersion (hread : readVersion cfg s key = some v) :
    advertised cfg s key = if 0 < v then some v else none := by
  rw [advertised, hread, Option.filter_some]
  simp only [decide_eq_true_eq]

theorem readVersion_of_advertised (h : advertised cfg s key = some v) :
    readVersion cfg s key = some v := (Option.filter_eq_some_iff.mp h).1

/-- The version vector after a key has been looked at. -/
theorem versions_append {vv' : GoMap Int64}
    (h : ∀ k, vv.lookup k = if k ∈ keys then advertised cfg s k else none)
    (hkey : vv'.lookup key = advertised cfg s key)
    (hother : ∀ k, k ≠ key → vv'.lookup k = vv.lookup k) (k : GoString) :
    vv'.lookup k = if k ∈ keys ++ [key] then advertised cfg s k else none := by
  by_cases hk : k = key
  · subst hk
    rw [hkey, if_pos (by simp)]
  · rw [hother k hk, h]
    simp only [mem_append, mem_singleton, hk, or_false]

/-- A version is recorded if it is above zero.  Before that the map has the version already,
    or nothing, which reads as zero. -/
theorem newer_iff (hread : readVersion cfg s key = some v)
    (h : vv.lookup key = advertised cfg s key ∨ vv.lookup key = none) :
    v > (vv.lookup key).getD 0 ↔ vv.lookup key = none ∧ 0 < v := by
  have hadvertised := advertised_of_readVersion hread
  obtain h | h := h
  · rw [h, hadvertised]
    split
    · simp
    · simp_all
  · rw [h]
    simp

theorem Digests.digestKey (h : Digests hash cfg s keys d) (hs : NoExpiry s) (now : GoString → Time)
    (key : GoString) : Digests hash cfg s (keys ++ [key]) (digestKey hash cfg now d key) := by
  have hbits : ∀ p, getBit (setBit d.bloom (place hash key)) p = true ↔
      ∃ k ∈ keys ++ [key], place hash k = p := by
    intro p
    rw [getBit_setBit (h.length ▸ place_div_lt hash key), h.bits]
    simp [or_and_right, exists_or, or_comm]
  have hlength : (setBit d.bloom (place hash key)).length = bloomSize / 8 :=
    (length_setBit ..).trans h.length
  have hbefore : d.vv.lookup key = advertised cfg s key ∨ d.vv.lookup key = none := by
    rw [h.versions]
    split
    · exact .inl rfl
    · exact .inr rfl
  obtain ⟨store, hstore, ⟨item, hget, hread⟩ | ⟨err, hget, hread⟩⟩ :=
    hs.get_cases h.data cfg (now key) key
  · have hadvertised := advertised_of_readVersion hread
    have hnewer := newer_iff hread hbefore
    simp only [AntiEntropy.digestKey, hget]
    split
    · rename_i hgt
      refine ⟨hstore, hlength, hbits, versions_append h.versions ?_ ?_⟩
      · rw [AList.lookup_insert, hadvertised, if_pos (hnewer.mp hgt).2]
      · exact fun k hk => AList.lookup_insert_ne hk
    · rename_i hle
      refine ⟨hstore, hlength, hbits, versions_append h.versions ?_ fun _ _ => rfl⟩
      obtain hsame | hnone := hbefore
      · exact hsame
      · rw [hadvertised, if_neg fun hpos => hle (hnewer.mpr ⟨hnone, hpos⟩)]
        exact hnone
  · have hadvertised : advertised cfg s key = none := by rw [advertised, hread, Option.filter_none]
    simp only [AntiEntropy.digestKey, hget]
    refine ⟨hstore, hlength, hbits, versions_append h.versions ?_ fun _ _ => rfl⟩
    rw [hadvertised] at hbefore ⊢
    exact hbefore.elim id id

theorem Digests.foldl (h : Digests hash cfg s keys d) (hs : NoExpiry s) (now : GoString → Time)
    (rest : List GoString) :
    Digests hash cfg s (keys ++ rest) (rest.foldl (AntiEntropy.digestKey hash cfg now) d) := by
  induction rest generalizing keys d with
  | nil => simpa using h
  | cons key rest ih => simpa using ih (h.digestKey hs now key)

/-- The digest of the whole key space. -/
theorem digests_digest (hash : GoString → UInt64) (cfg : StoreConfig) (hs : NoExpiry s)
    (readings : Readings) :
    Digests hash cfg s (s.keys cfg readings.listed).2 (digest hash cfg readings s []) := by
  have hempty : Digests hash cfg s [] { store := s, bloom := replicate (bloomSize / 8) 0
                                        vv := ∅ } := by
    refine ⟨fun _ => rfl, length_replicate, fun p => ?_, fun key => rfl⟩
    rw [getBit_replicate]
    simp
  have hdigests := hempty.foldl hs readings.lookup (s.keys cfg readings.listed).2
  have hdigest : digest hash cfg readings s [] =
      (s.keys cfg readings.listed).2.foldl (AntiEntropy.digestKey hash cfg readings.lookup)
        { store := s, bloom := replicate (bloomSize / 8) 0, vv := ∅ } := by
    rw [digest, getKeysInRange, hs.keys_eq]
    rfl
  rw [hdigest]
  exact hdigests

/-- The whole digest of a store whose keys are in their own shards. -/
structure DigestOf (hash : GoString → UInt64) (cfg : StoreConfig) (s : MemStorage) (bloom : Bytes)
    (vv : GoMap Int64) : Prop where
  length : bloom.length * 8 = bloomSize
  bits : ∀ p, getBit bloom p = true ↔
    ∃ key, (storedVersion cfg s key).isSome ∧ place hash key = p
  versions : ∀ key, vv.lookup key = advertised cfg s key

theorem storedVersion_of_advertised (h : advertised cfg s key = some v) :
    storedVersion cfg s key = some v :=
  storedVersion_of_readVersion (readVersion_of_advertised h)

theorem digestOf_digest (hash : GoString → UInt64) (hs : NoExpiry s) (hlinked : Linked cfg s)
    (readings : Readings) :
    DigestOf hash cfg s (digest hash cfg readings s []).bloom
      (digest hash cfg readings s []).vv := by
  have hdigests := digests_digest hash cfg hs readings
  have hkeys : ∀ key, key ∈ (s.keys cfg readings.listed).2 ↔ (storedVersion cfg s key).isSome :=
    fun key => mem_keys_iff hs hlinked
  refine ⟨?_, fun p => ?_, fun key => ?_⟩
  · rw [hdigests.length]
    rfl
  · simp only [hdigests.bits, hkeys]
  · rw [hdigests.versions]
    split
    · rfl
    · rename_i hmem
      cases hadvertised : advertised cfg s key with
      | none => rfl
      | some v =>
        have hstored := storedVersion_of_advertised hadvertised
        exact absurd ((hkeys key).mpr (hstored ▸ rfl)) hmem

/-! ### Sync -/

/-- The rule of `Sync` for a stored key that both filters have, by what is read and what the
    other side advertises. -/
def Differs : Option Int64 → Option Int64 → Prop
  | some version, some remoteVersion => version < remoteVersion
  | some _, none | none, some _ => True
  | none, none => False

/-- A loop that reads in a store and collects keys. -/
theorem foldl_collects {f : MemStorage × List GoString → GoString → MemStorage × List GoString}
    {P : GoString → Prop} (keys : List GoString)
    (hf : ∀ out, ∀ key ∈ keys, SameData s out.1 → SameData s (f out key).1 ∧
      ∀ k, k ∈ (f out key).2 ↔ k ∈ out.2 ∨ k = key ∧ P key) (hout : SameData s out.1) :
    SameData s (keys.foldl f out).1 ∧
      ∀ k, k ∈ (keys.foldl f out).2 ↔ k ∈ out.2 ∨ k ∈ keys ∧ P k := by
  induction keys generalizing out with
  | nil => exact ⟨hout, fun k => by simp⟩
  | cons key keys ih =>
    obtain ⟨hdata, hmem⟩ := hf out key mem_cons_self hout
    obtain ⟨hdata', hmem'⟩ := ih (fun out k hk => hf out k (mem_cons_of_mem _ hk)) hdata
    refine ⟨hdata', fun k => ?_⟩
    rw [foldl_cons, hmem', hmem, mem_cons, or_assoc, or_and_right]
    refine or_congr_right (or_congr_left ?_)
    exact ⟨fun ⟨heq, hP⟩ => ⟨heq, heq ▸ hP⟩, fun ⟨heq, hP⟩ => ⟨heq, heq ▸ hP⟩⟩

/-- Collecting a key or not. -/
theorem mem_ite_append {P : Prop} [Decidable P] (k : GoString) :
    (k ∈ if P then keys ++ [key] else keys) ↔ k ∈ keys ∨ k = key ∧ P := by
  split <;> simp_all

theorem syncKey_spec (hs : NoExpiry s) {localBloom : Bytes} (vv : GoMap Int64)
    (now : GoString → Time) (hlength : bloom.length * 8 = bloomSize)
    (hlocal : getBit localBloom (place hash key) = true) (hout : SameData s out.1) :
    SameData s (syncKey hash cfg now bloom localBloom vv out key).1 ∧
      ∀ k, k ∈ (syncKey hash cfg now bloom localBloom vv out key).2 ↔
        k ∈ out.2 ∨ k = key ∧ (getBit bloom (place hash key) = false ∨
          Differs (readVersion cfg s key) (vv.lookup key)) := by
  have hplace : (hash key).toNat % (bloom.length * 8) = place hash key := by rw [hlength, place]
  unfold syncKey
  simp only [hplace, hlocal]
  rw [if_neg (by rw [hlength]; decide)]
  by_cases hhas : getBit bloom (place hash key) = true
  · rw [if_neg (not_not.mpr hhas)]
    obtain ⟨store, hstore, ⟨item, hget, hread⟩ | ⟨err, hget, hread⟩⟩ :=
      hs.get_cases hout cfg (now key) key
    · simp only [hget, hread, hhas]
      cases hremote : vv.lookup key with
      | none => exact ⟨hstore, fun k => by simp [Differs]⟩
      | some remoteVersion =>
        refine ⟨hstore, fun k => ?_⟩
        rw [mem_ite_append]
        simp [Differs]
    · simp only [hget, hread, hhas]
      refine ⟨hstore, fun k => ?_⟩
      rw [mem_ite_append]
      cases hremote : vv.lookup key with
      | none => simp [Differs]
      | some remoteVersion => simp [Differs]
  · rw [if_pos hhas]
    exact ⟨hout, fun k => by simp [hhas]⟩

theorem syncRemote_spec (hs : NoExpiry s) (cfg : StoreConfig) (now : GoString → Time)
    (key : GoString) (hout : SameData s out.1) :
    SameData s (syncRemote cfg now out key).1 ∧
      ∀ k, k ∈ (syncRemote cfg now out key).2 ↔
        k ∈ out.2 ∨ k = key ∧ readVersion cfg s key = none := by
  unfold syncRemote
  obtain ⟨store, hstore, ⟨item, hget, hread⟩ | ⟨err, hget, hread⟩⟩ :=
    hs.get_cases hout cfg (now key) key
  all_goals
    rw [hget, hread]
    exact ⟨hstore, fun k => by simp⟩

/-- The keys `Sync` returns for a filter and a version vector. -/
def Found (hash : GoString → UInt64) (cfg : StoreConfig) (s : MemStorage) (bloom : Bytes)
    (vv : GoMap Int64) (key : GoString) : Prop :=
  (storedVersion cfg s key).isSome ∧ (getBit bloom (place hash key) = false ∨
      Differs (readVersion cfg s key) (vv.lookup key)) ∨
    (vv.lookup key).isSome ∧ readVersion cfg s key = none

theorem mem_sync_iff (hs : NoExpiry s) (hlinked : Linked cfg s) (readings : SyncReadings)
    (hlength : bloom.length * 8 = bloomSize) (k : GoString) :
    k ∈ (sync hash cfg readings s bloom vv).2 ↔ Found hash cfg s bloom vv k := by
  have hkeys : ∀ key, key ∈ (s.keys cfg readings.keys).2 ↔ (storedVersion cfg s key).isSome :=
    fun key => mem_keys_iff hs hlinked
  have hown := digestOf_digest hash hs hlinked readings.digest
  have hstart : SameData s ((digest hash cfg readings.digest s []).store, ([] : List GoString)).1 :=
    (digests_digest hash cfg hs readings.digest).data
  obtain ⟨hheld, hmem⟩ := foldl_collects (s.keys cfg readings.keys).2
    (fun out key hkey hout => syncKey_spec hs vv readings.held hlength
      ((hown.bits _).mpr ⟨key, (hkeys key).mp hkey, rfl⟩) hout) hstart
  obtain ⟨-, hmem'⟩ := foldl_collects vv.keys
    (fun out key _ hout => syncRemote_spec hs cfg readings.remote key hout) hheld
  have hsync : sync hash cfg readings s bloom vv = vv.keys.foldl
      (syncRemote cfg readings.remote) ((s.keys cfg readings.keys).2.foldl
        (syncKey hash cfg readings.held bloom (digest hash cfg readings.digest s []).bloom vv)
        ((digest hash cfg readings.digest s []).store, [])) := by
    rw [sync, hs.keys_eq]
  rw [hsync, hmem', hmem, hkeys, Found, AList.lookup_isSome]
  simp [AList.mem_keys]

/-! ### What is found -/

/-- The other store has the key, and this one lacks it or has a lower version. -/
def Behind (cfg : StoreConfig) (s : MemStorage) (cfg' : StoreConfig) (s' : MemStorage)
    (key : GoString) : Prop :=
  ∃ v, storedVersion cfg' s' key = some v ∧ ∀ w, storedVersion cfg s key = some w → w < v

/-- Both stores have the same keys in the same versions. -/
def SameVersions (cfg : StoreConfig) (s : MemStorage) (cfg' : StoreConfig) (s' : MemStorage) :
    Prop :=
  ∀ key, storedVersion cfg s key = storedVersion cfg' s' key

/-- What anti-entropy is for: the keys that are behind are found, and nothing is found where
    nothing differs. -/
structure FindsDifferences (cfg : StoreConfig) (s : MemStorage) (cfg' : StoreConfig)
    (s' : MemStorage) (diffKeys : List GoString) : Prop where
  complete : ∀ key, Behind cfg s cfg' s' key → key ∈ diffKeys
  quiet : SameVersions cfg s cfg' s' → diffKeys = []

/-- The version vector tells enough: a key that is behind and cannot be read here is
    advertised, and of equal stores the one advertises what the other can read. -/
structure VersionsTell (cfg : StoreConfig) (s : MemStorage) (cfg' : StoreConfig)
    (s' : MemStorage) : Prop where
  behind : ∀ key, Behind cfg s cfg' s' key → readVersion cfg s key = none →
    (advertised cfg' s' key).isSome
  same : SameVersions cfg s cfg' s' →
    ∀ key, (readVersion cfg s key).isSome ↔ (advertised cfg' s' key).isSome

/-- `Sync` at the store, given the digest of the other one. -/
def syncWith (hash : GoString → UInt64) (cfg : StoreConfig) (readings : SyncReadings)
    (s : MemStorage) (cfg' : StoreConfig) (readings' : Readings) (s' : MemStorage) :
    List GoString :=
  let digest := digest hash cfg' readings' s' []
  (sync hash cfg readings s digest.bloom digest.vv).2

section

variable {cfg' : StoreConfig} {s' : MemStorage} {bloom : Bytes} {vv : GoMap Int64}
  {diffKeys : List GoString}

/-- A key the other side has is in its filter. -/
theorem DigestOf.getBit_of_stored (h : DigestOf hash cfg' s' bloom vv) {v : Int64}
    (hstored : storedVersion cfg' s' key = some v) : getBit bloom (place hash key) = true :=
  (h.bits _).mpr ⟨key, hstored ▸ rfl, rfl⟩

/-- Where the other side has the key, the filter has nothing to add. -/
theorem DigestOf.found_iff_of_stored (h : DigestOf hash cfg' s' bloom vv) {v : Int64}
    (hstored : storedVersion cfg' s' key = some v) :
    Found hash cfg s bloom vv key ↔
      Differs (readVersion cfg s key) (advertised cfg' s' key) := by
  rw [Found, h.getBit_of_stored hstored, h.versions]
  cases hread : readVersion cfg s key with
  | some w =>
    rw [storedVersion_of_readVersion hread]
    simp
  | none => cases advertised cfg' s' key <;> simp [Differs]

/-- Where the store is behind and cannot read the key, all depends on the version vector. -/
theorem DigestOf.found_iff_of_behind (h : DigestOf hash cfg' s' bloom vv)
    (hbehind : Behind cfg s cfg' s' key) :
    Found hash cfg s bloom vv key ↔
      (readVersion cfg s key = none → (advertised cfg' s' key).isSome) := by
  obtain ⟨v, hstored, hlower⟩ := hbehind
  rw [h.found_iff_of_stored hstored]
  cases hread : readVersion cfg s key with
  | none => cases advertised cfg' s' key <;> simp [Differs]
  | some w =>
    refine iff_of_true ?_ nofun
    cases hadvertised : advertised cfg' s' key with
    | none => trivial
    | some v' =>
      cases hstored.symm.trans (storedVersion_of_advertised hadvertised)
      exact hlower w (storedVersion_of_readVersion hread)

/-- Where the stores agree, a key is not found if the one advertises what the other reads. -/
theorem DigestOf.not_found_iff_of_same (h : DigestOf hash cfg' s' bloom vv)
    (hversions : SameVersions cfg s cfg' s') (key : GoString) :
    ¬ Found hash cfg s bloom vv key ↔
      ((readVersion cfg s key).isSome ↔ (advertised cfg' s' key).isSome) := by
  cases hstored : storedVersion cfg' s' key with
  | none =>
    -- Neither side has the key.
    have hown := (hversions key).trans hstored
    have hread : readVersion cfg s key = none :=
      Option.eq_none_iff_forall_ne_some.mpr fun w hw => by
        cases hown.symm.trans (storedVersion_of_readVersion hw)
    have hadvertised : advertised cfg' s' key = none :=
      Option.eq_none_iff_forall_ne_some.mpr fun v hv => by
        cases hstored.symm.trans (storedVersion_of_advertised hv)
    simp [Found, hown, h.versions, hread, hadvertised]
  | some v =>
    rw [h.found_iff_of_stored hstored]
    cases hread : readVersion cfg s key with
    | none => cases advertised cfg' s' key <;> simp [Differs]
    | some w =>
      cases hadvertised : advertised cfg' s' key with
      | none => simp [Differs]
      | some v' =>
        -- Both are the version the stores have in common.
        have hown := (storedVersion_of_readVersion hread).symm.trans (hversions key)
        cases hown.trans (storedVersion_of_advertised hadvertised)
        simp [Differs]

theorem findsDifferences_iff_of_linked (hs : NoExpiry s) (hs' : NoExpiry s')
    (hlinked : Linked cfg s) (hlinked' : Linked cfg' s') (readings : SyncReadings)
    (readings' : Readings) :
    FindsDifferences cfg s cfg' s' (syncWith hash cfg readings s cfg' readings' s') ↔
      VersionsTell cfg s cfg' s' := by
  have hdigest := digestOf_digest hash hs' hlinked' readings'
  have hmem : ∀ key, key ∈ syncWith hash cfg readings s cfg' readings' s' ↔
      Found hash cfg s _ _ key := mem_sync_iff hs hlinked readings hdigest.length
  have hcomplete : (∀ key, Behind cfg s cfg' s' key →
      key ∈ syncWith hash cfg readings s cfg' readings' s') ↔
      ∀ key, Behind cfg s cfg' s' key → readVersion cfg s key = none →
        (advertised cfg' s' key).isSome :=
    forall₂_congr fun key hbehind => (hmem key).trans (hdigest.found_iff_of_behind hbehind)
  have hquiet : (SameVersions cfg s cfg' s' →
      syncWith hash cfg readings s cfg' readings' s' = []) ↔ (SameVersions cfg s cfg' s' →
      ∀ key, (readVersion cfg s key).isSome ↔ (advertised cfg' s' key).isSome) := by
    refine forall_congr' fun hversions => ?_
    rw [eq_nil_iff_forall_not_mem]
    exact forall_congr' fun key =>
      (not_congr (hmem key)).trans (hdigest.not_found_iff_of_same hversions key)
  exact ⟨fun h => ⟨hcomplete.mp h.complete, hquiet.mp h.quiet⟩,
    fun h => ⟨hcomplete.mpr h.behind, hquiet.mpr h.same⟩⟩

end

/-- **Anti-entropy finds what differs, if the versions are above zero.**  Take any two stores
    without expiry and any hash function.  `Sync` at the one, given the digest of the other,
    finds all keys that are behind, and none where the stores agree, exactly if the version
    vector tells enough of the other store. -/
theorem findsDifferences_iff (hash : GoString → UInt64) (cfg cfg' : StoreConfig)
    (calls calls' : List StoreCall) (readings : SyncReadings) (readings' : Readings)
    (hs : NoExpiry (reached cfg calls)) (hs' : NoExpiry (reached cfg' calls')) :
    FindsDifferences cfg (reached cfg calls) cfg' (reached cfg' calls')
        (syncWith hash cfg readings (reached cfg calls) cfg' readings' (reached cfg' calls')) ↔
      VersionsTell cfg (reached cfg calls) cfg' (reached cfg' calls') :=
  findsDifferences_iff_of_linked hs hs' (linked_reached cfg calls) (linked_reached cfg' calls')
    readings readings'

/-! ### One key -/

/-- A store without a memory limit, whose values are all short. -/
def plainStore : StoreConfig := unlimited shortInputLZ4

/-- Time stands still. -/
def still : Readings := ⟨0, fun _ => 0⟩

def stillSync : SyncReadings := ⟨0, still, fun _ => 0, fun _ => 0⟩

/-- A store with one item that does not expire. -/
def oneSet (v : Int64) : List StoreCall := [.set (ascii "k") (some (plainItem v "x"))]

theorem entry_oneSet :
    entry plainStore (reached plainStore (oneSet v)) key =
      if key = ascii "k" then some (prepareCompressedItem plainStore (plainItem v "x"))
      else none := by
  have hstores : setStores plainStore .empty (ascii "k") (plainItem v "x") := by
    simp only [setStores, decide_eq_true_eq]
    exact ⟨by decide, rfl, rfl⟩
  exact (set_of_setStores hstores).2.entry_eq key

theorem storedVersion_oneSet (v : Int64) :
    storedVersion plainStore (reached plainStore (oneSet v)) key =
      if key = ascii "k" then some v else none := by
  rw [storedVersion, entry_oneSet]
  split <;> rfl

theorem readVersion_oneSet :
    readVersion plainStore (reached plainStore (oneSet v)) key =
      if key = ascii "k" then some v else none := by
  rw [readVersion, answer, entry_oneSet]
  by_cases hkey : key = ascii "k"
  · rw [hkey]
    rfl
  · simp [hkey]

theorem noExpiry_oneSet (v : Int64) : NoExpiry (reached plainStore (oneSet v)) := by
  intro i k e he
  have hlinked := linked_reached plainStore (oneSet v)
  have hentry : entry plainStore (reached plainStore (oneSet v)) k = some e := by
    rw [entry, hlinked.placed i k (hlinked.listed i k e he)]
    exact he
  rw [entry_oneSet] at hentry
  split at hentry <;> cases hentry
  rfl

theorem noExpiry_nothing : NoExpiry (reached plainStore []) := fun _ _ _ he => by cases he

/-- A key at version 1 is found where it is missing. -/
theorem version_one_found :
    FindsDifferences plainStore (reached plainStore []) plainStore (reached plainStore (oneSet 1))
      (syncWith (fun _ => 0) plainStore stillSync (reached plainStore []) plainStore still
        (reached plainStore (oneSet 1))) := by
  refine (findsDifferences_iff (fun _ => 0) plainStore plainStore [] (oneSet 1) stillSync still
    noExpiry_nothing (noExpiry_oneSet 1)).mpr ⟨?_, ?_⟩
  · rintro key ⟨v, hstored, -⟩ -
    rw [storedVersion_oneSet] at hstored
    split at hstored
    · rename_i hkey
      rw [advertised, readVersion_oneSet, if_pos hkey]
      rfl
    · cases hstored
  · intro hversions
    have hkey := hversions (ascii "k")
    rw [storedVersion_oneSet] at hkey
    cases hkey

/-- A key at version 0 is not found where it is missing, and found where it is not. -/
theorem version_zero_missed :
    ¬ FindsDifferences plainStore (reached plainStore []) plainStore
        (reached plainStore (oneSet 0))
        (syncWith (fun _ => 0) plainStore stillSync (reached plainStore []) plainStore still
          (reached plainStore (oneSet 0))) ∧
      ¬ FindsDifferences plainStore (reached plainStore (oneSet 0)) plainStore
        (reached plainStore (oneSet 0))
        (syncWith (fun _ => 0) plainStore stillSync (reached plainStore (oneSet 0)) plainStore
          still (reached plainStore (oneSet 0))) := by
  have hadvertised :
      advertised plainStore (reached plainStore (oneSet 0)) (ascii "k") = none := by
    rw [advertised, readVersion_oneSet]
    rfl
  have hlinked := linked_reached plainStore
  constructor
  · rw [findsDifferences_iff_of_linked noExpiry_nothing (noExpiry_oneSet 0) (hlinked _)
      (hlinked _)]
    intro htell
    have htold := htell.behind (ascii "k")
      ⟨0, storedVersion_oneSet 0, fun w hw => by cases hw⟩ rfl
    rw [hadvertised] at htold
    cases htold
  · rw [findsDifferences_iff_of_linked (noExpiry_oneSet 0) (noExpiry_oneSet 0) (hlinked _)
      (hlinked _)]
    intro htell
    have htold := htell.same (fun _ => rfl) (ascii "k")
    rw [hadvertised, readVersion_oneSet] at htold
    cases htold.mp rfl

end AntiEntropy

end GridKV
