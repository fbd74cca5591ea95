import GridKV.Spec.AntiEntropy
import GridKV.Spec.WriteAmplification

/-!
# A round of anti-entropy

`doAntiEntropy` is meant to fetch what the node lacks.  But it compares the store with the
filter of the same store and with an empty version vector, so every key that can be read
counts as different; and `Pull` sends what is pending in the sync buffers.  So a round does
not depend on what other nodes hold (`antiEntropy_sends_iff`), and since the members include
the node itself, it need not even have another node to send to.
-/

namespace GridKV

open Go BitArray List MemStorage

namespace AntiEntropy

variable (hash : GoString → UInt64) (cfg : StoreConfig) (s : MemStorage) (bloom : Bytes)
  (vv : GoMap Int64)

/-- A walk over the store that stores nothing and queues nothing. -/
abbrev Looks : MemStorage → MemStorage → Prop := Path cfg fun _ a => a.removes

theorem looks_get (now : Time) (key : GoString) : Looks cfg s (s.get cfg now key).1 :=
  (path_getNoCopy (fun _ _ => rfl) now s key fun _ _ _ => rfl).1

theorem looks_keys (now : Time) : Looks cfg s (s.keys cfg now).1 :=
  path_keys now s fun _ _ _ _ _ _ _ => rfl

theorem looks_digest (readings : Readings) :
    Looks cfg s (digest hash cfg readings s []).store := by
  refine foldlRecOn (motive := fun d : DigestState => Looks cfg s d.store) _ _
    (looks_keys cfg s readings.listed) fun d hd key _ => ?_
  have hget := hd.trans (looks_get cfg d.store (readings.lookup key) key)
  unfold digestKey
  grind

theorem looks_sync (readings : SyncReadings) :
    Looks cfg s (sync hash cfg readings s bloom vv).1 := by
  have hown := (looks_keys cfg s readings.keys).trans (looks_digest hash cfg _ readings.digest)
  -- The loop over the own keys, then the one over the keys of the version vector.
  refine foldlRecOn (motive := fun out : _ × List GoString => Looks cfg s out.1) _ _
    (foldlRecOn (motive := fun out : _ × List GoString => Looks cfg s out.1) _ _ hown ?_) ?_
  · intro out hout key _
    have hget := hout.trans (looks_get cfg out.1 (readings.held key) key)
    unfold syncKey
    grind
  · intro out hout key _
    have hget := hout.trans (looks_get cfg out.1 (readings.remote key) key)
    unfold syncRemote
    grind

variable {hash cfg s}

/-- Compared with its own filter and no versions, a store differs in all keys it can read. -/
theorem mem_sync_own_iff (hs : NoExpiry s) (hlinked : Linked cfg s) (readings : Readings)
    (syncReadings : SyncReadings) (key : GoString) :
    key ∈ (sync hash cfg syncReadings (digest hash cfg readings s []).store
        (digest hash cfg readings s []).bloom ∅).2 ↔ (readVersion cfg s key).isSome := by
  have hdata := (digests_digest hash cfg hs readings).data
  have hdigest := digestOf_digest hash hs hlinked readings
  rw [mem_sync_iff (hdata.noExpiry hs) (hlinked.of_path (looks_digest ..)) _ hdigest.length,
    Found, hdata.readVersion_eq, AList.lookup_empty]
  have hstored : storedVersion cfg (digest hash cfg readings s []).store key =
      storedVersion cfg s key := by
    rw [storedVersion, storedVersion, entry, entry, hdata]
  rw [hstored]
  cases hread : readVersion cfg s key with
  | some v => simp [storedVersion_of_readVersion hread, Differs]
  | none =>
    cases hversion : storedVersion cfg s key with
    | none => simp
    | some v => simp [hdigest.getBit_of_stored hversion, Differs]

/-- The position `doAntiEntropy` picks is in range. -/
theorem getElem?_tmod_eq_none_iff {α : Type*} (l : List α) (n : Int) :
    l[(n.tmod l.length).natAbs]? = none ↔ l = [] := by
  rw [getElem?_eq_none_iff, Int.natAbs_tmod, Int.natAbs_natCast]
  refine ⟨fun h => length_eq_zero_iff.mp ?_, fun h => by simp [h]⟩
  by_contra hne
  exact absurd (Nat.mod_lt n.natAbs (Nat.pos_of_ne_zero hne)) (Nat.not_lt.mpr h)

/-- `Pull` sends what is pending, in one message, or nothing. -/
theorem pull_sends (cfg : StoreConfig) (clock : Nat → Time) (s : MemStorage) (target : GoString) :
    ((Gossip.pull cfg clock s target).2 ≠ [] ↔ pendingOps cfg s ≠ []) ∧
    ∀ m ∈ (Gossip.pull cfg clock s target).2,
      m.ops.map (·.stamp) = (pendingOps cfg s).map (·.stamp) := by
  have hstamps : _ = (pendingOps cfg s).map (·.stamp) := map_stamp_getSyncBuffer clock
  have hempty : (s.getSyncBuffer cfg clock).2 = [] ↔ pendingOps cfg s = [] := by
    rw [← map_eq_nil_iff, hstamps, map_eq_nil_iff]
  unfold Gossip.pull
  dsimp only
  split
  · rename_i hnone
    simp [hempty.mp hnone]
  · rename_i hsome
    simpa [← hempty, hsome] using hstamps

/-- **A round of anti-entropy.**  In every state of a store without expiry, a round sends a
    message if and only if some member is alive, the node can read some key of its own, and
    operations are pending; and it sends those, whatever the nodes differ in. -/
theorem antiEntropy_sends_iff (hash : GoString → UInt64) (cfg : StoreConfig)
    (calls : List StoreCall) (readings : Readings) (syncReadings : SyncReadings)
    (clock : Nat → Time) (now : Int64) (members : List NodeInfo)
    (hs : NoExpiry (reached cfg calls)) :
    let sent := (doAntiEntropy hash cfg readings syncReadings clock now members
      (reached cfg calls)).2
    (sent ≠ [] ↔ (∃ m ∈ members, m.state = NodeState.alive ∧ m.address ≠ []) ∧
      (∃ key, (readVersion cfg (reached cfg calls) key).isSome) ∧
      pendingOps cfg (reached cfg calls) ≠ []) ∧
    ∀ m ∈ sent, m.ops.map (·.stamp) = (pendingOps cfg (reached cfg calls)).map (·.stamp) := by
  set s := reached cfg calls
  have hlooks := (looks_digest hash cfg s readings).trans
    (looks_sync hash cfg _ (digest hash cfg readings s []).bloom ∅ syncReadings)
  have hpending := (removes_of_path hlooks).pendingOps_eq
  have hdiff : ∀ key, key ∈ (sync hash cfg syncReadings _ _ ∅).2 ↔ _ :=
    mem_sync_own_iff hs (linked_reached cfg calls) readings syncReadings
  have halive : (members.filter fun m => m.state = NodeState.alive ∧ m.address ≠ []).map
      (·.address) = [] ↔ ¬ ∃ m ∈ members, m.state = NodeState.alive ∧ m.address ≠ [] := by
    simp
  unfold doAntiEntropy
  dsimp only
  split
  · rename_i hnone
    have hdead := halive.mp ((getElem?_tmod_eq_none_iff ..).mp hnone)
    exact ⟨⟨fun h => absurd rfl h, fun h => absurd h.1 hdead⟩, fun _ h => absurd h not_mem_nil⟩
  · rename_i target hsome
    have hlive := halive.not_left.mp fun hnil =>
      Option.some_ne_none _ (hsome.symm.trans ((getElem?_tmod_eq_none_iff ..).mpr hnil))
    split
    · rename_i hsame
      refine ⟨⟨fun h => absurd rfl h, ?_⟩, fun _ h => absurd h not_mem_nil⟩
      rintro ⟨-, ⟨key, hread⟩, -⟩
      exact absurd ((hdiff key).mpr hread) (hsame ▸ not_mem_nil)
    · rename_i hdiffers
      obtain ⟨key, hkey⟩ := exists_mem_of_ne_nil _ hdiffers
      rw [← hpending]
      refine ⟨(pull_sends ..).1.trans ⟨fun h => ?_, fun h => h.2.2⟩, (pull_sends ..).2⟩
      exact ⟨hlive, ⟨key, (hdiff key).mp hkey⟩, h⟩

/-- A node that is the only member sends what it has just stored, to itself. -/
theorem antiEntropy_sends_alone :
    (doAntiEntropy (fun _ => 0) plainStore still stillSync (fun _ => 0) 0
      [⟨ascii "n", ascii "a", .alive, 0, 0⟩] (reached plainStore (oneSet 1))).2 ≠ [] := by
  refine (antiEntropy_sends_iff (fun _ => 0) plainStore (oneSet 1) still stillSync (fun _ => 0) 0
    [⟨ascii "n", ascii "a", .alive, 0, 0⟩] (noExpiry_oneSet 1)).1.mpr ⟨?_, ?_, ?_⟩
  · exact ⟨_, mem_singleton_self _, rfl, by decide⟩
  · exact ⟨ascii "k", by rw [readVersion_oneSet]; rfl⟩
  · decide

end AntiEntropy

end GridKV
