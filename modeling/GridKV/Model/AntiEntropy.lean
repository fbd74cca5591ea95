import GridKV.ForStd.BitArray
import GridKV.Model.Gossip

/-!
# Digests of a store

Translation of `Digest`, `Sync` and `doAntiEntropy` in `internal/cluster/entropy.go`.  A
digest is a Bloom filter of the keys of a store, one bit for each, and a map from keys to
versions.  `Sync` compares the store with a digest and returns the keys that may differ.
-/

namespace GridKV

open Go BitArray

namespace AntiEntropy

/-- What is read from the clock when the keys are listed, and when each of them is looked up. -/
structure Readings where
  listed : Time
  lookup : GoString → Time

/-- `bloomSize` in `Digest`: a filter of one kilobyte. -/
def bloomSize : Nat := 1024 * 8

def getKeysInRange (cfg : StoreConfig) (now : Time) (s : MemStorage) (rangeKey : GoString) :
    MemStorage × List GoString :=
  let (s, allKeys) := s.keys cfg now
  if rangeKey = [] then (s, allKeys)
  else
    (s, allKeys.filter fun key =>
      key.length ≥ rangeKey.length ∧ key.take rangeKey.length = rangeKey)

/-- The store, the filter and the version vector while `Digest` goes through the keys. -/
structure DigestState where
  store : MemStorage
  bloom : Bytes
  vv : GoMap Int64

/-- The body of the loop of `Digest`; `hash` is the high half of `xxh3.HashString128`. -/
def digestKey (hash : GoString → UInt64) (cfg : StoreConfig) (now : GoString → Time)
    (d : DigestState) (key : GoString) : DigestState :=
  let bloom := setBit d.bloom ((hash key).toNat % bloomSize)
  match d.store.get cfg (now key) key with
  | (store, .ok item) =>
    -- A key that is not in the map reads as version 0.
    if item.version > (d.vv.lookup key).getD 0 then
      { store, bloom, vv := d.vv.insert key item.version }
    else { store, bloom, vv := d.vv }
  | (store, .error _) => { store, bloom, vv := d.vv }

def digest (hash : GoString → UInt64) (cfg : StoreConfig) (readings : Readings) (s : MemStorage)
    (rangeKey : GoString) : DigestState :=
  let (store, keys) := getKeysInRange cfg readings.listed s rangeKey
  keys.foldl (digestKey hash cfg readings.lookup)
    { store, bloom := List.replicate (bloomSize / 8) 0, vv := ∅ }

/-- The body of the loop of `Sync` over the keys of the store. -/
def syncKey (hash : GoString → UInt64) (cfg : StoreConfig) (now : GoString → Time)
    (bloom localBloom : Bytes) (vv : GoMap Int64) (out : MemStorage × List GoString)
    (key : GoString) : MemStorage × List GoString :=
  let (s, diffKeys) := out
  let bloomSize := bloom.length * 8
  if bloomSize = 0 then (s, diffKeys ++ [key])
  else
    let hasKey := getBit bloom ((hash key).toNat % bloomSize)
    let localHasKey := getBit localBloom ((hash key).toNat % bloomSize)
    if hasKey ≠ localHasKey then (s, diffKeys ++ [key])
    else
      match s.get cfg (now key) key with
      | (s, .ok item) =>
        match vv.lookup key with
        | some remoteVersion =>
          (s, if item.version < remoteVersion then diffKeys ++ [key] else diffKeys)
        -- Maybe a false positive of the filter; it is included for safety.
        | none => (s, if hasKey then diffKeys ++ [key] else diffKeys)
      | (s, .error _) =>
        (s, if (vv.lookup key).isSome then diffKeys ++ [key] else diffKeys)

/-- The body of the loop of `Sync` over the version vector. -/
def syncRemote (cfg : StoreConfig) (now : GoString → Time) (out : MemStorage × List GoString)
    (key : GoString) : MemStorage × List GoString :=
  match out.1.get cfg (now key) key with
  | (s, .ok _) => (s, out.2)
  | (s, .error _) => (s, out.2 ++ [key])

/-- What `Sync` reads from the clock, in its own digest and in its two loops. -/
structure SyncReadings where
  keys : Time
  digest : Readings
  held : GoString → Time
  remote : GoString → Time

/-- `Sync`, which never fails. -/
def sync (hash : GoString → UInt64) (cfg : StoreConfig) (readings : SyncReadings)
    (s : MemStorage) (bloom : Bytes) (vv : GoMap Int64) : MemStorage × List GoString :=
  let (s, allKeys) := s.keys cfg readings.keys
  let own := digest hash cfg readings.digest s []
  let out := allKeys.foldl (syncKey hash cfg readings.held bloom own.bloom vv) (own.store, [])
  vv.keys.foldl (syncRemote cfg readings.remote) out

/-- `doAntiEntropy` at the time `now`: what it leaves of the store, and what it sends.  The
    digest it compares the store with is that of the store. -/
def doAntiEntropy (hash : GoString → UInt64) (cfg : StoreConfig) (readings : Readings)
    (syncReadings : SyncReadings) (clock : Nat → Time) (now : Int64) (members : List NodeInfo)
    (s : MemStorage) : MemStorage × List SyncMessage :=
  let aliveMembers := (members.filter fun m =>
    m.state = NodeState.alive ∧ m.address ≠ []).map (·.address)
  match aliveMembers[(now.toInt.tmod aliveMembers.length).natAbs]? with
  -- The index is in range unless there is no member.
  | none => (s, [])
  | some target =>
    let own := digest hash cfg readings s []
    let (s, diffKeys) := sync hash cfg syncReadings own.store own.bloom ∅
    if diffKeys = [] then (s, []) else Gossip.pull cfg clock s target

end AntiEntropy

end GridKV
