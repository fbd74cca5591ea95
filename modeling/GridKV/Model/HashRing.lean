import GridKV.ForStd.Go

/-!
# The consistent-hash ring

Translation of `internal/cluster/hashring.go`.  Readers see one immutable ring at a time;
`Update` sorts it by hash before publishing it, so a ring carries that fact.
-/

namespace GridKV

open Go

/-- `ringNode` -/
structure RingNode where
  hash : UInt64
  nodeID : GoString
  deriving DecidableEq, Repr

/-- `ringData`, with the hash function of the keys. -/
structure HashRing where
  /-- The high half of `xxh3.HashString128`. -/
  hashHi : GoString → UInt64
  nodes : List RingNode
  sorted : nodes.Pairwise fun a b => a.hash ≤ b.hash

namespace HashRing

/-- `findNode`: the first node at or after the hash, wrapping around.  On sorted nodes
    `sort.Search` returns the first index that satisfies the predicate, or the length. -/
def findNode (ring : HashRing) (hash : UInt64) : Nat :=
  let idx := ring.nodes.findIdx fun node => node.hash ≥ hash
  if idx ≥ ring.nodes.length then 0 else idx

/-- `Get`: the owner of the key, or the empty string on an empty ring. -/
def get (ring : HashRing) (key : GoString) : GoString :=
  if ring.nodes = [] then []
  else ((ring.nodes[ring.findNode (ring.hashHi key)]?).map (·.nodeID)).getD []

/-- The IDs on a full walk around the ring that starts at `idx`. -/
def walk (ring : HashRing) (idx : Nat) : List GoString :=
  (List.range ring.nodes.length).filterMap fun i =>
    (ring.nodes[(idx + i) % ring.nodes.length]?).map (·.nodeID)

/-- The loop of `GetN`: collect IDs not seen before until there are `n`. -/
def collect (n : Nat) : List GoString → List GoString → List GoString
  | result, [] => result
  | result, nodeID :: rest =>
    if result.length < n then
      if nodeID ∈ result then collect n result rest else collect n (result ++ [nodeID]) rest
    else result

/-- `GetN` -/
def getN (ring : HashRing) (key : GoString) (n : Int) : List GoString :=
  if ring.nodes = [] ∨ n ≤ 0 then []
  else collect n.toNat [] (ring.walk (ring.findNode (ring.hashHi key)))

/-- The IDs on the ring. -/
def nodeIDs (ring : HashRing) : List GoString := ring.nodes.map (·.nodeID)

end HashRing

/-! ### Updates -/

/-- What a ring is made with.  `sort.Slice` is not stable: which of the sorted
    permutations it returns is left open. -/
structure RingConfig where
  hashHi : GoString → UInt64
  /-- The argument of `newHashRing`. -/
  configured : Int
  sort : List RingNode → List RingNode
  sort_perm : ∀ nodes, (sort nodes).Perm nodes
  sort_sorted : ∀ nodes, (sort nodes).Pairwise fun a b => a.hash ≤ b.hash

/-- `hashRing`: the version and the ring it belongs to. -/
structure VersionedRing where
  version : Int64
  data : HashRing

/-- `string(rune(i))`: the UTF-8 form of the code point, or of U+FFFD when `i` is not
    one. -/
def runeString (i : Nat) : GoString :=
  let r := i % 2 ^ 32
  if r.isValidChar then String.utf8EncodeChar (Char.ofNat r) else [0xEF, 0xBF, 0xBD]

namespace RingConfig

/-- `virtualNodes`, with the default of `newHashRing`. -/
def virtualNodes (cfg : RingConfig) : Nat :=
  if cfg.configured ≤ 0 then 128 else cfg.configured.toNat

theorem virtualNodes_pos (cfg : RingConfig) : 0 < cfg.virtualNodes := by
  unfold virtualNodes
  split <;> omega

/-- The virtual nodes of a node. -/
def vnodes (cfg : RingConfig) (nodeID : GoString) : List RingNode :=
  (List.range cfg.virtualNodes).map fun i =>
    { hash := cfg.hashHi (nodeID ++ [58] ++ runeString i), nodeID }

/-- The ring of the given nodes. -/
def build (cfg : RingConfig) (nodeIDs : List GoString) : HashRing where
  hashHi := cfg.hashHi
  nodes := cfg.sort (nodeIDs.flatMap cfg.vnodes)
  sorted := cfg.sort_sorted _

/-- `newHashRing` -/
def newHashRing (cfg : RingConfig) : VersionedRing where
  version := 0
  data := { hashHi := cfg.hashHi, nodes := [], sorted := .nil }

end RingConfig

/-- `Update`: what it publishes, and what it returns. -/
def VersionedRing.update (cfg : RingConfig) (ring : VersionedRing) (version : Int64)
    (nodeIDs : List GoString) : VersionedRing × Bool :=
  if version ≤ ring.version then (ring, false)
  else if nodeIDs = [] then
    ({ version, data := { hashHi := cfg.hashHi, nodes := [], sorted := .nil } }, true)
  else ({ version, data := cfg.build nodeIDs }, true)

end GridKV
