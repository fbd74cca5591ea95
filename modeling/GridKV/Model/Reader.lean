import GridKV.Model.HashRing
import GridKV.Model.MemStorage

/-!
# The reader

Translation of `reader.Get` in `internal/cluster/reader.go`, for a hot cache that does
not hold the key, and of the remote read it falls back to: the `ReadRequest` handler and
`createGetFunc` in `internal/cluster/cluster.go`; and of `GetWithConsistency` and
`GetSpeculative`.
-/

namespace GridKV

open Go Endian

/-- What a reader is built with. -/
structure ReaderConfig where
  nodeID : GoString
  store : StoreConfig
  ring : HashRing
  replicaCount : Int := 3

namespace Reader

/-- The loop of `Get` over the live replicas: the first answer that is neither a
    tombstone nor empty wins.  `fetch` is `none` for a read that fails or times out, and
    `some none` for a node without the key. -/
def firstLive (fetch : GoString → Option (Option StoredItem)) : List GoString → Option StoredItem
  | [] => none
  | target :: targets =>
    match fetch target with
    | some (some item) =>
      if ¬ item.isTombstone ∧ item.value.length ≠ 0 then some item else firstLive fetch targets
    | _ => firstLive fetch targets

/-- `reader.Get` with nothing in the hot cache: the local copy if there is one, else the
    first replica that answers. -/
def get (cfg : ReaderConfig) (now : Time) (s : MemStorage) (alive : GoString → Bool)
    (fetch : GoString → Option (Option StoredItem)) (key : GoString) :
    MemStorage × Except StoreError (Option StoredItem) :=
  match s.get cfg.store now key with
  | (s, .ok item) => (s, .ok (some item))
  | (s, .error err) =>
    -- Only a key that is missing or has just expired is asked for elsewhere.
    if err ≠ .notFound ∧ err ≠ .expired then (s, .error err)
    else
      let targets := cfg.ring.getN key cfg.replicaCount
      (s, .ok (firstLive fetch
        (targets.filter fun target => target ≠ cfg.nodeID ∧ alive target)))

/-! ### Remote reads -/

/-- The bytes with which the `ReadRequest` handler answers; none for a key that is absent,
    deleted or empty. -/
def encodeReadResponse (item : StoredItem) : Bytes :=
  if item.isTombstone ∨ item.value.length = 0 then []
  else
    let expireAt := if item.expireAt = zeroTime then 0 else unixNano item.expireAt
    leBytes 2 item.key.length ++ (item.key ++ (leBytes 8 item.version.toUInt64.toNat ++ (0 ::
      (leBytes 8 expireAt.toUInt64.toNat ++ (leBytes 4 item.value.length ++ item.value)))))

/-- The `ReadRequest` handler at a node. -/
def handleReadRequest (cfg : StoreConfig) (now : Time) (s : MemStorage) (data : Bytes) :
    MemStorage × Bytes :=
  if data.length = 0 then (s, [])
  else
    match s.get cfg now data with
    | (s, .ok item) => (s, encodeReadResponse item)
    | (s, .error _) => (s, [])

/-- What `createGetFunc` makes of an answer; `none` when it reports a malformed one.  An
    answer too short for the format counts as a bare value, stamped with the clock. -/
def decodeReadResponse (now : Time) (key : GoString) (data : Bytes) : Option (Option StoredItem) :=
  if data.length = 0 then some none
  else if data.length < 2 then none
  else
    let keyLen := leNat (data.take 2)
    if 2 + keyLen + 8 + 1 + 8 + 4 > data.length then
      some (some { version := unixNano now, expireAt := zeroTime, value := data, key })
    else
      let rest := data.drop (2 + keyLen)
      let version := (UInt64.ofNat (leNat (rest.take 8))).toInt64
      let expireAt := (UInt64.ofNat (leNat ((rest.drop 9).take 8))).toInt64
      let valueLen := leNat ((rest.drop 17).take 4)
      let body := rest.drop 21
      if valueLen > body.length then none
      else
        some (some
          { version
            expireAt := if expireAt > 0 then expireAt.toInt else zeroTime
            value := body.take valueLen
            key })

/-- The read of a key at another node, when request and answer arrive as sent; the clocks
    of the two nodes read `remoteNow` and `now`. -/
def remoteGet (cfg : StoreConfig) (remoteNow now : Time) (s : MemStorage) (key : GoString) :
    Option (Option StoredItem) :=
  decodeReadResponse now key (handleReadRequest cfg remoteNow s key).2

end Reader

/-! ### Reads with a consistency level -/

/-- `ConsistencyLevel`; `other` stands for the integers that are none of the constants. -/
inductive ConsistencyLevel where
  | one
  | quorum
  | all
  | other
  deriving DecidableEq, Repr

/-- What a call of `GetWithConsistency` meets. -/
structure ReadEnv where
  cfg : ReaderConfig
  now : Time
  store : MemStorage
  alive : GoString → Bool
  /-- `getFunc`, as for `Reader.get`; a `getFunc` that is nil answers `some none`. -/
  fetch : GoString → Option (Option StoredItem)
  /-- The answers of the executor to `Do`. -/
  accepts : Nat → Bool
  /-- The targets asked whose results arrive before the context is done, in the order they
      arrive in. -/
  order : List GoString → List GoString
  order_subperm : ∀ targets, (order targets).Subperm targets
  /-- What the hot cache holds under the key. -/
  cached : Option StoredItem := none
  hasCache : Bool := true
  hasRepair : Bool := true

/-- The outcome: the local store, what is returned, what goes into the hot cache and what
    is passed to `Repair`. -/
structure ReadOutcome where
  store : MemStorage
  result : Except StoreError (Option StoredItem)
  cacheSet : Option StoredItem := none
  repaired : Option (List StoredItem) := none

namespace ReadEnv

/-- What the task submitted for a target sends back. -/
def answer (env : ReadEnv) (key target : GoString) : Option (Option StoredItem) :=
  if target = env.cfg.nodeID then
    match (env.store.get env.cfg.store env.now key).2 with
    | .ok item => some (some item)
    | .error _ => none
  else env.fetch target

/-- The targets whose task the executor accepts; the loop ends at the first refusal. -/
def submitted (accepts : Nat → Bool) : List GoString → List GoString
  | [] => []
  | target :: targets =>
    if accepts 0 then target :: submitted (fun i => accepts (i + 1)) targets else []

/-- `requiredResponses`, for the lengths of `*aliveTargetsPtr` and of `aliveTargets`. -/
def requiredResponses (level : ConsistencyLevel) (pooled own : Nat) : Nat :=
  let required :=
    match level with
    | .one => 1
    | .quorum => pooled / 2 + 1
    | .all => own
    | .other => 1
  if required > pooled then pooled else required

/-- The loop over the results: at most `rounds` rounds, until enough of them are live.  When
    no more results arrive, the context is done. -/
def collect (required : Nat) : Nat → List (Option (Option StoredItem)) → List StoredItem →
    List StoredItem
  | 0, _, items => items
  | _ + 1, [], items => items
  | rounds + 1, res :: results, items =>
    if items.length < required then
      match res with
      | some (some item) =>
        if ¬ item.isTombstone ∧ item.value.length > 0 then
          collect required rounds results (items ++ [item])
        else collect required rounds results items
      | _ => collect required rounds results items
    else items

/-- The loop that finds the highest version. -/
def highest (items : List StoredItem) : Option StoredItem :=
  items.foldl (fun best item =>
    match best with
    | none => some item
    | some b => if item.version > b.version then some item else best) none

/-- `GetWithConsistency` -/
def getWithConsistency (env : ReadEnv) (key : GoString) (level : ConsistencyLevel) :
    ReadOutcome :=
  if key = [] then
    let (store, res) := env.store.get env.cfg.store env.now key
    { store, result := res.map fun _ => none }
  else if level = .one ∧ env.hasCache ∧ env.cached.isSome then
    { store := env.store, result := .ok env.cached }
  else
    let targets := env.cfg.ring.getN key env.cfg.replicaCount
    if targets = [] then { store := env.store, result := .ok none }
    else
      -- `aliveTargets` keeps the length it has here; the loop appends to the pooled slice.
      let aliveTargets : List GoString := []
      let pooledTargets := targets.filter fun target => env.alive target ∨ target = env.cfg.nodeID
      if pooledTargets = [] then { store := env.store, result := .ok none }
      else
        let required := requiredResponses level pooledTargets.length aliveTargets.length
        let asked := submitted env.accepts pooledTargets
        let store :=
          if env.cfg.nodeID ∈ asked then (env.store.get env.cfg.store env.now key).1
          else env.store
        let results := (env.order asked).map (env.answer key)
        -- The other way round here: `items` grows, and the pooled slice stays empty.
        let pooledItems : List StoredItem := []
        let items := collect required aliveTargets.length results []
        if items.length < required then { store, result := .ok none }
        else
          let repaired :=
            if pooledItems.length > 1 ∧ env.hasRepair then
              if (pooledItems.map (·.version)).dedup.length > 1 then some pooledItems else none
            else none
          match highest items with
          | none => { store, result := .ok none, repaired }
          | some best =>
            { store
              result := .ok (some best)
              cacheSet := if level = .one ∧ env.hasCache then some best else none
              repaired }

/-- `best`, or the item if its version is higher. -/
def better (best : Option StoredItem) (item : StoredItem) : Option StoredItem :=
  match best with
  | none => some item
  | some b => if item.version > b.version then some item else best

/-- The loop of `GetSpeculative`: at most `rounds` results are received.  Live items are
    appended to `items`, and `best` is the first of the highest version among them. -/
def gather : Nat → List (Option (Option StoredItem)) → List StoredItem → Option StoredItem →
    List StoredItem × Option StoredItem
  | 0, _, items, best => (items, best)
  | _ + 1, [], items, best => (items, best)
  | count + 1, res :: results, items, best =>
    match res with
    | some (some item) =>
      if ¬ item.isTombstone ∧ item.value.length > 0 then
        gather count results (items ++ [item]) (better best item)
      else gather count results items best
    | _ => gather count results items best

/-- `GetSpeculative` -/
def getSpeculative (env : ReadEnv) (key : GoString) (n : Int) : ReadOutcome :=
  if key = [] then
    let (store, res) := env.store.get env.cfg.store env.now key
    { store, result := res.map fun _ => none }
  else
    let n := if n ≤ 0 then 3 else n
    let targets := env.cfg.ring.getN key n
    if targets = [] then { store := env.store, result := .ok none }
    else
      -- This method uses the pooled slices throughout.
      let pooledTargets := targets.filter fun target => env.alive target ∨ target = env.cfg.nodeID
      if pooledTargets = [] then { store := env.store, result := .ok none }
      else
        let asked := submitted env.accepts pooledTargets
        let store :=
          if env.cfg.nodeID ∈ asked then (env.store.get env.cfg.store env.now key).1
          else env.store
        let results := (env.order asked).map (env.answer key)
        let (items, best) := gather pooledTargets.length results [] none
        let repaired :=
          if items.length > 1 ∧ env.hasRepair then
            if (items.map (·.version)).dedup.length > 1 then some items else none
          else none
        { store, result := .ok best, repaired }

end ReadEnv

end GridKV
