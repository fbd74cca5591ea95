import GridKV.Model.HotCache

/-!
# The cache with its pointers

Translation of `internal/utils/cache/ttl_cache.go` that keeps what `Model.HotCache` leaves
out: the entries are cells of a heap, linked by their fields `next` and `prev`, and go to a
pool when they are removed, to be used again.  Addresses are numbers, handed out in order
by `new`.  Values are of any type.

The frequency sketch is a parameter of `Set`, and what it records is left out.
-/

namespace GridKV

open Go

/-! ### Construction -/

/-- `Opts` -/
structure CacheOpts where
  shards : Int64
  size : Int64

/-- What a cache is built with, and `len(c.shards)`. -/
structure TtlConfig extends CacheConfig where
  shardCount : Nat

/-- `isPow2` -/
def isPow2 (n : Int64) : Bool := n > 0 ∧ n &&& (n - 1) = 0

/-- `nextPow2` -/
def nextPow2 (n : Int64) : Int64 :=
  if n ≤ 1 then 1
  else
    let n := n - 1
    let n := n ||| (n >>> 1)
    let n := n ||| (n >>> 2)
    let n := n ||| (n >>> 4)
    let n := n ||| (n >>> 8)
    let n := n ||| (n >>> 16)
    let n := n ||| (n >>> 32)
    n + 1

/-- `New`; `none` when `make` panics because the number of shards has overflown. -/
def CacheOpts.new (opts : CacheOpts) (hashLo hashHi : GoString → UInt64) : Option TtlConfig :=
  let shards := if opts.shards ≤ 0 then 256 else opts.shards
  let shards := if ¬ isPow2 shards then nextPow2 shards else shards
  let size := if opts.size ≤ 0 then 10000 else opts.size
  let shardSize := size / shards
  let shardSize := if shardSize < 1 ∧ size > 0 then 1 else shardSize
  if shards < 0 then none
  else some
    { hashLo, hashHi
      shardMask := (shards - 1).toUInt64.toUInt32
      maxSize := shardSize.toInt.toNat
      shardCount := shards.toInt.toNat }

/-- `getShard` -/
def TtlConfig.getShard (cfg : TtlConfig) (key : GoString) : Option Nat :=
  if cfg.shardCount = 0 then none
  else if cfg.shardIndex key ≥ cfg.shardCount % 2 ^ 32 then none
  else some (cfg.shardIndex key)

/-! ### The heap -/

/-- `entry` -/
structure TtlEntry (V : Type) where
  key : GoString := []
  value : V
  expireAt : Int64 := 0
  next : Option Nat := none
  prev : Option Nat := none

/-- `shard`; the field `maxSize` is the same in all of them. -/
structure TtlShard where
  items : GoMap Nat := ∅
  head : Option Nat := none
  tail : Option Nat := none

/-- `Cache` with the cells its entries are in.  Those below `allocated` have been handed out
    before, and those in `pool`, which is `entryPool`, are there to be used again. -/
structure TtlCache (V : Type) where
  heap : Nat → TtlEntry V
  allocated : Nat := 0
  pool : List Nat := []
  shards : Nat → TtlShard := fun _ => {}
  closed : Bool := false

namespace TtlCache

variable {V : Type}

def empty [Inhabited V] : TtlCache V where
  heap _ := { value := default }

variable (cfg : TtlConfig) (now : Time) (c : TtlCache V)

def setNext (p : Nat) (next : Option Nat) : TtlCache V :=
  { c with heap := Function.update c.heap p { c.heap p with next } }

def setPrev (p : Nat) (prev : Option Nat) : TtlCache V :=
  { c with heap := Function.update c.heap p { c.heap p with prev } }

def modifyShard (i : Nat) (f : TtlShard → TtlShard) : TtlCache V :=
  { c with shards := Function.update c.shards i (f (c.shards i)) }

/-- `delete(s.items, key)` -/
def deleteItem (i : Nat) (key : GoString) : TtlCache V :=
  c.modifyShard i fun s => { s with items := s.items.erase key }

/-- `entryPool.Put(e)` -/
def poolPut (e : Nat) : TtlCache V := { c with pool := e :: c.pool }

/-- `entryPool.Get()`: one of the entries in the pool, or a new one. -/
def poolGet (pick : Nat) : TtlCache V × Nat :=
  match c.pool[pick]? with
  | some e => ({ c with pool := c.pool.eraseIdx pick }, e)
  | none => ({ c with allocated := c.allocated + 1 }, c.allocated)

/-! ### The list of a shard -/

/-- `addToFront` -/
def addToFront (i e : Nat) : TtlCache V :=
  let c := c.setNext e (c.shards i).head
  let c := c.setPrev e none
  let c := match (c.shards i).head with
    | some head => c.setPrev head (some e)
    | none => c
  let c := c.modifyShard i fun s => { s with head := some e }
  if (c.shards i).tail = none then c.modifyShard i fun s => { s with tail := some e } else c

/-- `removeEntry` -/
def removeEntry (i e : Nat) : TtlCache V :=
  let c := match (c.heap e).prev with
    | some prev => c.setNext prev (c.heap e).next
    | none => c.modifyShard i fun s => { s with head := (c.heap e).next }
  match (c.heap e).next with
  | some next => c.setPrev next (c.heap e).prev
  | none => c.modifyShard i fun s => { s with tail := (c.heap e).prev }

/-- `moveToFront` -/
def moveToFront (i e : Nat) : TtlCache V :=
  if (c.shards i).head = some e then c else (c.removeEntry i e).addToFront i e

/-- The loop that looks for an entry used less often than `newFreq`; `none` if it does not
    end within `fuel` rounds, and `some none` if it finds no entry. -/
def rareEntry (estimate : GoString → Nat) (c : TtlCache V) (i newFreq : Nat) :
    Nat → Option Nat → Option (Option Nat)
  | _, none => some none
  | 0, some _ => none
  | fuel + 1, some current =>
    if estimate (c.heap current).key < newFreq then some (some current)
    else
      let prev := (c.heap current).prev
      if prev = (c.shards i).head then some none else rareEntry estimate c i newFreq fuel prev

/-- The entry that makes room for a new key: the oldest one, unless it is used more often
    than the new key and a rarer one is found. -/
def victim (estimate : GoString → Nat) (c : TtlCache V) (i : Nat) (key : GoString) (oldest : Nat) :
    Option Nat :=
  let newFreq := estimate key
  let oldFreq := estimate (c.heap oldest).key
  if oldFreq > newFreq then
    (rareEntry estimate c i newFreq c.allocated (some oldest)).map fun found => found.getD oldest
  else some oldest

/-! ### The methods -/

/-- `Cache.Get` -/
def get (key : GoString) : TtlCache V × Option V :=
  if c.closed then (c, none)
  else if key = [] then (c, none)
  else
    match cfg.getShard key with
    | none => (c, none)
    | some i =>
      match (c.shards i).items.lookup key with
      | none => (c, none)
      | some e =>
        let expireAt := (c.heap e).expireAt
        if expireAt > 0 ∧ unixNano now > expireAt then
          (((c.deleteItem i key).removeEntry i e).poolPut e, none)
        else (c.moveToFront i e, some (c.heap e).value)

/-- `Cache.Delete`, which does not give the entry back to the pool. -/
def delete (key : GoString) : TtlCache V × Bool :=
  if c.closed ∨ key = [] then (c, false)
  else
    match cfg.getShard key with
    | none => (c, false)
    | some i =>
      match (c.shards i).items.lookup key with
      | none => (c, false)
      | some e => ((c.deleteItem i key).removeEntry i e, true)

/-- `Cache.Del` -/
def del (key : GoString) : TtlCache V :=
  if c.closed then c
  else if key = [] then c
  else
    match cfg.getShard key with
    | none => c
    | some i =>
      match (c.shards i).items.lookup key with
      | none => c
      | some e => ((c.deleteItem i key).removeEntry i e).poolPut e

/-- `expireAt` of an entry that is set now. -/
def expiry (ttl : Int64) : Int64 := if ttl > 0 then unixNano (now + ttl.toInt) else 0

/-- The part of `Set` that makes room for a new key; `none` if the search does not end. -/
def makeRoom (estimate : GoString → Nat) (c : TtlCache V) (i : Nat) (key : GoString) :
    Option (TtlCache V) :=
  if cfg.maxSize > 0 ∧ (c.shards i).items.entries.length ≥ cfg.maxSize then
    match (c.shards i).tail with
    | none => some c
    | some oldest =>
      (c.victim estimate i key oldest).map fun victim =>
        ((c.deleteItem i (c.heap victim).key).removeEntry i victim).poolPut victim
  else some c

/-- The part of `Set` that adds an entry for a new key. -/
def insertEntry (i pick : Nat) (key : GoString) (value : V) (expireAt : Int64) : TtlCache V :=
  let (c, e) := c.poolGet pick
  let c := { c with heap := Function.update c.heap e { key, value, expireAt } }
  let c := c.modifyShard i fun s => { s with items := s.items.insert key e }
  c.addToFront i e

/-- `Cache.Set`; `none` if it does not return. -/
def set (estimate : GoString → Nat) (pick : Nat) (now : Time) (c : TtlCache V) (key : GoString)
    (value : V) (ttl : Int64) : Option (TtlCache V) :=
  if c.closed then some c
  else if key = [] then some c
  else
    match cfg.getShard key with
    | none => some c
    | some i =>
      match (c.shards i).items.lookup key with
      | some existing =>
        let entry := { c.heap existing with value, expireAt := expiry now ttl }
        some ({ c with heap := Function.update c.heap existing entry }.moveToFront i existing)
      | none =>
        (c.makeRoom cfg estimate i key).map fun c => c.insertEntry i pick key value (expiry now ttl)

/-- One round of the loop of `Clear`. -/
def clearShard (i : Nat) : TtlCache V :=
  let c := { c with pool := (c.shards i).items.entries.map Sigma.snd ++ c.pool }
  c.modifyShard i fun _ => {}

/-- `Cache.Clear` -/
def clear : TtlCache V :=
  (List.range cfg.shardCount).foldl clearShard c

/-- `Cache.Close` -/
def close : TtlCache V := { c with closed := true }

end TtlCache

end GridKV
