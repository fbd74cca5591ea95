import GridKV.ForStd.Go

/-!
# The connection pool

Translation of `connPool` in `internal/network/pool.go`.  A connection is a number and a
waiting call is known by the number of the call.  The shards split the addresses among
them by a hash, so a map from addresses to pools stands for all of them; an address
without a pool behaves like one with an empty pool.
-/

namespace GridKV

open Go

/-- `PoolConfig`, with the values of `DefaultPoolConfig`. -/
structure PoolConfig where
  maxIdle : Int := 2048
  maxActive : Int := 30000
  idleTimeout : Int := 30 * 1000000000
  waitTimeout : Int := 5 * 1000000000

/-- Why `Get` fails: `ErrPoolClosed`, `ErrPoolExhausted`, the error of the context or that
    of the transport. -/
inductive PoolError where
  | closed
  | exhausted
  | context
  | dial
  deriving DecidableEq, Repr

structure IdleConn where
  conn : Nat
  idleSince : Time
  deriving DecidableEq, Repr

/-- `addrPool`; the connection last put comes first. -/
structure AddrPool where
  idle : List IdleConn := []
  active : Int := 0
  waiters : List Nat := []
  deriving DecidableEq, Repr

structure ConnPool where
  pools : GoString → AddrPool := fun _ => {}
  closed : Bool := false

/-- What `Get` does next: hand out an idle connection, dial, wait, or fail. -/
inductive GetResult where
  | conn (conn : Nat)
  | dial
  | wait
  | error (err : PoolError)
  deriving DecidableEq, Repr

namespace ConnPool

variable (cfg : PoolConfig) (p : ConnPool)

def setPool (address : GoString) (ap : AddrPool) : ConnPool :=
  { p with pools := Function.update p.pools address ap }

/-- `connPool.Get` up to the call of `Dial` or the wait. -/
def get (address : GoString) (call : Nat) : ConnPool × GetResult :=
  if p.closed then (p, .error .closed)
  else
    let ap := p.pools address
    match ap.idle with
    | ic :: idle => (p.setPool address { ap with idle, active := ap.active + 1 }, .conn ic.conn)
    | [] =>
      if cfg.maxActive > 0 ∧ ap.active ≥ cfg.maxActive then
        if cfg.waitTimeout > 0 then
          (p.setPool address { ap with waiters := ap.waiters ++ [call] }, .wait)
        else (p, .error .exhausted)
      else (p.setPool address { ap with active := ap.active + 1 }, .dial)

/-- The rest of `Get` after a failed `Dial`. -/
def dialFailed (address : GoString) : ConnPool :=
  let ap := p.pools address
  p.setPool address { ap with active := ap.active - 1 }

/-- `removeWaiter` -/
def removeWaiter (address : GoString) (call : Nat) : ConnPool :=
  let ap := p.pools address
  p.setPool address { ap with waiters := ap.waiters.erase call }

/-- A whole call of `Get` that nothing else overlaps, so that nobody signals it when it
    waits: `dial` is what `Dial` returns, and `ctxDone` tells whether the context ends before
    the timer. -/
def getAlone (address : GoString) (call : Nat) (dial : Option Nat) (ctxDone : Bool) :
    ConnPool × Except PoolError Nat :=
  match p.get cfg address call with
  | (p, .conn conn) => (p, .ok conn)
  | (p, .dial) =>
    match dial with
    | some conn => (p, .ok conn)
    | none => (p.dialFailed address, .error .dial)
  | (p, .wait) =>
    (p.removeWaiter address call, .error (if ctxDone then .context else .exhausted))
  | (p, .error err) => (p, .error err)

/-- `connPool.Put` of a connection to `remoteAddr`, which `isConnectionHealthy` finds
    `healthy`; the flag tells whether the connection is kept or closed.  At most ten waiters
    are signalled. -/
def put (remoteAddr : GoString) (conn : Nat) (healthy : Bool) (now : Time) : ConnPool × Bool :=
  if p.closed then (p, false)
  else
    let ap := p.pools remoteAddr
    let ap := { ap with active := ap.active - 1 }
    if cfg.maxIdle > 0 ∧ ap.idle.length < cfg.maxIdle then
      if ¬ healthy then (p.setPool remoteAddr ap, false)
      else
        (p.setPool remoteAddr
          { ap with idle := ⟨conn, now⟩ :: ap.idle, waiters := ap.waiters.drop 10 }, true)
    else (p.setPool remoteAddr ap, false)

/-- `connPool.Remove`; the connection is looked for among the idle ones only if no
    connection is in use. -/
def remove (remoteAddr : GoString) (conn : Nat) : ConnPool :=
  let ap := p.pools remoteAddr
  if ap.active > 0 then p.setPool remoteAddr { ap with active := ap.active - 1 }
  else p.setPool remoteAddr { ap with idle := ap.idle.eraseP fun ic => ic.conn = conn }

/-- The connection has been idle for too long. -/
def outdated (now : Time) (ic : IdleConn) : Bool :=
  cfg.idleTimeout > 0 ∧ now - ic.idleSince > cfg.idleTimeout

/-- `cleanupIdleConns` for one address, with the connections it closes. -/
def cleanupIdleConns (address : GoString) (now : Time) : ConnPool × List Nat :=
  let ap := p.pools address
  let batchSize :=
    if ap.active < cfg.maxActive then min 10 (cfg.maxActive - ap.active).toNat else 0
  (p.setPool address { ap with
    idle := ap.idle.filter fun ic => ! outdated cfg now ic
    waiters := ap.waiters.drop batchSize },
    (ap.idle.filter (outdated cfg now)).map IdleConn.conn)

/-- `connPool.Close`.  The maps are replaced by empty ones, so that nobody can signal the
    calls that wait; they stay in the lists here. -/
def close : ConnPool where
  pools address := { p.pools address with idle := [], active := 0 }
  closed := true

end ConnPool

end GridKV
