import GridKV.Model.ConnPool

/-!
# The connection pool, one locked section at a time

`connPool.Get`, `Put` and `Remove` on one address, cut at the sections that hold `ap.mu`.
Between them lie the calls of `Dial`, the waits, and for an idle connection the moment
between taking it out of the list and counting it in `activateConn`.  The sections that hold
only `shard.mu` keep the set `shard.active`, which `Close` alone reads, and are left out.
-/

namespace GridKV

open Go

namespace AddrPool

/-- `activateConn` -/
def activateConn (ap : AddrPool) : AddrPool := { ap with active := ap.active + 1 }

/-- The section of `Get` after a failed `Dial`. -/
def dialFailed (ap : AddrPool) : AddrPool := { ap with active := ap.active - 1 }

/-- `removeWaiter` -/
def removeWaiter (ap : AddrPool) (client : Nat) : AddrPool :=
  { ap with waiters := ap.waiters.erase client }

/-- The section of `Put`. -/
def put (cfg : PoolConfig) (ap : AddrPool) (conn : Nat) (healthy : Bool) (now : Time) : AddrPool :=
  let ap := { ap with active := ap.active - 1 }
  if cfg.maxIdle > 0 ∧ ap.idle.length < cfg.maxIdle then
    if ¬ healthy then ap
    else { ap with idle := ⟨conn, now⟩ :: ap.idle, waiters := ap.waiters.drop 10 }
  else ap

/-- The section of `Remove`. -/
def remove (ap : AddrPool) (conn : Nat) : AddrPool :=
  if ap.active > 0 then { ap with active := ap.active - 1 }
  else { ap with idle := ap.idle.eraseP fun ic => ic.conn = conn }

end AddrPool

/-- Where a client is that gets one connection and gives it back: before the first section
    of `Get`, with an idle connection that is not counted yet, in the wait, in `Dial`, with a
    connection, or at its end. -/
inductive ClientPhase where
  | start
  | popped (conn : Nat)
  | waiting
  | dialling
  | holding (conn : Nat)
  | done
  deriving DecidableEq, Repr

/-- The first section of `Get`. -/
def AddrPool.enter (cfg : PoolConfig) (ap : AddrPool) (client : Nat) : AddrPool × ClientPhase :=
  match ap.idle with
  -- The connection is counted later, in `activateConn`.
  | ic :: idle => ({ ap with idle }, .popped ic.conn)
  | [] =>
    if cfg.maxActive > 0 ∧ ap.active ≥ cfg.maxActive then
      if cfg.waitTimeout > 0 then ({ ap with waiters := ap.waiters ++ [client] }, .waiting)
      else (ap, .done)
    else ({ ap with active := ap.active + 1 }, .dialling)

/-- The steps of a client. -/
inductive ClientMove where
  | enter
  | activate
  | dialled (conn : Nat)
  | dialFailed
  | signalled
  | timedOut
  | put (healthy : Bool) (now : Time)
  | remove
  deriving DecidableEq, Repr

/-- A step of a client; `none` where it is not the client's next one. -/
def clientStep (cfg : PoolConfig) (client : Nat) (move : ClientMove) (ap : AddrPool) :
    ClientPhase → Option (AddrPool × ClientPhase)
  | .start =>
    match move with
    | .enter => some (ap.enter cfg client)
    | _ => none
  | .popped conn =>
    match move with
    | .activate => some (ap.activateConn, .holding conn)
    | _ => none
  | .dialling =>
    match move with
    | .dialled conn => some (ap, .holding conn)
    | .dialFailed => some (ap.dialFailed, .done)
    | _ => none
  | .waiting =>
    match move with
    -- A waiter that is taken out of the list is signalled and starts over.
    | .signalled => if client ∈ ap.waiters then none else some (ap, .start)
    | .timedOut => some (ap.removeWaiter client, .done)
    | _ => none
  | .holding conn =>
    match move with
    | .put healthy now => some (ap.put cfg conn healthy now, .done)
    | .remove => some (ap.remove conn, .done)
    | _ => none
  | .done => none

end GridKV
