import GridKV.Model.PoolSteps

/-!
# The connection pool with its statistics

`Model.PoolSteps` with the counters of `PoolStats`, for any number of addresses.  The counters
are updated by atomic additions, some within the sections that hold `ap.mu` and some after
them; those that come after a section are steps of their own, and so are the signals that
`Put` sends.  A section of `cleanupIdleConns` sends its signals with the lock held.

A call has one channel to wait on: it makes a new one only after it has received from the old
one, which is out of the list by then.
-/

namespace GridKV

open Go

/-- The fields of `PoolStats` that are updated by additions. -/
inductive PoolCounter where
  | total
  | active
  | idle
  | waiters
  | created
  | closed
  | errors
  deriving DecidableEq, Repr

/-- `PoolStats` -/
abbrev PoolStats := PoolCounter → Int

/-- `atomic.AddInt64` and `atomic.AddUint64`, one after the other. -/
def PoolStats.update (stats : PoolStats) (updates : List (PoolCounter × Int)) : PoolStats :=
  updates.foldl (fun stats d => Function.update stats d.1 (stats d.1 + d.2)) stats

/-- The pool, its statistics, the channels of the calls that wait, and a record of the
    signals that were sent. -/
structure PoolShared where
  pool : ConnPool := {}
  stats : PoolStats := fun _ => 0
  signals : Nat → Bool := fun _ => false
  sent : List Nat := []

/-- Where a call of `Get` and the `Put` or `Remove` of its connection are: as in
    `ClientPhase`, and with updates still to make, about to take itself off the list of
    waiters, or with signals still to send. -/
inductive CallPhase where
  | start
  | popped (conn : Nat)
  | waiting
  | leaving
  | dialling
  | holding (conn : Nat)
  | updating (updates : List (PoolCounter × Int)) (next : CallPhase)
  | waking (waiters : List Nat)
  | done
  deriving DecidableEq, Repr

/-- The phase of a call that has updates to make before it goes on. -/
def CallPhase.after (next : CallPhase) : List (PoolCounter × Int) → CallPhase
  | [] => next
  | updates => .updating updates next

/-- The phase of `Put` with waiters to signal. -/
def CallPhase.wake : List Nat → CallPhase
  | [] => .done
  | waiters => .waking waiters

namespace PoolShared

/-- The pool of an address is replaced and counters are updated. -/
def set (s : PoolShared) (address : GoString) (ap : AddrPool)
    (updates : List (PoolCounter × Int)) : PoolShared :=
  { s with pool := s.pool.setPool address ap, stats := s.stats.update updates }

/-- A send on the channel of a waiter. -/
def send (s : PoolShared) (waiter : Nat) : PoolShared :=
  { s with signals := Function.update s.signals waiter true, sent := s.sent ++ [waiter] }

/-- The first section of `Get`. -/
def enter (cfg : PoolConfig) (s : PoolShared) (address : GoString) (call : Nat) :
    PoolShared × CallPhase :=
  match (s.pool.pools address).enter cfg call with
  | (ap, .popped conn) => (s.set address ap [], .popped conn)
  | (ap, .waiting) =>
    ({ s.set address ap [(.waiters, 1)] with
        signals := Function.update s.signals call false }, .waiting)
  | (ap, .dialling) => (s.set address ap [(.active, 1), (.created, 1)], .dialling)
  | (ap, _) => (s.set address ap [], .done)

/-- The section of `Put`. -/
def put (cfg : PoolConfig) (s : PoolShared) (address : GoString) (conn : Nat) (healthy : Bool)
    (now : Time) : PoolShared × CallPhase :=
  let ap := s.pool.pools address
  let ap' := ap.put cfg conn healthy now
  if cfg.maxIdle > 0 ∧ ap.idle.length < cfg.maxIdle then
    if ¬ healthy then (s.set address ap' [(.active, -1), (.closed, 1), (.total, -1)], .done)
    else
      let waiters := ap.waiters.take 10
      (s.set address ap' [(.active, -1), (.idle, 1), (.waiters, -(waiters.length : Int))],
        .wake waiters)
  else (s.set address ap' [(.active, -1)], .updating [(.closed, 1), (.total, -1)] .done)

/-- The section of `Remove`. -/
def remove (s : PoolShared) (address : GoString) (conn : Nat) : PoolShared × CallPhase :=
  let ap := s.pool.pools address
  let updates :=
    if ap.active > 0 then [(.active, -1)]
    else if ap.idle.any fun ic => ic.conn = conn then [(.idle, -1)]
    else []
  (s.set address (ap.remove conn) updates, .updating [(.total, -1), (.closed, 1)] .done)

/-- The waiters that `cleanupIdleConns` signals. -/
def wokenByCleanup (cfg : PoolConfig) (ap : AddrPool) : List Nat :=
  ap.waiters.take
    (if ap.active < cfg.maxActive then min 10 (cfg.maxActive - ap.active).toNat else 0)

/-- `cleanupIdleConns` for one address. -/
def cleanup (cfg : PoolConfig) (s : PoolShared) (address : GoString) (now : Time) : PoolShared :=
  let waiters := wokenByCleanup cfg (s.pool.pools address)
  let (pool, closed) := s.pool.cleanupIdleConns cfg address now
  let s := { s with
    pool
    stats := s.stats.update
      ((closed.flatMap fun _ => [(.idle, -1), (.total, -1), (.closed, 1)]) ++
        [(.waiters, -(waiters.length : Int))]) }
  waiters.foldl send s

end PoolShared

/-- The steps of a call. -/
inductive CallMove where
  | enter
  | activate
  | dialled (conn : Nat)
  | dialFailed
  | signalled
  | timedOut
  | leave
  | update
  | put (healthy : Bool) (now : Time)
  | send
  | remove
  deriving DecidableEq, Repr

/-- A step of a call for `address`; `none` where it is not the call's next one. -/
def callStep (cfg : PoolConfig) (address : GoString) (call : Nat) (move : CallMove)
    (s : PoolShared) : CallPhase → Option (PoolShared × CallPhase)
  | .start =>
    match move with
    | .enter => some (s.enter cfg address call)
    | _ => none
  | .popped conn =>
    match move with
    | .activate =>
      some (s.set address (s.pool.pools address).activateConn [],
        .updating [(.active, 1), (.idle, -1)] (.holding conn))
    | _ => none
  | .dialling =>
    match move with
    | .dialled conn => some (s, .updating [(.total, 1)] (.holding conn))
    | .dialFailed =>
      some (s.set address (s.pool.pools address).dialFailed [],
        .updating [(.active, -1), (.errors, 1)] .done)
    | _ => none
  | .waiting =>
    match move with
    -- `Get` calls itself.
    | .signalled =>
      if s.signals call then
        some ({ s with signals := Function.update s.signals call false },
          .updating [(.waiters, -1)] .start)
      else none
    -- The timer, or the context.
    | .timedOut => some (s, .updating [(.waiters, -1)] .leaving)
    | _ => none
  | .leaving =>
    match move with
    | .leave => some (s.set address ((s.pool.pools address).removeWaiter call) [], .done)
    | _ => none
  | .updating updates next =>
    match move with
    | .update =>
      match updates with
      | [] => some (s, next)
      | d :: updates => some ({ s with stats := s.stats.update [d] }, next.after updates)
    | _ => none
  | .holding conn =>
    match move with
    | .put healthy now => some (s.put cfg address conn healthy now)
    | .remove => some (s.remove address conn)
    | _ => none
  | .waking waiters =>
    match move with
    | .send =>
      match waiters with
      | [] => some (s, .done)
      | waiter :: waiters => some (s.send waiter, .wake waiters)
    | _ => none
  | .done => none

end GridKV
