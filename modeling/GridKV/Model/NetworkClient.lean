import GridKV.Model.ConnPool

/-!
# Requests over pooled connections

Translation of `networkClient.Request` in `internal/network/client.go` with `tcpConn.Send`
and `tcpConn.Receive` of `internal/network/transport.go`.  Any number of calls run at the
same time; a step is one call of `Get`, `Send`, `Receive`, `Put` or `Remove` by one of
them, or an event of the world around: a deadline passes, a server answers or hangs up,
the pool is cleaned up or closed.

What a server writes is a stream of bytes, of which `Receive` reads a frame.  In the other
direction only the order of the requests is kept, since a server answers each of them.
-/

namespace GridKV

open Go Endian

/-! ### Frames -/

/-- What `Send` writes: the length, as a `uint32`, and the data. -/
def frame (data : Bytes) : Bytes := beBytes 4 data.length ++ data

inductive ReceiveError where
  | interrupted
  | messageTooLarge
  deriving DecidableEq, Repr

/-- `Receive` when `arrived` bytes of the stream come in before the deadline passes or the
    connection ends; also the part of the stream that is left.  What has been read of an
    incomplete frame is lost. -/
def receiveFrame (maxMessageSize : Int) (stream : Bytes) (arrived : Nat) :
    Bytes × Except ReceiveError Bytes :=
  let input := stream.take arrived
  if input.length < 4 then (stream.drop input.length, .error .interrupted)
  else
    let size := beNat (input.take 4)
    if size > maxMessageSize then (stream.drop 4, .error .messageTooLarge)
    else if input.length < 4 + size then (stream.drop input.length, .error .interrupted)
    else (stream.drop (4 + size), .ok ((input.drop 4).take size))

/-! ### Calls -/

/-- Why a request fails, with the address that the message of a pool error names. -/
inductive RequestError where
  | pool (address : GoString) (err : PoolError)
  | send
  | receive (err : ReceiveError)
  deriving DecidableEq, Repr

/-- Where a call of `Request` stands. -/
inductive Phase where
  | get (attempt : Nat)
  | wait (attempt : Nat)
  | send (attempt conn : Nat)
  | remove (attempt conn : Nat)
  | receive (attempt conn : Nat)
  | put (attempt conn : Nat) (resp : Except ReceiveError Bytes)
  | done (result : Except RequestError Bytes)

/-- The end of an attempt that failed: the first is followed by a second one. -/
def Phase.failed (attempt : Nat) (err : RequestError) : Phase :=
  if attempt = 0 then .get 1 else .done (.error err)

/-- The end of an attempt whose connection has been put back. -/
def Phase.received (attempt : Nat) : Except ReceiveError Bytes → Phase
  | .ok resp => .done (.ok resp)
  | .error err => .failed attempt (.receive err)

/-- The connection a call holds. -/
def Phase.conn : Phase → Option Nat
  | .send _ i | .remove _ i | .receive _ i | .put _ i _ => some i
  | .get _ | .wait _ | .done _ => none

/-- The two directions of a connection: the calls whose requests the server has not
    answered, in the order they were sent, and the bytes the client has not read. -/
structure Wire where
  unanswered : List Nat := []
  stream : Bytes := []
  deriving DecidableEq, Repr

/-- The client, and for each call its address and request.  `remoteAddr` is what
    `RemoteAddr` returns for each connection dialled; it need not be the address it was
    dialled at. -/
structure ClientConfig where
  pool : PoolConfig := {}
  maxMessageSize : Int := 10 * 1024 * 1024
  address : Nat → GoString
  request : Nat → Bytes
  remoteAddr : Nat → GoString

/-- The pool, the connections and the calls; `expired` are the calls whose deadline has
    passed, and `answers` what the servers have written in answer to each call. -/
structure ClientState where
  pool : ConnPool := {}
  dialled : Nat := 0
  wires : Nat → Wire := fun _ => {}
  closed : Nat → Bool := fun _ => false
  hungUp : Nat → Bool := fun _ => false
  phases : Nat → Phase := fun _ => .get 0
  expired : Nat → Bool := fun _ => false
  answers : List (Nat × Bytes) := []

namespace ClientState

inductive Action where
  | get (call : Nat) (dials : Bool)
  | wake (call : Nat)
  | giveUp (call : Nat) (err : PoolError)
  | send (call : Nat) (written : Bool)
  | remove (call : Nat)
  | receive (call arrived : Nat)
  | put (call : Nat) (healthy : Bool) (now : Time)
  | expire (call : Nat)
  | answer (conn : Nat) (data : Bytes)
  | hangUp (conn : Nat)
  | cleanupIdleConns (address : GoString) (now : Time)
  | close

def setPhase (s : ClientState) (call : Nat) (phase : Phase) : ClientState :=
  { s with phases := Function.update s.phases call phase }

def setWire (s : ClientState) (conn : Nat) (wire : Wire) : ClientState :=
  { s with wires := Function.update s.wires conn wire }

def closeConns (s : ClientState) (conns : List Nat) : ClientState :=
  { s with closed := fun i => s.closed i || decide (i ∈ conns) }

variable (cfg : ClientConfig)

/-- `Pool.Get`.  `Dial` refuses an expired context. -/
def get (s : ClientState) (call attempt : Nat) (dials : Bool) : ClientState :=
  let address := cfg.address call
  match s.pool.get cfg.pool address call with
  | (pool, .conn conn) => { s with pool }.setPhase call (.send attempt conn)
  | (pool, .wait) => { s with pool }.setPhase call (.wait attempt)
  | (pool, .error err) => { s with pool }.setPhase call (.done (.error (.pool address err)))
  | (pool, .dial) =>
    if dials ∧ ¬ s.expired call then
      ({ s with pool, dialled := s.dialled + 1 }.setWire s.dialled {}).setPhase call
        (.send attempt s.dialled)
    else
      { s with pool := pool.dialFailed address }.setPhase call
        (.done (.error (.pool address .dial)))

/-- `conn.Send`.  A closed connection, a deadline that has passed and a message that is
    too large make it fail, and so may the network. -/
def send (s : ClientState) (call attempt conn : Nat) (written : Bool) : ClientState :=
  if written ∧ ¬ s.closed conn ∧ ¬ s.expired call ∧
      ¬ (cfg.request call).length > cfg.maxMessageSize then
    let wire := s.wires conn
    (s.setWire conn { wire with unanswered := wire.unanswered ++ [call] }).setPhase call
      (.receive attempt conn)
  else s.setPhase call (.remove attempt conn)

/-- `conn.Receive`, which ends when a frame has come in, the deadline passes or the
    connection ends. -/
def receive (s : ClientState) (call attempt conn arrived : Nat) : Option ClientState :=
  let wire := s.wires conn
  let (stream, resp) := receiveFrame cfg.maxMessageSize wire.stream arrived
  if resp = .error .interrupted ∧ ¬ s.expired call ∧ ¬ s.hungUp conn ∧ ¬ s.closed conn then none
  else some ((s.setWire conn { wire with stream }).setPhase call (.put attempt conn resp))

/-- `Pool.Put` of the connection, whether or not `Receive` has failed, and the end of the
    attempt. -/
def put (s : ClientState) (call attempt conn : Nat) (resp : Except ReceiveError Bytes)
    (healthy : Bool) (now : Time) : ClientState :=
  let (pool, kept) := s.pool.put cfg.pool (cfg.remoteAddr conn) conn healthy now
  let s := { s with pool }.setPhase call (.received attempt resp)
  if kept then s else s.closeConns [conn]

/-- `Pool.Remove` of the connection after a failed `Send`. -/
def remove (s : ClientState) (call attempt conn : Nat) : ClientState :=
  let pool := s.pool.remove (cfg.remoteAddr conn) conn
  ({ s with pool }.closeConns [conn]).setPhase call (.failed attempt .send)

/-- A server answers the first request it has not answered; one that cannot send the
    answer hangs up. -/
def answer (s : ClientState) (conn : Nat) (data : Bytes) : Option ClientState :=
  match (s.wires conn).unanswered with
  | call :: unanswered =>
    if s.hungUp conn then none
    else
      some { s.setWire conn ⟨unanswered, (s.wires conn).stream ++ frame data⟩ with
        answers := (call, data) :: s.answers }
  | [] => none

def step (s : ClientState) : Action → Option ClientState
  | .get call dials =>
    match s.phases call with
    | .get attempt => some (s.get cfg call attempt dials)
    | _ => none
  | .wake call =>
    match s.phases call with
    | .wait attempt =>
      -- A waiter that has been signalled is no longer in the list.
      if call ∈ (s.pool.pools (cfg.address call)).waiters then none
      else some (s.setPhase call (.get attempt))
    | _ => none
  | .giveUp call err =>
    match s.phases call with
    | .wait _ =>
      if err = .exhausted ∨ err = .context ∧ s.expired call then
        let pool := s.pool.removeWaiter (cfg.address call) call
        some ({ s with pool }.setPhase call (.done (.error (.pool (cfg.address call) err))))
      else none
    | _ => none
  | .send call written =>
    match s.phases call with
    | .send attempt conn => some (s.send cfg call attempt conn written)
    | _ => none
  | .remove call =>
    match s.phases call with
    | .remove attempt conn => some (s.remove cfg call attempt conn)
    | _ => none
  | .receive call arrived =>
    match s.phases call with
    | .receive attempt conn => s.receive cfg call attempt conn arrived
    | _ => none
  | .put call healthy now =>
    match s.phases call with
    | .put attempt conn resp => some (s.put cfg call attempt conn resp healthy now)
    | _ => none
  | .expire call => some { s with expired := Function.update s.expired call true }
  | .answer conn data => s.answer conn data
  | .hangUp conn => some { s with hungUp := Function.update s.hungUp conn true }
  | .cleanupIdleConns address now =>
    if s.pool.closed then none
    else
      let (pool, conns) := s.pool.cleanupIdleConns cfg.pool address now
      some ({ s with pool }.closeConns conns)
  | .close => some { s with pool := s.pool.close, closed := fun _ => true }

end ClientState

end GridKV
