import GridKV.ForStd.Channel

/-!
# The accept loop of the server

Translation of `acceptLoop` and `workerLoop` in `internal/network/server.go` as a machine:
a step is one statement of the loop that other goroutines can tell apart, a worker that
takes or finishes a connection, or one of the two channels that `Stop` closes.  Which
connections arrive, whether `Accept` fails and which ready case a `select` takes is up to
the action.

Of `handleConn` only the deferred cleanup counts here (`Server` has the rest), and it is one
step.  The map of active connections is left out: only `Stop` reads it.
-/

namespace GridKV

open Go

/-- Where `acceptLoop` stands, with the connection it has in hand.  A panic is that of a send
    on a closed channel. -/
inductive AcceptPhase where
  | loop
  | accepting
  | failed
  | check (conn : Nat)
  | offer (conn : Nat)
  | timedOut (conn : Nat)
  | lastOffer (conn : Nat)
  | exited
  | panicked (conn : Nat)
  deriving DecidableEq, Repr

structure AcceptState where
  /-- `stopCh` has been closed. -/
  stopped : Bool := false
  connCh : Chan Nat
  /-- `stats.Connections`; a connection is known by its number. -/
  connections : Nat := 0
  /-- `stats.ActiveConns` -/
  activeConns : Int := 0
  /-- The connections that were sent to the workers, those in `handleConn`, and those that
      `acceptLoop` or the cleanup of `handleConn` has closed. -/
  handed : List Nat := []
  serving : List Nat := []
  closed : List Nat := []
  phase : AcceptPhase := .loop

/-- The cases of the `select` with the timer. -/
inductive OfferCase where
  | send
  | stop
  | timer
  deriving DecidableEq, Repr

inductive AcceptAction where
  /-- `acceptLoop` goes on, where it does not wait. -/
  | go
  | accept
  | acceptError
  | offer (choice : OfferCase)
  /-- A worker receives from `connCh`. -/
  | take
  /-- `handleConn` returns. -/
  | finish (conn : Nat)
  /-- `Stop` closes `stopCh`, and later `connCh`, possibly without having seen `acceptLoop`
      exit. -/
  | stop
  | closeConnCh
  deriving DecidableEq, Repr

namespace AcceptState

/-- `conn.Close()` and `return` -/
def turnAway (s : AcceptState) (conn : Nat) : AcceptState :=
  { s with closed := s.closed ++ [conn], phase := .exited }

/-- `connCh <- conn`, with what to do when the channel is full. -/
def send (s : AcceptState) (conn : Nat) (full : Option AcceptState) : Option AcceptState :=
  match s.connCh.send conn with
  | .sent connCh => some { s with connCh, handed := s.handed ++ [conn], phase := .loop }
  | .blocked => full
  | .panicked => some { s with phase := .panicked conn }

/-- The statements of `acceptLoop` that do not wait. -/
def go (s : AcceptState) : Option AcceptState :=
  match s.phase with
  | .loop => some { s with phase := if s.stopped then .exited else .accepting }
  | .failed => some { s with phase := if s.stopped then .exited else .loop }
  | .check conn => some (if s.stopped then s.turnAway conn else { s with phase := .offer conn })
  | .timedOut conn =>
    some (if s.stopped then s.turnAway conn else { s with phase := .lastOffer conn })
  -- The innermost `select`, whose `default` case also returns.
  | .lastOffer conn => s.send conn (some (s.turnAway conn))
  | .accepting | .offer _ | .exited | .panicked _ => none

/-- The `select` with the timer. -/
def offer (s : AcceptState) (conn : Nat) : OfferCase → Option AcceptState
  | .send => s.send conn none
  | .stop => if s.stopped then some (s.turnAway conn) else none
  | .timer => some { s with phase := .timedOut conn }

/-- A step of a server that is running. -/
def act (s : AcceptState) : AcceptAction → Option AcceptState
  | .go => s.go
  | .accept =>
    match s.phase with
    | .accepting =>
      some { s with
        connections := s.connections + 1
        activeConns := s.activeConns + 1
        phase := .check s.connections }
    | _ => none
  | .acceptError => if s.phase = .accepting then some { s with phase := .failed } else none
  | .offer choice =>
    match s.phase with
    | .offer conn => s.offer conn choice
    | _ => none
  | .take =>
    match s.connCh.recv with
    | .received conn connCh => some { s with connCh, serving := conn :: s.serving }
    | .closed | .blocked => none
  | .finish conn =>
    if conn ∈ s.serving then
      some { s with
        activeConns := s.activeConns - 1
        serving := s.serving.erase conn
        closed := s.closed ++ [conn] }
    else none
  | .stop => some { s with stopped := true }
  | .closeConnCh => if s.stopped then some { s with connCh := s.connCh.close } else none

/-- One step; a panic ends the process. -/
def step (s : AcceptState) (a : AcceptAction) : Option AcceptState :=
  match s.phase with
  | .panicked _ => none
  | _ => s.act a

/-- The server before its first connection. -/
def start (cap : Nat) : AcceptState where
  connCh := { cap }

end AcceptState

end GridKV
