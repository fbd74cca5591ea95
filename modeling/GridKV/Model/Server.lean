import GridKV.Model.NetworkClient

/-!
# The server's side of a connection

Translation of `handleConn` in `internal/network/server.go` over `tcpConn.Send` and
`tcpConn.Receive`.  What a peer writes is a stream of bytes; how it is cut into chunks shows
in how many bytes of it come in before the deadline of each `Receive`.  The statistics and
the log are left out.
-/

namespace GridKV

open Go

/-- `tcpConn.Send` to a connection on which the bytes `stream` have not been read yet, when
    the writes succeed; `none` for a message that is too large. -/
def sendFrame (maxMessageSize : Int) (stream data : Bytes) : Option Bytes :=
  if data.length > maxMessageSize then none else some (stream ++ frame data)

/-- What one round of the loop of `handleConn` meets. -/
structure Round where
  /-- Whether `stopCh` is closed before `Receive`, and whether it is after a failed one. -/
  stopBefore : Bool := false
  stopAfter : Bool := false
  /-- How many bytes come in, and whether a read that is not complete by then fails because
      of the deadline; otherwise the connection has ended. -/
  arrived : Nat
  timeout : Bool := true
  /-- What the handler returns, `none` for an error and `some none` for no response. -/
  response : Option (Option Bytes) := some none
  /-- Whether the response can be written. -/
  written : Bool := true

/-- A connection at the server: the bytes that have not been read, the local variable
    `handlerErrorCount`, the messages that have been passed to the handler, and whether
    `handleConn` has returned and closed the connection. -/
structure ServerConn where
  stream : Bytes := []
  handlerErrorCount : Nat := 0
  messages : List Bytes := []
  closed : Bool := false

namespace ServerConn

/-- `maxHandlerErrors` -/
def maxHandlerErrors : Nat := 10

/-- The constant `maxMessageSize` of `handleConn`. -/
def handlerMessageSize : Nat := 64 * 1024 * 1024

def close (c : ServerConn) : ServerConn := { c with closed := true }

/-- The part of a round that passes a message to the handler. -/
def handle (maxMessageSize : Int) (c : ServerConn) (round : Round) (data : Bytes) : ServerConn :=
  if data.length > handlerMessageSize then c.close
  else
    let c := { c with messages := c.messages ++ [data] }
    match round.response with
    | none =>
      let c := { c with handlerErrorCount := c.handlerErrorCount + 1 }
      if c.handlerErrorCount ≥ maxHandlerErrors then c.close else c
    | some resp =>
      let c := { c with handlerErrorCount := 0 }
      match resp with
      | none => c
      | some resp => if round.written ∧ ¬ resp.length > maxMessageSize then c else c.close

/-- One round of the loop of `handleConn`. -/
def handleConn (maxMessageSize : Int) (c : ServerConn) (round : Round) : ServerConn :=
  if round.stopBefore then c.close
  else
    let (stream, received) := receiveFrame maxMessageSize c.stream round.arrived
    let c := { c with stream }
    match received with
    | .error err =>
      if round.stopAfter then c.close
      else if err = .interrupted ∧ round.timeout then { c with handlerErrorCount := 0 }
      else c.close
    | .ok data => c.handle maxMessageSize round data

end ServerConn

end GridKV
