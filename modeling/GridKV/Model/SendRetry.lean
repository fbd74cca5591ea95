import GridKV.ForStd.Go

/-!
# Sends over pooled connections

Translation of `networkClient.SendWithTimeout` in `internal/network/client.go`: at most two
attempts, each of which takes a connection from the pool, sends on it and gives it back.
What `Pool.Get` and `conn.Send` return is an input; errors are their texts, which is all
`isConnectionRefused` looks at.
-/

namespace GridKV

open Go

/-- `isConnectionRefused`, for a nil error or an error with the given text. -/
def isConnectionRefused (err : Option GoString) : Bool :=
  match err with
  | none => false
  | some text =>
    ascii "connection refused" <:+: text ∨ ascii "connect: connection refused" <:+: text

/-- What an attempt meets. -/
structure SendAttempt where
  /-- The connection `Pool.Get` returns, or its error. -/
  got : Except GoString Nat
  /-- The error of `conn.Send`; nil when all of the data has been written. -/
  sent : Option GoString

/-- What an attempt does with the pool. -/
inductive ConnUse where
  | get (attempt conn : Nat)
  | put (attempt conn : Nat)
  | remove (attempt conn : Nat)
  deriving DecidableEq, Repr

/-- The loop of `SendWithTimeout` from an attempt on, with the given number of rounds left:
    the error returned and the calls that were about a connection. -/
def sendAttempts (attempts : Nat → SendAttempt) (attempt : Nat) :
    Nat → Option GoString × List ConnUse
  | 0 => (some (ascii "unexpected: send loop completed without result"), [])
  | left + 1 =>
    match (attempts attempt).got with
    | .error err =>
      if attempt = 0 ∧ ¬ isConnectionRefused (some err) then
        sendAttempts attempts (attempt + 1) left
      else (some err, [])
    | .ok conn =>
      -- The error of `Get`, which is nil here.  That of `Send` has a variable of its own, whose
      -- scope ends with the test of it.
      let err : Option GoString := none
      if (attempts attempt).sent = none then (none, [.get attempt conn, .put attempt conn])
      else if attempt = 0 ∧ ¬ isConnectionRefused err then
        let (result, calls) := sendAttempts attempts (attempt + 1) left
        (result, .get attempt conn :: .remove attempt conn :: calls)
      else (err, [.get attempt conn, .remove attempt conn])

/-- `SendWithTimeout` -/
def sendWithTimeout (attempts : Nat → SendAttempt) : Option GoString × List ConnUse :=
  sendAttempts attempts 0 2

end GridKV
