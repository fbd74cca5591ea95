/-!
# Channels and read-write locks

The channels and locks of Go, as far as the outcome of one operation depends on their state.
An operation that has to wait is not possible yet: what it waits for is that another
goroutine changes the state.
-/

namespace Go

/-! ### Channels -/

/-- A channel with a buffer. -/
structure Chan (α : Type) where
  cap : Nat
  buf : List α := []
  closed : Bool := false
  deriving DecidableEq, Repr

inductive SendResult (α : Type) where
  | sent (c : Chan α)
  | blocked
  | panicked
  deriving DecidableEq, Repr

inductive RecvResult (α : Type) where
  | received (a : α) (c : Chan α)
  | closed
  | blocked
  deriving DecidableEq, Repr

namespace Chan

variable {α : Type} {c c' : Chan α} {a : α}

/-- `c <- a`; to send on a closed channel is a run-time error. -/
def send (c : Chan α) (a : α) : SendResult α :=
  if c.closed then .panicked
  else if c.buf.length < c.cap then .sent { c with buf := c.buf ++ [a] }
  else .blocked

/-- `<-c`; what is in the buffer of a closed channel can still be received. -/
def recv (c : Chan α) : RecvResult α :=
  match c.buf with
  | a :: buf => .received a { c with buf }
  | [] => if c.closed then .closed else .blocked

def close (c : Chan α) : Chan α := { c with closed := true }

theorem send_eq_sent (h : c.send a = .sent c') :
    c.closed = false ∧ c' = { c with buf := c.buf ++ [a] } := by
  unfold send at h
  split at h
  · exact nomatch h
  · rename_i hopen
    split at h <;> cases h
    exact ⟨Bool.eq_false_iff.mpr hopen, rfl⟩

theorem send_eq_panicked (h : c.send a = .panicked) : c.closed = true := by
  unfold send at h
  split at h
  · assumption
  · split at h <;> exact nomatch h

theorem send_of_closed (h : c.closed = true) (a : α) : c.send a = .panicked := if_pos h

theorem recv_eq_received (h : c.recv = .received a c') :
    c.buf = a :: c'.buf ∧ c' = { c with buf := c'.buf } := by
  unfold recv at h
  split at h
  · rename_i hbuf
    cases h
    exact ⟨hbuf, rfl⟩
  · split at h <;> exact nomatch h

theorem recv_eq_closed (h : c.recv = .closed) : c.closed = true ∧ c.buf = [] := by
  unfold recv at h
  split at h
  · exact nomatch h
  · rename_i hbuf
    split at h
    · rename_i hclosed
      exact ⟨hclosed, hbuf⟩
    · exact nomatch h

theorem recv_eq_blocked (h : c.recv = .blocked) : c.closed = false ∧ c.buf = [] := by
  unfold recv at h
  split at h
  · exact nomatch h
  · rename_i hbuf
    split at h
    · exact nomatch h
    · rename_i hopen
      exact ⟨Bool.eq_false_iff.mpr hopen, hbuf⟩

end Chan

/-! ### Read-write locks -/

/-- `sync.RWMutex`.  A writer that waits for the readers to leave keeps new readers out. -/
structure RWMutex where
  readers : Nat := 0
  pending : Bool := false
  writer : Bool := false
  deriving DecidableEq, Repr

namespace RWMutex

variable {mu mu' : RWMutex}

def rLock (mu : RWMutex) : Option RWMutex :=
  if mu.pending ∨ mu.writer then none else some { mu with readers := mu.readers + 1 }

def rUnlock (mu : RWMutex) : RWMutex := { mu with readers := mu.readers - 1 }

/-- `Lock` up to its wait for the readers. -/
def announce (mu : RWMutex) : Option RWMutex :=
  if mu.pending ∨ mu.writer then none else some { mu with pending := true }

/-- `Lock` after its wait for the readers. -/
def acquire (mu : RWMutex) : Option RWMutex :=
  if mu.readers = 0 then some { mu with pending := false, writer := true } else none

def unlock (mu : RWMutex) : RWMutex := { mu with writer := false }

theorem rLock_eq_some (h : mu.rLock = some mu') :
    mu.pending = false ∧ mu.writer = false ∧ mu' = { mu with readers := mu.readers + 1 } := by
  unfold rLock at h
  split at h
  · exact nomatch h
  · rename_i hfree
    obtain ⟨hpending, hwriter⟩ := not_or.mp hfree
    exact ⟨Bool.eq_false_iff.mpr hpending, Bool.eq_false_iff.mpr hwriter, (Option.some.inj h).symm⟩

theorem rLock_of_writer (h : mu.writer = true) : mu.rLock = none := if_pos (.inr h)

theorem announce_eq_some (h : mu.announce = some mu') : mu' = { mu with pending := true } := by
  unfold announce at h
  split at h
  · exact nomatch h
  · exact (Option.some.inj h).symm

theorem acquire_eq_some (h : mu.acquire = some mu') :
    mu.readers = 0 ∧ mu' = { mu with pending := false, writer := true } := by
  unfold acquire at h
  split at h
  · rename_i hreaders
    exact ⟨hreaders, (Option.some.inj h).symm⟩
  · exact nomatch h

end RWMutex

end Go
