import GridKV.ForStd.Lease
import GridKV.ForStd.Run
import GridKV.Model.NetworkClient

/-!
# Does a request get its own response?

The pool never gives one connection to two calls (`exclusive_of_run`).  It does give a call
a connection on which the response to an earlier request is still to come: `Request` puts
the connection back even after a failed `Receive`, and nothing compares the response with
the request.  A call gets its own response as long as the pool keeps no such connection
(`answered_of_done`).
-/

namespace GridKV

open Go Run Endian List Function

/-! ### What the pool operations do to the idle connections -/

namespace ConnPool

variable {cfg : PoolConfig} (p : ConnPool) {address remoteAddr : GoString} {conn call : Nat}
  {result : GetResult} {now : Time}

/-- The idle connections of an address. -/
def idleConns (p : ConnPool) (address : GoString) : List Nat :=
  (p.pools address).idle.map IdleConn.conn

@[simp] theorem idleConns_setPool_self (ap : AddrPool) :
    (p.setPool address ap).idleConns address = ap.idle.map IdleConn.conn := by
  simp [idleConns, setPool]

theorem idleConns_setPool_of_ne {a : GoString} (h : a ≠ address) (ap : AddrPool) :
    (p.setPool address ap).idleConns a = p.idleConns a := by
  simp [idleConns, setPool, h]

/-- Changing the counters of an address leaves the idle connections alone. -/
theorem idleConns_setPool_of_idle {ap : AddrPool} (h : ap.idle = (p.pools address).idle)
    (a : GoString) : (p.setPool address ap).idleConns a = p.idleConns a := by
  by_cases ha : a = address
  · subst ha
    rw [idleConns_setPool_self, h, idleConns]
  · exact idleConns_setPool_of_ne p ha ap

theorem sublist_idleConns_setPool {ap : AddrPool} (h : ap.idle.Sublist (p.pools address).idle)
    (a : GoString) : ((p.setPool address ap).idleConns a).Sublist (p.idleConns a) := by
  by_cases ha : a = address
  · subst ha
    rw [idleConns_setPool_self]
    exact h.map _
  · rw [idleConns_setPool_of_ne p ha ap]

/-- `Get` hands out the connection last put, or leaves the idle connections alone. -/
theorem get_cases {p q : ConnPool} (h : p.get cfg address call = (q, result)) :
    (∃ conn, result = .conn conn ∧ p.idleConns address = conn :: q.idleConns address ∧
      ∀ a, a ≠ address → q.idleConns a = p.idleConns a) ∨
    (∀ conn, result ≠ .conn conn) ∧ ∀ a, q.idleConns a = p.idleConns a := by
  unfold get at h
  split at h
  · cases h
    exact .inr ⟨nofun, fun _ => rfl⟩
  · dsimp only at h
    split at h
    · rename_i ic idle hidle
      cases h
      refine .inl ⟨_, rfl, ?_, fun a ha => idleConns_setPool_of_ne p ha _⟩
      rw [idleConns_setPool_self, idleConns, hidle, map_cons]
    · split at h
      · split at h <;> obtain ⟨rfl, rfl⟩ := Prod.mk.inj h
        · exact .inr ⟨nofun, idleConns_setPool_of_idle p rfl⟩
        · exact .inr ⟨nofun, fun _ => rfl⟩
      · cases h
        exact .inr ⟨nofun, idleConns_setPool_of_idle p rfl⟩

theorem idleConns_dialFailed (address a : GoString) :
    (p.dialFailed address).idleConns a = p.idleConns a := by
  apply idleConns_setPool_of_idle
  rfl

theorem idleConns_removeWaiter (address : GoString) (call : Nat) (a : GoString) :
    (p.removeWaiter address call).idleConns a = p.idleConns a := by
  apply idleConns_setPool_of_idle
  rfl

theorem mem_idleConns_of_get {p q : ConnPool} {a : GoString} {i : Nat}
    (h : p.get cfg address call = (q, result)) (hi : i ∈ q.idleConns a) : i ∈ p.idleConns a := by
  obtain ⟨conn, -, htake, hidle⟩ | ⟨-, hidle⟩ := get_cases h
  · by_cases ha : a = address
    · subst ha
      rw [htake]
      exact mem_cons_of_mem _ hi
    · rwa [← hidle a ha]
  · rwa [← hidle a]

/-- `Put` files the connection, or leaves the idle connections alone. -/
theorem put_cases {p q : ConnPool} {healthy kept : Bool}
    (h : p.put cfg remoteAddr conn healthy now = (q, kept)) :
    (kept = true ∧ q.idleConns remoteAddr = conn :: p.idleConns remoteAddr ∧
      ∀ a, a ≠ remoteAddr → q.idleConns a = p.idleConns a) ∨
    kept = false ∧ ∀ a, q.idleConns a = p.idleConns a := by
  unfold put at h
  dsimp only at h
  repeat' split at h
  all_goals obtain ⟨rfl, rfl⟩ := Prod.mk.inj h
  · exact .inr ⟨rfl, fun _ => rfl⟩
  · exact .inr ⟨rfl, idleConns_setPool_of_idle p rfl⟩
  · refine .inl ⟨rfl, ?_, fun a ha => idleConns_setPool_of_ne p ha _⟩
    rw [idleConns_setPool_self]
    rfl
  · exact .inr ⟨rfl, idleConns_setPool_of_idle p rfl⟩

theorem sublist_idleConns_remove (remoteAddr : GoString) (conn : Nat) (a : GoString) :
    ((p.remove remoteAddr conn).idleConns a).Sublist (p.idleConns a) := by
  unfold remove
  dsimp only
  split
  · apply sublist_idleConns_setPool
    exact List.Sublist.refl _
  · exact sublist_idleConns_setPool p eraseP_sublist a

theorem sublist_idleConns_cleanup (cfg : PoolConfig) (p : ConnPool) (address : GoString)
    (now : Time) (a : GoString) :
    ((p.cleanupIdleConns cfg address now).1.idleConns a).Sublist (p.idleConns a) :=
  sublist_idleConns_setPool p filter_sublist a

end ConnPool

namespace ClientState

variable {cfg : ClientConfig} {s t : ClientState}

/-! ### The steps -/

/-- What each step does, as the cases of `step` that take one. -/
inductive Taken (cfg : ClientConfig) (s : ClientState) : Action → ClientState → Prop
  | get {call attempt dials} (hphase : s.phases call = .get attempt) :
      Taken cfg s (.get call dials) (s.get cfg call attempt dials)
  | wake {call attempt} (hphase : s.phases call = .wait attempt) :
      Taken cfg s (.wake call) (s.setPhase call (.get attempt))
  | giveUp {call attempt err} (hphase : s.phases call = .wait attempt) :
      Taken cfg s (.giveUp call err)
        ({ s with pool := s.pool.removeWaiter (cfg.address call) call }.setPhase call
          (.done (.error (.pool (cfg.address call) err))))
  | send {call attempt conn written} (hphase : s.phases call = .send attempt conn) :
      Taken cfg s (.send call written) (s.send cfg call attempt conn written)
  | remove {call attempt conn} (hphase : s.phases call = .remove attempt conn) :
      Taken cfg s (.remove call) (s.remove cfg call attempt conn)
  | receive {call attempt conn arrived stream resp} (hphase : s.phases call = .receive attempt conn)
      (hframe : receiveFrame cfg.maxMessageSize (s.wires conn).stream arrived = (stream, resp)) :
      Taken cfg s (.receive call arrived)
        ((s.setWire conn { s.wires conn with stream }).setPhase call (.put attempt conn resp))
  | put {call attempt conn resp healthy now} (hphase : s.phases call = .put attempt conn resp) :
      Taken cfg s (.put call healthy now) (s.put cfg call attempt conn resp healthy now)
  | expire (call) :
      Taken cfg s (.expire call) { s with expired := update s.expired call true }
  | answer {conn call unanswered} (data : Bytes)
      (hwire : (s.wires conn).unanswered = call :: unanswered) :
      Taken cfg s (.answer conn data)
        { s.setWire conn ⟨unanswered, (s.wires conn).stream ++ frame data⟩ with
          answers := (call, data) :: s.answers }
  | hangUp (conn) :
      Taken cfg s (.hangUp conn) { s with hungUp := update s.hungUp conn true }
  | cleanupIdleConns (address now) :
      Taken cfg s (.cleanupIdleConns address now)
        ({ s with pool := (s.pool.cleanupIdleConns cfg.pool address now).1 }.closeConns
          (s.pool.cleanupIdleConns cfg.pool address now).2)
  | close : Taken cfg s .close { s with pool := s.pool.close, closed := fun _ => true }

variable {phase : Phase} {a : Action} {arrived call attempt conn d : Nat} {unanswered : List Nat}
  {data stream : Bytes} {resp : Except ReceiveError Bytes}

theorem taken_of_step (hstep : s.step cfg a = some t) : Taken cfg s a t := by
  cases a <;> simp only [step, receive, answer] at hstep
  case get | send | remove | put =>
    split at hstep <;> cases hstep
    constructor
    assumption
  case wake | giveUp =>
    split at hstep
    · split at hstep <;> cases hstep
      constructor
      assumption
    · cases hstep
  case receive call arrived =>
    split at hstep
    · rename_i hphase
      split at hstep <;> cases hstep
      exact .receive hphase rfl
    · cases hstep
  case answer conn data =>
    split at hstep
    · rename_i hwire
      split at hstep <;> cases hstep
      exact .answer data hwire
    · cases hstep
  case cleanupIdleConns address now =>
    split at hstep <;> cases hstep
    exact .cleanupIdleConns address now
  case expire | hangUp | close =>
    cases hstep
    constructor

/-! ### Who has which connection -/

/-- The connections as resources: the pool files them under their remote address, and the
    calls hold them. -/
def ledger (s : ClientState) : Lease.Ledger GoString Nat where
  idle := s.pool.idleConns
  held call := (s.phases call).conn
  made := s.dialled

theorem conn_failed_ne (attempt : Nat) (err : RequestError) (i : Nat) :
    (Phase.failed attempt err).conn ≠ some i := by
  unfold Phase.failed
  split <;> exact nofun

theorem conn_received_ne (attempt : Nat) (resp : Except ReceiveError Bytes) (i : Nat) :
    (Phase.received attempt resp).conn ≠ some i := by
  cases resp with
  | ok resp => exact nofun
  | error err => exact conn_failed_ne attempt _ i

/-- A call that goes on with the connection it has, or without one, takes none. -/
theorem move_of_phase (hphases : t.phases = update s.phases call phase)
    (hconn : ∀ i, phase.conn = some i → (s.phases call).conn = some i)
    (hidle : ∀ a, (t.pool.idleConns a).Sublist (s.pool.idleConns a))
    (hdialled : t.dialled = s.dialled) : Lease.Move cfg.remoteAddr s.ledger t.ledger := by
  refine .drop hidle (fun d i hi => ?_) hdialled
  simp only [ledger, hphases] at hi ⊢
  by_cases hd : d = call
  · subst hd
    rw [update_self] at hi
    exact hconn i hi
  · rwa [update_of_ne hd] at hi

theorem held_update_cases {phases : Nat → Phase} {i : Nat}
    (hi : (update phases call (.send attempt conn) d).conn = some i) :
    d = call ∧ i = conn ∨ (phases d).conn = some i := by
  by_cases hd : d = call
  · subst hd
    rw [update_self] at hi
    exact .inl ⟨rfl, (Option.some.inj hi).symm⟩
  · rw [update_of_ne hd] at hi
    exact .inr hi

theorem move_get (dials : Bool) :
    Lease.Move cfg.remoteAddr s.ledger (s.get cfg call attempt dials).ledger := by
  unfold get
  dsimp only
  cases hget : s.pool.get cfg.pool (cfg.address call) call with
  | mk pool result =>
    obtain ⟨conn, rfl, htake, hidle⟩ | ⟨hresult, hidle⟩ := ConnPool.get_cases hget
    · exact .take call (cfg.address call) conn htake hidle (fun _ _ => held_update_cases) rfl
    · have hsub : ∀ a, (pool.idleConns a).Sublist (s.pool.idleConns a) := fun a => by rw [hidle a]
      cases result with
      | conn conn => exact absurd rfl (hresult conn)
      | wait | error => exact move_of_phase rfl (fun _ h => nomatch h) hsub rfl
      | dial =>
        dsimp only
        split
        · -- A dialled connection has a number nobody has seen.
          exact .make call hidle (fun _ _ => held_update_cases) rfl
        · exact move_of_phase rfl (fun _ h => nomatch h)
            (fun a => pool.idleConns_dialFailed (cfg.address call) a ▸ hsub a) rfl

theorem move_put (healthy : Bool) (now : Time) (hphase : s.phases call = .put attempt conn resp) :
    Lease.Move cfg.remoteAddr s.ledger (s.put cfg call attempt conn resp healthy now).ledger := by
  have hconn := conn_received_ne attempt resp
  unfold put
  cases hput : s.pool.put cfg.pool (cfg.remoteAddr conn) conn healthy now with
  | mk pool kept =>
    obtain ⟨rfl, hpark, hidle⟩ | ⟨rfl, hidle⟩ := ConnPool.put_cases hput
    · refine .park call conn (congrArg Phase.conn hphase) hpark hidle (fun d i hi => ?_) rfl
      by_cases hd : d = call
      · -- The call itself holds nothing any more.
        subst hd
        exact absurd (by simpa [ledger, setPhase] using hi) (hconn i)
      · exact ⟨hd, by simpa [ledger, setPhase, hd] using hi⟩
    · exact move_of_phase rfl (fun i hi => absurd hi (hconn i))
        (fun a => hidle a ▸ List.Sublist.refl _) rfl

/-- Every step moves connections as leases move. -/
theorem move_step (hstep : s.step cfg a = some t) :
    Lease.Move cfg.remoteAddr s.ledger t.ledger := by
  have hsame : ∀ a, (s.pool.idleConns a).Sublist (s.pool.idleConns a) := fun _ => .refl _
  cases taken_of_step hstep with
  | get => exact move_get _
  | wake => exact move_of_phase rfl (fun _ h => nomatch h) hsame rfl
  | giveUp =>
    exact move_of_phase rfl (fun _ h => nomatch h)
      (fun a => s.pool.idleConns_removeWaiter _ _ a ▸ List.Sublist.refl _) rfl
  | send hphase =>
    have hconn := congrArg Phase.conn hphase
    unfold send
    split <;> exact move_of_phase rfl (fun _ h => hconn.trans h) hsame rfl
  | remove =>
    exact move_of_phase rfl (fun i h => absurd h (conn_failed_ne _ _ i))
      (s.pool.sublist_idleConns_remove _ _) rfl
  | receive hphase =>
    have hconn := congrArg Phase.conn hphase
    exact move_of_phase rfl (fun _ h => hconn.trans h) hsame rfl
  | put hphase => exact move_put _ _ hphase
  | expire | answer | hangUp => exact .drop hsame (fun _ _ h => h) rfl
  | cleanupIdleConns address now =>
    exact .drop (s.pool.sublist_idleConns_cleanup cfg.pool address now) (fun _ _ h => h) rfl
  | close => exact .drop (fun _ => nil_sublist _) (fun _ _ h => h) rfl

theorem exclusive_initial : Lease.Exclusive cfg.remoteAddr (ledger {}) where
  idle_home h := nomatch h
  idle_nodup _ := nodup_nil
  idle_lt h := nomatch h
  held_lt h := nomatch h
  not_idle h := nomatch h
  holder h := nomatch h

/-- **No sharing.**  In every run a connection is idle or held by one call, never both and
    never by two. -/
theorem exclusive_of_run {as : List Action} (hrun : Runs (step cfg) {} as s) :
    Lease.Exclusive cfg.remoteAddr s.ledger :=
  hrun.invariant (I := fun s => Lease.Exclusive cfg.remoteAddr s.ledger)
    (fun _ _ _ h _ hstep => h.move (move_step hstep)) exclusive_initial

/-! ### Whose response is on its way -/

/-- What a call may rely on, given where it stands.  After a failed `Receive` that is
    nothing. -/
def PhaseOk (s : ClientState) (call : Nat) : Phase → Prop
  | .send _ i => s.wires i = {}
  | .receive _ i => s.wires i = ⟨[call], []⟩ ∨
      ∃ data, (call, data) ∈ s.answers ∧ data.length < 2 ^ 32 ∧ s.wires i = ⟨[], frame data⟩
  | .put _ i (.ok resp) => s.wires i = {} ∧ (call, resp) ∈ s.answers
  | .done (.ok resp) => (call, resp) ∈ s.answers
  | _ => True

/-- Nothing is on its way on the idle connections, and the calls are in order. -/
structure Paired (cfg : ClientConfig) (s : ClientState) : Prop where
  exclusive : Lease.Exclusive cfg.remoteAddr s.ledger
  idle_quiet : ∀ {address i}, i ∈ s.pool.idleConns address → s.wires i = {}
  phase_ok : ∀ call, PhaseOk s call (s.phases call)

theorem paired_initial : Paired cfg {} where
  exclusive := exclusive_initial
  idle_quiet h := nomatch h
  phase_ok _ := trivial

theorem Paired.phase_ok_of (h : Paired cfg s) (hphase : s.phases call = phase) :
    PhaseOk s call phase := hphase ▸ h.phase_ok call

/-- A connection is kept after a failed `Receive` only if nothing is on its way on it. -/
def KeepsQuiet (cfg : ClientConfig) (s : ClientState) : Action → Prop
  | .put call healthy now => ∀ attempt conn err, s.phases call = .put attempt conn (.error err) →
      (s.pool.put cfg.pool (cfg.remoteAddr conn) conn healthy now).2 = true → s.wires conn = {}
  | _ => True

/-- The length of a response fits its `uint32`. -/
def Framed : Action → Prop
  | .answer _ data => data.length < 2 ^ 32
  | _ => True

theorem receiveFrame_nil (maxMessageSize : Int) (arrived : Nat) :
    receiveFrame maxMessageSize [] arrived = ([], .error .interrupted) := by
  simp [receiveFrame]

/-- A `Receive` at the start of a frame reads it whole, or stops within it. -/
theorem receiveFrame_frame_append (maxMessageSize : Int) (rest : Bytes) (arrived : Nat)
    (hlength : data.length < 2 ^ 32) :
    receiveFrame maxMessageSize (frame data ++ rest) arrived =
      if 4 ≤ arrived ∧ data.length > maxMessageSize then
        ((frame data ++ rest).drop 4, .error .messageTooLarge)
      else if arrived < 4 + data.length then
        ((frame data ++ rest).drop arrived, .error .interrupted)
      else (rest, .ok data) := by
  have hinput : ((frame data ++ rest).take arrived).length =
      min arrived (4 + data.length + rest.length) := by
    simp [frame, Nat.add_assoc]
  unfold receiveFrame
  simp only [hinput]
  by_cases hheader : arrived < 4
  · rw [if_pos (by omega), if_neg fun h => absurd hheader (by omega), if_pos (by omega),
      Nat.min_eq_left (by omega)]
  · -- The header is complete.
    have hread : beNat (((frame data ++ rest).take arrived).take 4) = data.length := by
      rw [take_take, Nat.min_eq_left (by omega), frame, append_assoc,
        take_left' (length_beBytes 4 _)]
      exact beNat_beBytes_of_lt hlength
    rw [if_neg (by omega), hread]
    refine if_congr (by simp [Nat.not_lt.mp hheader]) rfl ?_
    by_cases hpart : arrived < 4 + data.length
    · rw [if_pos (by omega), if_pos hpart, Nat.min_eq_left (by omega)]
    · have hpayload : (((frame data ++ rest).take arrived).drop 4).take data.length = data := by
        rw [drop_take, take_take, Nat.min_eq_left (by omega), frame, append_assoc,
          drop_left' (length_beBytes 4 _), take_left]
      have hrest : (frame data ++ rest).drop (4 + data.length) = rest :=
        drop_left' (by simp [frame])
      rw [if_neg (by omega), if_neg hpart, hpayload, hrest]

/-- A frame that is received is received whole. -/
theorem receiveFrame_frame {maxMessageSize : Int} {resp : Bytes} (hlength : data.length < 2 ^ 32)
    (h : receiveFrame maxMessageSize (frame data) arrived = (stream, .ok resp)) :
    stream = [] ∧ resp = data := by
  rw [← append_nil (frame data), receiveFrame_frame_append _ _ _ hlength] at h
  split at h
  · exact nomatch (Prod.mk.inj h).2
  · split at h
    · exact nomatch (Prod.mk.inj h).2
    · cases h
      exact ⟨rfl, rfl⟩

/-- Other calls do not notice a step that leaves their connections and answers alone. -/
theorem PhaseOk.mono (h : PhaseOk s call phase)
    (hwires : ∀ i, phase.conn = some i → t.wires i = s.wires i)
    (hanswers : ∀ x ∈ s.answers, x ∈ t.answers) : PhaseOk t call phase := by
  cases phase with
  | get | wait | remove => trivial
  | send attempt i => exact (hwires i rfl).trans h
  | receive attempt i =>
    simp only [PhaseOk, hwires i rfl] at h ⊢
    exact h.imp id fun ⟨data, hdata, hrest⟩ => ⟨data, hanswers _ hdata, hrest⟩
  | put attempt i resp =>
    cases resp with
    | ok resp => exact ⟨(hwires i rfl).trans h.1, hanswers _ h.2⟩
    | error err => trivial
  | done result =>
    cases result with
    | ok resp => exact hanswers _ h
    | error err => trivial

/-- A step of one call, on the connection it holds or a new one. -/
theorem Paired.of_call (h : Paired cfg s) (hstep : s.step cfg a = some t)
    (hphases : t.phases = update s.phases call phase) (hanswers : t.answers = s.answers)
    (hwires : ∀ i, (s.phases call).conn ≠ some i → i < s.dialled → t.wires i = s.wires i)
    (hidle : ∀ address i, i ∈ t.pool.idleConns address →
      i ∈ s.pool.idleConns address ∨ t.wires i = {}) (hok : PhaseOk t call phase) :
    Paired cfg t where
  exclusive := h.exclusive.move (move_step hstep)
  idle_quiet hi := by
    obtain hold | hquiet := hidle _ _ hi
    · -- The step leaves this wire alone: the call does not hold an idle connection.
      rw [hwires _ (fun hheld => h.exclusive.not_idle hheld _ hold) (h.exclusive.idle_lt hold)]
      exact h.idle_quiet hold
    · exact hquiet
  phase_ok d := by
    rw [hphases]
    by_cases hd : d = call
    · subst hd
      rwa [update_self]
    · rw [update_of_ne hd]
      -- The connection of another call is not the one this call holds.
      refine (h.phase_ok d).mono (fun i hi => ?_) (fun _ hx => hanswers ▸ hx)
      exact hwires i (fun hheld => hd (h.exclusive.holder hi hheld)) (h.exclusive.held_lt hi)

/-- A step that concerns no call. -/
theorem Paired.of_same (h : Paired cfg s) (hstep : s.step cfg a = some t)
    (hphases : t.phases = s.phases) (hanswers : t.answers = s.answers) (hwires : t.wires = s.wires)
    (hidle : ∀ address, (t.pool.idleConns address).Sublist (s.pool.idleConns address)) :
    Paired cfg t where
  exclusive := h.exclusive.move (move_step hstep)
  idle_quiet hi := hwires ▸ h.idle_quiet ((hidle _).subset hi)
  phase_ok d := by
    rw [hphases]
    exact (h.phase_ok d).mono (fun i _ => by rw [hwires]) (fun _ hx => hanswers ▸ hx)

theorem Paired.get (h : Paired cfg s) {dials : Bool}
    (hstep : s.step cfg (.get call dials) = some (s.get cfg call attempt dials)) :
    Paired cfg (s.get cfg call attempt dials) := by
  unfold ClientState.get at hstep ⊢
  dsimp only at hstep ⊢
  cases hget : s.pool.get cfg.pool (cfg.address call) call with
  | mk pool result =>
    rw [hget] at hstep
    have hidle : ∀ address i, i ∈ pool.idleConns address → i ∈ s.pool.idleConns address :=
      fun _ _ => ConnPool.mem_idleConns_of_get hget
    cases result with
    | conn conn =>
      have hconn : conn ∈ s.pool.idleConns (cfg.address call) := by
        obtain ⟨_, heq, htake, -⟩ | ⟨hresult, -⟩ := ConnPool.get_cases hget
        · cases heq
          exact htake ▸ mem_cons_self
        · exact absurd rfl (hresult conn)
      exact h.of_call hstep rfl rfl (fun _ _ _ => rfl) (fun a i hi => .inl (hidle a i hi))
        (h.idle_quiet hconn)
    | wait | error =>
      exact h.of_call hstep rfl rfl (fun _ _ _ => rfl) (fun a i hi => .inl (hidle a i hi)) trivial
    | dial =>
      dsimp only at hstep ⊢
      split at hstep
      · rename_i hdials
        rw [if_pos hdials]
        refine h.of_call hstep rfl rfl (fun i _ hi => ?_) (fun a i hi => .inl (hidle a i hi)) ?_
        · exact update_of_ne (Nat.ne_of_lt hi) _ _
        · exact update_self ..
      · rename_i hdials
        rw [if_neg hdials]
        refine h.of_call hstep rfl rfl (fun _ _ _ => rfl) (fun a i hi => .inl (hidle a i ?_)) trivial
        rwa [← pool.idleConns_dialFailed (cfg.address call)]

theorem Paired.send (h : Paired cfg s) {written : Bool}
    (hphase : s.phases call = .send attempt conn)
    (hstep : s.step cfg (.send call written) = some (s.send cfg call attempt conn written)) :
    Paired cfg (s.send cfg call attempt conn written) := by
  have hquiet : s.wires conn = {} := h.phase_ok_of hphase
  unfold ClientState.send at hstep ⊢
  split at hstep
  · rename_i hsent
    rw [if_pos hsent]
    refine h.of_call hstep rfl rfl (fun i hi _ => ?_) (fun _ _ hi => .inl hi) (.inl ?_)
    · rw [hphase] at hi
      exact update_of_ne (fun heq => hi (congrArg some heq.symm)) _ _
    · simp [setPhase, setWire, hquiet]
  · rename_i hsent
    rw [if_neg hsent]
    exact h.of_call hstep rfl rfl (fun _ _ _ => rfl) (fun _ _ hi => .inl hi) trivial

theorem Paired.receive (h : Paired cfg s) (hphase : s.phases call = .receive attempt conn)
    (hframe : receiveFrame cfg.maxMessageSize (s.wires conn).stream arrived = (stream, resp))
    (hstep : s.step cfg (.receive call arrived) =
      some ((s.setWire conn { s.wires conn with stream }).setPhase call (.put attempt conn resp))) :
    Paired cfg
      ((s.setWire conn { s.wires conn with stream }).setPhase call (.put attempt conn resp)) := by
  refine h.of_call hstep rfl rfl (fun i hi _ => ?_) (fun _ _ hi => .inl hi) ?_
  · rw [hphase] at hi
    exact update_of_ne (fun heq => hi (congrArg some heq.symm)) _ _
  · cases resp with
    | error err => trivial
    | ok resp =>
      obtain hwire | ⟨data, hdata, hlength, hwire⟩ := h.phase_ok_of hphase
      · -- No byte has been written yet.
        rw [hwire, receiveFrame_nil] at hframe
        exact nomatch (Prod.mk.inj hframe).2
      · rw [hwire] at hframe
        obtain ⟨rfl, rfl⟩ := receiveFrame_frame hlength hframe
        exact ⟨by simp [setPhase, setWire, hwire], hdata⟩

theorem Paired.put (h : Paired cfg s) {healthy : Bool} {now : Time}
    (hphase : s.phases call = .put attempt conn resp)
    (hkeeps : KeepsQuiet cfg s (.put call healthy now))
    (hstep : s.step cfg (.put call healthy now) =
      some (s.put cfg call attempt conn resp healthy now)) :
    Paired cfg (s.put cfg call attempt conn resp healthy now) := by
  have hresp := h.phase_ok_of hphase
  have hok : PhaseOk s call (.received attempt resp) := by
    cases resp with
    | ok resp => exact hresp.2
    | error err =>
      unfold Phase.received Phase.failed
      dsimp only
      split <;> trivial
  unfold ClientState.put at hstep ⊢
  cases hput : s.pool.put cfg.pool (cfg.remoteAddr conn) conn healthy now with
  | mk pool kept =>
    rw [hput] at hstep
    obtain ⟨rfl, hpark, hidle⟩ | ⟨rfl, hidle⟩ := ConnPool.put_cases hput
    · -- After a response the wire is empty; after an error the pool must not have kept it.
      have hquiet : s.wires conn = {} := by
        cases resp with
        | ok resp => exact hresp.1
        | error err => exact hkeeps attempt conn err hphase (congrArg Prod.snd hput)
      refine h.of_call hstep rfl rfl (fun _ _ _ => rfl) (fun a i hi => ?_) ?_
      · by_cases ha : a = cfg.remoteAddr conn
        · subst ha
          cases mem_cons.mp (hpark ▸ hi) with
          | inl heq => exact .inr (heq ▸ hquiet)
          | inr hold => exact .inl hold
        · exact .inl (hidle a ha ▸ hi)
      · exact hok.mono (fun _ _ => rfl) (fun _ hx => hx)
    · exact h.of_call hstep rfl rfl (fun _ _ _ => rfl) (fun a i hi => .inl (hidle a ▸ hi))
        (hok.mono (fun _ _ => rfl) fun _ hx => hx)

/-- An answer is for the call that holds the connection, if that call relies on it. -/
theorem PhaseOk.answer (h : PhaseOk s d phase) (hconn : phase.conn = some conn)
    (hwire : (s.wires conn).unanswered = call :: unanswered) (hlength : data.length < 2 ^ 32) :
    PhaseOk { s.setWire conn ⟨unanswered, (s.wires conn).stream ++ frame data⟩ with
      answers := (call, data) :: s.answers } d phase := by
  have hbusy : s.wires conn ≠ {} := by
    intro hquiet
    rw [hquiet] at hwire
    exact nomatch hwire
  cases phase with
  | get | wait | done => exact nomatch hconn
  | remove => trivial
  | send attempt i =>
    cases hconn
    exact absurd h hbusy
  | put attempt i resp =>
    cases resp with
    | error err => trivial
    | ok resp =>
      cases hconn
      exact absurd h.1 hbusy
  | receive attempt i =>
    cases hconn
    obtain hsent | ⟨data', -, -, hanswered⟩ := h
    · -- The only request on the connection is the one this call has sent.
      rw [hsent] at hwire ⊢
      cases hwire
      exact .inr ⟨data, mem_cons_self, hlength, update_self ..⟩
    · rw [hanswered] at hwire
      exact nomatch hwire

theorem Paired.answer (h : Paired cfg s) (hwire : (s.wires conn).unanswered = call :: unanswered)
    (hlength : data.length < 2 ^ 32) (hstep : s.step cfg (.answer conn data) =
      some { s.setWire conn ⟨unanswered, (s.wires conn).stream ++ frame data⟩ with
        answers := (call, data) :: s.answers }) :
    Paired cfg { s.setWire conn ⟨unanswered, (s.wires conn).stream ++ frame data⟩ with
      answers := (call, data) :: s.answers } where
  exclusive := h.exclusive.move (move_step hstep)
  idle_quiet {address i} hi := by
    have hquiet : s.wires i = {} := h.idle_quiet hi
    -- A connection with an unanswered request is not quiet, so it is not idle.
    have hne : i ≠ conn := by
      rintro rfl
      rw [hquiet] at hwire
      exact nomatch hwire
    exact (update_of_ne hne _ _).trans hquiet
  phase_ok d := by
    by_cases hconn : (s.phases d).conn = some conn
    · exact (h.phase_ok d).answer hconn hwire hlength
    · refine (h.phase_ok d).mono (fun i hi => ?_) (fun _ hx => mem_cons_of_mem _ hx)
      have hne : i ≠ conn := by
        rintro rfl
        exact hconn hi
      exact update_of_ne hne _ _

theorem Paired.step (h : Paired cfg s) (hframed : Framed a) (hkeeps : KeepsQuiet cfg s a)
    (hstep : s.step cfg a = some t) : Paired cfg t := by
  cases taken_of_step hstep with
  | get => exact h.get hstep
  | wake => exact h.of_call hstep rfl rfl (fun _ _ _ => rfl) (fun _ _ hi => .inl hi) trivial
  | giveUp =>
    refine h.of_call hstep rfl rfl (fun _ _ _ => rfl) (fun a i hi => .inl ?_) trivial
    rwa [← s.pool.idleConns_removeWaiter]
  | send hphase => exact h.send hphase hstep
  | remove =>
    refine h.of_call hstep rfl rfl (fun _ _ _ => rfl) (fun a i hi => .inl ?_) ?_
    · exact (s.pool.sublist_idleConns_remove _ _ a).subset hi
    · unfold Phase.failed
      split <;> trivial
  | receive hphase hframe => exact h.receive hphase hframe hstep
  | put hphase => exact h.put hphase hkeeps hstep
  | expire | hangUp => exact h.of_same hstep rfl rfl rfl fun _ => .refl _
  | answer data hwire => exact h.answer hwire hframed hstep
  | cleanupIdleConns address now =>
    exact h.of_same hstep rfl rfl rfl (s.pool.sublist_idleConns_cleanup cfg.pool address now)
  | close => exact h.of_same hstep rfl rfl rfl fun _ => nil_sublist _

/-- **Whose response a call returns.**  In every run in which no connection on which a
    response may still come is kept after a failed `Receive`, and no response is too long
    for a frame, a call that returns without error returns what a server wrote in answer to
    its own request. -/
theorem answered_of_done {as : List Action}
    (hrun : GuardedRun (step cfg) (fun s a => Framed a ∧ KeepsQuiet cfg s a) {} as s) {call : Nat}
    {resp : Bytes} (hdone : s.phases call = .done (.ok resp)) : (call, resp) ∈ s.answers := by
  have h : Paired cfg s :=
    hrun.invariant (fun _ _ _ h hguard hstep => h.step hguard.1 hguard.2 hstep) paired_initial
  exact h.phase_ok_of hdone

/-- Calls to one address, each with a request of its own. -/
def oneServer : ClientConfig where
  address _ := ascii "n1"
  request call := [UInt8.ofNat call]
  remoteAddr _ := ascii "n1"

/-- Two calls at a time. -/
theorem exclusive_of_two_gets : ∃ s, Runs (step oneServer) {} [.get 0 true, .get 1 true] s ∧
    Lease.Exclusive oneServer.remoteAddr s.ledger :=
  have hrun := runs_of_exec rfl
  ⟨_, hrun, exclusive_of_run hrun⟩

/-- One request and its response. -/
theorem answered_of_one_call : ∃ s : ClientState,
    s.phases 0 = .done (.ok (ascii "a")) ∧ (0, ascii "a") ∈ s.answers := by
  have hrun : GuardedRun (step oneServer) (fun s a => Framed a ∧ KeepsQuiet oneServer s a) {}
      [.get 0 true, .send 0 true, .answer 0 (ascii "a"), .receive 0 5, .put 0 true 0] _ :=
    .cons ⟨trivial, trivial⟩ rfl (.cons ⟨trivial, trivial⟩ rfl
      (.cons ⟨by unfold Framed; decide, trivial⟩ rfl (.cons ⟨trivial, trivial⟩ rfl
        (.cons ⟨trivial, fun _ _ _ h => nomatch h⟩ rfl (.nil _)))))
  exact ⟨_, rfl, answered_of_done hrun rfl⟩

/-- Call 0 sends its request and its deadline passes before the response comes; call 1
    gets the connection it has put back, and reads the response to call 0. -/
theorem not_answered_after_timeout :
    ¬ ∀ (as : List Action) (s : ClientState),
      GuardedRun (step oneServer) (fun _ a => Framed a) {} as s → ∀ (call : Nat) (resp : Bytes),
      s.phases call = .done (.ok resp) → (call, resp) ∈ s.answers := by
  intro hall
  have hrun : GuardedRun (step oneServer) (fun _ a => Framed a) {}
      [.get 0 true, .send 0 true, .expire 0, .receive 0 0, .put 0 true 0, .get 1 true,
        .send 1 true, .answer 0 (ascii "a"), .receive 1 5, .put 1 true 0] _ :=
    .cons trivial rfl (.cons trivial rfl (.cons trivial rfl (.cons trivial rfl (.cons trivial rfl
      (.cons trivial rfl (.cons trivial rfl (.cons (by unfold Framed; decide) rfl
        (.cons trivial rfl (.cons trivial rfl (.nil _))))))))))
  exact absurd (hall _ _ hrun 1 (ascii "a") rfl) (by decide)

end ClientState

end GridKV
