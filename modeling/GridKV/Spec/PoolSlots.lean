import GridKV.ForStd.Run
import GridKV.Model.ConnPool

/-!
# The slots of the connection pool

`Get` counts a connection under the address it is asked for, `Put` and `Remove` under the
address the connection reports.  If every connection that is dialled reports the address
it was dialled with, the active count of an address is the number of connections that
are out for it.  A connection that reports another address, as one to a host name does,
takes a slot of the one address and gives back a slot of the other.
-/

namespace GridKV

open Go Run List Function

namespace ConnPool

variable {cfg : PoolConfig} {p : ConnPool} {address : GoString} {call : Nat}

theorem setPool_self (p : ConnPool) (address : GoString) :
    p.setPool address (p.pools address) = p := by
  rw [setPool, update_eq_self]

theorem setPool_setPool (ap ap' : AddrPool) :
    (p.setPool address ap).setPool address ap' = p.setPool address ap' := by
  simp only [setPool, update_idem]

theorem pools_setPool (ap : AddrPool) : (p.setPool address ap).pools address = ap :=
  update_self ..

theorem pools_setPool_of_ne {p : ConnPool} {address a : GoString} {ap : AddrPool}
    (h : a ≠ address) : (p.setPool address ap).pools a = p.pools a :=
  update_of_ne h ..

/-- All slots of the address are taken. -/
def Full (cfg : PoolConfig) (p : ConnPool) (address : GoString) : Prop :=
  cfg.maxActive > 0 ∧ (p.pools address).active ≥ cfg.maxActive

theorem get_of_idle {ic : IdleConn} {idle : List IdleConn} (hopened : p.closed = false)
    (hidle : (p.pools address).idle = ic :: idle) :
    p.get cfg address call =
      (p.setPool address { p.pools address with idle, active := (p.pools address).active + 1 },
        .conn ic.conn) := by
  simp only [get, hopened, hidle, Bool.false_eq_true, if_false]

theorem get_of_full (hopened : p.closed = false) (hidle : (p.pools address).idle = [])
    (hfull : Full cfg p address) :
    p.get cfg address call =
      if cfg.waitTimeout > 0 then
        (p.setPool address
          { p.pools address with waiters := (p.pools address).waiters ++ [call] }, .wait)
      else (p, .error .exhausted) := by
  simp only [get, hopened, hidle, Bool.false_eq_true, if_false]
  exact if_pos hfull

theorem get_of_not_full (hopened : p.closed = false) (hidle : (p.pools address).idle = [])
    (hfull : ¬Full cfg p address) :
    p.get cfg address call =
      (p.setPool address { p.pools address with active := (p.pools address).active + 1 },
        .dial) := by
  simp only [get, hopened, hidle, Bool.false_eq_true, if_false]
  exact if_neg hfull

end ConnPool

/-- A connection that is out, and the address it was obtained for. -/
structure HeldConn where
  conn : Nat
  address : GoString
  deriving DecidableEq, Repr

/-- The pool and the connections that are out.  Dialled connections are numbered. -/
structure PoolUse where
  pool : ConnPool := {}
  held : List HeldConn := []
  dialled : Nat := 0

/-- The calls of the users of the pool, one after the other, and the visits of the cleanup
    loop. -/
inductive PoolCall where
  | get (address : GoString) (dialOk ctxDone : Bool)
  | put (conn : Nat) (healthy : Bool) (now : Time)
  | remove (conn : Nat)
  | cleanup (address : GoString) (now : Time)

namespace PoolUse

variable {conn : Nat} {ap : AddrPool}

/-- The number of connections that are out for an address. -/
def outstanding (s : PoolUse) (address : GoString) : Nat :=
  s.held.countP fun held => held.address = address

/-- The answer of `Get`; no other call is in progress, so any number serves for this one. -/
def answer (cfg : PoolConfig) (s : PoolUse) (address : GoString) (dialOk ctxDone : Bool) :
    ConnPool × Except PoolError Nat :=
  s.pool.getAlone cfg address 0 (if dialOk then some s.dialled else none) ctxDone

/-- `Get`, after which the caller has the connection it was given. -/
def get (cfg : PoolConfig) (s : PoolUse) (address : GoString) (dialOk ctxDone : Bool) : PoolUse :=
  match s.answer cfg address dialOk ctxDone with
  | (pool, .ok conn) =>
    { pool, held := ⟨conn, address⟩ :: s.held, dialled := max s.dialled (conn + 1) }
  | (pool, .error _) => { s with pool }

/-- The connection is out: who returns it no longer has it. -/
def giveBack (s : PoolUse) (conn : Nat) : Option PoolUse :=
  match s.held.find? fun held => held.conn = conn with
  | none => none
  | some held => some { s with held := s.held.erase held }

/-- The calls, with `remoteAddr` the address each connection reports.  A connection can be
    returned only by who has it. -/
def step (cfg : PoolConfig) (remoteAddr : Nat → GoString) (s : PoolUse) :
    PoolCall → Option PoolUse
  | .get address dialOk ctxDone => some (s.get cfg address dialOk ctxDone)
  | .put conn healthy now =>
    (s.giveBack conn).map fun t =>
      { t with pool := (s.pool.put cfg (remoteAddr conn) conn healthy now).1 }
  | .remove conn =>
    (s.giveBack conn).map fun t => { t with pool := s.pool.remove (remoteAddr conn) conn }
  | .cleanup address now => some { s with pool := (s.pool.cleanupIdleConns cfg address now).1 }

/-- A connection that is dialled reports the address it is dialled with. -/
def DialsAs (cfg : PoolConfig) (remoteAddr : Nat → GoString) (s : PoolUse) : PoolCall → Prop
  | .get address dialOk _ =>
    (s.pool.get cfg address 0).2 = .dial → dialOk → remoteAddr s.dialled = address
  | _ => True

/-- Every connection is idle or out under the address it reports, and the active counts
    are the numbers of connections that are out. -/
structure Inv (remoteAddr : Nat → GoString) (s : PoolUse) : Prop where
  opened : s.pool.closed = false
  filed : ∀ address, ∀ ic ∈ (s.pool.pools address).idle, remoteAddr ic.conn = address
  owned : ∀ held ∈ s.held, remoteAddr held.conn = held.address
  counted : ∀ address, (s.pool.pools address).active = s.outstanding address

variable {cfg : PoolConfig} {remoteAddr : Nat → GoString} {s t : PoolUse} {address : GoString}

/-! ### The pieces of a step -/

/-- The change of the pool of one address. -/
theorem Inv.setPool (h : Inv remoteAddr s) (hpool : t.pool = s.pool.setPool address ap)
    (hidle : ∀ ic ∈ ap.idle, remoteAddr ic.conn = address)
    (howned : ∀ held ∈ t.held, remoteAddr held.conn = held.address)
    (hactive : ap.active = t.outstanding address)
    (hrest : ∀ b, b ≠ address → t.outstanding b = s.outstanding b) : Inv remoteAddr t := by
  have hself : t.pool.pools address = ap := by
    rw [hpool]
    exact update_self ..
  have hother : ∀ b, b ≠ address → t.pool.pools b = s.pool.pools b := by
    intro b hb
    rw [hpool]
    exact update_of_ne hb ..
  refine ⟨?_, fun b => ?_, howned, fun b => ?_⟩
  · rw [hpool]
    exact h.opened
  · by_cases hb : b = address
    · subst hb
      rwa [hself]
    · rw [hother b hb]
      exact h.filed b
  · by_cases hb : b = address
    · subst hb
      rwa [hself]
    · rw [hother b hb, hrest b hb]
      exact h.counted b

theorem outstanding_take (ht : t.held = ⟨conn, address⟩ :: s.held) (b : GoString) :
    t.outstanding b = s.outstanding b + if address = b then 1 else 0 := by
  simp only [outstanding, ht, countP_cons, decide_eq_true_eq]

/-- Whoever returns a connection has had it, and has it no longer. -/
theorem giveBack_spec (h : Inv remoteAddr s) (ht : s.giveBack conn = some t) :
    (∀ held ∈ t.held, remoteAddr held.conn = held.address) ∧
      t.outstanding (remoteAddr conn) + 1 = s.outstanding (remoteAddr conn) ∧
      ∀ b, b ≠ remoteAddr conn → t.outstanding b = s.outstanding b := by
  unfold giveBack at ht
  split at ht <;> cases ht
  rename_i held hfind
  have hmem : held ∈ s.held := mem_of_find?_eq_some hfind
  have hconn : held.conn = conn := by
    simpa using find?_some hfind
  have haddress : held.address = remoteAddr conn := by
    rw [← h.owned held hmem, hconn]
  have herase : ∀ b, outstanding { s with held := s.held.erase held } b =
      s.outstanding b - if held.address = b then 1 else 0 := by
    intro b
    simp only [outstanding, countP_erase, hmem, true_and, decide_eq_true_eq]
  refine ⟨fun other hother => h.owned other (mem_of_mem_erase hother), ?_, ?_⟩
  · have hpos : 0 < s.outstanding (remoteAddr conn) :=
      countP_pos_iff.mpr ⟨held, hmem, decide_eq_true haddress⟩
    rw [herase, if_pos haddress]
    omega
  · intro b hb
    rw [herase, if_neg (fun heq => hb (heq.symm.trans haddress))]
    rfl

/-- What a call of `Get` does: it hands out a connection that is idle, or one it dials, or
    none. -/
theorem get_cases (cfg : PoolConfig) (address : GoString) (dialOk ctxDone : Bool)
    (hopened : s.pool.closed = false) :
    (∃ ic idle, (s.pool.pools address).idle = ic :: idle ∧
      (s.get cfg address dialOk ctxDone).held = ⟨ic.conn, address⟩ :: s.held ∧
      (s.get cfg address dialOk ctxDone).pool = s.pool.setPool address
        { s.pool.pools address with idle, active := (s.pool.pools address).active + 1 }) ∨
    ((s.pool.get cfg address 0).2 = .dial ∧ dialOk ∧
      (s.get cfg address dialOk ctxDone).held = ⟨s.dialled, address⟩ :: s.held ∧
      (s.get cfg address dialOk ctxDone).pool = s.pool.setPool address
        { s.pool.pools address with active := (s.pool.pools address).active + 1 }) ∨
    ∃ waiters, (s.get cfg address dialOk ctxDone).held = s.held ∧
      (s.get cfg address dialOk ctxDone).pool = s.pool.setPool address
        { s.pool.pools address with waiters } := by
  by_cases hidle : (s.pool.pools address).idle = []
  · by_cases hfull : ConnPool.Full cfg s.pool address
    · have hget : s.pool.get cfg address 0 = _ := ConnPool.get_of_full hopened hidle hfull
      by_cases hwait : cfg.waitTimeout > 0
      · -- The call waits in vain and leaves the queue again.
        rw [if_pos hwait] at hget
        refine .inr (.inr ⟨((s.pool.pools address).waiters ++ [0]).erase 0, ?_⟩)
        simp only [get, answer, ConnPool.getAlone, hget, ConnPool.removeWaiter,
          ConnPool.setPool_setPool, ConnPool.pools_setPool, and_self]
      · rw [if_neg hwait] at hget
        refine .inr (.inr ⟨(s.pool.pools address).waiters, ?_⟩)
        simp only [get, answer, ConnPool.getAlone, hget, true_and]
        exact (ConnPool.setPool_self s.pool address).symm
    · have hget : s.pool.get cfg address 0 = _ := ConnPool.get_of_not_full hopened hidle hfull
      cases dialOk with
      | true =>
        refine .inr (.inl ?_)
        simp only [get, answer, ConnPool.getAlone, hget, if_true, and_self]
      | false =>
        -- The slot taken for the dial is given back.
        refine .inr (.inr ⟨(s.pool.pools address).waiters, ?_⟩)
        simp only [get, answer, ConnPool.getAlone, hget, ConnPool.dialFailed,
          ConnPool.setPool_setPool, ConnPool.pools_setPool, Bool.false_eq_true, if_false,
          Int.add_sub_cancel, and_self]
  · obtain ⟨ic, idle, hcons⟩ := exists_cons_of_ne_nil hidle
    have hget : s.pool.get cfg address 0 = _ := ConnPool.get_of_idle hopened hcons
    refine .inl ⟨ic, idle, hcons, ?_⟩
    simp only [get, answer, ConnPool.getAlone, hget, and_self]

/-! ### One step -/

theorem inv_get {dialOk ctxDone : Bool} (h : Inv remoteAddr s)
    (hdials : (s.pool.get cfg address 0).2 = .dial → dialOk → remoteAddr s.dialled = address) :
    Inv remoteAddr (s.get cfg address dialOk ctxDone) := by
  -- A connection that is handed out reports the address, and is one more on both sides.
  have hout : ∀ {conn : Nat} {ap : AddrPool}, remoteAddr conn = address →
      (s.get cfg address dialOk ctxDone).held = ⟨conn, address⟩ :: s.held →
      (s.get cfg address dialOk ctxDone).pool = s.pool.setPool address ap →
      (∀ ic ∈ ap.idle, remoteAddr ic.conn = address) →
      ap.active = (s.pool.pools address).active + 1 →
      Inv remoteAddr (s.get cfg address dialOk ctxDone) := by
    intro conn ap hconn hheld hpool hidle hactive
    apply h.setPool hpool hidle
    · intro held hmem
      rw [hheld] at hmem
      obtain rfl | hmem := mem_cons.mp hmem
      · exact hconn
      · exact h.owned held hmem
    · rw [hactive, h.counted, outstanding_take hheld, if_pos rfl]
      rfl
    · intro b hb
      rw [outstanding_take hheld, if_neg hb.symm, Nat.add_zero]
  obtain ⟨ic, idle, hidle, hheld, hpool⟩ | ⟨hdial, hok, hheld, hpool⟩ | ⟨waiters, hheld, hpool⟩ :=
    get_cases cfg address dialOk ctxDone h.opened
  · -- What is idle under the address was put there because it reports the address.
    have hfiled := h.filed address
    rw [hidle] at hfiled
    exact hout (hfiled ic mem_cons_self) hheld hpool
      (fun ic' hmem => hfiled ic' (mem_cons_of_mem ic hmem)) rfl
  · exact hout (hdials hdial hok) hheld hpool (h.filed address) rfl
  · have hsame : ∀ b, (s.get cfg address dialOk ctxDone).outstanding b = s.outstanding b := by
      intro b
      rw [outstanding, hheld]
      rfl
    apply h.setPool hpool (h.filed address)
    · rw [hheld]
      exact h.owned
    · rw [hsame]
      exact h.counted address
    · exact fun b _ => hsame b

/-- A connection that comes back is one less on both sides. -/
theorem inv_giveBack (h : Inv remoteAddr s) (ht : s.giveBack conn = some t)
    (hidle : ∀ ic ∈ ap.idle, remoteAddr ic.conn = remoteAddr conn)
    (hactive : ap.active = (s.pool.pools (remoteAddr conn)).active - 1) :
    Inv remoteAddr { t with pool := s.pool.setPool (remoteAddr conn) ap } := by
  obtain ⟨howned, hone, hrest⟩ := giveBack_spec h ht
  have hcounted := h.counted (remoteAddr conn)
  apply h.setPool rfl hidle
  · exact howned
  · show ap.active = t.outstanding (remoteAddr conn)
    omega
  · exact hrest

theorem inv_put (healthy : Bool) (now : Time) (h : Inv remoteAddr s)
    (ht : s.giveBack conn = some t) :
    Inv remoteAddr { t with pool := (s.pool.put cfg (remoteAddr conn) conn healthy now).1 } := by
  have hfiled := h.filed (remoteAddr conn)
  simp only [ConnPool.put, h.opened, Bool.false_eq_true, if_false]
  split
  · split
    · exact inv_giveBack h ht hfiled rfl
    · -- The connection is kept, under the address it reports.
      apply inv_giveBack h ht ?_ rfl
      intro ic hmem
      obtain rfl | hmem := mem_cons.mp hmem
      · rfl
      · exact hfiled ic hmem
  · exact inv_giveBack h ht hfiled rfl

theorem inv_remove (h : Inv remoteAddr s) (ht : s.giveBack conn = some t) :
    Inv remoteAddr { t with pool := s.pool.remove (remoteAddr conn) conn } := by
  -- The connection is out, so the count is positive and `Remove` does not look elsewhere.
  have hpos : (s.pool.pools (remoteAddr conn)).active > 0 := by
    have hone := (giveBack_spec h ht).2.1
    have hcounted := h.counted (remoteAddr conn)
    omega
  rw [ConnPool.remove, if_pos hpos]
  exact inv_giveBack h ht (h.filed (remoteAddr conn)) rfl

theorem inv_cleanup (address : GoString) (now : Time) (h : Inv remoteAddr s) :
    Inv remoteAddr { s with pool := (s.pool.cleanupIdleConns cfg address now).1 } := by
  apply h.setPool rfl
  · exact fun ic hmem => h.filed address ic (mem_of_mem_filter hmem)
  · exact h.owned
  · exact h.counted address
  · exact fun b _ => rfl

theorem inv_step {call : PoolCall} (h : Inv remoteAddr s) (hguard : DialsAs cfg remoteAddr s call)
    (hstep : step cfg remoteAddr s call = some t) : Inv remoteAddr t := by
  cases call with
  | get address dialOk ctxDone =>
    cases hstep
    exact inv_get h hguard
  | put conn healthy now =>
    obtain ⟨u, hu, rfl⟩ := Option.map_eq_some_iff.mp hstep
    exact inv_put healthy now h hu
  | remove conn =>
    obtain ⟨u, hu, rfl⟩ := Option.map_eq_some_iff.mp hstep
    exact inv_remove h hu
  | cleanup address now =>
    cases hstep
    exact inv_cleanup address now h

/-! ### Whole runs -/

theorem inv_new : Inv remoteAddr {} where
  opened := rfl
  filed _ _ hmem := nomatch hmem
  owned _ hmem := nomatch hmem
  counted _ := rfl

/-- With no connection out, the address has a slot. -/
theorem Inv.not_exhausted (h : Inv remoteAddr s) (hnone : s.outstanding address = 0)
    (dialOk ctxDone : Bool) : (s.answer cfg address dialOk ctxDone).2 ≠ .error .exhausted := by
  have hactive : (s.pool.pools address).active = 0 := by
    rw [h.counted, hnone]
    rfl
  by_cases hidle : (s.pool.pools address).idle = []
  · have hfull : ¬ConnPool.Full cfg s.pool address := by
      intro hfull
      obtain ⟨hpos, hle⟩ := hfull
      omega
    have hget : s.pool.get cfg address 0 = _ := ConnPool.get_of_not_full h.opened hidle hfull
    cases dialOk <;> simp [answer, ConnPool.getAlone, hget]
  · obtain ⟨ic, idle, hcons⟩ := exists_cons_of_ne_nil hidle
    have hget : s.pool.get cfg address 0 = _ := ConnPool.get_of_idle h.opened hcons
    simp [answer, ConnPool.getAlone, hget]

/-- **Slots.**  Along every sequence of calls on a new pool in which each dialled connection
    reports the address it is dialled with, the active count of an address is the number of
    connections that are out for it, so it is not negative, and with none out `Get` does not
    find the pool exhausted. -/
theorem slots_conserved {calls : List PoolCall}
    (hrun : GuardedRun (step cfg remoteAddr) (DialsAs cfg remoteAddr) {} calls s)
    (address : GoString) :
    (s.pool.pools address).active = s.outstanding address ∧
    0 ≤ (s.pool.pools address).active ∧
    (s.outstanding address = 0 →
      ∀ dialOk ctxDone, (s.answer cfg address dialOk ctxDone).2 ≠ .error .exhausted) := by
  have hinv : Inv remoteAddr s :=
    hrun.invariant (fun _ _ _ h hguard hstep => inv_step h hguard hstep) inv_new
  have hcounted := hinv.counted address
  refine ⟨hcounted, ?_, fun hnone => hinv.not_exhausted hnone⟩
  rw [hcounted]
  exact Int.natCast_nonneg _

/-- One slot for each address, and nobody waits. -/
def oneSlot : PoolConfig where
  maxActive := 1
  maxIdle := 0
  waitTimeout := 0

/-- Dialled as 127.0.0.1, and returned. -/
theorem slots_conserved_numeric :
    ∃ s, Runs (step oneSlot fun _ => ascii "127.0.0.1:80") {}
        [.get (ascii "127.0.0.1:80") true false, .put 0 true 0] s ∧
      (s.pool.pools (ascii "127.0.0.1:80")).active = 0 ∧
      (s.answer oneSlot (ascii "127.0.0.1:80") true false).2 ≠ .error .exhausted := by
  have hrun : ∃ s, GuardedRun (step oneSlot fun _ => ascii "127.0.0.1:80")
      (DialsAs oneSlot fun _ => ascii "127.0.0.1:80") {}
      [.get (ascii "127.0.0.1:80") true false, .put 0 true 0] s ∧ s.held = [] :=
    ⟨_, .cons (fun _ _ => rfl) rfl (.cons trivial rfl (.nil _)), rfl⟩
  obtain ⟨s, hrun, hheld⟩ := hrun
  have hnone : s.outstanding (ascii "127.0.0.1:80") = 0 := by
    rw [outstanding, hheld]
    rfl
  obtain ⟨hactive, -, hanswer⟩ := slots_conserved hrun (ascii "127.0.0.1:80")
  rw [hnone] at hactive
  exact ⟨s, hrun.runs, hactive, hanswer hnone true false⟩

/-- Dialled as localhost, the connection reports 127.0.0.1 and is returned there: the slot
    of localhost is gone, although nothing is out. -/
theorem slots_lost_to_host_name :
    ∃ s, Runs (step oneSlot fun _ => ascii "127.0.0.1:80") {}
        [.get (ascii "localhost:80") true false, .put 0 true 0] s ∧
      s.held = [] ∧
      (s.pool.pools (ascii "localhost:80")).active = 1 ∧
      (s.pool.pools (ascii "127.0.0.1:80")).active = -1 ∧
      (s.answer oneSlot (ascii "localhost:80") true false).2 = .error .exhausted :=
  ⟨_, runs_of_exec rfl, rfl, rfl, rfl, rfl⟩

end PoolUse

end GridKV
