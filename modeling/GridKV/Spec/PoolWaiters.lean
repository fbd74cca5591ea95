import GridKV.Spec.PoolBalance

/-!
# Waiting for a connection

A `Put` that keeps its connection and the cleanup loop take waiters off the list, subtract
them from `Waiters` and signal them.  A call that is signalled subtracts itself as well, so
that the counter is exact only as long as nobody is woken (`waiters_exact_iff`).  The other
ways to give a connection back, a `Put` that closes it and `Remove`, free a slot and wake
nobody (`wakesOne_iff`).
-/

namespace GridKV

open Go Run Interleave

/-! ### The counter -/

/-- The call is in its bookkeeping after a section. -/
def CallPhase.Updating : CallPhase → Prop
  | .updating _ _ => True
  | _ => False

variable {cfg : PoolConfig} {address : GoString} {call : Nat} {now : Time} {s t : PoolShared}
  {p q : CallPhase}

theorem CallPhase.shares_of_not_updating (h : ¬p.Updating) :
    p.owed .waiters = 0 ∧ p.blocked = if p = .waiting then 1 else 0 := by
  cases p with
  | updating => exact absurd trivial h
  | start | popped | waiting | leaving | dialling | holding | waking | done => exact ⟨rfl, rfl⟩

namespace PoolCalls

variable {cfg : PoolConfig} {n : Nat} {address : Fin n → GoString} {s t : PoolCalls n}
  {a : PoolAction n} {i : Fin n} {w : Nat}

/-- What `Waiters` will be, less what it should be. -/
def surplus (s : PoolCalls n) : Int := s.booked .waiters - ∑ i, (s.phase i).blocked

theorem surplus_new (n : Nat) : (new n).surplus = 0 := by
  simp [surplus, booked, new]

/-- In every step `Waiters` follows the calls that wait, but that it loses those that are
    woken. -/
theorem Ledger.surplus_step (h : s.Ledger address)
    (hstep : PoolCalls.step cfg address s a = some t) :
    t.surplus + (woken cfg address s a).length = s.surplus := by
  obtain ⟨i, q, hphase, ap, made, _, -, hstats, -, -, hbalance⟩ := h.step_changes hstep
  have hbooked := congrFun (booked_update hphase hstats) .waiters
  have hblocked := sum_update (fun _ => CallPhase.blocked) s.phase i q
  have hwaiters := hbalance.waiters
  simp only [Pi.add_apply] at hbooked
  rw [surplus, surplus, hphase]
  omega

/-- A step that wakes nobody: a `Put` that keeps its connection and a visit of the cleanup
    loop that finds a slot free find nobody waiting. -/
def WakesNobody (cfg : PoolConfig) (address : Fin n → GoString) (s : PoolCalls n) :
    PoolAction n → Prop
  | .call i (.put healthy _) =>
    (s.shared.pool.pools (address i)).Keeps cfg healthy →
      (s.shared.pool.pools (address i)).waiters = []
  | .call _ _ => True
  | .cleanup i _ =>
    (s.shared.pool.pools (address i)).active < cfg.maxActive →
      (s.shared.pool.pools (address i)).waiters = []

theorem wakesNobody_iff : WakesNobody cfg address s a ↔ woken cfg address s a = [] := by
  cases a with
  | call i move =>
    cases move with
    | put healthy now =>
      rw [WakesNobody, woken, AddrPool.wokenBy]
      split
      · rename_i hkeeps
        rw [List.take_eq_nil_iff, forall_prop_of_true hkeeps]
        exact ⟨.inr, fun h => h.resolve_left (by decide)⟩
      · rename_i hcloses
        exact iff_of_true (fun hkeeps => absurd hkeeps hcloses) rfl
    | enter | activate | dialled | dialFailed | signalled | timedOut | leave | update | send
    | remove => exact iff_of_true trivial rfl
  | cleanup i now =>
    rw [WakesNobody, woken, PoolShared.wokenByCleanup, List.take_eq_nil_iff]
    split
    · rename_i hroom
      have hsome : min 10 (cfg.maxActive - (s.shared.pool.pools (address i)).active).toNat ≠ 0 := by
        omega
      rw [forall_prop_of_true hroom]
      exact ⟨.inr, fun h => h.resolve_left hsome⟩
    · rename_i hfull
      exact iff_of_true (fun hroom => absurd hroom hfull) (.inl rfl)

/-- `Waiters` is the number of the calls that wait just as long as nobody is woken. -/
theorem waiters_exact_iff {as : List (PoolAction n)} (hrun : Runs (step cfg address) (new n) as s)
    (hsettled : ∀ i, ¬(s.phase i).Updating) :
    s.shared.stats .waiters = (Finset.univ.filter fun i => s.phase i = .waiting).card ↔
      GuardedRun (step cfg address) (WakesNobody cfg address) (new n) as s := by
  have hsurplus : s.surplus = s.shared.stats .waiters -
      (Finset.univ.filter fun i => s.phase i = .waiting).card := by
    have howed : ∑ i, (s.phase i).owed .waiters = 0 :=
      Finset.sum_eq_zero fun i _ => (CallPhase.shares_of_not_updating (hsettled i)).1
    rw [surplus, booked, Pi.add_apply, Finset.sum_apply, howed, add_zero,
      Finset.sum_congr rfl fun i _ => (CallPhase.shares_of_not_updating (hsettled i)).2,
      Finset.sum_boole]
  have hiff : s.surplus = 0 ↔
      GuardedRun (step cfg address) (WakesNobody cfg address) (new n) as s := by
    refine guardedRun_iff (fun s => s.Ledger address ∧ s.surplus = 0)
      (fun s => s.Ledger address ∧ s.surplus < 0) (fun s a t hs hstep => ?_)
      (fun s a t hs hstep => ⟨hs.1.step hstep, ?_⟩) (fun _ hs => hs.2) (fun _ hs => hs.2.ne)
      hrun ⟨ledger_new address, surplus_new n⟩
    · have hless := hs.1.surplus_step hstep
      have hzero := hs.2
      rw [wakesNobody_iff, ← List.length_eq_zero_iff]
      exact ⟨fun h => ⟨hs.1.step hstep, by omega⟩, fun h => ⟨hs.1.step hstep, by omega⟩⟩
    · have hless := hs.1.surplus_step hstep
      have hneg := hs.2
      omega
  rw [← hiff, hsurplus]
  omega

/-- Two calls for one address. -/
def oneAddress (_ : Fin 2) : GoString := ascii "a:7000"

/-- One connection is allowed; the first call has it and the second one waits. -/
def oneWaits (i j : Fin n) : List (PoolAction n) :=
  [.call i .enter, .call i (.dialled 0), .call i .update, .call j .enter]

theorem waiters_exact_oneWaits :
    ∃ s, Runs (step { maxActive := 1 } oneAddress) (new 2) (oneWaits 0 1) s ∧
      s.shared.stats .waiters = (Finset.univ.filter fun i => s.phase i = .waiting).card := by
  obtain ⟨s, hrun, hfirst, hsecond⟩ : ∃ s,
      GuardedRun (step { maxActive := 1 } oneAddress)
        (WakesNobody { maxActive := 1 } oneAddress) (new 2) (oneWaits 0 1) s ∧
      s.phase 0 = .holding 0 ∧ s.phase 1 = .waiting :=
    ⟨_, .cons trivial rfl (.cons trivial rfl (.cons trivial rfl (.cons trivial rfl (.nil _)))),
      rfl, rfl⟩
  refine ⟨s, hrun.runs, (waiters_exact_iff hrun.runs fun i => ?_).mpr hrun⟩
  match i with
  | 0 =>
    rw [hfirst]
    exact not_false
  | 1 =>
    rw [hsecond]
    exact not_false

/-- The call that waits is woken by the `Put` of the other one and gets its connection: no
    call is in progress, and `Waiters` is negative. -/
theorem waiters_negative :
    ∃ s, Runs (step { maxActive := 1 } oneAddress) (new 2)
      (oneWaits 0 1 ++ [.call 0 (.put true 0), .call 0 .send, .call 1 .signalled, .call 1 .update,
        .call 1 .enter, .call 1 .activate, .call 1 .update, .call 1 .update]) s ∧
      s.phase 0 = .done ∧ s.phase 1 = .holding 0 ∧ s.shared.stats .waiters = -1 :=
  ⟨_, runs_of_exec rfl, rfl, rfl, rfl⟩

/-! ### Signals -/

/-- How often a waiter was signalled, or is about to be by call `i`. -/
def notices (i : Fin n) (w : Nat) (s : PoolCalls n) : Nat :=
  s.shared.sent.count w + (s.phase i).unsent.count w

theorem Ledger.notices_step (h : s.Ledger address)
    (hstep : PoolCalls.step cfg address s a = some t) : s.notices i w ≤ t.notices i w := by
  obtain ⟨j, q, hphase, _, _, signalled, -, -, hsent, hunsent, -⟩ := h.step_changes hstep
  rw [notices, notices, hsent, hphase, List.count_append]
  by_cases hj : i = j
  · subst hj
    have hle := hunsent.count_le w
    rw [List.count_append] at hle
    rw [Function.update_self]
    omega
  · rw [Function.update_of_ne hj]
    omega

theorem Ledger.notices_run {as : List (PoolAction n)} (h : s.Ledger address)
    (hrun : Runs (PoolCalls.step cfg address) s as t) : s.notices i w ≤ t.notices i w := by
  have hboth := hrun.invariant (I := fun u => u.Ledger address ∧ s.notices i w ≤ u.notices i w)
    (fun _ _ _ hu _ hstep => ⟨hu.1.step hstep, Nat.le_trans hu.2 (hu.1.notices_step hstep)⟩)
    ⟨h, Nat.le_refl _⟩
  exact hboth.2

/-- A call that makes its updates, and no one else moves. -/
theorem exists_updated {updates : List (PoolCounter × Int)} {next : CallPhase}
    (hphase : s.phase i = next.after updates) :
    ∃ as t, Runs (step cfg address) s as t ∧ t.phase i = next ∧ t.shared.sent = s.shared.sent := by
  induction updates generalizing s with
  | nil => exact ⟨[], s, .nil s, hphase, rfl⟩
  | cons d updates ih =>
    obtain ⟨t, hstep, ht, hsent⟩ : ∃ t, step cfg address s (.call i .update) = some t ∧
        t.phase i = next.after updates ∧ t.shared.sent = s.shared.sent := by
      rw [step, Interleave.step, hphase]
      exact ⟨_, rfl, Function.update_self .., rfl⟩
    obtain ⟨as, u, hrun, hu, hsent'⟩ := ih ht
    exact ⟨.call i .update :: as, u, .cons trivial hstep hrun, hu, hsent'.trans hsent⟩

end PoolCalls

/-- A connection that is not kept is closed, and nobody is signalled. -/
theorem PoolShared.put_of_not_keeps {conn : Nat} {healthy : Bool}
    (h : ¬(s.pool.pools address).Keeps cfg healthy) :
    ∃ ap made updates, s.put cfg address conn healthy now =
      (s.set address ap made, CallPhase.after .done updates) := by
  rw [put]
  dsimp only
  split
  · rename_i hroom
    have hunhealthy : ¬(healthy = true) := fun hhealthy => h ⟨hroom.1, hroom.2, hhealthy⟩
    rw [if_pos hunhealthy]
    exact ⟨_, _, [], rfl⟩
  · exact ⟨_, _, [(.closed, 1), (.total, -1)], rfl⟩

theorem callStep_put {healthy : Bool}
    (h : callStep cfg address call (.put healthy now) s p = some (t, q)) :
    ∃ conn, s.put cfg address conn healthy now = (t, q) := by
  cases p <;> simp only [callStep, reduceCtorEq] at h
  exact ⟨_, Option.some.inj h⟩

theorem callStep_remove (h : callStep cfg address call .remove s p = some (t, q)) :
    ∃ conn, s.remove address conn = (t, q) := by
  cases p <;> simp only [callStep, reduceCtorEq] at h
  exact ⟨_, Option.some.inj h⟩

/-- The section of `Put` or of `Remove`. -/
def CallMove.Returns : CallMove → Prop
  | .put _ _ | .remove => True
  | _ => False

namespace PoolCalls

variable {cfg : PoolConfig} {n : Nat} {address : Fin n → GoString} {s t : PoolCalls n}
  {i : Fin n}

/-- If the address of call `i` has a slot free after the step from `s` to `t` and calls waited
    for one, then one of these has been signalled by the time the call returns. -/
def WakesOne (cfg : PoolConfig) (address : Fin n → GoString) (i : Fin n) (s t : PoolCalls n) :
    Prop :=
  (t.shared.pool.pools (address i)).active < cfg.maxActive →
    (s.shared.pool.pools (address i)).waiters ≠ [] →
    ∀ as u, Runs (step cfg address) t as u → u.phase i = .done →
      ∃ w ∈ (s.shared.pool.pools (address i)).waiters,
        s.shared.sent.count w < u.shared.sent.count w

/-- The first in the list is among those that are signalled. -/
theorem Ledger.wakesOne_of_wake (h : t.Ledger address) (hsent : t.shared.sent = s.shared.sent)
    (hphase : t.phase i = .wake ((s.shared.pool.pools (address i)).waiters.take 10)) :
    WakesOne cfg address i s t := by
  intro _ hwaiters as u hrun hdone
  obtain ⟨w, waiters, hlist⟩ := List.exists_cons_of_ne_nil hwaiters
  refine ⟨w, hlist ▸ List.mem_cons_self, ?_⟩
  have hle : t.notices i w ≤ u.notices i w := h.notices_run hrun
  rw [notices, notices, hsent, hphase, hdone, hlist, CallPhase.unsent_wake, List.take_succ_cons,
    List.count_cons_self] at hle
  have hnone : CallPhase.done.unsent.count w = 0 := rfl
  omega

/-- The call may return before anyone else moves. -/
theorem not_wakesOne_of_after {updates : List (PoolCounter × Int)}
    (hsent : t.shared.sent = s.shared.sent) (hphase : t.phase i = CallPhase.after .done updates)
    (hroom : (t.shared.pool.pools (address i)).active < cfg.maxActive)
    (hwaiters : (s.shared.pool.pools (address i)).waiters ≠ []) :
    ¬WakesOne cfg address i s t := by
  intro hwakes
  obtain ⟨as, u, hrun, hdone, hsent'⟩ := exists_updated hphase
  obtain ⟨w, -, hmore⟩ := hwakes hroom hwaiters as u hrun hdone
  rw [hsent', hsent] at hmore
  exact Nat.lt_irrefl _ hmore

/-- In every interleaving, a slot that is given back while calls wait for one is offered to one
    of them if and only if the connection is kept. -/
theorem wakesOne_iff {as : List (PoolAction n)} {move : CallMove}
    (hrun : Runs (step cfg address) (new n) as s) (hmove : move.Returns)
    (hstep : step cfg address s (.call i move) = some t)
    (hroom : (t.shared.pool.pools (address i)).active < cfg.maxActive)
    (hwaiters : (s.shared.pool.pools (address i)).waiters ≠ []) :
    WakesOne cfg address i s t ↔ ∃ healthy now, move = .put healthy now ∧
      (s.shared.pool.pools (address i)).Keeps cfg healthy := by
  have hledger : t.Ledger address := (ledger_of_runs hrun).step hstep
  rw [step] at hstep
  obtain ⟨q, hcall, hupdate⟩ := step_eq_some hstep
  have hphase : t.phase i = q := by rw [hupdate, Function.update_self]
  cases move with
  | put healthy now =>
    obtain ⟨conn, hput⟩ := callStep_put hcall
    by_cases hkeeps : (s.shared.pool.pools (address i)).Keeps cfg healthy
    · rw [PoolShared.put_of_keeps hkeeps] at hput
      obtain ⟨hshared, hq⟩ := Prod.mk.inj hput
      have hsent : t.shared.sent = s.shared.sent := by rw [← hshared, PoolShared.set]
      exact iff_of_true (hledger.wakesOne_of_wake hsent (hphase.trans hq.symm))
        ⟨healthy, now, rfl, hkeeps⟩
    · obtain ⟨ap, made, updates, hcloses⟩ := PoolShared.put_of_not_keeps hkeeps
      obtain ⟨hshared, hq⟩ := Prod.mk.inj (hcloses.symm.trans hput)
      have hsent : t.shared.sent = s.shared.sent := by rw [← hshared, PoolShared.set]
      refine iff_of_false
        (not_wakesOne_of_after hsent (hphase.trans hq.symm) hroom hwaiters) ?_
      rintro ⟨healthy', now', hmove', hkeeps'⟩
      cases hmove'
      exact hkeeps hkeeps'
  | remove =>
    obtain ⟨conn, hremove⟩ := callStep_remove hcall
    obtain ⟨hshared, hq⟩ := Prod.mk.inj hremove
    have hsent : t.shared.sent = s.shared.sent := by rw [← hshared, PoolShared.set]
    have hafter : t.phase i = CallPhase.after .done [(.total, -1), (.closed, 1)] :=
      hphase.trans hq.symm
    refine iff_of_false (not_wakesOne_of_after hsent hafter hroom hwaiters) ?_
    rintro ⟨healthy', now', hmove', -⟩
    cases hmove'
  | enter | activate | dialled | dialFailed | signalled | timedOut | leave | update | send =>
    exact hmove.elim

/-- The `Put` of a healthy connection, with one call waiting for it. -/
theorem wakesOne_oneWaits :
    ∃ s t, Runs (step { maxActive := 1 } oneAddress) (new 2) (oneWaits 0 1) s ∧
      step { maxActive := 1 } oneAddress s (.call 0 (.put true 0)) = some t ∧
      WakesOne { maxActive := 1 } oneAddress 0 s t := by
  obtain ⟨s, t, hrun, hstep, hactive, hwaiters, hidle⟩ : ∃ s t,
      Runs (step { maxActive := 1 } oneAddress) (new 2) (oneWaits 0 1) s ∧
      step { maxActive := 1 } oneAddress s (.call 0 (.put true 0)) = some t ∧
      (t.shared.pool.pools (oneAddress 0)).active = 0 ∧
      (s.shared.pool.pools (oneAddress 0)).waiters = [1] ∧
      (s.shared.pool.pools (oneAddress 0)).idle = [] :=
    ⟨_, _, runs_of_exec rfl, rfl, rfl, rfl, rfl⟩
  have hreturns : (CallMove.put true 0).Returns := trivial
  refine ⟨s, t, hrun, hstep, (wakesOne_iff hrun hreturns hstep ?_ ?_).mpr ⟨true, 0, rfl, ?_⟩⟩
  · rw [hactive]
    decide
  · rw [hwaiters]
    decide
  · rw [AddrPool.Keeps, hidle]
    decide

/-- `Remove` frees the only slot while a call waits for it: it has returned, nobody was
    signalled, and the call waits on. -/
theorem slot_free_and_waiting :
    ∃ s, Runs (step { maxActive := 1 } oneAddress) (new 2)
      (oneWaits 0 1 ++ [.call 0 .remove, .call 0 .update, .call 0 .update]) s ∧
      s.phase 0 = .done ∧ s.phase 1 = .waiting ∧
      (s.shared.pool.pools (oneAddress 0)).active = 0 ∧
      (s.shared.pool.pools (oneAddress 0)).waiters = [1] ∧ s.shared.sent = [] :=
  ⟨_, runs_of_exec rfl, rfl, rfl, rfl, rfl, rfl⟩

end PoolCalls

end GridKV
