import GridKV.Model.PoolStats
import GridKV.Spec.PoolLimit

/-!
# The statistics of the connection pool

Calls for any addresses and visits of the cleanup loop are interleaved.  The counters lag
behind the pools, each by the updates that the calls still owe; with these added they are
exact at any time (`Ledger`).  Where no call is in progress nothing is owed, and the
statistics balance (`stats_balance`).
-/

namespace GridKV

open Go Run Interleave List Function

/-! ### Updates -/

namespace PoolStats

variable (stats : PoolStats) (updates : List (PoolCounter × Int))

/-- What updates add to each counter. -/
def effect : PoolStats :=
  fun c => ((updates.filter fun d => d.1 = c).map Prod.snd).sum

theorem effect_nil : effect [] = 0 := rfl

theorem effect_cons (d : PoolCounter × Int) (updates : List (PoolCounter × Int)) :
    effect (d :: updates) = effect [d] + effect updates := by
  funext c
  by_cases hd : d.1 = c <;> simp [effect, hd]

theorem effect_append (updates' : List (PoolCounter × Int)) :
    effect (updates ++ updates') = effect updates + effect updates' := by
  funext c
  simp [effect]

theorem effect_flatMap_const {α : Type} (l : List α) (updates : List (PoolCounter × Int))
    (c : PoolCounter) : effect (l.flatMap fun _ => updates) c = l.length * effect updates c := by
  induction l with
  | nil => simp [effect]
  | cons _ l ih =>
    rw [flatMap_cons, effect_append, Pi.add_apply, ih, length_cons]
    push_cast
    ring

theorem update_eq_add : stats.update updates = stats + effect updates := by
  induction updates generalizing stats with
  | nil => simp [update, effect_nil]
  | cons d updates ih =>
    have hfirst : Function.update stats d.1 (stats d.1 + d.2) = stats + effect [d] := by
      funext c
      by_cases hd : d.1 = c
      · subst hd
        simp [effect]
      · rw [update_of_ne (Ne.symm hd)]
        simp [effect, hd]
    rw [effect_cons, ← add_assoc, ← hfirst, ← ih]
    rfl

/-- Connections that were asked for and are not in the total, not closed, and no error. -/
def unaccounted : Int :=
  stats .created - stats .total - stats .closed - stats .errors

theorem unaccounted_add (stats' : PoolStats) :
    unaccounted (stats + stats') = unaccounted stats + unaccounted stats' := by
  simp only [unaccounted, Pi.add_apply]
  omega

end PoolStats

open PoolStats (effect unaccounted)

/-! ### What a call owes -/

namespace CallPhase

/-- The updates that are still to come. -/
@[simp]
def owed : CallPhase → PoolStats
  | .popped _ => effect [(.idle, -1)]
  | .updating updates next => effect updates + next.owed
  | _ => 0

/-- The call is counted in the pool of its address. -/
@[simp]
def counted : CallPhase → Int
  | .dialling => 1
  | .holding _ => 1
  | .updating _ next => next.counted
  | _ => 0

/-- The call has a connection. -/
@[simp]
def conns : CallPhase → Int
  | .popped _ => 1
  | .holding _ => 1
  | .updating _ next => next.conns
  | _ => 0

/-- The call dials. -/
@[simp]
def dials : CallPhase → Int
  | .dialling => 1
  | .updating _ next => next.dials
  | _ => 0

/-- The call waits to be signalled. -/
@[simp]
def blocked : CallPhase → Int
  | .waiting => 1
  | .updating _ next => next.blocked
  | _ => 0

/-- The signals that the call still has to send. -/
def unsent : CallPhase → List Nat
  | .waking waiters => waiters
  | _ => []

variable (next : CallPhase) (waiters : List Nat) (updates : List (PoolCounter × Int))

@[simp]
theorem owed_after : (next.after updates).owed = effect updates + next.owed := by
  cases updates with
  | nil => rw [after, PoolStats.effect_nil, zero_add]
  | cons => rfl

@[simp]
theorem counted_after : (next.after updates).counted = next.counted := by
  cases updates <;> rfl

@[simp]
theorem conns_after : (next.after updates).conns = next.conns := by
  cases updates <;> rfl

@[simp]
theorem dials_after : (next.after updates).dials = next.dials := by
  cases updates <;> rfl

@[simp]
theorem blocked_after : (next.after updates).blocked = next.blocked := by
  cases updates <;> rfl

@[simp]
theorem owed_wake : (wake waiters).owed = 0 := by
  cases waiters <;> rfl

@[simp]
theorem counted_wake : (wake waiters).counted = 0 := by
  cases waiters <;> rfl

@[simp]
theorem conns_wake : (wake waiters).conns = 0 := by
  cases waiters <;> rfl

@[simp]
theorem dials_wake : (wake waiters).dials = 0 := by
  cases waiters <;> rfl

@[simp]
theorem blocked_wake : (wake waiters).blocked = 0 := by
  cases waiters <;> rfl

theorem unsent_wake : (wake waiters).unsent = waiters := by
  cases waiters <;> rfl

theorem counted_nonneg (p : CallPhase) : 0 ≤ p.counted := by
  induction p with
  | updating updates next ih => exact ih
  | dialling | holding => exact Int.one_nonneg
  | _ => exact Int.le_refl 0

end CallPhase

variable (cfg : PoolConfig) (ap : AddrPool)

/-- `Put` keeps the connection. -/
abbrev AddrPool.Keeps (healthy : Bool) : Prop :=
  cfg.maxIdle > 0 ∧ ap.idle.length < cfg.maxIdle ∧ healthy = true

/-- The waiters that a step of a call takes off the list in order to signal them. -/
@[simp]
def AddrPool.wokenBy : CallMove → List Nat
  | .put healthy _ => if ap.Keeps cfg healthy then ap.waiters.take 10 else []
  | _ => []

/-- What a step does to the pool of its address, from `ap` to `ap'`, agrees with the updates
    that are `made` and those that are owed before and after it.  Only `Waiters` lags behind,
    by those that are `woken`. -/
structure Balances (ap ap' : AddrPool) (made : PoolStats) (woken : List Nat) (p q : CallPhase) :
    Prop where
  counted : ap'.active + p.counted = ap.active + q.counted
  active : ap.active + made .active + q.owed .active = ap'.active + p.owed .active
  idle : ap.idle.length + made .idle + q.owed .idle = ap'.idle.length + p.owed .idle
  total : ap.idle.length + p.conns + made .total + q.owed .total =
    ap'.idle.length + q.conns + p.owed .total
  created : unaccounted made + unaccounted q.owed + p.dials = unaccounted p.owed + q.dials
  waiters : made .waiters + q.owed .waiters + p.blocked + woken.length =
    p.owed .waiters + q.blocked

/-- An update that is made is no longer owed. -/
theorem Balances.of_owed {ap : AddrPool} {made : PoolStats} {p q : CallPhase}
    (howed : p.owed = made + q.owed) (hcounted : p.counted = q.counted)
    (hconns : p.conns = q.conns) (hdials : p.dials = q.dials) (hblocked : p.blocked = q.blocked) :
    Balances ap ap made [] p q where
  counted := by rw [hcounted]
  active := by rw [howed, Pi.add_apply, add_assoc]
  idle := by rw [howed, Pi.add_apply, add_assoc]
  total := by rw [howed, hconns, Pi.add_apply, add_assoc]
  created := by rw [howed, hdials, PoolStats.unaccounted_add]
  waiters := by simp [howed, hblocked]

/-- What the first section of `Get` can do. -/
theorem AddrPool.enter_cases (call : Nat) :
    (∃ ic idle, ap.idle = ic :: idle ∧ ap.enter cfg call = ({ ap with idle }, .popped ic.conn)) ∨
      ap.enter cfg call = ({ ap with waiters := ap.waiters ++ [call] }, .waiting) ∨
      ap.enter cfg call = ({ ap with active := ap.active + 1 }, .dialling) ∨
      ap.enter cfg call = (ap, .done) := by
  unfold AddrPool.enter
  split
  · rename_i ic idle hidle
    exact .inl ⟨ic, idle, hidle, rfl⟩
  · split
    · split
      · exact .inr (.inl rfl)
      · exact .inr (.inr (.inr rfl))
    · exact .inr (.inr (.inl rfl))

namespace PoolShared

variable {cfg : PoolConfig} {s t : PoolShared} {address : GoString} {woken : List Nat}
  {p q : CallPhase}

/-- The step has changed the pool of one address, made updates and sent signals; those that
    the call had to send are among these or still to be sent. -/
def Changes (s t : PoolShared) (address : GoString) (woken : List Nat) (p q : CallPhase) : Prop :=
  ∃ ap made signalled, t.pool = s.pool.setPool address ap ∧ t.stats = s.stats + made ∧
    t.sent = s.sent ++ signalled ∧ p.unsent.Sublist (signalled ++ q.unsent) ∧
    Balances (s.pool.pools address) ap made woken p q

/-- A step that leaves the pools alone and sends nothing. -/
theorem changes_of_pool {made : PoolStats} (hpool : t.pool = s.pool)
    (hstats : t.stats = s.stats + made) (hsent : t.sent = s.sent) (hunsent : p.unsent = [])
    (h : Balances (s.pool.pools address) (s.pool.pools address) made woken p q) :
    s.Changes t address woken p q :=
  ⟨_, made, [], hpool.trans (ConnPool.setPool_self s.pool address).symm, hstats,
    hsent.trans (append_nil _).symm, hunsent ▸ nil_sublist _, h⟩

theorem changes_set {ap : AddrPool} {updates : List (PoolCounter × Int)} (hunsent : p.unsent = [])
    (h : Balances (s.pool.pools address) ap (effect updates) woken p q) :
    s.Changes (s.set address ap updates) address woken p q :=
  ⟨ap, effect updates, [], rfl, PoolStats.update_eq_add _ _, (append_nil _).symm,
    hunsent ▸ nil_sublist _, h⟩

theorem changes_enter (cfg : PoolConfig) (s : PoolShared) (address : GoString) (call : Nat) :
    s.Changes (s.enter cfg address call).1 address [] .start (s.enter cfg address call).2 := by
  unfold enter
  obtain ⟨ic, idle, hidle, henter⟩ | henter | henter | henter :=
    (s.pool.pools address).enter_cases cfg call
  · rw [henter]
    apply changes_set rfl
    constructor <;> simp [effect, unaccounted, hidle]
  · rw [henter]
    refine ⟨_, _, [], rfl, PoolStats.update_eq_add _ _, (append_nil _).symm,
      nil_sublist _, ?_⟩
    constructor <;> simp [effect, unaccounted]
  · rw [henter]
    apply changes_set rfl
    constructor <;> simp [effect, unaccounted, sub_eq_add_neg]
  · rw [henter]
    apply changes_set rfl
    constructor <;> simp [effect, unaccounted]

theorem put_of_keeps {conn : Nat} {healthy : Bool} {now : Time}
    (h : (s.pool.pools address).Keeps cfg healthy) :
    s.put cfg address conn healthy now =
      (s.set address ((s.pool.pools address).put cfg conn healthy now)
        [(.active, -1), (.idle, 1),
          (.waiters, -(((s.pool.pools address).waiters.take 10).length : Int))],
        .wake ((s.pool.pools address).waiters.take 10)) := by
  obtain ⟨hmax, hidle, rfl⟩ := h
  rw [put]
  dsimp only
  rw [if_pos ⟨hmax, hidle⟩, if_neg (by decide)]

theorem changes_put (cfg : PoolConfig) (s : PoolShared) (address : GoString) (conn : Nat)
    (healthy : Bool) (now : Time) :
    s.Changes (s.put cfg address conn healthy now).1 address
      ((s.pool.pools address).wokenBy cfg (.put healthy now)) (.holding conn)
      (s.put cfg address conn healthy now).2 := by
  by_cases hkeeps : (s.pool.pools address).Keeps cfg healthy
  · rw [put_of_keeps hkeeps, AddrPool.wokenBy, if_pos hkeeps]
    apply changes_set rfl
    obtain ⟨hmax, hidle, rfl⟩ := hkeeps
    constructor <;> simp [AddrPool.put, hmax, hidle, effect, unaccounted, sub_eq_add_neg]
  · rw [AddrPool.wokenBy, if_neg hkeeps]
    unfold put AddrPool.put
    dsimp only
    split
    · rename_i hroom
      have hunhealthy : ¬(healthy = true) := fun h => hkeeps ⟨hroom.1, hroom.2, h⟩
      rw [if_pos hunhealthy, if_pos hunhealthy]
      apply changes_set rfl
      constructor <;> simp [effect, unaccounted, sub_eq_add_neg]
    · apply changes_set rfl
      constructor <;> simp [effect, unaccounted, sub_eq_add_neg]

/-- Who removes a connection is counted, so that `Remove` takes it off the count. -/
theorem changes_remove (hactive : 0 < (s.pool.pools address).active) (conn : Nat) :
    s.Changes (s.remove address conn).1 address [] (.holding conn) (s.remove address conn).2 := by
  unfold remove
  dsimp only
  rw [if_pos hactive, AddrPool.remove_of_active hactive]
  apply changes_set rfl
  constructor <;> simp [effect, unaccounted, sub_eq_add_neg]

theorem foldl_send (waiters : List Nat) (s : PoolShared) :
    (waiters.foldl send s).pool = s.pool ∧ (waiters.foldl send s).stats = s.stats ∧
      (waiters.foldl send s).sent = s.sent ++ waiters := by
  induction waiters generalizing s with
  | nil => exact ⟨rfl, rfl, (append_nil _).symm⟩
  | cons waiter waiters ih =>
    obtain ⟨hpool, hstats, hsent⟩ := ih (s.send waiter)
    refine ⟨hpool, hstats, hsent.trans ?_⟩
    rw [send, append_assoc, singleton_append]

/-- What the visit of the cleanup loop takes from the idle list, it takes from the counters. -/
theorem changes_cleanup (cfg : PoolConfig) (s : PoolShared) (address : GoString) (now : Time)
    (p : CallPhase) : s.Changes (s.cleanup cfg address now) address
      (wokenByCleanup cfg (s.pool.pools address)) p p := by
  obtain ⟨hpool, hstats, hsent⟩ := foldl_send (wokenByCleanup cfg (s.pool.pools address))
    { s with
      pool := (s.pool.cleanupIdleConns cfg address now).1
      stats := s.stats.update
        (((s.pool.cleanupIdleConns cfg address now).2.flatMap fun _ =>
          [(.idle, -1), (.total, -1), (.closed, 1)]) ++
          [(.waiters, -((wokenByCleanup cfg (s.pool.pools address)).length : Int))]) }
  have hsplit : ((s.pool.pools address).idle.length : Int) =
      ((s.pool.pools address).idle.filter fun ic => ! ConnPool.outdated cfg now ic).length +
        ((s.pool.pools address).idle.filter (ConnPool.outdated cfg now)).length := by
    rw [length_eq_length_filter_add (ConnPool.outdated cfg now), add_comm]
    push_cast
    rfl
  refine ⟨_, _, _, hpool, hstats.trans (PoolStats.update_eq_add _ _), hsent,
    sublist_append_right _ _, ?_⟩
  rw [PoolStats.effect_append]
  constructor <;>
    simp only [unaccounted, Pi.add_apply, PoolStats.effect_flatMap_const,
      ConnPool.cleanupIdleConns, length_map] <;>
    simp [effect] <;> omega

end PoolShared

/-- A step of a call, from `p` to `q`. -/
theorem changes_callStep {cfg : PoolConfig} {address : GoString} {call : Nat} {move : CallMove}
    {s t : PoolShared} {p q : CallPhase} (hcounted : p.counted ≤ (s.pool.pools address).active)
    (h : callStep cfg address call move s p = some (t, q)) :
    s.Changes t address ((s.pool.pools address).wokenBy cfg move) p q := by
  -- The moves that are not the call's next one drop out.
  cases p <;> cases move <;> simp only [callStep, reduceCtorEq] at h
  case start.enter =>
    have hchanges := PoolShared.changes_enter cfg s address call
    rwa [Option.some.inj h] at hchanges
  case holding.put conn healthy now =>
    have hchanges := PoolShared.changes_put cfg s address conn healthy now
    rwa [Option.some.inj h] at hchanges
  case holding.remove conn =>
    have hchanges := PoolShared.changes_remove (Int.lt_of_lt_of_le Int.one_pos hcounted) conn
    rwa [Option.some.inj h] at hchanges
  case popped.activate conn =>
    cases h
    apply PoolShared.changes_set rfl
    constructor <;> simp [effect, unaccounted, AddrPool.activateConn]
  case leaving.leave =>
    cases h
    apply PoolShared.changes_set rfl
    constructor <;> simp [effect, unaccounted, AddrPool.removeWaiter]
  case dialling.dialFailed =>
    cases h
    apply PoolShared.changes_set rfl
    constructor <;> simp [effect, unaccounted, AddrPool.dialFailed, sub_eq_add_neg]
  case updating.update updates next =>
    split at h
    · cases h
      exact PoolShared.changes_of_pool rfl (add_zero _).symm rfl rfl (.of_owed rfl rfl rfl rfl rfl)
    · rename_i d updates
      cases h
      refine PoolShared.changes_of_pool rfl (PoolStats.update_eq_add _ _) rfl rfl
        (.of_owed ?_ ?_ ?_ ?_ ?_)
      · rw [CallPhase.owed, CallPhase.owed_after, PoolStats.effect_cons, add_assoc]
      · exact (CallPhase.counted_after next updates).symm
      · exact (CallPhase.conns_after next updates).symm
      · exact (CallPhase.dials_after next updates).symm
      · exact (CallPhase.blocked_after next updates).symm
  case waking.send waiters =>
    split at h
    · cases h
      refine PoolShared.changes_of_pool rfl (add_zero _).symm rfl rfl ?_
      constructor <;> simp [unaccounted]
    · cases h
      refine ⟨_, 0, [_], (ConnPool.setPool_self s.pool address).symm, (add_zero _).symm, rfl, ?_,
        ?_⟩
      · rw [CallPhase.unsent_wake]
        exact List.Sublist.refl _
      · constructor <;> simp [unaccounted]
  case waiting.signalled =>
    split at h <;> cases h
    refine PoolShared.changes_of_pool rfl (add_zero _).symm rfl rfl ?_
    constructor <;> simp [effect, unaccounted]
  -- What is left leaves the pool and the counters alone.
  all_goals
    cases h
    refine PoolShared.changes_of_pool rfl (add_zero _).symm rfl rfl ?_
    constructor <;> simp [effect, unaccounted]

/-! ### All calls -/

/-- The pool and its calls. -/
abbrev PoolCalls (n : Nat) := System (Fin n) PoolShared CallPhase

/-- A call takes a step, or the cleanup loop visits the pool of its address. -/
inductive PoolAction (n : Nat) where
  | call (i : Fin n) (move : CallMove)
  | cleanup (i : Fin n) (now : Time)

namespace PoolCalls

variable {cfg : PoolConfig} {n : Nat} {address : Fin n → GoString} {s t : PoolCalls n}

/-- A new pool. -/
def new (n : Nat) : PoolCalls n := ⟨{}, fun _ => .start⟩

/-- Every connection reports the address it was dialled with. -/
def step (cfg : PoolConfig) (address : Fin n → GoString) (s : PoolCalls n) :
    PoolAction n → Option (PoolCalls n)
  | .call i move => Interleave.step (fun i => callStep cfg (address i) i.val move) s i
  | .cleanup i now => some { s with shared := s.shared.cleanup cfg (address i) now }

/-- The waiters that a step takes off the list in order to signal them. -/
def woken (cfg : PoolConfig) (address : Fin n → GoString) (s : PoolCalls n) :
    PoolAction n → List Nat
  | .call i move => (s.shared.pool.pools (address i)).wokenBy cfg move
  | .cleanup i _ => PoolShared.wokenByCleanup cfg (s.shared.pool.pools (address i))

/-- The addresses of the calls. -/
def addresses (address : Fin n → GoString) : Finset GoString := Finset.univ.image address

theorem mem_addresses (address : Fin n → GoString) (i : Fin n) : address i ∈ addresses address :=
  Finset.mem_image_of_mem address (Finset.mem_univ i)

/-- The statistics, with what is owed. -/
def booked (s : PoolCalls n) : PoolStats := s.shared.stats + ∑ i, (s.phase i).owed

/-- The pools and the calls agree with the statistics. -/
structure Ledger (address : Fin n → GoString) (s : PoolCalls n) : Prop where
  exact : ∀ a, (s.shared.pool.pools a).active =
    ∑ i, if address i = a then (s.phase i).counted else 0
  active : s.booked .active = ∑ a ∈ addresses address, (s.shared.pool.pools a).active
  idle : s.booked .idle = ∑ a ∈ addresses address, ((s.shared.pool.pools a).idle.length : Int)
  total : s.booked .total =
    ∑ a ∈ addresses address, ((s.shared.pool.pools a).idle.length : Int) + ∑ i, (s.phase i).conns
  created : unaccounted s.booked = ∑ i, (s.phase i).dials

theorem ledger_new (address : Fin n → GoString) : (new n).Ledger address := by
  constructor <;> simp [new, booked, unaccounted]

/-- A call that is counted is counted under its address. -/
theorem Ledger.counted_le (h : s.Ledger address) (i : Fin n) :
    (s.phase i).counted ≤ (s.shared.pool.pools (address i)).active := by
  have hterms : ∀ j ∈ Finset.univ,
      0 ≤ if address j = address i then (s.phase j).counted else 0 := by
    intro j _
    split
    · exact CallPhase.counted_nonneg _
    · exact Int.le_refl 0
  have hle := Finset.single_le_sum hterms (Finset.mem_univ i)
  rw [if_pos rfl] at hle
  rw [h.exact]
  exact hle

/-- What a step does. -/
theorem Ledger.step_changes {a : PoolAction n} (h : s.Ledger address)
    (hstep : step cfg address s a = some t) :
    ∃ i q, t.phase = update s.phase i q ∧
      s.shared.Changes t.shared (address i) (woken cfg address s a) (s.phase i) q := by
  cases a with
  | call i move =>
    rw [step] at hstep
    obtain ⟨q, hmove, hphase⟩ := step_eq_some hstep
    exact ⟨i, q, hphase, changes_callStep (h.counted_le i) hmove⟩
  | cleanup i now =>
    cases hstep
    refine ⟨i, s.phase i, (update_eq_self i s.phase).symm, ?_⟩
    exact PoolShared.changes_cleanup cfg s.shared (address i) now (s.phase i)

/-- A sum over the addresses, when the pool of one of them changes. -/
theorem sum_setPool (address : Fin n → GoString) (pool : ConnPool) (ap : AddrPool) (i : Fin n)
    (f : AddrPool → Int) :
    ∑ a ∈ addresses address, f ((pool.setPool (address i) ap).pools a) +
        f (pool.pools (address i)) =
      ∑ a ∈ addresses address, f (pool.pools a) + f ap := by
  have hoff : ∀ a, a ≠ address i →
      f ((pool.setPool (address i) ap).pools a) = f (pool.pools a) := by
    intro a ha
    rw [ConnPool.pools_setPool_of_ne ha]
  have hsum := Finset.sum_add_of_eq_off (mem_addresses address i) hoff
  rwa [ConnPool.pools_setPool] at hsum

/-- What is counted under an address, when one call moves. -/
theorem exact_setPool {ap : AddrPool} {i : Fin n} {q : CallPhase} (h : s.Ledger address)
    (hcounted : ap.active + (s.phase i).counted =
      (s.shared.pool.pools (address i)).active + q.counted) (a : GoString) :
    ((s.shared.pool.setPool (address i) ap).pools a).active =
      ∑ j, if address j = a then (update s.phase i q j).counted else 0 := by
  have hsum := sum_update (fun j p => if address j = a then p.counted else 0) s.phase i q
  have hbefore := h.exact a
  by_cases ha : a = address i
  · subst ha
    simp only [if_true] at hsum
    rw [ConnPool.pools_setPool]
    omega
  · simp only [if_neg (Ne.symm ha)] at hsum
    rw [ConnPool.pools_setPool_of_ne ha]
    omega

theorem booked_update {made : PoolStats} {i : Fin n} {q : CallPhase}
    (hphase : t.phase = update s.phase i q)
    (hstats : t.shared.stats = s.shared.stats + made) :
    t.booked + (s.phase i).owed = s.booked + made + q.owed := by
  have howed := sum_update (fun _ => CallPhase.owed) s.phase i q
  rw [booked, booked, hphase, hstats, add_assoc, howed]
  abel

theorem Ledger.step {a : PoolAction n} (h : s.Ledger address)
    (hstep : step cfg address s a = some t) : t.Ledger address := by
  obtain ⟨i, q, hphase, ap, made, _, hpool, hstats, -, -, hbalance⟩ := h.step_changes hstep
  have hbooked := booked_update hphase hstats
  have hcounter : ∀ c, t.booked c + (s.phase i).owed c = s.booked c + made c + q.owed c :=
    fun c => congrFun hbooked c
  have hidle := sum_setPool address s.shared.pool ap i fun ap => ap.idle.length
  constructor
  · rw [hpool, hphase]
    exact exact_setPool h hbalance.counted
  · have hactive := sum_setPool address s.shared.pool ap i AddrPool.active
    have hbefore := h.active
    have hmade := hbalance.active
    have hafter := hcounter .active
    rw [hpool]
    omega
  · have hbefore := h.idle
    have hmade := hbalance.idle
    have hafter := hcounter .idle
    rw [hpool]
    omega
  · have hconns := sum_update (fun _ => CallPhase.conns) s.phase i q
    have hbefore := h.total
    have hmade := hbalance.total
    have hafter := hcounter .total
    rw [hpool, hphase]
    omega
  · have hdials := sum_update (fun _ => CallPhase.dials) s.phase i q
    have hbefore := h.created
    have hmade := hbalance.created
    have hafter := congrArg unaccounted hbooked
    simp only [PoolStats.unaccounted_add] at hafter
    rw [hphase]
    omega

theorem ledger_of_runs {as : List (PoolAction n)} (h : Runs (step cfg address) (new n) as s) :
    s.Ledger address :=
  h.invariant (fun _ _ _ hs _ hstep => hs.step hstep) (ledger_new address)

/-- What is counted under the addresses is what the calls are counted for. -/
theorem Ledger.sum_active (h : s.Ledger address) :
    ∑ a ∈ addresses address, (s.shared.pool.pools a).active = ∑ i, (s.phase i).counted := by
  simp only [h.exact]
  rw [Finset.sum_comm]
  apply Finset.sum_congr rfl
  intro i _
  rw [Finset.sum_ite_eq, if_pos (mem_addresses address i)]

end PoolCalls

/-- No call of `Get`, `Put` or `Remove` is in progress. -/
def CallPhase.Resting : CallPhase → Prop
  | .start | .holding _ | .done => True
  | _ => False

/-- Such a call owes nothing, and if it is counted it has a connection. -/
theorem CallPhase.Resting.shares {p : CallPhase} (h : p.Resting) :
    p.owed = 0 ∧ p.conns = p.counted ∧ p.dials = 0 := by
  cases p with
  | start | holding | done => exact ⟨rfl, rfl, rfl⟩
  | popped | waiting | leaving | dialling | updating | waking => exact h.elim

namespace PoolCalls

variable {cfg : PoolConfig} {n : Nat} {address : Fin n → GoString} {s : PoolCalls n}

/-- Whatever `Get`, `Put`, `Remove` and the cleanup loop have done, with connections that were
    dialled or not and healthy or not: where no call is in progress, the statistics balance
    and agree with the pools. -/
theorem stats_balance {as : List (PoolAction n)} (hrun : Runs (step cfg address) (new n) as s)
    (hresting : ∀ i, (s.phase i).Resting) :
    s.shared.stats .total = s.shared.stats .active + s.shared.stats .idle ∧
      s.shared.stats .active = ∑ a ∈ addresses address, (s.shared.pool.pools a).active ∧
      s.shared.stats .idle =
        ∑ a ∈ addresses address, ((s.shared.pool.pools a).idle.length : Int) ∧
      s.shared.stats .created =
        s.shared.stats .total + s.shared.stats .closed + s.shared.stats .errors := by
  have h := ledger_of_runs hrun
  have hbooked : s.booked = s.shared.stats := by
    rw [booked, Finset.sum_eq_zero fun i _ => (hresting i).shares.1, add_zero]
  have hconns : ∑ i, (s.phase i).conns = ∑ i, (s.phase i).counted :=
    Finset.sum_congr rfl fun i _ => (hresting i).shares.2.1
  have hdials : ∑ i, (s.phase i).dials = 0 :=
    Finset.sum_eq_zero fun i _ => (hresting i).shares.2.2
  have hactive := h.active
  have hidle := h.idle
  have htotal := h.total
  have hcreated := h.created
  have hsum := h.sum_active
  rw [hbooked] at hactive hidle htotal hcreated
  rw [unaccounted] at hcreated
  refine ⟨?_, hactive, hidle, ?_⟩ <;> omega

/-- Three calls for two addresses: the first dials and puts its connection, the dial of the
    second fails, and a third one gets the connection and removes it. -/
def threeCalls (i j k : Fin n) : List (PoolAction n) :=
  [.call i .enter, .call j .enter, .call i (.dialled 7), .call j .dialFailed, .call i .update,
    .call j .update, .call j .update, .call i (.put true 0), .cleanup i 1, .call k .enter,
    .call k .activate, .call k .update, .call k .update, .call k .remove, .call k .update,
    .call k .update]

/-- The address of the second call differs. -/
def twoAddresses (i : Fin 3) : GoString := if i.val = 1 then ascii "b:7000" else ascii "a:7000"

theorem stats_balance_threeCalls :
    ∃ s, Runs (step {} twoAddresses) (new 3) (threeCalls 0 1 2) s ∧ (∀ i, (s.phase i).Resting) ∧
      s.shared.stats .errors = 1 ∧
      s.shared.stats .created =
        s.shared.stats .total + s.shared.stats .closed + s.shared.stats .errors := by
  obtain ⟨s, hrun, hdone, herrors⟩ :
      ∃ s, Runs (step {} twoAddresses) (new 3) (threeCalls 0 1 2) s ∧ (∀ i, s.phase i = .done) ∧
        s.shared.stats .errors = 1 := ⟨_, runs_of_exec rfl, by decide, rfl⟩
  have hresting : ∀ i, (s.phase i).Resting := by
    intro i
    rw [hdone i]
    trivial
  exact ⟨s, hrun, hresting, herrors, (stats_balance hrun hresting).2.2.2⟩

end PoolCalls

end GridKV
