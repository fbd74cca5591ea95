import GridKV.ForStd.Run
import GridKV.Model.AcceptLoop

/-!
# Does the server keep accepting?

A connection that the loop accepts is counted at once, and the count goes down again only in
the cleanup of `handleConn`.  Four branches of `acceptLoop` close the connection instead of
handing it over, and none of them takes it out of the count; one of the four is taken when
the queue is still full after the timer, and it also ends the loop, although nobody has
stopped the server.  A loop that had passed its tests of `stopCh` can also meet a channel
that `Stop` has closed in the meantime.

What a step does is said once (`AcceptMove`); the count exceeds the connections that are
open by one for each connection turned away, and nothing ever makes up for it.
-/

namespace GridKV

open Go Run List

/-- The connection the loop has in hand. -/
def AcceptPhase.conn : AcceptPhase → Option Nat
  | .check conn | .offer conn | .timedOut conn | .lastOffer conn => some conn
  | .loop | .accepting | .failed | .exited | .panicked _ => none

namespace AcceptState

variable {s t : AcceptState} {a : AcceptAction}

/-- The loop exits only after `stopCh` has been closed, every accepted connection but the one
    in hand has been handed to a worker or closed, and those that are closed are not counted
    as active any more. -/
structure Kept (s : AcceptState) : Prop where
  exits : s.phase = .exited → s.stopped = true
  settled : ∀ conn < s.connections,
    s.phase.conn = some conn ∨ conn ∈ s.handed ∨ conn ∈ s.closed
  runs : ∀ conn, s.phase ≠ .panicked conn
  restored : s.activeConns + s.closed.length = s.connections

/-- The step does not turn the connection in hand away: `stopCh` is open at the tests made
    with a connection in hand and not what ends the wait for a worker, and after the timer the
    queue has room. -/
def KeepsConn (s : AcceptState) : AcceptAction → Prop
  | .go =>
    match s.phase with
    | .check _ | .timedOut _ => s.stopped = false
    | .lastOffer _ => s.connCh.closed = false ∧ s.connCh.buf.length < s.connCh.cap
    | _ => True
  | .offer .send => s.connCh.closed = false
  | .offer .stop => False
  | _ => True

/-! ### The steps -/

/-- What a step does. -/
inductive AcceptMove (s : AcceptState) (a : AcceptAction) : AcceptState → Prop
  /-- The loop moves on with what it has in hand. -/
  | pass (phase : AcceptPhase) (hconn : phase.conn = s.phase.conn)
      (hexits : phase = .exited → s.stopped = true) (hruns : ∀ conn, phase ≠ .panicked conn)
      (hkeeps : s.KeepsConn a) : AcceptMove s a { s with phase }
  | accept (hphase : s.phase.conn = none) (hkeeps : s.KeepsConn a) :
      AcceptMove s a { s with
        connections := s.connections + 1
        activeConns := s.activeConns + 1
        phase := .check s.connections }
  | hand (connCh : Chan Nat) (conn : Nat) (hconn : s.phase.conn = some conn)
      (hkeeps : s.KeepsConn a) :
      AcceptMove s a { s with connCh, handed := s.handed ++ [conn], phase := .loop }
  | take (connCh : Chan Nat) (conn : Nat) (hkeeps : s.KeepsConn a) :
      AcceptMove s a { s with connCh, serving := conn :: s.serving }
  | finish (conn : Nat) (hkeeps : s.KeepsConn a) :
      AcceptMove s a { s with
        activeConns := s.activeConns - 1
        serving := s.serving.erase conn
        closed := s.closed ++ [conn] }
  | stop (hkeeps : s.KeepsConn a) : AcceptMove s a { s with stopped := true }
  | closeConnCh (hkeeps : s.KeepsConn a) : AcceptMove s a { s with connCh := s.connCh.close }
  | turnAway (conn : Nat) (hkeeps : ¬ s.KeepsConn a) : AcceptMove s a (s.turnAway conn)
  | panic (conn : Nat) (hkeeps : ¬ s.KeepsConn a) :
      AcceptMove s a { s with phase := .panicked conn }

theorem acceptMove_of_send {conn : Nat} {full : Option AcceptState}
    (hconn : s.phase.conn = some conn)
    (hopen : s.KeepsConn a → s.connCh.closed = false)
    (hkeeps : s.connCh.closed = false → s.connCh.buf.length < s.connCh.cap → s.KeepsConn a)
    (hfull : full = some t → s.connCh.closed = false → ¬ s.connCh.buf.length < s.connCh.cap →
      AcceptMove s a t)
    (h : s.send conn full = some t) : AcceptMove s a t := by
  unfold send Chan.send at h
  by_cases hclosed : s.connCh.closed = true
  · rw [if_pos hclosed] at h
    cases h
    exact .panic conn fun hkept => absurd (hopen hkept) (by simp [hclosed])
  · have hclosed := Bool.eq_false_iff.mpr hclosed
    rw [hclosed, if_neg Bool.false_ne_true] at h
    by_cases hroom : s.connCh.buf.length < s.connCh.cap
    · rw [if_pos hroom] at h
      cases h
      exact .hand _ conn hconn (hkeeps hclosed hroom)
    · rw [if_neg hroom] at h
      exact hfull h hclosed hroom

/-- A test of `stopCh` with a connection in hand. -/
theorem acceptMove_of_test {conn : Nat} {phase : AcceptPhase}
    (hkeeps : s.KeepsConn a ↔ s.stopped = false) (hconn : phase.conn = s.phase.conn)
    (hsome : phase.conn = some conn)
    (h : (if s.stopped then s.turnAway conn else { s with phase }) = t) : AcceptMove s a t := by
  split at h <;> rename_i hstopped
  · subst h
    exact .turnAway conn fun hkept => absurd (hkeeps.mp hkept) (by simp [hstopped])
  · subst h
    refine .pass phase hconn ?_ ?_ (hkeeps.mpr (Bool.eq_false_iff.mpr hstopped))
    · rintro rfl
      cases hsome
    · rintro c rfl
      cases hsome

/-- A test of `stopCh` with nothing in hand. -/
theorem acceptMove_of_idle_test {phase : AcceptPhase} (hkeeps : s.KeepsConn a)
    (hidle : s.phase.conn = none) (hconn : phase.conn = none) (hnext : phase ≠ .exited)
    (hruns : ∀ conn, phase ≠ .panicked conn)
    (h : { s with phase := if s.stopped then .exited else phase } = t) : AcceptMove s a t := by
  subst h
  refine .pass _ ?_ ?_ ?_ hkeeps
  · split
    · exact hidle.symm
    · exact hconn.trans hidle.symm
  · split
    · exact fun _ => ‹_›
    · exact fun hexited => absurd hexited hnext
  · intro conn
    split
    · simp
    · exact hruns conn

theorem acceptMove_of_go (h : s.go = some t) : AcceptMove s .go t := by
  unfold go at h
  cases hphase : s.phase <;> simp only [hphase, Option.some.injEq, reduceCtorEq] at h
  case loop =>
    exact acceptMove_of_idle_test (by simp [KeepsConn, hphase]) (by rw [hphase]; rfl) rfl
      (by simp) (by simp) h
  case failed =>
    exact acceptMove_of_idle_test (by simp [KeepsConn, hphase]) (by rw [hphase]; rfl) rfl
      (by simp) (by simp) h
  case check conn =>
    exact acceptMove_of_test (by simp [KeepsConn, hphase]) (by rw [hphase]; rfl) rfl h
  case timedOut conn =>
    exact acceptMove_of_test (by simp [KeepsConn, hphase]) (by rw [hphase]; rfl) rfl h
  case lastOffer conn =>
    have hkeeps : s.KeepsConn .go ↔
        s.connCh.closed = false ∧ s.connCh.buf.length < s.connCh.cap := by
      simp only [KeepsConn, hphase]
    refine acceptMove_of_send (by rw [hphase]; rfl) (fun hkept => (hkeeps.mp hkept).1)
      (fun hopen hroom => hkeeps.mpr ⟨hopen, hroom⟩) (fun hfull _ hroom => ?_) h
    cases hfull
    exact .turnAway conn fun hkept => hroom (hkeeps.mp hkept).2

theorem acceptMove_of_offer {conn : Nat} {choice : OfferCase} (hphase : s.phase = .offer conn)
    (h : s.offer conn choice = some t) : AcceptMove s (.offer choice) t := by
  have hconn : s.phase.conn = some conn := by
    rw [hphase]
    rfl
  cases choice with
  | send =>
    exact acceptMove_of_send hconn id (fun hopen _ => hopen) (fun hfull => by cases hfull) h
  | stop =>
    simp only [offer] at h
    split at h <;> cases h
    exact .turnAway conn id
  | timer =>
    cases h
    exact .pass _ hconn.symm (by simp) (by simp) trivial

theorem acceptMove_of_step (h : s.step a = some t) : AcceptMove s a t := by
  have hact : s.act a = some t := by
    unfold step at h
    split at h
    · cases h
    · exact h
  cases a with
  | go => exact acceptMove_of_go hact
  | accept =>
    simp only [act] at hact
    split at hact <;> cases hact
    rename_i hphase
    exact .accept (by rw [hphase]; rfl) trivial
  | acceptError =>
    simp only [act] at hact
    split at hact <;> cases hact
    rename_i hphase
    exact .pass _ (by rw [hphase]; rfl) (by simp) (by simp) trivial
  | offer choice =>
    simp only [act] at hact
    split at hact
    · exact acceptMove_of_offer ‹_› hact
    · cases hact
  | take =>
    simp only [act] at hact
    split at hact
    · cases hact
      exact .take _ _ trivial
    · cases hact
    · cases hact
  | finish conn =>
    simp only [act] at hact
    split at hact <;> cases hact
    exact .finish conn trivial
  | stop =>
    cases hact
    exact .stop trivial
  | closeConnCh =>
    simp only [act] at hact
    split at hact <;> cases hact
    exact .closeConnCh trivial

/-! ### Whole runs -/

/-- A connection is still counted that is closed, or the loop has panicked. -/
def Leaked (s : AcceptState) : Prop :=
  s.activeConns + s.closed.length > s.connections ∨ ∃ conn, s.phase = .panicked conn

theorem not_kept_of_leaked (h : s.Leaked) : ¬ s.Kept := by
  intro hkept
  obtain hsurplus | ⟨conn, hphase⟩ := h
  · have hrestored := hkept.restored
    omega
  · exact hkept.runs conn hphase

/-- A step that does not turn a connection away keeps the account. -/
theorem Kept.step (h : s.Kept) (hkeeps : s.KeepsConn a) (hstep : s.step a = some t) : t.Kept := by
  have hrestored := h.restored
  cases acceptMove_of_step hstep with
  | pass phase hconn hexits hruns =>
    refine ⟨hexits, fun conn hlt => ?_, hruns, hrestored⟩
    rw [hconn]
    exact h.settled conn hlt
  | accept hidle =>
    refine ⟨by simp, fun conn hlt => ?_, by simp, ?_⟩
    · obtain hlt | rfl := Nat.lt_succ_iff_lt_or_eq.mp hlt
      · have hsettled := h.settled conn hlt
        rw [hidle] at hsettled
        exact .inr (hsettled.resolve_left (by simp))
      · exact .inl rfl
    · push_cast
      omega
  | hand connCh conn hconn =>
    refine ⟨by simp, fun c hlt => ?_, by simp, hrestored⟩
    obtain hhand | hhanded | hclosed := h.settled c hlt
    · cases hconn.symm.trans hhand
      exact .inr (.inl (mem_append_right _ (mem_singleton_self _)))
    · exact .inr (.inl (mem_append_left _ hhanded))
    · exact .inr (.inr hclosed)
  | take | closeConnCh => exact ⟨h.exits, h.settled, h.runs, hrestored⟩
  | finish conn =>
    refine ⟨h.exits, fun c hlt => ?_, h.runs, ?_⟩
    · obtain hhand | hhanded | hclosed := h.settled c hlt
      · exact .inl hhand
      · exact .inr (.inl hhanded)
      · exact .inr (.inr (mem_append_left _ hclosed))
    · rw [length_append, length_singleton]
      push_cast
      omega
  | stop => exact ⟨fun _ => rfl, h.settled, h.runs, hrestored⟩
  | turnAway conn hturns => exact absurd hkeeps hturns
  | panic conn hturns => exact absurd hkeeps hturns

/-- A connection that is turned away stays in the count. -/
theorem Kept.leaks (h : s.Kept) (hturns : ¬ s.KeepsConn a) (hstep : s.step a = some t) :
    t.Leaked := by
  have hrestored := h.restored
  cases acceptMove_of_step hstep with
  | turnAway conn =>
    refine .inl ?_
    simp only [turnAway, length_append, length_singleton]
    push_cast
    omega
  | panic conn => exact .inr ⟨conn, rfl⟩
  | pass | accept | hand | take | finish | stop | closeConnCh => exact absurd ‹_› hturns

theorem Leaked.step (h : s.Leaked) (hstep : s.step a = some t) : t.Leaked := by
  obtain hsurplus | ⟨conn, hphase⟩ := h
  · cases acceptMove_of_step hstep with
    | pass | hand | take | stop | closeConnCh => exact .inl hsurplus
    | accept =>
      refine .inl ?_
      push_cast
      omega
    | finish conn | turnAway conn =>
      refine .inl ?_
      simp only [turnAway, length_append, length_singleton]
      push_cast
      omega
    | panic conn => exact .inr ⟨conn, rfl⟩
  · unfold AcceptState.step at hstep
    rw [hphase] at hstep
    cases hstep

theorem kept_start (cap : Nat) : (start cap).Kept :=
  ⟨by simp [start], fun conn hlt => absurd hlt (Nat.not_lt_zero conn), by simp [start], rfl⟩

/-- **Accepting.**  After any run the loop has kept running and its account is right exactly
    when no step of the run turned a connection away. -/
theorem kept_iff_keepsConn (cap : Nat) (as : List AcceptAction) (t : AcceptState)
    (hrun : Runs step (start cap) as t) : t.Kept ↔ GuardedRun step KeepsConn (start cap) as t :=
  guardedRun_iff Kept Leaked
    (fun _ _ _ h hstep =>
      ⟨fun hkeeps => h.step hkeeps hstep, fun hturns => h.leaks hturns hstep⟩)
    (fun _ _ _ h hstep => h.step hstep) (fun _ h => h) (fun _ h => not_kept_of_leaked h) hrun
    (kept_start cap)

/-! ### A busy server -/

/-- A connection comes in and goes to a worker. -/
def handOver : List AcceptAction := [.go, .accept, .go, .offer .send]

/-- One connection is served, and then the server is stopped. -/
theorem kept_after_one_connection :
    ∃ t, exec step (start 2) (handOver ++ [.take, .go, .finish 0, .stop, .acceptError, .go]) =
        some t ∧ t.phase = .exited ∧ t.activeConns = 0 ∧
      (t.Kept ↔ GuardedRun step KeepsConn (start 2)
        (handOver ++ [.take, .go, .finish 0, .stop, .acceptError, .go]) t) :=
  ⟨_, rfl, rfl, rfl, kept_iff_keepsConn 2 _ _ (runs_of_exec rfl)⟩

/-- The worker of a server with one worker is busy, two connections wait for it, and the timer
    of a third one runs out: it is closed, and the loop ends. -/
theorem not_kept_full_queue :
    ∃ t, exec step (start 2) (handOver ++ .take :: handOver ++ handOver ++
        [.go, .accept, .go, .offer .timer, .go, .go]) = some t ∧
      t.phase = .exited ∧ t.stopped = false ∧ t.closed = [3] ∧ t.activeConns = 4 ∧ ¬ t.Kept :=
  ⟨_, rfl, rfl, rfl, rfl, rfl, fun h => absurd (h.exits rfl) (by decide)⟩

end AcceptState

end GridKV
