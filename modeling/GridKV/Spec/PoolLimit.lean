import GridKV.ForStd.Interleave
import GridKV.Model.PoolSteps
import GridKV.Spec.PoolSlots

/-!
# The limit of the connection pool

Any number of clients get a connection to one address and give it back.  In every
interleaving the active count is the number of clients that dial or have a connection.  A
client that has taken an idle connection and not yet counted it is missing there, so that
another one can dial a connection too many.  A run stays within the limit if and only if each
`Get` that dials would also find room with those clients counted (`withinLimit_iff`).
-/

namespace GridKV

open Go Run Interleave

/-! ### One step -/

namespace ClientPhase

/-- The client has taken a connection out of the idle list and not counted it. -/
def uncounted : ClientPhase → Nat
  | .popped _ => 1
  | _ => 0

/-- The client dials or has a connection. -/
def counted : ClientPhase → Nat
  | .dialling => 1
  | .holding _ => 1
  | _ => 0

end ClientPhase

namespace AddrPool

variable {cfg : PoolConfig} {ap ap' : AddrPool}

/-- A `Get` that comes now dials. -/
def Dials (cfg : PoolConfig) (ap : AddrPool) : Prop :=
  ap.idle = [] ∧ ¬(cfg.maxActive > 0 ∧ ap.active ≥ cfg.maxActive)

theorem enter_of_dials (h : ap.Dials cfg) (client : Nat) :
    ap.enter cfg client = ({ ap with active := ap.active + 1 }, .dialling) := by
  unfold enter
  rw [h.1]
  exact if_neg h.2

/-- A `Get` that does not dial takes what it gets from the idle list. -/
theorem enter_of_not_dials {phase : ClientPhase} {client : Nat} (h : ¬ap.Dials cfg)
    (henter : ap.enter cfg client = (ap', phase)) :
    ap'.active = ap.active ∧ phase.counted = 0 ∧
      ap'.idle.length + phase.uncounted = ap.idle.length := by
  unfold enter at henter
  split at henter
  · rename_i hidle
    obtain ⟨rfl, rfl⟩ := Prod.mk.injEq .. ▸ henter
    exact ⟨rfl, rfl, by simp [hidle, ClientPhase.uncounted]⟩
  · rename_i hidle
    split at henter
    · split at henter <;>
      · obtain ⟨rfl, rfl⟩ := Prod.mk.injEq .. ▸ henter
        exact ⟨rfl, rfl, rfl⟩
    · rename_i hfull
      exact absurd ⟨hidle, hfull⟩ h

theorem active_put (conn : Nat) (healthy : Bool) (now : Time) :
    (ap.put cfg conn healthy now).active = ap.active - 1 := by
  unfold put
  dsimp only
  split
  · split <;> rfl
  · rfl

theorem length_idle_put_le (conn : Nat) (healthy : Bool) (now : Time) :
    (ap.put cfg conn healthy now).idle.length ≤ ap.idle.length + 1 := by
  unfold put
  dsimp only
  split
  · split
    · exact Nat.le_succ _
    · exact Nat.le_refl _
  · exact Nat.le_succ _

/-- While a connection is out, `Remove` does not look at the idle ones. -/
theorem remove_of_active (h : 0 < ap.active) (conn : Nat) :
    ap.remove conn = { ap with active := ap.active - 1 } :=
  if_pos h

end AddrPool

/-- What a client has of the pool: connections in its hands, counted or not, and those that
    lie idle. -/
def AddrPool.sizeWith (ap : AddrPool) (phase : ClientPhase) : Nat :=
  ap.idle.length + phase.uncounted + phase.counted

/-- The step is a `Get` that dials. -/
def AddrPool.IsDial (cfg : PoolConfig) (ap : AddrPool) (move : ClientMove) : Prop :=
  move = .enter ∧ ap.Dials cfg

section

variable {cfg : PoolConfig} {client : Nat} {move : ClientMove} {ap ap' : AddrPool}
  {phase phase' : ClientPhase}

theorem clientStep_of_isDial (hdial : ap.IsDial cfg move)
    (h : clientStep cfg client move ap phase = some (ap', phase')) :
    phase = .start ∧ phase' = .dialling ∧ ap' = { ap with active := ap.active + 1 } := by
  obtain ⟨rfl, hdials⟩ := hdial
  cases phase <;> simp only [clientStep, reduceCtorEq] at h
  rw [AddrPool.enter_of_dials hdials] at h
  cases h
  exact ⟨rfl, rfl, rfl⟩

/-- Any other step changes the active count by the client's share, and the connections do
    not become more. -/
theorem clientStep_of_not_isDial (hcounted : (phase.counted : Int) ≤ ap.active)
    (hdial : ¬ap.IsDial cfg move)
    (h : clientStep cfg client move ap phase = some (ap', phase')) :
    ap'.active + phase.counted = ap.active + phase'.counted ∧
      ap'.sizeWith phase' ≤ ap.sizeWith phase := by
  -- The moves that are not the client's next one drop out.
  cases phase <;> cases move <;> simp only [clientStep, reduceCtorEq] at h
  case start.enter =>
    have hdials : ¬ap.Dials cfg := fun hdials => hdial ⟨rfl, hdials⟩
    obtain ⟨hactive, hzero, hidle⟩ := AddrPool.enter_of_not_dials hdials (Option.some.inj h)
    refine ⟨by rw [hactive, hzero]; rfl, ?_⟩
    rw [AddrPool.sizeWith, hzero, hidle]
    exact Nat.le_refl _
  case popped.activate conn =>
    cases h
    exact ⟨add_zero _, Nat.le_refl _⟩
  case waiting.signalled =>
    split at h <;> cases h
    exact ⟨rfl, Nat.le_refl _⟩
  case waiting.timedOut =>
    cases h
    exact ⟨rfl, Nat.le_refl _⟩
  case dialling.dialled conn =>
    cases h
    exact ⟨rfl, Nat.le_refl _⟩
  case dialling.dialFailed =>
    cases h
    exact ⟨by simp [AddrPool.dialFailed, ClientPhase.counted], Nat.le_succ _⟩
  case holding.put conn healthy now =>
    cases h
    refine ⟨by simp [AddrPool.active_put, ClientPhase.counted], ?_⟩
    exact AddrPool.length_idle_put_le conn healthy now
  case holding.remove conn =>
    -- The client's own connection is counted, so `Remove` takes it off the count.
    have hactive : 0 < ap.active := hcounted
    rw [AddrPool.remove_of_active hactive] at h
    cases h
    exact ⟨by simp [ClientPhase.counted], Nat.le_succ _⟩

end

/-! ### The clients of one address -/

/-- A pool for one address and its clients. -/
abbrev PoolClients (n : Nat) := System (Fin n) AddrPool ClientPhase

namespace PoolClients

variable {cfg : PoolConfig} {n : Nat} {s t : PoolClients n}

/-- A new pool. -/
def new (n : Nat) : PoolClients n := ⟨{}, fun _ => .start⟩

/-- A client takes its next step. -/
def step (cfg : PoolConfig) (s : PoolClients n) (a : Fin n × ClientMove) :
    Option (PoolClients n) :=
  Interleave.step (fun i => clientStep cfg i.val a.2) s a.1

/-- The clients with a connection from the idle list that is not counted yet. -/
def uncounted (s : PoolClients n) : Nat := tally ClientPhase.uncounted s.phase

/-- The clients that dial or have a connection. -/
def counted (s : PoolClients n) : Nat := tally ClientPhase.counted s.phase

/-- The connections that are checked out or being dialled. -/
def inUse (s : PoolClients n) : Nat := s.uncounted + s.counted

/-- The active count is exact. -/
def Exact (s : PoolClients n) : Prop := s.shared.active = s.counted

theorem uncounted_new : (new n).uncounted = 0 :=
  tally_const fun _ => rfl

theorem counted_new : (new n).counted = 0 :=
  tally_const fun _ => rfl

theorem exact_new (n : Nat) : (new n).Exact := by
  rw [Exact, counted_new]
  rfl

/-- What a step does: the count stays exact, a `Get` that dials makes the connections one
    more, and nothing else makes them more. -/
theorem step_counts {a : Fin n × ClientMove} (h : s.Exact) (hstep : step cfg s a = some t) :
    t.Exact ∧
      (s.shared.IsDial cfg a.2 → t.shared.idle = [] ∧ t.inUse = s.inUse + 1) ∧
      (¬s.shared.IsDial cfg a.2 →
        t.shared.idle.length + t.inUse ≤ s.shared.idle.length + s.inUse) := by
  obtain ⟨phase, hmove, hphase⟩ := step_eq_some hstep
  have huncounted := tally_step ClientPhase.uncounted hphase
  have hcounted := tally_step ClientPhase.counted hphase
  have hself := le_tally ClientPhase.counted s.phase a.1
  unfold Exact inUse PoolClients.uncounted PoolClients.counted at *
  by_cases hdial : s.shared.IsDial cfg a.2
  · obtain ⟨hstart, rfl, hpool⟩ := clientStep_of_isDial hdial hmove
    rw [hstart] at huncounted hcounted
    simp only [ClientPhase.uncounted, ClientPhase.counted] at huncounted hcounted
    refine ⟨?_, fun _ => ⟨by rw [hpool]; exact hdial.2.1, by omega⟩, fun hnot => absurd hdial hnot⟩
    rw [hpool]
    dsimp only
    omega
  · obtain ⟨hactive, hsize⟩ := clientStep_of_not_isDial (by omega) hdial hmove
    unfold AddrPool.sizeWith at hsize
    exact ⟨by omega, fun h => absurd h hdial, fun _ => by omega⟩

/-! ### The limit -/

/-- The step leaves no more connections checked out or being dialled than the limit. -/
def KeepsLimit (cfg : PoolConfig) (s : PoolClients n) (a : Fin n × ClientMove) : Prop :=
  ∀ t, step cfg s a = some t → (t.inUse : Int) ≤ cfg.maxActive

/-- If the step is a `Get` that dials, then there is room for it with the connections that
    were taken from the idle list and are not counted yet. -/
def Uncrowded (cfg : PoolConfig) (s : PoolClients n) (a : Fin n × ClientMove) : Prop :=
  s.shared.IsDial cfg a.2 → s.shared.active + s.uncounted < cfg.maxActive

/-- A run of clients of a new pool stays within the limit if and only if none of its `Get`s
    dials where only the connections that are not counted yet leave it room. -/
theorem withinLimit_iff {as : List (Fin n × ClientMove)} (hmax : 0 < cfg.maxActive) :
    GuardedRun (step cfg) (KeepsLimit cfg) (new n) as t ↔
      GuardedRun (step cfg) (Uncrowded cfg) (new n) as t := by
  constructor
  · intro hrun
    refine hrun.exchange (I := Exact) (fun s a t hexact hlimit hstep => ?_) (exact_new n)
    obtain ⟨hexact', hmore, -⟩ := step_counts hexact hstep
    refine ⟨fun hdial => ?_, hexact'⟩
    have hone := (hmore hdial).2
    have hle := hlimit t hstep
    rw [hexact]
    unfold inUse at hone hle
    omega
  · intro hrun
    refine hrun.exchange (I := fun s => s.Exact ∧ s.shared.idle.length + s.inUse ≤ cfg.maxActive)
      (fun s a t hs hroom hstep => ?_) ⟨exact_new n, ?_⟩
    · obtain ⟨hexact, hsize⟩ := hs
      obtain ⟨hexact', hmore, hsame⟩ := step_counts hexact hstep
      have hsize' : t.shared.idle.length + t.inUse ≤ cfg.maxActive := by
        by_cases hdial : s.shared.IsDial cfg a.2
        · obtain ⟨hidle, hone⟩ := hmore hdial
          have hless := hroom hdial
          rw [hexact] at hless
          rw [hidle, hone, inUse, List.length_nil]
          omega
        · have hle := hsame hdial
          omega
      refine ⟨fun u hu => ?_, hexact', hsize'⟩
      cases hstep.symm.trans hu
      omega
    · have hzero : (new n).shared.idle.length + (new n).inUse = 0 := by
        rw [inUse, uncounted_new, counted_new]
        rfl
      omega

/-- The first client dials and gives its connection back, and the second one takes it. -/
def inTurn : List (Fin 2 × ClientMove) :=
  [(0, .enter), (0, .dialled 0), (0, .put true 0), (1, .enter), (1, .activate)]

theorem withinLimit_inTurn :
    ∃ t, GuardedRun (step { maxActive := 1 }) (KeepsLimit { maxActive := 1 }) (new 2) inTurn t := by
  have hrun : ∃ t,
      GuardedRun (step { maxActive := 1 }) (Uncrowded { maxActive := 1 }) (new 2) inTurn t := by
    refine ⟨_, .cons (fun _ => ?_) rfl (.cons ?_ rfl (.cons ?_ rfl (.cons ?_ rfl
      (.cons ?_ rfl (.nil _)))))⟩
    · rw [uncounted_new]
      decide
    · exact fun h => nomatch h.1
    · exact fun h => nomatch h.1
    · -- The second client finds the idle connection.
      exact fun h => nomatch h.2.1
    · exact fun h => nomatch h.1
  obtain ⟨t, hrun⟩ := hrun
  exact ⟨t, (withinLimit_iff (by decide)).mpr hrun⟩

/-- The second client has taken the idle connection and not counted it when the third one
    comes, which therefore dials: both end up with a connection where one is allowed. -/
theorem two_out_of_one :
    ∃ t : PoolClients 3, Runs (step { maxActive := 1 }) (new 3)
      [(0, .enter), (0, .dialled 0), (0, .put true 0), (1, .enter), (2, .enter), (1, .activate),
        (2, .dialled 1)] t ∧
      t.phase 1 = .holding 0 ∧ t.phase 2 = .holding 1 ∧ t.inUse = 2 :=
  ⟨_, runs_of_exec rfl, rfl, rfl, rfl⟩

end PoolClients

end GridKV
