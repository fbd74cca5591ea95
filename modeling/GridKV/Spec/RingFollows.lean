import GridKV.Spec.Placement
import GridKV.Spec.StaleNews

/-!
# Does the ring follow the membership?

A handler that changes the member table owes the ring an update: it takes a snapshot of
the table, and later publishes it under the time it then reads.  As long as the ring is
not current, some handler still has the news in hand, that is, has not taken its snapshot
yet or holds one that agrees with the table.  The last such handler must get its snapshot
published; if instead a stale snapshot is published after it, or the clock has not moved,
or no member is alive, the ring is left behind.
-/

namespace GridKV

open Go Run Interleave List Function

/-! ### Rings and tables -/

/-- A snapshot that is not empty is published under a new version. -/
theorem VersionedRing.mem_publish {cfg : RingConfig} {ring : VersionedRing} {now : Int64}
    {nodeIDs : List GoString} (hne : nodeIDs ≠ []) (hnow : ring.version < now) (x : GoString) :
    x ∈ (ring.publish cfg now nodeIDs).data.nodeIDs ↔ x ∈ nodeIDs := by
  have hnew : ring.publish cfg now nodeIDs = ⟨now, cfg.build nodeIDs⟩ := by
    rw [publish, if_pos (length_pos_iff.mpr hne), update,
      if_neg (Int64.not_le.mpr hnow), if_neg hne]
  rw [hnew]
  exact RingConfig.mem_build

namespace MemberMgr

variable {m : MemberMgr} (nodeID address : GoString) (incarnation : Int64) {info : NodeInfo}
  (now : Time)

/-- The table says that the node is alive. -/
def Alive (m : MemberMgr) (x : GoString) : Prop :=
  ∃ info, m.members.lookup x = some info ∧ info.state = NodeState.alive

/-- Every entry is filed under its own ID. -/
def Keyed (m : MemberMgr) : Prop :=
  ∀ x info, m.members.lookup x = some info → info.nodeID = x

theorem mem_aliveIDs (h : m.Keyed) (x : GoString) : x ∈ m.aliveIDs ↔ m.Alive x := by
  constructor
  · intro hx
    obtain ⟨info, hinfo, rfl⟩ := mem_map.mp hx
    obtain ⟨hmem, halive⟩ := mem_filter.mp hinfo
    obtain ⟨⟨key, entry⟩, hentry, rfl⟩ := mem_map.mp hmem
    have hlookup := AList.mem_lookup_iff.mpr hentry
    refine ⟨entry, ?_, of_decide_eq_true halive⟩
    rw [h key entry hlookup]
    exact hlookup
  · intro hx
    obtain ⟨info, hlookup, halive⟩ := hx
    apply mem_map.mpr
    refine ⟨info, mem_filter.mpr ⟨?_, decide_eq_true halive⟩, h x info hlookup⟩
    exact mem_map.mpr ⟨⟨x, info⟩, AList.mem_lookup_iff.mp hlookup, rfl⟩

theorem aliveIDs_new : (MemberMgr.new nodeID address incarnation now).aliveIDs = [nodeID] := by
  simp [aliveIDs, allMembers, new, AList.singleton]

theorem keyed_new : (MemberMgr.new nodeID address incarnation now).Keyed := by
  intro x info hinfo
  obtain ⟨rfl, rfl⟩ := eq_of_lookup_new hinfo
  rfl

/-- A `Store` changes only the entry of its node. -/
theorem alive_insert {nodeID : GoString} (x : GoString) :
    ({ m with members := m.members.insert nodeID info } : MemberMgr).Alive x ↔
      if x = nodeID then info.state = NodeState.alive else m.Alive x := by
  by_cases hx : x = nodeID
  · subst hx
    rw [if_pos rfl]
    constructor
    · intro h
      obtain ⟨e, he, halive⟩ := h
      obtain rfl : info = e := Option.some.inj ((AList.lookup_insert _).symm.trans he)
      exact halive
    · exact fun halive => ⟨info, AList.lookup_insert _, halive⟩
  · rw [if_neg hx]
    show (∃ e, (m.members.insert nodeID info).lookup x = some e ∧ _) ↔ _
    rw [AList.lookup_insert_ne hx]
    exact Iff.rfl

theorem keyed_insert {nodeID : GoString} (h : m.Keyed) (hinfo : info.nodeID = nodeID) :
    ({ m with members := m.members.insert nodeID info } : MemberMgr).Keyed := by
  intro x e he
  by_cases hx : x = nodeID
  · subst hx
    obtain rfl : info = e := Option.some.inj ((AList.lookup_insert _).symm.trans he)
    exact hinfo
  · exact h x e ((AList.lookup_insert_ne hx).symm.trans he)

end MemberMgr

/-- A call writes an entry of the node it is about. -/
theorem MemberCall.nodeID_of_writes {nodeID : GoString} {call : MemberCall}
    {loaded : Option NodeInfo} {info : NodeInfo} (hloaded : ∀ e, loaded = some e → e.nodeID = nodeID)
    (h : call.writes nodeID loaded = some info) : info.nodeID = nodeID := by
  obtain ⟨hnew, -⟩ | ⟨old, state, hold, rfl⟩ := writes_cases h
  · exact hnew
  · exact hloaded old hold

/-! ### Who has the news -/

namespace RingState

/-- The IDs are those of the members that are alive. -/
def Fresh (s : RingState) (nodeIDs : List GoString) : Prop :=
  ∀ x, x ∈ nodeIDs ↔ s.member.Alive x

/-- The ring agrees with the table. -/
def Current (s : RingState) : Prop := s.Fresh s.ring.data.nodeIDs

/-- A handler that has yet to take its snapshot, or holds one that agrees with the
    table. -/
def InHand (s : RingState) : HandlerPhase → Prop
  | .call _ => False
  | .snapshot => True
  | .update nodeIDs => s.Fresh nodeIDs

variable {s t : RingState}

theorem Fresh.congr {nodeIDs : List GoString} (h : s.Fresh nodeIDs)
    (halive : ∀ x, t.member.Alive x ↔ s.member.Alive x) : t.Fresh nodeIDs :=
  fun x => (h x).trans (halive x).symm

theorem InHand.congr {p : HandlerPhase} (h : s.InHand p)
    (halive : ∀ x, t.member.Alive x ↔ s.member.Alive x) : t.InHand p := by
  cases p with
  | call p => exact h
  | snapshot => trivial
  | update nodeIDs => exact Fresh.congr h halive

end RingState

namespace Handlers

variable {ι : Type} [DecidableEq ι] (h : Handlers ι)

/-- One of the handlers takes a step. -/
def step : System ι RingState HandlerPhase → ι → Option (System ι RingState HandlerPhase) :=
  Interleave.step h.handlerStep

/-- A new cluster, before any of the handlers. -/
def launch (m : MemberMgr) : System ι RingState HandlerPhase where
  shared := h.newCluster m
  phase _ := .call .load

/-- A `Store` without the callback leaves it as it is whether the node is alive.  An update
    of the ring is left to another handler that has the news in hand, or publishes a
    snapshot that agrees with the table. -/
def Covered (s : System ι RingState HandlerPhase) (i : ι) : Prop :=
  match s.phase i with
  | .call (.store loaded info) =>
    (h.call i).callsBack loaded ∨
      (info.state = NodeState.alive ↔ s.shared.member.Alive (h.nodeID i))
  | .update nodeIDs =>
    (∃ j, j ≠ i ∧ s.shared.InHand (s.phase j)) ∨
      (s.shared.Fresh nodeIDs ∧ nodeIDs ≠ [] ∧ s.shared.ring.version < h.reading s.shared.ticks)
  | _ => True

/-- A handler stores an entry of its node. -/
def Named (i : ι) : HandlerPhase → Prop
  | .call (.store _ info) => info.nodeID = h.nodeID i
  | _ => True

/-- The ring is current or some handler has the news in hand. -/
structure Inv (s : System ι RingState HandlerPhase) : Prop where
  keyed : s.shared.member.Keyed
  named : ∀ i, h.Named i (s.phase i)
  told : s.shared.Current ∨ ∃ i, s.shared.InHand (s.phase i)

/-- No callback is due or in progress. -/
def Idle (s : System ι RingState HandlerPhase) : Prop :=
  ∀ i, ∃ p, s.phase i = .call p

variable {h} {m : MemberMgr} {i : ι} {is : List ι} {s t : System ι RingState HandlerPhase}
  {q : HandlerPhase}

omit [DecidableEq ι] in
/-- When all callbacks are over, the ring is current. -/
theorem Inv.current (hinv : h.Inv s) (hidle : Idle s) : s.shared.Current := by
  obtain hcurrent | ⟨i, hi⟩ := hinv.told
  · exact hcurrent
  · obtain ⟨p, hp⟩ := hidle i
    rw [hp] at hi
    exact hi.elim

/-! ### One step -/

/-- The handler that moves has the news in hand now. -/
theorem told_of_mover (hphase : t.phase = update s.phase i q) (hq : t.shared.InHand q) :
    t.shared.Current ∨ ∃ j, t.shared.InHand (t.phase j) := by
  refine .inr ⟨i, ?_⟩
  rwa [hphase, update_self]

/-- Another handler has the news in hand, and who is alive does not change. -/
theorem told_of_other {j : ι} (hphase : t.phase = update s.phase i q) (hj : j ≠ i)
    (halive : ∀ x, t.shared.member.Alive x ↔ s.shared.member.Alive x)
    (hin : s.shared.InHand (s.phase j)) :
    t.shared.Current ∨ ∃ j, t.shared.InHand (t.phase j) := by
  refine .inr ⟨j, ?_⟩
  rw [hphase, update_of_ne hj]
  exact hin.congr halive

/-- A step of a call that changes neither the ring nor who is alive. -/
theorem told_of_call {p : MemberPhase} (hphase : t.phase = update s.phase i q)
    (hp : s.phase i = .call p) (hring : t.shared.ring = s.shared.ring)
    (halive : ∀ x, t.shared.member.Alive x ↔ s.shared.member.Alive x)
    (htold : s.shared.Current ∨ ∃ j, s.shared.InHand (s.phase j)) :
    t.shared.Current ∨ ∃ j, t.shared.InHand (t.phase j) := by
  obtain hcurrent | ⟨j, hj⟩ := htold
  · left
    rw [RingState.Current, hring]
    exact hcurrent.congr halive
  · have hne : j ≠ i := by
      intro heq
      rw [heq, hp] at hj
      exact hj
    exact told_of_other hphase hne halive hj

/-- The `Load` of a call, and what it decides to write. -/
theorem inv_load (hinv : h.Inv s) (hp : s.phase i = .call .load) (hstep : h.step s i = some t) :
    h.Inv t := by
  obtain ⟨q, hact, hphase⟩ := step_eq_some hstep
  rw [hp] at hact
  obtain ⟨⟨m, r⟩, hload, hout⟩ := Option.map_eq_some_iff.mp hact
  have hmember : m = s.shared.member ∧ h.Named i (.call r) := by
    simp only [memberStep] at hload
    split at hload
    · cases hload
      exact ⟨rfl, trivial⟩
    · rename_i info hwrites
      cases hload
      exact ⟨rfl, MemberCall.nodeID_of_writes (fun e he => hinv.keyed _ e he) hwrites⟩
  obtain ⟨rfl, hr⟩ := hmember
  obtain ⟨hshared, hq⟩ := Prod.mk.inj hout
  -- Nothing shared changes, and a handler that only loads has no news yet.
  have hsame : t.shared = s.shared := hshared.symm
  refine ⟨hsame ▸ hinv.keyed, forall_phase_update hphase hinv.named (hq ▸ hr), ?_⟩
  refine told_of_call hphase hp (by rw [hsame]) (fun x => ?_) hinv.told
  rw [hsame]

/-- The `Store` of a call. -/
theorem inv_store {loaded : Option NodeInfo} {info : NodeInfo} (hinv : h.Inv s)
    (hguard : h.Covered s i) (hp : s.phase i = .call (.store loaded info))
    (hstep : h.step s i = some t) : h.Inv t := by
  obtain ⟨q, hact, hphase⟩ := step_eq_some hstep
  rw [hp] at hact
  obtain ⟨hshared, hq⟩ := Prod.mk.inj (Option.some.inj hact)
  have hinfo : info.nodeID = h.nodeID i := by
    have hnamed := hinv.named i
    rw [hp] at hnamed
    exact hnamed
  have hkeyed : t.shared.member.Keyed := by
    rw [← hshared]
    exact MemberMgr.keyed_insert hinv.keyed hinfo
  simp only [next] at hq
  by_cases hback : (h.call i).callsBack loaded = true
  · -- The callback follows: this handler has the news.
    rw [if_pos hback] at hq
    subst hq
    exact ⟨hkeyed, forall_phase_update hphase hinv.named trivial, told_of_mover hphase trivial⟩
  · -- A refresh: who is alive must stay the same, since nobody will tell the ring.
    rw [if_neg hback] at hq
    subst hq
    have hquiet : info.state = NodeState.alive ↔ s.shared.member.Alive (h.nodeID i) := by
      simp only [Covered, hp] at hguard
      exact hguard.resolve_left hback
    refine ⟨hkeyed, forall_phase_update hphase hinv.named trivial, ?_⟩
    refine told_of_call hphase hp (by rw [← hshared]) (fun x => ?_) hinv.told
    rw [← hshared, MemberMgr.alive_insert]
    by_cases hx : x = h.nodeID i
    · rw [if_pos hx, hx]
      exact hquiet
    · rw [if_neg hx]

/-- The two steps of the callback. -/
theorem inv_snapshot (hinv : h.Inv s) (hp : s.phase i = .snapshot) (hstep : h.step s i = some t) :
    h.Inv t := by
  obtain ⟨q, hact, hphase⟩ := step_eq_some hstep
  rw [hp] at hact
  obtain ⟨hshared, rfl⟩ := Prod.mk.inj (Option.some.inj hact)
  have hkeyed : t.shared.member.Keyed := hshared ▸ hinv.keyed
  refine ⟨hkeyed, forall_phase_update hphase hinv.named trivial, told_of_mover hphase ?_⟩
  intro x
  rw [← hshared]
  exact MemberMgr.mem_aliveIDs hinv.keyed x

theorem inv_update {nodeIDs : List GoString} (hinv : h.Inv s) (hguard : h.Covered s i)
    (hp : s.phase i = .update nodeIDs) (hstep : h.step s i = some t) : h.Inv t := by
  obtain ⟨q, hact, hphase⟩ := step_eq_some hstep
  rw [hp] at hact
  obtain ⟨hshared, rfl⟩ := Prod.mk.inj (Option.some.inj hact)
  have hmember : t.shared.member = s.shared.member := by rw [← hshared]
  have halive : ∀ x, t.shared.member.Alive x ↔ s.shared.member.Alive x := fun x => by rw [hmember]
  refine ⟨hmember ▸ hinv.keyed, forall_phase_update hphase hinv.named trivial, ?_⟩
  simp only [Covered, hp] at hguard
  obtain ⟨j, hj, hin⟩ | ⟨hfresh, hne, hnow⟩ := hguard
  · exact told_of_other hphase hj halive hin
  · left
    intro x
    rw [halive x, ← hfresh x, ← hshared]
    exact VersionedRing.mem_publish hne hnow x

theorem inv_step (hinv : h.Inv s) (hguard : h.Covered s i) (hstep : h.step s i = some t) :
    h.Inv t := by
  cases hp : s.phase i with
  | call p =>
    cases p with
    | load => exact inv_load hinv hp hstep
    | store loaded info => exact inv_store hinv hguard hp hstep
    | done =>
      obtain ⟨q, hact, -⟩ := step_eq_some hstep
      rw [hp] at hact
      exact nomatch hact
  | snapshot => exact inv_snapshot hinv hp hstep
  | update nodeIDs => exact inv_update hinv hguard hp hstep

/-! ### Whole runs -/

omit [DecidableEq ι] in
/-- A new cluster has itself on the ring, unless its clock is before 1970. -/
theorem inv_launch {nodeID address : GoString} {incarnation : Int64} {now : Time}
    (hclock : 0 < h.reading 0) : h.Inv (h.launch (.new nodeID address incarnation now)) := by
  have hkeyed := MemberMgr.keyed_new nodeID address incarnation now
  have hself : (MemberMgr.new nodeID address incarnation now).aliveIDs ≠ [] := by
    rw [MemberMgr.aliveIDs_new]
    exact cons_ne_nil nodeID []
  have hversion : h.cfg.newHashRing.version < h.reading 0 := hclock
  have hcurrent : (h.newCluster (.new nodeID address incarnation now)).Current :=
    fun x => (VersionedRing.mem_publish hself hversion x).trans (MemberMgr.mem_aliveIDs hkeyed x)
  exact ⟨hkeyed, fun i => trivial, .inl hcurrent⟩

/-- **Ring and membership.**  Along every run of the handlers of a new cluster in which
    each step is covered, the nodes on the ring are the members that are alive whenever no
    callback is due or in progress. -/
theorem ring_follows {nodeID address : GoString} {incarnation : Int64} {now : Time}
    (hclock : 0 < h.reading 0)
    (hrun : GuardedRun h.step h.Covered (h.launch (.new nodeID address incarnation now)) is s)
    (hidle : Idle s) (x : GoString) :
    x ∈ s.shared.ring.data.nodeIDs ↔ s.shared.member.Alive x := by
  have hinv : h.Inv s :=
    hrun.invariant (fun _ _ _ hinv hguard hstep => inv_step hinv hguard hstep) (inv_launch hclock)
  exact hinv.current hidle x

/-- A ring of one virtual node for each node, all with one hash. -/
def flatRing : RingConfig where
  hashHi _ := 0
  configured := 1
  sort := insertionSort fun a b => a.hash ≤ b.hash
  sort_perm := perm_insertionSort _
  sort_sorted nodes := by
    have : Std.Total fun a b : RingNode => a.hash ≤ b.hash := ⟨fun a b => UInt64.le_total _ _⟩
    have : IsTrans RingNode fun a b => a.hash ≤ b.hash := ⟨fun a b c => UInt64.le_trans⟩
    exact pairwise_insertionSort _ nodes

/-- A clock that reads 1, 2, 3, … and stops at 100. -/
def shortClock (k : Nat) : Int64 := Int64.ofNat (min (k + 1) 100)

theorem shortClock_mono (j k : Nat) (hjk : j ≤ k) : shortClock j ≤ shortClock k := by
  unfold shortClock
  rw [Int64.le_iff_toInt_le, Int64.toInt_ofNat_of_lt (by omega), Int64.toInt_ofNat_of_lt (by omega)]
  omega

/-- The node b joins, and is found dead. -/
def joinAndDeath : Handlers Bool where
  cfg := flatRing
  nodeID _ := ascii "b"
  call
    | false => .updateNode 0 (ascii "b:1") 1 NodeState.alive
    | true => .markDead
  reading := shortClock
  reading_mono := shortClock_mono

/-- The node joins, and nothing else happens until it is on the ring. -/
theorem ring_follows_join :
    ∃ s, Runs joinAndDeath.step (joinAndDeath.launch (.new (ascii "a") (ascii "a:1") 1 0))
        [false, false, false, false] s ∧
      Idle s ∧ ascii "b" ∈ s.shared.ring.data.nodeIDs := by
  have hkeyed := MemberMgr.keyed_new (ascii "a") (ascii "a:1") 1 0
  have hrun : ∃ s, GuardedRun joinAndDeath.step joinAndDeath.Covered
      (joinAndDeath.launch (.new (ascii "a") (ascii "a:1") 1 0)) [false, false, false, false] s ∧
      Idle s ∧ s.shared.member.Alive (ascii "b") := by
    refine ⟨_, .cons trivial rfl (.cons (.inl rfl) rfl (.cons trivial rfl (.cons (.inr
      ⟨MemberMgr.mem_aliveIDs (MemberMgr.keyed_insert hkeyed rfl), ?_, ?_⟩) rfl (.nil _)))), ?_,
      _, rfl, rfl⟩
    · exact cons_ne_nil _ _
    · decide
    · intro i
      cases i with
      | false | true => exact ⟨_, rfl⟩
  obtain ⟨s, hrun, hidle, halive⟩ := hrun
  exact ⟨s, hrun.runs, hidle,
    (ring_follows (by decide) hrun hidle (ascii "b")).mpr halive⟩

/-- The snapshot with b on it is published after the one without. -/
theorem not_ring_follows_stale_snapshot :
    ∃ s, Runs joinAndDeath.step (joinAndDeath.launch (.new (ascii "a") (ascii "a:1") 1 0))
        [false, false, false, true, true, true, true, false] s ∧
      Idle s ∧ ascii "b" ∈ s.shared.ring.data.nodeIDs ∧ ¬s.shared.member.Alive (ascii "b") := by
  refine ⟨_, runs_of_exec rfl, ?_, by decide, ?_⟩
  · intro i
    cases i with
    | false | true => exact ⟨_, rfl⟩
  · intro halive
    obtain ⟨info, hinfo, hstate⟩ := halive
    cases hinfo
    exact nomatch hstate

end Handlers

end GridKV
