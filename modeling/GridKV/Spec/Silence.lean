import GridKV.ForStd.Run
import GridKV.Model.Detector
import GridKV.Spec.MemberHandlers

/-!
# A node that is suspected has been silent

A ping or an ack of a node refreshes the `lastActive` of its entry, unless the entry says the
same already and is younger than a second.  Nothing that happens later, on a clock that does
not go back, makes the entry older (`Watch.Sound`).  `doPing` and the timers look at
`lastActive` before they move a node to `Suspect` or `Dead`, and no handler does that at all
but the one for `clusterSync`.  So a node that is moved has not been heard for the timeout,
give or take the second.
-/

namespace GridKV

open Go Run

namespace MemberMgr

variable {m : MemberMgr} {clock : Nat → Time} {msg : MemberMsg} {x : GoString} {t : Time}
  {info : NodeInfo} {out : MemberMgr × List MemberEffect} (timeout : Int) {nodeID : GoString}
  {now : Time} {incarnation : Int64} {state : NodeState}

/-! ### One entry -/

/-- The entry of a node with an address is at most a second older than `t`. -/
def ActiveSince (x : GoString) (t : Time) (m : MemberMgr) : Prop :=
  ∀ info, m.members.lookup x = some info → info.address ≠ [] → t - second ≤ info.lastActive

/-- The incarnation is not lower than the one recorded for the node, if there is one. -/
def current (m : MemberMgr) (nodeID : GoString) (incarnation : Int64) : Bool :=
  match m.members.lookup nodeID with
  | none => true
  | some info => info.incarnation ≤ incarnation

theorem le_of_current (hcurrent : m.current nodeID incarnation = true)
    (hlookup : m.members.lookup nodeID = some info) : ¬ incarnation < info.incarnation := by
  unfold current at hcurrent
  rw [hlookup] at hcurrent
  exact Int64.not_lt.mpr (of_decide_eq_true hcurrent)

theorem sub_second_le (h : t ≤ now) : t - second ≤ now :=
  Int.le_trans (Int.sub_le_self t (by decide)) h

/-- Later updates keep it. -/
theorem ActiveSince.updateNode (h : m.ActiveSince x t) (hnow : t ≤ now) (nodeID address : GoString)
    (incarnation : Int64) (state : NodeState) :
    (m.updateNode now nodeID address incarnation state).1.ActiveSince x t := by
  obtain ⟨-, hupdate⟩ | ⟨-, -, effects, -, hupdate⟩ :=
    updateNode_cases m now nodeID address incarnation state
  · rw [hupdate]
    exact h
  · rw [hupdate]
    intro info hlookup haddress
    rw [lookup_storeNode] at hlookup
    split at hlookup
    · cases hlookup
      exact sub_second_le hnow
    · exact h info hlookup haddress

/-- An update with a current incarnation, under the address that is recorded. -/
theorem activeSince_updateNode (hcurrent : m.current nodeID incarnation = true)
    (haddress : m.addressOf nodeID ≠ []) :
    (m.updateNode now nodeID (m.addressOf nodeID) incarnation state).1.ActiveSince nodeID now := by
  obtain ⟨hignored, hupdate⟩ | ⟨-, -, effects, -, hupdate⟩ :=
    updateNode_cases m now nodeID (m.addressOf nodeID) incarnation state
  · rw [hupdate]
    intro info hlookup _
    obtain ⟨old, hold, hstale | ⟨-, hrecent⟩⟩ := hignored.resolve_left haddress
    · exact absurd hstale (le_of_current hcurrent hold)
    · cases hold.symm.trans hlookup
      exact Int.sub_left_le_of_le_add (Int.le_add_of_sub_right_le hrecent)
  · rw [hupdate]
    intro info hlookup _
    rw [lookup_storeNode, if_pos rfl] at hlookup
    cases hlookup
    exact sub_second_le (Int.le_refl now)

/-- Without an address in the table there is nothing to say. -/
theorem activeSince_of_addressOf (haddress : m.addressOf x = []) : m.ActiveSince x t := by
  intro info hlookup hne
  unfold addressOf at haddress
  rw [hlookup] at haddress
  exact absurd haddress hne

/-! ### Messages -/

/-- The nodes that a message is a current sign of life of. -/
def signs (m : MemberMgr) : MemberMsg → List GoString
  | .ping (some msg) => if m.current msg.sender msg.incarnation then [msg.sender] else []
  | .ack (some msg) => if m.current msg.sender msg.incarnation then [msg.sender] else []
  | _ => []

/-- The handlers look at the clock once, apart from that for `clusterSync`. -/
theorem now_eq_of_handlerCall {own address : GoString} (hsync : ∀ sync, msg ≠ .clusterSync sync)
    (hcall : HandlerCall own clock msg now nodeID address incarnation state) :
    now = clock 0 ∧ (state = NodeState.alive ∨ address = []) := by
  cases hcall with
  | ping | ack | connect | indirectAck => exact ⟨rfl, .inl rfl⟩
  | leave => exact ⟨rfl, .inr rfl⟩
  | clusterSync sync => exact absurd rfl (hsync (some sync))

/-- A message keeps what was known before it. -/
theorem ActiveSince.handleMessage (h : m.ActiveSince x t)
    (hsync : ∀ sync, msg ≠ .clusterSync sync) (hclock : t ≤ clock 0)
    (hout : m.handleMessage clock msg = .ok out) : out.1.ActiveSince x t := by
  have hkept : KeptByCalls (ActiveSince x t) m.nodeID clock msg := by
    refine ⟨fun _ _ h => h, ?_⟩
    intro m' now nodeID address incarnation state _ hcall h
    obtain ⟨rfl, -⟩ := now_eq_of_handlerCall hsync hcall
    exact h.updateNode hclock nodeID address incarnation state
  exact hkept.handleMessage hout h

/-- A sign of life makes the entry young. -/
theorem activeSince_of_mem_signs (hout : m.handleMessage clock msg = .ok out)
    (hsign : x ∈ m.signs msg) : out.1.ActiveSince x (clock 0) := by
  unfold signs at hsign
  split at hsign
  · rename_i ping
    cases hout
    split at hsign
    · rename_i hcurrent
      obtain rfl := List.mem_singleton.mp hsign
      simp only [handlePing]
      split
      · exact activeSince_updateNode hcurrent ‹_›
      · exact activeSince_of_addressOf (not_not.mp ‹_›)
    · cases hsign
  · rename_i ack
    cases hout
    split at hsign
    · rename_i hcurrent
      obtain rfl := List.mem_singleton.mp hsign
      obtain ⟨probes, hfst⟩ := handleAck_fst m (clock 0) ack
      rw [hfst]
      unfold acked
      split
      · exact activeSince_updateNode hcurrent ‹_›
      · exact activeSince_of_addressOf (not_not.mp ‹_›)
    · cases hsign
  · cases hsign

/-- A handler makes nodes alive, and nothing else. -/
theorem alive_of_handleMessage (hsync : ∀ sync, msg ≠ .clusterSync sync)
    (hout : m.handleMessage clock msg = .ok out) (hlookup : out.1.members.lookup x = some info) :
    m.members.lookup x = some info ∨ info.state = NodeState.alive := by
  have hkept : KeptByCalls (fun m' => ∀ info, m'.members.lookup x = some info →
      m.members.lookup x = some info ∨ info.state = NodeState.alive) m.nodeID clock msg := by
    refine ⟨fun _ _ h => h, ?_⟩
    intro m' now nodeID address incarnation state _ hcall h
    obtain ⟨-, hnews⟩ := now_eq_of_handlerCall hsync hcall
    obtain ⟨-, hupdate⟩ | ⟨haddress, -, effects, -, hupdate⟩ :=
      updateNode_cases m' now nodeID address incarnation state
    · rw [hupdate]
      exact h
    · rw [hupdate]
      intro info hlookup
      rw [lookup_storeNode] at hlookup
      split at hlookup
      · cases hlookup
        exact .inr (hnews.resolve_right haddress)
      · exact h info hlookup
  exact hkept.handleMessage hout (fun _ h => .inl h) info hlookup

/-! ### Ticks and timers -/

theorem address_pinged (failureTimeout : Int) (input : ProbeInput) :
    (m.pinged failureTimeout input nodeID info).address = info.address := by
  unfold pinged
  repeat' split
  all_goals rfl

/-- A visit sets `lastActive` to the time it takes place, if it sets it. -/
theorem lastActive_pinged (m : MemberMgr) (failureTimeout : Int) (input : ProbeInput)
    (nodeID : GoString) (info : NodeInfo) :
    (m.pinged failureTimeout input nodeID info).lastActive = info.lastActive ∨
      (m.pinged failureTimeout input nodeID info).lastActive = input.activeNow := by
  unfold pinged
  repeat' split
  all_goals first | exact .inl rfl | exact .inr rfl

/-- A visit changes the state of a node after the timeout only. -/
theorem late_of_pinged {failureTimeout : Int} {input : ProbeInput}
    (hmoved : info.state ≠ (m.pinged failureTimeout input nodeID info).state) :
    input.now - info.lastActive > failureTimeout := by
  unfold pinged at hmoved
  split at hmoved
  · exact absurd rfl hmoved
  · split at hmoved
    · assumption
    · split at hmoved <;> exact absurd rfl hmoved

theorem address_expired : (expired timeout now info).address = info.address := by
  unfold expired
  split <;> rfl

theorem lastActive_expired : (expired timeout now info).lastActive = info.lastActive := by
  unfold expired
  split <;> rfl

/-- A timer changes it after its timeout only. -/
theorem late_of_expired {timeout : Int} (hmoved : info.state ≠ (expired timeout now info).state) :
    now - info.lastActive > timeout := by
  unfold expired at hmoved
  split at hmoved
  · rename_i hexpired
    exact hexpired.2
  · exact absurd rfl hmoved

theorem ActiveSince.doPing (h : m.ActiveSince x t) (failureTimeout : Int)
    {inputs : GoString → ProbeInput} (hclock : x ∈ m.members → t ≤ (inputs x).activeNow) :
    (m.doPing failureTimeout inputs).1.ActiveSince x t := by
  intro info hlookup haddress
  rw [lookup_doPing] at hlookup
  obtain ⟨old, hold, rfl⟩ := Option.map_eq_some_iff.mp hlookup
  rw [address_pinged] at haddress
  obtain hsame | hnow := lastActive_pinged m failureTimeout (inputs x) x old
  · rw [hsame]
    exact h old hold haddress
  · have hmem : x ∈ m.members := AList.lookup_isSome.mp (Option.isSome_iff_exists.mpr ⟨_, hold⟩)
    rw [hnow]
    exact sub_second_le (hclock hmem)

theorem ActiveSince.suspectTimeout (h : m.ActiveSince x t) (timeout : Int) (now : Time)
    (nodeID : GoString) : (m.suspectTimeout timeout now nodeID).1.ActiveSince x t := by
  intro info hlookup haddress
  rw [lookup_suspectTimeout] at hlookup
  split at hlookup
  · obtain ⟨old, hold, rfl⟩ := Option.map_eq_some_iff.mp hlookup
    rw [address_expired] at haddress
    rw [lastActive_expired]
    exact h old hold haddress
  · exact h info hlookup haddress

end MemberMgr

/-! ### Whole runs -/

/-- A call and the time when it is over. -/
structure TimedAction where
  action : DetectorAction
  finished : Time

/-- A detector, the time, and when a current ping or ack of which node was handled. -/
structure Watch where
  detector : Detector
  now : Time
  heard : List (GoString × Time) := []

namespace Watch

variable {cfg : DetectorConfig} {w w' : Watch} {a : TimedAction} {x : GoString}

/-- What is heard in a call. -/
def newlyHeard (m : MemberMgr) : DetectorAction → List (GoString × Time)
  | .message clock msg => (m.signs msg).map fun x => (x, clock 0)
  | _ => []

def step (cfg : DetectorConfig) (w : Watch) (a : TimedAction) : Option Watch :=
  match w.detector.step cfg a.action with
  | some detector =>
    some
      { detector
        now := a.finished
        heard := w.heard ++ newlyHeard w.detector.member a.action }
  | none => none

/-- The clock does not go back, and the message is not a `clusterSync`. -/
def InTime (w : Watch) (a : TimedAction) : Prop :=
  match a.action with
  | .message clock msg =>
    (∀ sync, msg ≠ .clusterSync sync) ∧ w.now ≤ clock 0 ∧ clock 0 ≤ a.finished
  | .ping inputs =>
    w.now ≤ a.finished ∧ ∀ x ∈ w.detector.member.members,
      w.now ≤ (inputs x).now ∧ (inputs x).now ≤ (inputs x).activeNow ∧
        (inputs x).activeNow ≤ a.finished
  | .timer _ now => w.now ≤ now ∧ now ≤ a.finished

/-- Everything heard so far is in the past, and the entries are not older than it. -/
def Sound (w : Watch) : Prop :=
  ∀ x t, (x, t) ∈ w.heard → t ≤ w.now ∧ w.detector.member.ActiveSince x t

theorem step_eq_some (hstep : w.step cfg a = some w') :
    w.detector.step cfg a.action = some w'.detector ∧ w'.now = a.finished ∧
      w'.heard = w.heard ++ newlyHeard w.detector.member a.action := by
  unfold step at hstep
  split at hstep <;> cases hstep
  rename_i detector hdetector
  exact ⟨hdetector, rfl, rfl⟩

theorem Sound.step (h : w.Sound) (htime : w.InTime a) (hstep : w.step cfg a = some w') :
    w'.Sound := by
  obtain ⟨hdetector, hnow, hheard⟩ := step_eq_some hstep
  obtain ⟨action, finished⟩ := a
  intro x t hmem
  rw [hheard] at hmem
  rw [hnow]
  cases action with
  | message clock msg =>
    obtain ⟨hsync, hclock, hfinished⟩ := htime
    obtain ⟨⟨effects, hout⟩, -⟩ := Detector.step_message hdetector
    obtain hmem | hmem := List.mem_append.mp hmem
    · obtain ⟨hle, hactive⟩ := h x t hmem
      have hle := Int.le_trans hle hclock
      exact ⟨Int.le_trans hle hfinished, hactive.handleMessage hsync hle hout⟩
    · obtain ⟨y, hsign, heq⟩ := List.mem_map.mp hmem
      cases heq
      exact ⟨hfinished, MemberMgr.activeSince_of_mem_signs hout hsign⟩
  | ping inputs =>
    obtain ⟨hfinished, hinputs⟩ := htime
    obtain ⟨hle, hactive⟩ := h x t (List.append_nil w.heard ▸ hmem)
    refine ⟨Int.le_trans hle hfinished, ?_⟩
    rw [← Option.some.inj hdetector]
    refine hactive.doPing cfg.failureTimeout fun hmember => ?_
    obtain ⟨hread, hreread, -⟩ := hinputs x hmember
    exact Int.le_trans hle (Int.le_trans hread hreread)
  | timer nodeID now =>
    obtain ⟨hclock, hfinished⟩ := htime
    obtain ⟨hle, hactive⟩ := h x t (List.append_nil w.heard ▸ hmem)
    refine ⟨Int.le_trans hle (Int.le_trans hclock hfinished), ?_⟩
    rw [(Detector.step_timer hdetector).2]
    exact hactive.suspectTimeout cfg.suspectTimeout now nodeID

/-! ### Suspicion -/

/-- The call moves a node with a known address to `Suspect` or `Dead`. -/
def Moves (m m' : MemberMgr) (x : GoString) : Prop :=
  ∃ info, m'.members.lookup x = some info ∧ info.address ≠ [] ∧
    (info.state = NodeState.suspect ∨ info.state = NodeState.dead) ∧
    ∀ old, m.members.lookup x = some old → old.state ≠ info.state

/-- The time at which a call looks at a node. -/
def timeAt (x : GoString) : DetectorAction → Time
  | .message clock _ => clock 0
  | .ping inputs => (inputs x).now
  | .timer _ now => now

/-- A call that moves a node finds its entry older than one of the timeouts. -/
theorem late_of_moves {d d' : Detector} {a : DetectorAction}
    (hsync : ∀ clock sync, a ≠ .message clock (.clusterSync sync))
    (hstep : d.step cfg a = some d') (hmoves : Moves d.member d'.member x) :
    ∃ old, d.member.members.lookup x = some old ∧ old.address ≠ [] ∧
      (timeAt x a - old.lastActive > cfg.failureTimeout ∨
        timeAt x a - old.lastActive > cfg.suspectTimeout) := by
  obtain ⟨info, hlookup, haddress, hstate, hmoved⟩ := hmoves
  cases a with
  | message clock msg =>
    obtain ⟨⟨effects, hout⟩, -⟩ := Detector.step_message hstep
    exfalso
    have hmsg : ∀ sync, msg ≠ .clusterSync sync := fun sync heq => hsync clock sync (heq ▸ rfl)
    obtain hold | halive := MemberMgr.alive_of_handleMessage hmsg hout hlookup
    · exact hmoved info hold rfl
    · rw [halive] at hstate
      revert hstate
      decide
  | ping inputs =>
    rw [← Option.some.inj hstep, MemberMgr.lookup_doPing] at hlookup
    obtain ⟨old, hold, rfl⟩ := Option.map_eq_some_iff.mp hlookup
    rw [MemberMgr.address_pinged] at haddress
    exact ⟨old, hold, haddress, .inl (MemberMgr.late_of_pinged (hmoved old hold))⟩
  | timer nodeID now =>
    rw [(Detector.step_timer hstep).2, MemberMgr.lookup_suspectTimeout] at hlookup
    split at hlookup
    · obtain ⟨old, hold, rfl⟩ := Option.map_eq_some_iff.mp hlookup
      rw [MemberMgr.address_expired] at haddress
      exact ⟨old, hold, haddress, .inr (MemberMgr.late_of_expired (hmoved old hold))⟩
    · exact absurd rfl (hmoved info hlookup)

/-- **Only a silent node is suspected.**  In every run on a clock that does not go back, a
    node with a known address that a call moves to `Suspect` or `Dead` at time `u` has sent
    no current ping or ack that was handled later than a second after `u` less the smaller
    timeout. -/
theorem silent_before_moved (cfg : DetectorConfig) (d : Detector) (now : Time)
    (as : List TimedAction) (w w' : Watch) (a : TimedAction) (x : GoString) (t : Time)
    (hrun : GuardedRun (step cfg) InTime { detector := d, now } as w)
    (htime : w.InTime a) (hstep : w.step cfg a = some w')
    (hmoves : Moves w.detector.member w'.detector.member x) (hheard : (x, t) ∈ w.heard) :
    t ≤ timeAt x a.action - min cfg.failureTimeout cfg.suspectTimeout + second := by
  have hsound : w.Sound := by
    refine hrun.invariant (fun _ _ _ h htime hstep => h.step htime hstep) fun x t hmem => ?_
    cases hmem
  have hsync : ∀ clock sync, a.action ≠ .message clock (.clusterSync sync) := by
    intro clock sync heq
    simp only [InTime, heq] at htime
    exact htime.1 sync rfl
  obtain ⟨old, hold, haddress, hlate⟩ := late_of_moves hsync (step_eq_some hstep).1 hmoves
  have hactive := (hsound x t hheard).2 old hold haddress
  have hmin : min cfg.failureTimeout cfg.suspectTimeout < timeAt x a.action - old.lastActive := by
    obtain hlate | hlate := hlate
    · exact Int.lt_of_le_of_lt (Int.min_le_left ..) hlate
    · exact Int.lt_of_le_of_lt (Int.min_le_right ..) hlate
  generalize min cfg.failureTimeout cfg.suspectTimeout = T at hmin ⊢
  calc t ≤ old.lastActive + second := Int.le_add_of_sub_right_le hactive
    _ ≤ timeAt x a.action - T + second :=
      Int.add_le_add_right (Int.le_sub_left_of_add_le
        (Int.add_le_of_le_sub_right (Int.le_of_lt hmin))) _

/-! ### A node that falls silent -/

/-- A node joins and is heard three seconds later. -/
def heardOnce : List TimedAction :=
  [{ action := .message (fun _ => 0) (.connect (some ⟨ascii "m", ascii "m:1", 1⟩))
     finished := 0 },
    { action := .message (fun _ => 3 * second) (.ping (some
        { sender := ascii "m", receiver := ascii "n", incarnation := 1 }))
      finished := 3 * second }]

/-- It is looked at seven seconds later. -/
def lateTick : TimedAction where
  action := .ping fun _ => { now := 10 * second, hash := 0, sent := true }
  finished := 10 * second

theorem silent_before_lateTick :
    ∃ w w', GuardedRun (step ⟨5 * second, 6 * second⟩) InTime
        { detector := Detector.start (ascii "n") (ascii "n:1") 1 0 true, now := 0 } heardOnce w ∧
      w.step ⟨5 * second, 6 * second⟩ lateTick = some w' ∧
      Moves w.detector.member w'.detector.member (ascii "m") ∧
      (ascii "m", 3 * second) ∈ w.heard ∧
      3 * second ≤ 10 * second - min (5 * second) (6 * second) + second := by
  obtain ⟨w, hrun, w', hstep, htime, hmoves, hheard⟩ :
      ∃ w, GuardedRun (step ⟨5 * second, 6 * second⟩) InTime
          { detector := Detector.start (ascii "n") (ascii "n:1") 1 0 true, now := 0 }
          heardOnce w ∧
        ∃ w', w.step ⟨5 * second, 6 * second⟩ lateTick = some w' ∧ w.InTime lateTick ∧
          Moves w.detector.member w'.detector.member (ascii "m") ∧
          (ascii "m", 3 * second) ∈ w.heard := by
    have hlater : 3 * second ≤ 10 * second := by decide
    refine ⟨_, .cons ⟨fun _ h => (by cases h), by decide, by decide⟩ rfl
      (.cons ⟨fun _ h => (by cases h), by decide, by decide⟩ rfl (.nil _)), _, rfl, ?_, ?_, ?_⟩
    · exact ⟨hlater, fun _ _ => ⟨hlater, Int.le_refl _, Int.le_refl _⟩⟩
    · refine ⟨_, rfl, by decide, .inl rfl, fun old hold => ?_⟩
      cases hold
      decide
    · exact List.mem_singleton.mpr rfl
  exact ⟨w, w', hrun, hstep, hmoves, hheard, silent_before_moved ⟨5 * second, 6 * second⟩ _ _ _ w w'
    lateTick (ascii "m") (3 * second) hrun htime hstep hmoves hheard⟩

end Watch

end GridKV
