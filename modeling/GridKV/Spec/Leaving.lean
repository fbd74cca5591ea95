import GridKV.Spec.MergeOrder
import GridKV.Spec.RingFollows

/-!
# Is a leave noticed?

`handleLeave` means to mark the node as dead, but it passes `updateNode` an empty address,
and `updateNode` returns at once without one.  So a leave changes nothing: the node is seen
to have left only by members that had recorded it as dead with this incarnation before.

Every handler touches the table through `updateNode` only, with what its message says about
some node (`members_handleMessage`); what a message can do to the record of a node follows
from that.
-/

namespace GridKV

open Go

/-- What a message says about a node. -/
structure NodeNews where
  nodeID : GoString
  incarnation : Int64
  state : NodeState

/-- The news in a message. -/
def MemberMsg.news : MemberMsg → List NodeNews
  | .ping (some msg) => [⟨msg.sender, msg.incarnation, NodeState.alive⟩]
  | .ack (some msg) => [⟨msg.sender, msg.incarnation, NodeState.alive⟩]
  | .connect (some msg) => [⟨msg.nodeID, msg.incarnation, NodeState.alive⟩]
  | .leave (some msg) => [⟨msg.nodeID, msg.incarnation, NodeState.dead⟩]
  | .indirectAck (some msg) => [⟨msg.target, msg.incarnation, NodeState.alive⟩]
  | .clusterSync (some msg) =>
    msg.members.map fun entry => ⟨entry.nodeID, entry.incarnation, entry.state⟩
  | _ => []

namespace MemberMgr

variable {m : MemberMgr} {clock : Nat → Time} {msg : MemberMsg} {x : GoString} {i : Int64}
  {info : NodeInfo}

/-! ### What a message does to the table -/

section

/-- Every call of `updateNode` with one of the news keeps the property of the table. -/
def KeptBy (I : GoMap NodeInfo → Prop) (news : List NodeNews) : Prop :=
  ∀ (m : MemberMgr) (now : Time) (address : GoString), ∀ n ∈ news, I m.members →
    I (m.updateNode now n.nodeID address n.incarnation n.state).1.members

variable {I : GoMap NodeInfo → Prop}

/-- A handler tells `updateNode` what its message says. -/
theorem mem_news_of_handlerCall {own nodeID address : GoString} {now : Time}
    {incarnation : Int64} {state : NodeState}
    (hcall : HandlerCall own clock msg now nodeID address incarnation state) :
    ⟨nodeID, incarnation, state⟩ ∈ msg.news := by
  cases hcall with
  | clusterSync sync i entry hmem => exact List.mem_map_of_mem hmem
  | ping | ack | connect | leave | indirectAck => exact List.mem_cons_self

/-- A handler changes the table by calls of `updateNode` with the news of its message. -/
theorem members_handleMessage (hkept : KeptBy I msg.news) {out : MemberMgr × List MemberEffect}
    (hout : m.handleMessage clock msg = .ok out) (h : I m.members) : I out.1.members := by
  have hcalls : KeptByCalls (fun m' => I m'.members) m.nodeID clock msg :=
    ⟨fun _ _ h => h, fun m' now nodeID address incarnation state _ hcall h =>
      hkept m' now address _ (mem_news_of_handlerCall hcall) h⟩
  exact hcalls.handleMessage hout h

end

/-! ### Nodes that have left -/

/-- Every entry is filed under its own ID, and the node is recorded as dead with at least
    the given incarnation. -/
structure Departed (x : GoString) (i : Int64) (m : MemberMgr) : Prop where
  keyed : m.Keyed
  gone : ∃ j, m.standing x = some (j, NodeState.dead) ∧ i ≤ j

/-- The news do not say of the node that it has come back with this incarnation or a later
    one. -/
def NotBack (x : GoString) (i : Int64) (news : List NodeNews) : Prop :=
  ∀ n ∈ news, n.nodeID = x → i ≤ n.incarnation → n.state = NodeState.dead

theorem keyed_updateNode (h : m.Keyed) (now : Time) (nodeID address : GoString)
    (incarnation : Int64) (state : NodeState) :
    (m.updateNode now nodeID address incarnation state).1.Keyed := by
  obtain ⟨-, hupdate⟩ | ⟨-, -, effects, -, hupdate⟩ :=
    updateNode_cases m now nodeID address incarnation state
  · rw [hupdate]
    exact h
  · rw [hupdate]
    exact keyed_insert h rfl

theorem Departed.updateNode (h : Departed x i m) (now : Time) (address : GoString) {n : NodeNews}
    (hn : n.nodeID = x → i ≤ n.incarnation → n.state = NodeState.dead) :
    Departed x i (m.updateNode now n.nodeID address n.incarnation n.state).1 := by
  refine ⟨keyed_updateNode h.keyed now _ address _ _, ?_⟩
  obtain ⟨j, hj, hij⟩ := h.gone
  by_cases haddress : address = []
  · rw [MemberMgr.updateNode, if_pos haddress]
    exact ⟨j, hj, hij⟩
  · rw [standing_updateNode now n.nodeID haddress]
    by_cases hx : x = n.nodeID
    · rw [if_pos hx, hj, Lww.replace]
      split
      · exact ⟨j, rfl, hij⟩
      · -- Not below the record, so not below `i`.
        rename_i hrank
        have hle : j ≤ n.incarnation := Int64.le_iff_toInt_le.mpr (Int.not_lt.mp hrank)
        have hi : i ≤ n.incarnation := Int64.le_trans hij hle
        exact ⟨n.incarnation, by rw [hn hx.symm hi], hi⟩
    · rw [if_neg hx]
      exact ⟨j, hj, hij⟩

theorem Departed.handleMessage (h : Departed x i m) (hnews : NotBack x i msg.news)
    {out : MemberMgr × List MemberEffect} (hout : m.handleMessage clock msg = .ok out) :
    Departed x i out.1 := by
  -- The property looks at the table only.
  have hkept : KeptBy (fun members => Departed x i { m with members }) msg.news := by
    intro m' now address n hn hm'
    have hdeparted : Departed x i m' := ⟨hm'.keyed, hm'.gone⟩
    have hupdate := hdeparted.updateNode now address (hnews n hn)
    exact ⟨hupdate.keyed, hupdate.gone⟩
  have hout' : Departed x i { m with members := out.1.members } :=
    members_handleMessage hkept hout h
  exact ⟨hout'.keyed, hout'.gone⟩

/-- Handle messages one after the other, each with the clock it meets. -/
def handleMessages (m : MemberMgr) : List ((Nat → Time) × MemberMsg) → Exec MemberMgr
  | [] => return m
  | (clock, msg) :: rest => do
    let (m, _) ← m.handleMessage clock msg
    m.handleMessages rest

theorem handleMessages_cons {rest : List ((Nat → Time) × MemberMsg)}
    {out : MemberMgr × List MemberEffect} (h : m.handleMessage clock msg = .ok out) :
    m.handleMessages ((clock, msg) :: rest) = out.1.handleMessages rest := by
  simp only [handleMessages, h, ok_bind]

theorem Departed.handleMessages (h : Departed x i m) {msgs : List ((Nat → Time) × MemberMsg)}
    (hnews : ∀ msg ∈ msgs, NotBack x i msg.2.news) {m' : MemberMgr}
    (hm' : m.handleMessages msgs = .ok m') : Departed x i m' := by
  induction msgs generalizing m with
  | nil =>
    cases hm'
    exact h
  | cons head rest ih =>
    obtain ⟨clock, msg⟩ := head
    obtain ⟨hfirst, hrest⟩ := List.forall_mem_cons.mp hnews
    cases hout : m.handleMessage clock msg with
    | error e =>
      simp only [MemberMgr.handleMessages, hout] at hm'
      exact nomatch hm'
    | ok out =>
      rw [handleMessages_cons hout] at hm'
      exact ih (h.handleMessage hfirst hout) hrest hm'

/-! ### The leave message -/

/-- A leave has no effect on any table. -/
theorem handleMessage_leave (m : MemberMgr) (clock : Nat → Time) (leave : Option LeaveMsg) :
    m.handleMessage clock (.leave leave) = .ok (m, []) := by
  cases leave with
  | none => rfl
  | some leave => rfl

/-- Whatever `Leave` sends, no member notices. -/
theorem leave_unnoticed {address : GoString} (hsent : .send address msg ∈ m.leave.2)
    (receiver : MemberMgr) : receiver.handleMessage clock msg = .ok (receiver, []) := by
  simp only [leave, List.mem_append, List.mem_flatMap] at hsent
  obtain hmark | ⟨info, -, hsend⟩ := hsent
  · -- Marking itself as dead calls back, and sends nothing.
    simp only [markDead, mark] at hmark
    split at hmark
    · cases hmark
    · split at hmark
      · cases hmark
      · simp at hmark
  · unfold send at hsend
    split at hsend
    · split at hsend
      · obtain ⟨-, rfl⟩ := MemberEffect.send.inj (List.mem_singleton.mp hsend)
        exact handleMessage_leave receiver clock _
      · cases hsend
    · cases hsend

/-- After the leave of a node, and after whatever else is heard as long as nothing says that
    the node is back, the node is dead and not in the ring the callback computes. -/
def LeaveSeen (m : MemberMgr) (x : GoString) (i : Int64) : Prop :=
  ∀ (clock : Nat → Time) (msgs : List ((Nat → Time) × MemberMsg)) (m' : MemberMgr),
    (∀ msg ∈ msgs, NotBack x i msg.2.news) →
    m.handleMessages ((clock, .leave (some ⟨x, i⟩)) :: msgs) = .ok m' →
    (∃ info, m'.members.lookup x = some info ∧ info.state = NodeState.dead) ∧
      ∀ cfg : RingConfig, x ∉ (cfg.build m'.aliveIDs).nodeIDs

theorem Departed.seen (h : Departed x i m) :
    (∃ info, m.members.lookup x = some info ∧ info.state = NodeState.dead) ∧
      ∀ cfg : RingConfig, x ∉ (cfg.build m.aliveIDs).nodeIDs := by
  obtain ⟨j, hj, -⟩ := h.gone
  obtain ⟨info, hinfo, hreport⟩ := Option.map_eq_some_iff.mp hj
  have hdead : info.state = NodeState.dead := (Prod.mk.inj hreport).2
  refine ⟨⟨info, hinfo, hdead⟩, fun cfg hx => ?_⟩
  obtain ⟨other, hother, halive⟩ := (mem_aliveIDs h.keyed x).mp (RingConfig.mem_build.mp hx)
  obtain rfl : info = other := Option.some.inj (hinfo.symm.trans hother)
  rw [hdead] at halive
  exact absurd halive (by decide)

/-- A connect message brings the node back, if it is not older than the record. -/
theorem standing_handleConnect (clock : Nat → Time) (hlookup : m.members.lookup x = some info) :
    ∃ m', m.handleMessages
        [(clock, .connect (some ⟨x, ascii "x:1", info.incarnation⟩))] = .ok m' ∧
      m'.standing x = some (info.incarnation, NodeState.alive) := by
  have haddress : ascii "x:1" ≠ [] := by decide
  have hupdate := standing_updateNode (m := m) (clock 0) x haddress info.incarnation
    NodeState.alive x
  rw [if_pos rfl, Lww.replace_of_notBelow] at hupdate
  · exact ⟨_, rfl, hupdate⟩
  · intro report hreport
    rw [standing, hlookup, Option.map_some] at hreport
    rw [← Option.some.inj hreport]
    exact Int.le_refl _

/-- **Graceful leave.**  Of the tables that list the node with an incarnation up to that of
    its leave, exactly those see it leave that have it as dead with this very incarnation
    already. -/
theorem leaveSeen_iff (hkeyed : m.Keyed) (hlookup : m.members.lookup x = some info)
    (hle : info.incarnation ≤ i) :
    LeaveSeen m x i ↔ info.state = NodeState.dead ∧ info.incarnation = i := by
  constructor
  · intro h
    constructor
    · -- Nothing but the leave.
      obtain ⟨⟨after, hafter, hdead⟩, -⟩ := h (fun _ => 0) [] m (fun _ hmsg => nomatch hmsg) rfl
      obtain rfl : info = after := Option.some.inj (hlookup.symm.trans hafter)
      exact hdead
    · -- If the record is older than the leave, a connect as old as the record still counts.
      by_contra hne
      have hlt : info.incarnation < i := Int64.lt_of_le_of_ne hle hne
      obtain ⟨m', hm', hstanding⟩ := standing_handleConnect (fun _ => 0) hlookup
      have hnews : ∀ msg ∈ [((fun _ => 0 : Nat → Time),
          MemberMsg.connect (some ⟨x, ascii "x:1", info.incarnation⟩))],
          NotBack x i msg.2.news := by
        intro msg hmsg n hn _ hi
        obtain rfl := List.mem_singleton.mp hmsg
        obtain rfl := List.mem_singleton.mp hn
        exact absurd hlt (Int64.not_lt.mpr hi)
      obtain ⟨⟨after, hafter, hdead⟩, -⟩ := h (fun _ => 0) _ m' hnews
        ((handleMessages_cons (handleMessage_leave m _ _)).trans hm')
      rw [standing, hafter, Option.map_some, hdead] at hstanding
      exact absurd (Prod.mk.inj (Option.some.inj hstanding)).2 (by decide)
  · rintro ⟨hdead, rfl⟩ clock msgs m' hnews hm'
    have hdeparted : Departed x info.incarnation m :=
      ⟨hkeyed, info.incarnation, by rw [standing, hlookup, Option.map_some, hdead],
        Int64.le_refl _⟩
    rw [handleMessages_cons (handleMessage_leave m clock _)] at hm'
    exact (hdeparted.handleMessages hnews hm').seen

/-- A table of member m that lists n as well. -/
def tableWith (state : NodeState) : MemberMgr :=
  (MemberMgr.new (ascii "m") (ascii "m:1") 1 0).storeNode 0 (ascii "n") (ascii "n:1") 2 state

theorem keyed_tableWith (state : NodeState) : (tableWith state).Keyed :=
  keyed_insert (keyed_new _ _ _ _) rfl

/-- A node that was dead stays dead. -/
theorem leaveSeen_of_dead_node :
    ∃ info, (tableWith NodeState.dead).members.lookup (ascii "n") = some info ∧
      info.incarnation ≤ 2 ∧ (LeaveSeen (tableWith NodeState.dead) (ascii "n") 2 ↔
        info.state = NodeState.dead ∧ info.incarnation = 2) := by
  have hlookup : (tableWith NodeState.dead).members.lookup (ascii "n") =
      some ⟨ascii "n", ascii "n:1", NodeState.dead, 2, 0⟩ := AList.lookup_insert _
  exact ⟨_, hlookup, Int64.le_refl _,
    leaveSeen_iff (keyed_tableWith _) hlookup (Int64.le_refl _)⟩

/-- The leave of a live node with its next incarnation changes nothing: it stays alive and in
    the ring. -/
theorem leave_of_live_node_ignored :
    (∃ m', (tableWith NodeState.alive).handleMessage (fun _ => 0)
          (.leave (some ⟨ascii "n", 3⟩)) = .ok (m', []) ∧
        m'.standing (ascii "n") = some (2, NodeState.alive) ∧ ascii "n" ∈ m'.aliveIDs) ∧
      ¬LeaveSeen (tableWith NodeState.alive) (ascii "n") 3 := by
  refine ⟨⟨_, rfl, by decide, by decide⟩, fun h => ?_⟩
  obtain ⟨⟨info, hinfo, hdead⟩, -⟩ :=
    h (fun _ => 0) [] (tableWith NodeState.alive) (fun _ hmsg => nomatch hmsg) rfl
  have hlookup : (tableWith NodeState.alive).members.lookup (ascii "n") =
      some ⟨ascii "n", ascii "n:1", NodeState.alive, 2, 0⟩ := AList.lookup_insert _
  cases hlookup.symm.trans hinfo
  exact absurd hdead (by decide)

end MemberMgr

end GridKV
