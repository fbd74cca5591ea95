import GridKV.ForStd.Run
import GridKV.Spec.MemberHandlers
import GridKV.Spec.MemberRoundTrip

/-!
# Two nodes exchanging pings

A small system around the ping handler: two member managers, the messages in flight
between them, and a count of everything sent.  Each delivery goes through the codec
and the handler of the receiving node.  Since an ack arrives as a ping
(`throughWire_ack`), delivering one provokes an answer like any ping: without acks
the exchange stops after one answer per ping, with them it never has to.
-/

namespace GridKV

open Go Run List

/-- The two nodes. -/
inductive Side where
  | left
  | right
  deriving DecidableEq, Repr

namespace Side

def other : Side → Side
  | .left => .right
  | .right => .left

end Side

/-- The state of the exchange. -/
structure Exchange where
  node : Side → MemberMgr
  /-- Undelivered messages with the node they are on the way to. -/
  inFlight : List (Side × MemberMsg)
  /-- Number of messages sent so far. -/
  sent : Nat

namespace Exchange

variable (m : MemberMgr) {k : Nat} (now : Time) {e e' : Exchange} {side : Side} (id : GoString)
  {p : PingMsg} {msg : MemberMsg} (incarnation : Int64) (state : NodeState) (x : GoString)

/-- The node that listens on an address. -/
def route (e : Exchange) (address : GoString) : Option Side :=
  if address = (e.node .left).address then some .left
  else if address = (e.node .right).address then some .right
  else none

/-- The messages among the effects of a handler, with their addresses. -/
def sends : List MemberEffect → List (GoString × MemberMsg)
  | [] => []
  | .send address msg :: effects => (address, msg) :: sends effects
  | .membershipChange :: effects => sends effects

/-- Put messages on the way to the nodes they are addressed to; what is addressed to
    nobody counts as sent and is lost. -/
def post (e : Exchange) (msgs : List (GoString × MemberMsg)) : Exchange :=
  { e with
    inFlight := e.inFlight ++ msgs.filterMap fun (address, msg) => (e.route address).map (·, msg)
    sent := e.sent + msgs.length }

/-- Delivery of the `i`-th message, handled by one node with the given outcome. -/
def answered (e : Exchange) (i : Nat) (side : Side) (out : MemberMgr × List MemberEffect) :
    Exchange :=
  post { e with node := Function.update e.node side out.1, inFlight := e.inFlight.eraseIdx i }
    (sends out.2)

/-- Run the handler of one node on a message that has crossed the wire. -/
def receive (e : Exchange) (clock : Nat → Time) (side : Side) (msg : MemberMsg) :
    Exec (MemberMgr × List MemberEffect) := do
  (e.node side).networkHandler clock (getMessageType msg) (← encodeMemberMsg msg)

/-- What can happen to a message in flight. -/
inductive Action where
  | deliver (i : Nat) (clock : Nat → Time)
  | lose (i : Nat)

/-- One step of the exchange. -/
def step (e : Exchange) : Action → Option Exchange
  | .lose i => some { e with inFlight := e.inFlight.eraseIdx i }
  | .deliver i clock =>
    match e.inFlight[i]? with
    | none => none
    | some (side, msg) =>
      match e.receive clock side msg with
      | .error _ => none
      | .ok out => some (e.answered i side out)

/-! ### What one delivery sends -/

@[simp] theorem sends_append (xs ys : List MemberEffect) :
    sends (xs ++ ys) = sends xs ++ sends ys := by
  induction xs with
  | nil => rfl
  | cons x xs ih => cases x <;> simp [sends, ih]

/-- Recording a node in the member table sends nothing. -/
@[simp] theorem sends_updateNode (nodeID address : GoString) (incarnation : Int64)
    (state : NodeState) : sends (m.updateNode now nodeID address incarnation state).2 = [] := by
  obtain ⟨-, hupdate⟩ | ⟨-, -, effects, heffects, hupdate⟩ :=
    MemberMgr.updateNode_cases m now nodeID address incarnation state
  · rw [hupdate]
    rfl
  · rw [hupdate]
    obtain rfl | rfl := heffects <;> rfl

def IsAck (msg : MemberMsg) : Prop := ∃ ack, msg = .ack ack

/-- A ping is answered by at most one message, an ack. -/
theorem sends_handlePing (msg : PingMsg) :
    (sends (m.handlePing now (some msg)).2).length ≤ 1 ∧
      ∀ sent ∈ sends (m.handlePing now (some msg)).2, IsAck sent.2 := by
  simp only [MemberMgr.handlePing]
  split
  · simp only [sends_append, sends_updateNode, nil_append, MemberMgr.send]
    split
    · simp [sends, IsAck]
    · simp [sends]
  · simp [sends]

/-- A message whose decoded form is a ping is handled as that ping. -/
theorem receive_of_throughWire {clock : Nat → Time} (htype : getMessageType msg = MessageType.ping)
    (hwire : throughWire msg = .ok (some (.ping (some p)))) :
    e.receive clock side msg = .ok ((e.node side).handlePing (clock 0) (some p)) := by
  unfold throughWire at hwire
  unfold receive MemberMgr.networkHandler
  cases henc : encodeMemberMsg msg with
  | error err => simp [henc, bind, Except.bind] at hwire
  | ok data =>
    rw [henc, ok_bind] at hwire
    -- The length check of the connect handler does not apply.
    have hconnect : ¬ (getMessageType msg = MessageType.connect ∧ data.length < 2) := by
      rw [htype]
      exact fun h => absurd h.1 (by decide)
    rw [ok_bind, if_neg hconnect, hwire]
    rfl

/-! ### Without acks -/

/-- A ping between nodes whose IDs the wire can carry. -/
def IsPing (msg : MemberMsg) : Prop :=
  ∃ p : PingMsg, msg = .ping (some p) ∧ WireID p.sender ∧ WireID p.receiver

/-- Whether a message in flight is a ping. -/
def pinging (m : Side × MemberMsg) : Bool :=
  match m.2 with
  | .ping _ => true
  | _ => false

/-- The step does not deliver an ack. -/
def DeliversNoAck (e : Exchange) : Action → Prop
  | .lose _ => True
  | .deliver i _ => ∀ side msg, e.inFlight[i]? = some (side, msg) → ¬ IsAck msg

/-- The invariant of an exchange that began with `k` pings: pings and acks are all
    that is in flight, and each ping still in flight leaves room for one answer. -/
structure Bounded (k : Nat) (e : Exchange) : Prop where
  kinds : ∀ m ∈ e.inFlight, IsPing m.2 ∨ IsAck m.2
  room : e.sent + e.inFlight.countP pinging ≤ 2 * k

theorem countP_eraseIdx_le (e : Exchange) (i : Nat) :
    (e.inFlight.eraseIdx i).countP pinging ≤ e.inFlight.countP pinging :=
  (eraseIdx_sublist _ _).countP_le

theorem countP_eraseIdx_of_ping {i : Nat} (hi : e.inFlight[i]? = some (side, msg))
    (hping : IsPing msg) :
    e.inFlight.countP pinging = (e.inFlight.eraseIdx i).countP pinging + 1 := by
  obtain ⟨hlt, hget⟩ := List.getElem?_eq_some_iff.mp hi
  obtain ⟨p, rfl, -⟩ := hping
  have hsplit : e.inFlight = e.inFlight.take i ++ (side, .ping (some p)) :: e.inFlight.drop (i + 1) := by
    rw [← hget, getElem_cons_drop, take_append_drop]
  rw [eraseIdx_eq_take_drop_succ]
  conv_lhs => rw [hsplit]
  rw [countP_append, countP_append, countP_cons_of_pos rfl, Nat.add_assoc]

/-- Posting acks uses up room and adds no pings. -/
theorem Bounded.post {msgs : List (GoString × MemberMsg)}
    (hkinds : ∀ m ∈ e.inFlight, IsPing m.2 ∨ IsAck m.2) (hacks : ∀ m ∈ msgs, IsAck m.2)
    (hroom : e.sent + msgs.length + e.inFlight.countP pinging ≤ 2 * k) :
    Bounded k (e.post msgs) := by
  have hposted : ∀ m ∈ msgs.filterMap (fun (address, msg) => (e.route address).map (·, msg)),
      IsAck m.2 := by
    intro m hm
    obtain ⟨⟨address, msg⟩, hmem, hroute⟩ := mem_filterMap.mp hm
    obtain ⟨side, -, rfl⟩ := Option.map_eq_some_iff.mp hroute
    exact hacks _ hmem
  have hnone : (msgs.filterMap fun (address, msg) => (e.route address).map (·, msg)).countP
      pinging = 0 := by
    rw [countP_eq_zero]
    intro m hm
    obtain ⟨ack, hack⟩ := hposted m hm
    simp [pinging, hack]
  refine ⟨?_, ?_⟩
  · intro m hm
    rcases mem_append.mp hm with hm | hm
    · exact hkinds m hm
    · exact .inr (hposted m hm)
  · simp only [Exchange.post, countP_append, hnone]
    omega

/-- One step that delivers no ack keeps the invariant. -/
theorem Bounded.step {a : Action} (hinv : Bounded k e) (hguard : DeliversNoAck e a)
    (hstep : e.step a = some e') : Bounded k e' := by
  have hroom := hinv.room
  cases a with
  | lose i =>
    cases hstep
    have hle := countP_eraseIdx_le e i
    exact ⟨fun m hm => hinv.kinds m (mem_of_mem_eraseIdx hm), by simp only; omega⟩
  | deliver i clock =>
    simp only [Exchange.step] at hstep
    split at hstep
    · exact nomatch hstep
    rename_i side msg hi
    have hping : IsPing msg :=
      (hinv.kinds _ (mem_of_getElem? hi)).resolve_right (hguard side msg hi)
    have hcount := countP_eraseIdx_of_ping hi hping
    obtain ⟨p, rfl, hs, hr⟩ := hping
    rw [receive_of_throughWire rfl (throughWire_ping hs hr)] at hstep
    cases hstep
    obtain ⟨hlen, hacks⟩ := sends_handlePing (e.node side) (clock 0) p
    refine Bounded.post (fun m hm => hinv.kinds m (mem_of_mem_eraseIdx hm)) hacks ?_
    simp only
    omega

/-- As long as no ack is delivered, `k` pings lead to at most `2 * k` messages. -/
theorem sent_le_two_mul_of_no_ack_delivered (e e' : Exchange) (actions : List Action)
    (hpings : ∀ m ∈ e.inFlight, IsPing m.2) (hsent : e.sent = e.inFlight.length)
    (hrun : GuardedRun Exchange.step DeliversNoAck e actions e') :
    e'.sent ≤ 2 * e.inFlight.length := by
  have hstart : Bounded e.inFlight.length e := by
    refine ⟨fun m hm => .inl (hpings m hm), ?_⟩
    have := e.inFlight.countP_le_length (p := pinging)
    omega
  have hend := hrun.invariant (fun _ _ _ hinv hguard hstep => hinv.step hguard hstep) hstart
  have := hend.room
  omega

/-! ### With acks -/

/-- Two nodes that can reach each other: each has the other's address in its member
    table. -/
structure Acquainted (e : Exchange) : Prop where
  canSend : ∀ side, (e.node side).hasSendFunc
  ids : ∀ side, WireID (e.node side).nodeID
  knows : ∀ side, (e.node side).addressOf (e.node side.other).nodeID = (e.node side.other).address
  addresses : ∀ side, (e.node side).address ≠ []
  distinct : (e.node .left).address ≠ (e.node .right).address

theorem addressOf_storeNode :
    (m.storeNode now id (m.addressOf id) incarnation state).addressOf x = m.addressOf x := by
  simp only [MemberMgr.storeNode, MemberMgr.addressOf]
  by_cases hx : x = id
  · subst hx
    rw [AList.lookup_insert]
  · rw [AList.lookup_insert_ne hx]

/-- Recording a node under the address it already has changes no address. -/
theorem addressOf_updateNode :
    (m.updateNode now id (m.addressOf id) incarnation state).1.addressOf x = m.addressOf x := by
  obtain ⟨-, hupdate⟩ | ⟨-, -, effects, -, hupdate⟩ :=
    MemberMgr.updateNode_cases m now id (m.addressOf id) incarnation state
  · rw [hupdate]
  · rw [hupdate]
    exact addressOf_storeNode ..

/-! ### One ping -/

/-- A member table of one peer. -/
def peerTable (nodeID address : GoString) : GoMap NodeInfo :=
  (∅ : GoMap NodeInfo).insert nodeID
    { nodeID, address, state := NodeState.alive, incarnation := 1, lastActive := 0 }

/-- Nodes `a` and `b` know each other; a ping from `a` is on the way to `b`. -/
def onePing : Exchange where
  node
    | .left => { nodeID := ascii "a", address := ascii "a:1", incarnation := 1
                 members := peerTable (ascii "b") (ascii "b:1") }
    | .right => { nodeID := ascii "b", address := ascii "b:1", incarnation := 1
                  members := peerTable (ascii "a") (ascii "a:1") }
  inFlight := [(.right, .ping (some
    { sender := ascii "a", receiver := ascii "b", incarnation := 1 }))]
  sent := 1

theorem onePing_pings : ∀ m ∈ onePing.inFlight, IsPing m.2 := by
  intro m hm
  obtain rfl := mem_singleton.mp hm
  exact ⟨_, rfl, by decide, by decide⟩

/-- Delivering the ping, and nothing else, sends its ack. -/
theorem sent_le_two_after_one_ping :
    ∃ e', GuardedRun Exchange.step DeliversNoAck onePing [.deliver 0 fun _ => 0] e' ∧
      e'.sent ≤ 2 * onePing.inFlight.length := by
  have hguard : DeliversNoAck onePing (.deliver 0 fun _ => 0) := by
    rintro side msg h ⟨ack, rfl⟩
    simp [onePing] at h
  have hrun : GuardedRun Exchange.step DeliversNoAck onePing [.deliver 0 fun _ => 0] _ :=
    .cons hguard rfl (.nil _)
  exact ⟨_, hrun, sent_le_two_mul_of_no_ack_delivered onePing _ _ onePing_pings rfl hrun⟩

/-- Delivering the ping and then its ack has sent three messages. -/
theorem three_messages_from_one_ping :
    onePing.sent = 1 ∧ (∀ m ∈ onePing.inFlight, IsPing m.2) ∧ Acquainted onePing ∧
      ∃ e', Runs Exchange.step onePing [.deliver 0 fun _ => 0, .deliver 0 fun _ => 0] e' ∧
        ¬ e'.sent ≤ 2 * onePing.inFlight.length := by
  refine ⟨rfl, onePing_pings, ⟨?_, ?_, ?_, ?_, by decide⟩, _,
    .cons trivial rfl (.cons trivial rfl (.nil _)), by decide⟩
  all_goals rintro (_ | _) <;> decide

end Exchange

end GridKV
