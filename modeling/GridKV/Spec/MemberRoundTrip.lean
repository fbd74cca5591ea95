import GridKV.Spec.MemberWire

/-!
# Failure-detection messages through the codec

Ping, ack and indirect-probe messages have one layout and one wire type, and the
decoder tries ping first.  So a ping or a leave message comes back as it was sent, an
ack or an indirect probe comes back as a ping with the same fields, and an indirect
ack, which has no encoder, does not come back at all.
-/

namespace GridKV

open Go Endian Parse

/-- What the receiving side makes of a message: encode, then decode under the wire
    type of the message. -/
def throughWire (msg : MemberMsg) : Exec (Option MemberMsg) := do
  decodeMemberMsg (← encodeMemberMsg msg) (getMessageType msg)

/-- A node ID the length prefix can carry. -/
def WireID (id : GoString) : Prop := id ≠ [] ∧ id.length ≤ 65535

instance (id : GoString) : Decidable (WireID id) :=
  inferInstanceAs (Decidable (id ≠ [] ∧ id.length ≤ 65535))

/-- The five kinds of failure-detection messages, with node IDs the wire can carry. -/
inductive FailureDetectionMsg : MemberMsg → Prop
  | ping {msg : PingMsg} : WireID msg.sender → WireID msg.receiver →
      FailureDetectionMsg (.ping (some msg))
  | ack {msg : AckMsg} : WireID msg.sender → WireID msg.receiver →
      FailureDetectionMsg (.ack (some msg))
  | indirectProbe {msg : IndirectProbeMsg} : WireID msg.sender → WireID msg.target →
      FailureDetectionMsg (.indirectProbe (some msg))
  | indirectAck {msg : IndirectAckMsg} : WireID msg.sender → WireID msg.receiver →
      WireID msg.target → FailureDetectionMsg (.indirectAck (some msg))
  | leave {msg : LeaveMsg} : WireID msg.nodeID → FailureDetectionMsg (.leave (some msg))

/-- The two kinds the decoder recognises. -/
def MemberMsg.isPingOrLeave : MemberMsg → Bool
  | .ping _ => true
  | .leave _ => true
  | _ => false

theorem throughWire_of_encode {msg : MemberMsg} {data : Bytes}
    (h : encodeMemberMsg msg = .ok data) :
    throughWire msg = decodeMemberMsg data (getMessageType msg) := by
  rw [throughWire, h, ok_bind]

/-- A pair with a non-empty second string decodes as a ping, whatever was encoded. -/
theorem decodeMemberMsg_encodeStringPair {a b : GoString} (incarnation : Int64) (ha : WireID a)
    (hb : WireID b) :
    decodeMemberMsg (encodeStringPair a b incarnation) MessageType.ping =
      .ok (some (.ping (some { sender := a, receiver := b, incarnation }))) := by
  have hpair : takeStringPair (encodeStringPair a b incarnation) =
      some ((a, b, incarnation), []) :=
    takeStringPair_eq_some_iff.mpr ⟨Nat.lt_succ_of_le ha.2, Nat.lt_succ_of_le hb.2, by simp⟩
  have hne : encodeStringPair a b incarnation ≠ [] := by
    simp [encodeStringPair, encodeInt64, leBytes]
  rw [decodeMemberMsg, if_neg hne, if_pos rfl, decodePingCase, decodePingMsg, decodeStringPair_eq,
    hpair]
  simp [hb.1]

theorem throughWire_ping {msg : PingMsg} (hs : WireID msg.sender) (hr : WireID msg.receiver) :
    throughWire (.ping (some msg)) = .ok (some (.ping (some msg))) :=
  (throughWire_of_encode rfl).trans (decodeMemberMsg_encodeStringPair msg.incarnation hs hr)

/-- An ack arrives as a ping. -/
theorem throughWire_ack {msg : AckMsg} (hs : WireID msg.sender) (hr : WireID msg.receiver) :
    throughWire (.ack (some msg)) = .ok (some (.ping (some
      { sender := msg.sender, receiver := msg.receiver, incarnation := msg.incarnation }))) :=
  (throughWire_of_encode rfl).trans (decodeMemberMsg_encodeStringPair msg.incarnation hs hr)

/-- An indirect probe arrives as a ping addressed to its target. -/
theorem throughWire_indirectProbe {msg : IndirectProbeMsg} (hs : WireID msg.sender)
    (ht : WireID msg.target) :
    throughWire (.indirectProbe (some msg)) = .ok (some (.ping (some
      { sender := msg.sender, receiver := msg.target, incarnation := msg.incarnation }))) :=
  (throughWire_of_encode rfl).trans (decodeMemberMsg_encodeStringPair msg.incarnation hs ht)

/-- An indirect ack has no bytes and no wire type. -/
theorem throughWire_indirectAck (msg : Option IndirectAckMsg) :
    throughWire (.indirectAck msg) = .ok none := rfl

theorem throughWire_leave {msg : LeaveMsg} (h : WireID msg.nodeID) :
    throughWire (.leave (some msg)) = .ok (some (.leave (some msg))) := by
  have hleave : takeLeave (encodeLeaveMsg msg) = some msg := by
    have hint : takeInt64 (encodeInt64 msg.incarnation) = some (msg.incarnation, []) :=
      takeInt64_eq_some_iff.mpr (by simp)
    rw [takeLeave, encodeLeaveMsg, takeString_encodeString (Nat.lt_succ_of_le h.2)]
    simp [hint]
  have hne : encodeLeaveMsg msg ≠ [] := by simp [encodeLeaveMsg, encodeInt64, leBytes]
  have hdecode : decodeMemberMsg (encodeLeaveMsg msg) MessageType.leave =
      .ok (some (.leave (some msg))) := by
    rw [decodeMemberMsg, if_neg hne, if_neg (by decide), if_neg (by decide), if_pos rfl,
      decodeLeaveMsg_eq, hleave]
    rfl
  exact (throughWire_of_encode rfl).trans hdecode

/-- Which failure-detection messages survive the wire. -/
theorem throughWire_eq_self_iff_isPingOrLeave (msg : MemberMsg) (h : FailureDetectionMsg msg) :
    throughWire msg = .ok (some msg) ↔ msg.isPingOrLeave := by
  cases h with
  | ping hs hr => simp [throughWire_ping hs hr, MemberMsg.isPingOrLeave]
  | ack hs hr => simp [throughWire_ack hs hr, MemberMsg.isPingOrLeave]
  | indirectProbe hs ht => simp [throughWire_indirectProbe hs ht, MemberMsg.isPingOrLeave]
  | indirectAck => simp [throughWire_indirectAck, MemberMsg.isPingOrLeave]
  | leave h => simp [throughWire_leave h, MemberMsg.isPingOrLeave]

theorem throughWire_eq_self_iff_for_ping :
    throughWire (.ping (some { sender := ascii "a", receiver := ascii "b", incarnation := -5 })) =
        .ok (some (.ping (some { sender := ascii "a", receiver := ascii "b", incarnation := -5 }))) ↔
      MemberMsg.isPingOrLeave
        (.ping (some { sender := ascii "a", receiver := ascii "b", incarnation := -5 })) :=
  throughWire_eq_self_iff_isPingOrLeave _ (.ping (by decide) (by decide))

/-- The ack of node `b` for node `a` arrives as a ping. -/
theorem throughWire_changes_ack :
    FailureDetectionMsg
        (.ack (some { sender := ascii "b", receiver := ascii "a", incarnation := 1 })) ∧
      throughWire (.ack (some { sender := ascii "b", receiver := ascii "a", incarnation := 1 })) ≠
        .ok (some (.ack (some { sender := ascii "b", receiver := ascii "a", incarnation := 1 }))) := by
  refine ⟨.ack (by decide) (by decide), ?_⟩
  rw [throughWire_ack (by decide) (by decide)]
  simp

end GridKV
