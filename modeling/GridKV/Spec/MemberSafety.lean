import GridKV.Model.Member
import GridKV.Spec.MemberWire

/-!
# Which payloads the member handlers survive

No decoder reads out of range, so the only way a received payload can stop a node is
the nil `*clusterSyncMsg` that `handleClusterSync` dereferences.  It arises from the
connect type alone, exactly on the payloads that are neither a well-formed cluster
sync nor a well-formed connect message that does not resemble one.
-/

namespace GridKV

open Go Endian Parse

variable (data : Bytes)

/-- The payload starts with the encoding of a cluster-sync message whose members all
    have usable addresses. -/
def StartsWithClusterSync : Prop :=
  ∃ msg : ClusterSyncMsg, msg.sender.length < 65536 ∧ msg.members.length ≤ 1000 ∧
    (∀ info ∈ msg.members, info.FitsWire ∧ validAddress info.address) ∧
    ∃ rest, data = encodeClusterSyncMsg msg ++ rest

/-- The payload starts with the encoding of a connect message with a node ID and a
    usable address. -/
def StartsWithConnect : Prop :=
  ∃ msg : ConnectMsg, msg.nodeID ≠ [] ∧ msg.nodeID.length < 65536 ∧ validAddress msg.address ∧
    msg.address.length < 65536 ∧ ∃ rest, data = encodeConnectMsg msg ++ rest

/-- What the decoder takes for a cluster sync: ten bytes or more, and after the first
    string a number that could count members. -/
def ResemblesClusterSync : Prop :=
  data.length ≥ 10 ∧ ∃ (s : GoString) (n : Nat) (rest : Bytes), s.length < 65536 ∧ n ≤ 1000 ∧
    data = encodeString s ++ (leBytes 4 n ++ rest)

/-- The connect payloads with something to handle. -/
def ConnectPayload : Prop :=
  StartsWithClusterSync data ∨ ¬ ResemblesClusterSync data ∧ StartsWithConnect data

/-! ### The connect case of the decoder -/

theorem startsWithClusterSync_iff {data : Bytes} :
    StartsWithClusterSync data ↔ ∃ msg, takeClusterSync data = some msg := by
  simp only [StartsWithClusterSync, takeClusterSync_eq_some_iff]

theorem startsWithConnect_iff {data : Bytes} :
    StartsWithConnect data ↔ ∃ msg, takeConnect data = some msg := by
  simp only [StartsWithConnect, takeConnect_eq_some_iff]

theorem looksLikeClusterSync_eq :
    ∃ b, looksLikeClusterSync data = .ok b ∧ (b = true ↔ ResemblesClusterSync data) := by
  rw [looksLikeClusterSync, ResemblesClusterSync]
  split
  case isFalse hshort => exact ⟨false, rfl, by simp; omega⟩
  case isTrue hlong =>
    obtain ⟨ha, hread⟩ | ⟨a, ha, hread⟩ := decodeString_cases data 0
    · rw [List.drop_zero] at ha
      refine ⟨false, by rw [hread]; rfl, iff_of_false nofun ?_⟩
      rintro ⟨-, s, n, rest, hs, -, hdata⟩
      rw [takeString_two_eq_some_iff.mpr ⟨hs, hdata⟩] at ha
      exact nomatch ha
    · rw [List.drop_zero] at ha
      simp only [hread, ok_bind]
      -- The first string is determined, so the number after it is too.
      have hcount : ∀ s n rest, s.length < 65536 → data = encodeString s ++ (leBytes 4 n ++ rest) →
          n < 2 ^ 32 → takeUint 4 (data.drop (0 + 2 + a.length)) = some (n, rest) := by
        intro s n rest hs hdata hn
        have hsame := takeString_two_eq_some_iff.mpr ⟨hs, hdata⟩
        rw [ha] at hsame
        obtain ⟨rfl, htail⟩ := Prod.mk.inj (Option.some.inj hsame)
        exact takeUint_eq_some_iff.mpr ⟨hn, htail⟩
      by_cases hroom : 0 + 2 + a.length > 0 ∧ 0 + 2 + a.length + 4 ≤ data.length
      · rw [if_pos hroom, sliceFrom_eq_ok (by omega), ok_bind, leUint_eq_ok (by simp; omega)]
        have huint := takeUint_drop hroom.2
        refine ⟨_, rfl, ?_⟩
        rw [decide_eq_true_iff]
        constructor
        · intro hle
          obtain ⟨-, htail⟩ := takeUint_eq_some_iff.mp huint
          obtain ⟨hs, hdata⟩ := takeString_two_eq_some_iff.mp ha
          exact ⟨hlong, a, _, _, hs, hle, by rw [← htail]; exact hdata⟩
        · rintro ⟨-, s, n, rest, hs, hle, hdata⟩
          have := hcount s n rest hs hdata (by omega)
          rw [huint] at this
          obtain ⟨rfl, -⟩ := Prod.mk.inj (Option.some.inj this)
          exact hle
      · rw [if_neg hroom]
        refine ⟨false, rfl, iff_of_false nofun ?_⟩
        rintro ⟨-, s, n, rest, hs, hle, hdata⟩
        have := hcount s n rest hs hdata (by omega)
        rw [takeUint_drop_eq_none (by omega) (by decide)] at this
        exact nomatch this

/-- The connect case never yields the nil interface: it yields a connect message or a
    cluster-sync pointer, nil where the parser fails. -/
theorem decodeConnectCase_eq :
    ∃ b, (b = true ↔ ResemblesClusterSync data) ∧ decodeConnectCase data =
      .ok (some (match b, takeConnect data with
        | false, some msg => .connect (some msg)
        | _, _ => .clusterSync (takeClusterSync data))) := by
  obtain ⟨b, hlooks, hb⟩ := looksLikeClusterSync_eq data
  refine ⟨b, hb, ?_⟩
  rw [decodeConnectCase, hlooks, ok_bind]
  simp only [decodeConnectMsg_eq, decodeClusterSyncMsg_eq, ok_bind, pure_eq_ok]
  cases b with
  | true => rfl
  | false =>
    cases hconnect : takeConnect data with
    | none => rfl
    | some msg =>
      obtain ⟨hid, -, hvalid, -⟩ := takeConnect_eq_some_iff.mp hconnect
      have haddr : msg.address ≠ [] := by
        intro h
        simp [validAddress, h] at hvalid
      simp [hid, haddr, hvalid]

/-! ### The handlers -/

/-- Every handler but the cluster-sync one tests its pointer. -/
theorem handleMessage_completes_iff (m : MemberMgr) (clock : Nat → Time) (msg : MemberMsg) :
    (∃ out, m.handleMessage clock msg = .ok out) ↔ msg ≠ .clusterSync none := by
  cases msg with
  | clusterSync p =>
    cases p with
    | none => simp [MemberMgr.handleMessage, MemberMgr.handleClusterSync, deref, bind, Except.bind]
    | some msg => simp [MemberMgr.handleMessage, MemberMgr.handleClusterSync, deref]
  | _ => simp [MemberMgr.handleMessage]

/-- A handler completes when its payload decodes, and not to a nil cluster sync. -/
theorem networkHandler_completes_iff_of_decode {m : MemberMgr} {clock : Nat → Time}
    {msgType : MessageType} {data : Bytes} {msg : MemberMsg}
    (hlen : msgType = MessageType.connect → 2 ≤ data.length)
    (hdecode : decodeMemberMsg data msgType = .ok (some msg)) :
    (∃ out, m.networkHandler clock msgType data = .ok out) ↔ msg ≠ .clusterSync none := by
  have hlong : ¬ (msgType = MessageType.connect ∧ data.length < 2) := fun h => by
    have := hlen h.1
    omega
  rw [MemberMgr.networkHandler, if_neg hlong, hdecode, ok_bind]
  exact handleMessage_completes_iff m clock msg

theorem decodePingCase_eq :
    ∃ msg, decodePingCase data = .ok (some msg) ∧ msg ≠ .clusterSync none := by
  simp only [decodePingCase, decodePingCase.decodeAckCase, decodePingMsg, decodeAckMsg,
    decodeIndirectProbeMsg, decodeStringPair_eq, ok_bind, pure_eq_ok]
  cases takeStringPair data with
  | none => exact ⟨.indirectProbe none, rfl, nofun⟩
  | some p =>
    obtain ⟨⟨a, b, incarnation⟩, rest⟩ := p
    by_cases hb : b = []
    · exact ⟨.indirectProbe (some { sender := a, target := b, incarnation }), by simp [hb], nofun⟩
    · exact ⟨.ping (some { sender := a, receiver := b, incarnation }), by simp [hb], nofun⟩

/-- The member handlers complete on every payload, except for the connect handler on
    payloads it has no use for. -/
theorem networkHandler_completes_iff (m : MemberMgr) (clock : Nat → Time) (msgType : MessageType)
    (htype : msgType = MessageType.ping ∨ msgType = MessageType.connect ∨
      msgType = MessageType.leave)
    (data : Bytes) (hlen : msgType = MessageType.connect → 2 ≤ data.length) :
    (∃ out, m.networkHandler clock msgType data = .ok out) ↔
      (msgType = MessageType.connect → ConnectPayload data) := by
  by_cases hempty : data = []
  · -- The empty payload decodes to the nil interface and is dropped.
    subst hempty
    have hconnect : msgType ≠ MessageType.connect := fun h => by simpa using hlen h
    refine iff_of_true ⟨(m, []), ?_⟩ fun h => absurd h hconnect
    simp [MemberMgr.networkHandler, decodeMemberMsg, hconnect]
  obtain rfl | rfl | rfl := htype
  · obtain ⟨msg, hdecode, hmsg⟩ := decodePingCase_eq data
    have hdecode : decodeMemberMsg data MessageType.ping = .ok (some msg) := by
      rw [decodeMemberMsg, if_neg hempty]
      exact hdecode
    rw [networkHandler_completes_iff_of_decode hlen hdecode]
    exact iff_of_true hmsg fun h => absurd h (by decide)
  · obtain ⟨b, hb, hdecode⟩ := decodeConnectCase_eq data
    have hdecode' : decodeMemberMsg data MessageType.connect = decodeConnectCase data := by
      rw [decodeMemberMsg, if_neg hempty]
      rfl
    rw [networkHandler_completes_iff_of_decode hlen (hdecode'.trans hdecode)]
    simp only [ConnectPayload, startsWithClusterSync_iff, startsWithConnect_iff, ← hb, true_imp_iff]
    cases b <;> cases takeConnect data <;> cases takeClusterSync data <;> simp
  · have hdecode : decodeMemberMsg data MessageType.leave = .ok (some (.leave (takeLeave data))) := by
      rw [decodeMemberMsg, if_neg hempty, if_neg (by decide), if_neg (by decide), if_pos rfl,
        decodeLeaveMsg_eq]
      rfl
    rw [networkHandler_completes_iff_of_decode hlen hdecode]
    exact iff_of_true nofun fun h => absurd h (by decide)

/-- A node that knows only itself. -/
def loneMember : MemberMgr where
  nodeID := ascii "a"
  address := ascii "a:1"
  incarnation := 1
  members := (∅ : GoMap NodeInfo).insert (ascii "a")
    { nodeID := ascii "a", address := ascii "a:1", state := NodeState.alive, incarnation := 0
      lastActive := 0 }

/-- The empty cluster sync of node `b`. -/
theorem networkHandler_completes_on_empty_sync :
    (∃ out, loneMember.networkHandler (fun _ => 0) MessageType.connect [1, 0, 98, 0, 0, 0, 0] =
        .ok out) ↔
      (MessageType.connect = MessageType.connect → ConnectPayload [1, 0, 98, 0, 0, 0, 0]) :=
  networkHandler_completes_iff loneMember (fun _ => 0) MessageType.connect (.inr (.inl rfl))
    [1, 0, 98, 0, 0, 0, 0] (by decide)

/-- Two bytes sent to the connect handler stop the node. -/
theorem networkHandler_panics_on_two_bytes :
    loneMember.networkHandler (fun _ => 0) MessageType.connect [0xFF, 0xFF] =
      .error .nilDereference := by
  rfl

end GridKV
