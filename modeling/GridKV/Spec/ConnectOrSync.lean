import GridKV.Spec.MemberRoundTrip
import GridKV.Spec.MemberSafety

/-!
# Telling connect and cluster-sync messages apart

Both kinds travel under the connect type, and the decoder guesses by the four bytes behind
the first string: a cluster sync has its member count there, a connect message the length
of the address and the first two bytes of it.  An address that does not start with NUL
makes a number above every count that is accepted.  Cluster syncs of less than ten bytes
are not guessed at all; they are too short to be taken for a connect message.
-/

namespace GridKV

open Go Endian Parse

variable {address : GoString} {data : Bytes} {msg : ConnectMsg}

/-- The connect and cluster-sync messages with strings the wire can carry, usable addresses
    and times within `int64` nanoseconds. -/
inductive MembershipMsg : MemberMsg → Prop
  | connect {msg : ConnectMsg} (hid : WireID msg.nodeID) (haddress : validAddress msg.address)
      (hlen : msg.address.length ≤ 65535) : MembershipMsg (.connect (some msg))
  | clusterSync {msg : ClusterSyncMsg} (hsender : msg.sender.length ≤ 65535)
      (hcount : msg.members.length ≤ 1000)
      (haddress : ∀ info ∈ msg.members, validAddress info.address)
      (hlen : ∀ info ∈ msg.members, info.nodeID.length ≤ 65535 ∧ info.address.length ≤ 65535)
      (htime : ∀ info ∈ msg.members, -2 ^ 63 ≤ info.lastActive ∧ info.lastActive < 2 ^ 63) :
      MembershipMsg (.clusterSync (some msg))

theorem three_le_of_validAddress (h : validAddress address) : 3 ≤ address.length := by
  cases address with
  | nil => cases h
  | cons b address =>
    simp only [validAddress, Bool.and_eq_true, decide_eq_true_eq] at h
    exact h.1

/-! ### Connect messages -/

/-- The four bytes in front of a usable address are no member count. -/
theorem count_lt_of_validAddress (h : validAddress address) (rest : Bytes) :
    1000 < leNat ((encodeString address ++ rest).take 4) := by
  match address, h with
  | b :: c :: address, h =>
    have hb : b.toNat ≠ 0 := by
      simp only [validAddress, Bool.and_eq_true, bne_iff_ne] at h
      exact fun hzero => h.2 (UInt8.toNat_inj.mp hzero)
    simp only [encodeString, leBytes, List.cons_append, List.nil_append, List.take_succ_cons,
      List.take_zero, leNat]
    omega

theorem not_resemblesClusterSync (hid : msg.nodeID.length < 65536)
    (haddress : validAddress msg.address) : ¬ ResemblesClusterSync (encodeConnectMsg msg) := by
  rintro ⟨-, first, n, rest, hfirst, hn, hdata⟩
  -- The first string of the message is its node ID.
  have hmsg : encodeConnectMsg msg = encodeString msg.nodeID ++
      (encodeString msg.address ++ encodeInt64 msg.incarnation) := by
    simp [encodeConnectMsg, encodeStringPair]
  have hread : takeString 2 (encodeString msg.nodeID ++
      (encodeString msg.address ++ encodeInt64 msg.incarnation)) =
      some (msg.nodeID, encodeString msg.address ++ encodeInt64 msg.incarnation) :=
    takeString_encodeString hid
  rw [← hmsg, hdata, takeString_encodeString hfirst] at hread
  obtain ⟨-, hrest⟩ := Prod.mk.inj (Option.some.inj hread)
  have hcount := count_lt_of_validAddress haddress (encodeInt64 msg.incarnation)
  rw [← hrest, List.take_left' (by simp), leNat_leBytes_of_lt (by omega)] at hcount
  omega

theorem decodeConnectCase_connect (hid : WireID msg.nodeID) (haddress : validAddress msg.address)
    (hlen : msg.address.length ≤ 65535) :
    decodeConnectCase (encodeConnectMsg msg) = .ok (some (.connect (some msg))) := by
  have hlt : msg.nodeID.length < 65536 := Nat.lt_succ_of_le hid.2
  have htake : takeConnect (encodeConnectMsg msg) = some msg :=
    takeConnect_eq_some_iff.mpr ⟨hid.1, hlt, haddress, Nat.lt_succ_of_le hlen, [], by simp⟩
  obtain ⟨b, hb, hdecode⟩ := decodeConnectCase_eq (encodeConnectMsg msg)
  have hfalse : b = false := by
    rw [← Bool.not_eq_true, hb]
    exact not_resemblesClusterSync hlt haddress
  rw [hdecode, hfalse, htake]

/-! ### Cluster syncs -/

/-- A connect message is long enough to be guessed. -/
theorem ten_le_of_takeConnect (h : takeConnect data = some msg) : 10 ≤ data.length := by
  obtain ⟨-, -, haddress, -, rest, rfl⟩ := takeConnect_eq_some_iff.mp h
  have hthree := three_le_of_validAddress haddress
  simp only [encodeConnectMsg, encodeStringPair, encodeString, encodeInt64, List.length_append,
    length_leBytes]
  omega

theorem resemblesClusterSync {msg : ClusterSyncMsg} (hsender : msg.sender.length < 65536)
    (hcount : msg.members.length ≤ 1000) (hlong : 10 ≤ (encodeClusterSyncMsg msg).length) :
    ResemblesClusterSync (encodeClusterSyncMsg msg) :=
  ⟨hlong, msg.sender, msg.members.length, msg.members.flatMap encodeNodeInfo, hsender, hcount,
    by rw [encodeClusterSyncMsg, List.append_assoc]⟩

theorem decodeConnectCase_clusterSync {msg : ClusterSyncMsg} (hsender : msg.sender.length < 65536)
    (hcount : msg.members.length ≤ 1000)
    (hmembers : ∀ info ∈ msg.members, info.FitsWire ∧ validAddress info.address) :
    decodeConnectCase (encodeClusterSyncMsg msg) = .ok (some (.clusterSync (some msg))) := by
  have htake : takeClusterSync (encodeClusterSyncMsg msg) = some msg :=
    takeClusterSync_eq_some_iff.mpr ⟨hsender, hcount, hmembers, [], by simp⟩
  obtain ⟨b, hb, hdecode⟩ := decodeConnectCase_eq (encodeClusterSyncMsg msg)
  rw [hdecode, htake]
  cases b with
  | true => rfl
  | false =>
    -- What is not guessed is too short for a connect message.
    cases hconnect : takeConnect (encodeClusterSyncMsg msg) with
    | none => rfl
    | some other =>
      have hguess := hb.mpr (resemblesClusterSync hsender hcount (ten_le_of_takeConnect hconnect))
      cases hguess

/-! ### Both -/

theorem decodeMemberMsg_connect (h : data ≠ []) :
    decodeMemberMsg data MessageType.connect = decodeConnectCase data := by
  rw [decodeMemberMsg, if_neg h, if_neg (by decide), if_pos rfl]

/-- **Connect and cluster sync.**  Every membership message is decoded under the connect type
    to the message that was encoded. -/
theorem throughWire_of_membershipMsg (msg : MemberMsg) (h : MembershipMsg msg) :
    ∃ data, encodeMemberMsg msg = .ok data ∧
      decodeMemberMsg data MessageType.connect = .ok (some msg) := by
  cases h with
  | connect hid haddress hlen =>
    refine ⟨_, rfl, ?_⟩
    rw [decodeMemberMsg_connect
      (by simp [encodeConnectMsg, encodeStringPair, encodeInt64, leBytes])]
    exact decodeConnectCase_connect hid haddress hlen
  | clusterSync hsender hcount haddress hlen htime =>
    refine ⟨_, rfl, ?_⟩
    rw [decodeMemberMsg_connect (by simp [encodeClusterSyncMsg, leBytes])]
    refine decodeConnectCase_clusterSync (Nat.lt_succ_of_le hsender) hcount fun info hmem => ?_
    obtain ⟨hnodeID, hinfo⟩ := hlen info hmem
    obtain ⟨hlow, hhigh⟩ := htime info hmem
    exact ⟨⟨Nat.lt_succ_of_le hnodeID, Nat.lt_succ_of_le hinfo,
      Int64.toInt_ofInt_of_le hlow hhigh⟩, haddress info hmem⟩

/-- The empty cluster sync of a node without a name, which has six bytes. -/
theorem throughWire_of_shortest_sync :
    ∃ data, encodeMemberMsg (.clusterSync (some { sender := [], members := [] })) = .ok data ∧
      decodeMemberMsg data MessageType.connect =
        .ok (some (.clusterSync (some { sender := [], members := [] }))) :=
  throughWire_of_membershipMsg _
    (.clusterSync (by decide) (by decide) (by simp) (by simp) (by simp))

end GridKV
