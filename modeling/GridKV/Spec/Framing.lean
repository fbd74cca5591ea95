import GridKV.Model.Server
import GridKV.Spec.RequestPairing

/-!
# Frames and deadlines

When the deadline of a `Receive` passes, the bytes it has read of a frame are gone, and
`handleConn` goes on as if the next byte were the first of a frame.  So the messages passed
to the handler are those that were sent as long as deadlines pass between frames only
(`messages_prefix_of_run`).
-/

namespace GridKV

open Go Endian Run List

/-! ### Receiving -/

/-- Where what has come in of a frame starts with a frame, all of it has come in. -/
theorem length_le_of_take_eq {data data' rest rest' : Bytes} {arrived : Nat}
    (hlength : data.length < 2 ^ 32)
    (h : (frame data ++ rest).take arrived = frame data' ++ rest') :
    4 + data.length ≤ arrived := by
  have hcount : (frame data' ++ rest').length ≤ arrived := by
    rw [← h]
    exact length_take_le ..
  simp only [frame, length_append, length_beBytes] at hcount
  -- The two headers are the same four bytes.
  have hheader : beBytes 4 data.length = beBytes 4 data'.length := by
    have htake := congrArg (List.take 4) h
    rw [take_take, Nat.min_eq_left (by omega), frame, frame, append_assoc,
      append_assoc, take_left' (length_beBytes 4 _),
      take_left' (length_beBytes 4 _)] at htake
    exact htake
  have hsize := congrArg beNat hheader
  rw [beNat_beBytes_of_lt hlength, beNat_beBytes] at hsize
  have hmod := Nat.mod_le data'.length (256 ^ 4)
  omega

/-- A connection with a peer that sends and a server that receives. -/
structure Link where
  sent : List Bytes := []
  server : ServerConn := {}

namespace Link

inductive Action where
  | send (data : Bytes)
  | round (round : Round)

variable (maxMessageSize : Int)

def step (link : Link) : Action → Option Link
  | .send data =>
    match sendFrame maxMessageSize link.server.stream data with
    | none => none
    | some stream => some
        { sent := link.sent ++ [data], server := { link.server with stream } }
  | .round round =>
    if link.server.closed then none
    else some { link with server := link.server.handleConn maxMessageSize round }

/-- A deadline passes only when nothing has come in, or has no effect because a whole frame
    has; and the lengths of the messages fit the header. -/
def BetweenFrames (link : Link) : Action → Prop
  | .send data => data.length < 2 ^ 32
  | .round round => round.timeout →
    link.server.stream.take round.arrived = [] ∨
      ∃ data rest, link.server.stream.take round.arrived = frame data ++ rest

/-- The bytes that have not been read are the frames of the messages that have not been
    handled; on a closed connection it does not matter what they are. -/
def InStep (link : Link) : Prop :=
  ∃ rest, link.sent = link.server.messages ++ rest ∧
    (∀ data ∈ rest, data.length < 2 ^ 32 ∧ ¬ data.length > maxMessageSize) ∧
    (link.server.closed = false → link.server.stream = rest.flatMap frame)

variable {maxMessageSize} {link link' : Link}

theorem InStep.messages_isPrefix (h : InStep maxMessageSize link) :
    link.server.messages <+: link.sent := by
  obtain ⟨rest, hsent, -, -⟩ := h
  exact ⟨rest, hsent.symm⟩

/-- A connection that is closed only keeps what it has handled. -/
theorem InStep.close (h : InStep maxMessageSize link) (stream : Bytes) :
    InStep maxMessageSize { link with server := { link.server with stream }.close } := by
  obtain ⟨rest, hsent, hsizes, -⟩ := h
  exact ⟨rest, hsent, hsizes, fun hopen => nomatch hopen⟩

theorem InStep.send (h : InStep maxMessageSize link) {data : Bytes}
    (hlength : BetweenFrames link (.send data))
    (hstep : step maxMessageSize link (.send data) = some link') : InStep maxMessageSize link' := by
  simp only [step, sendFrame] at hstep
  by_cases hsize : data.length > maxMessageSize
  · simp [hsize] at hstep
  · rw [if_neg hsize] at hstep
    cases hstep
    obtain ⟨rest, hsent, hsizes, hstream⟩ := h
    refine ⟨rest ++ [data], ?_, ?_, fun hopen => ?_⟩
    · rw [hsent, append_assoc]
    · exact forall_mem_append.mpr ⟨hsizes, forall_mem_singleton.mpr ⟨hlength, hsize⟩⟩
    · rw [hstream hopen, flatMap_append, flatMap_singleton]

/-- The handler gets the message, unless it is too large for `handleConn`. -/
theorem handle_cases (maxMessageSize : Int) (c : ServerConn) (round : Round) (data : Bytes) :
    (∃ count closed, c.handle maxMessageSize round data =
        { c with messages := c.messages ++ [data], handlerErrorCount := count, closed }) ∨
      c.handle maxMessageSize round data = c.close := by
  unfold ServerConn.handle
  split
  · exact .inr rfl
  · refine .inl ?_
    dsimp only
    split
    · split <;> exact ⟨_, _, rfl⟩
    · split
      · exact ⟨_, _, rfl⟩
      · split <;> exact ⟨_, _, rfl⟩

/-- A read that fails keeps the connection open only if it has read nothing. -/
theorem InStep.failed (h : InStep maxMessageSize link) {round : Round} {stream : Bytes}
    {err : ReceiveError}
    (hfail : receiveFrame maxMessageSize link.server.stream round.arrived = (stream, .error err))
    (hkept : err = .interrupted → round.timeout → stream = link.server.stream) :
    InStep maxMessageSize
      { link with server := link.server.handleConn maxMessageSize round } := by
  simp only [ServerConn.handleConn, hfail]
  split
  · exact h.close link.server.stream
  · split
    · exact h.close stream
    · split
      · rename_i htimeout
        rw [hkept htimeout.1 htimeout.2]
        exact h
      · exact h.close stream

/-- A frame that is read whole is the next message. -/
theorem InStep.received (h : InStep maxMessageSize link) {round : Round} {data : Bytes}
    {rest : List Bytes} (hsent : link.sent = link.server.messages ++ data :: rest)
    (hsizes : ∀ data ∈ rest, data.length < 2 ^ 32 ∧ ¬ data.length > maxMessageSize)
    (hreceive : receiveFrame maxMessageSize link.server.stream round.arrived =
      (rest.flatMap frame, .ok data)) :
    InStep maxMessageSize
      { link with server := link.server.handleConn maxMessageSize round } := by
  simp only [ServerConn.handleConn, hreceive]
  split
  · exact h.close link.server.stream
  · obtain ⟨count, closed, hhandle⟩ | hhandle :=
      handle_cases maxMessageSize { link.server with stream := rest.flatMap frame } round data
    · rw [hhandle]
      exact ⟨rest, by rw [hsent]; simp, hsizes, fun _ => rfl⟩
    · rw [hhandle]
      exact h.close (rest.flatMap frame)

theorem InStep.round (h : InStep maxMessageSize link) {round : Round}
    (hguard : BetweenFrames link (.round round))
    (hstep : step maxMessageSize link (.round round) = some link') :
    InStep maxMessageSize link' := by
  simp only [step] at hstep
  split at hstep <;> cases hstep
  rename_i hopen
  have hinv := h
  obtain ⟨rest, hsent, hsizes, hstream⟩ := h
  have hstream := hstream (by simpa using hopen)
  simp only [BetweenFrames] at hguard
  cases rest with
  | nil =>
    have hnone : receiveFrame maxMessageSize link.server.stream round.arrived =
        ([], .error .interrupted) := by
      rw [hstream]
      exact ClientState.receiveFrame_nil ..
    exact hinv.failed hnone fun _ _ => hstream.symm
  | cons data rest =>
    obtain ⟨⟨hlength, hsize⟩, hsizes'⟩ := forall_mem_cons.mp hsizes
    rw [flatMap_cons] at hstream
    have hreceive := ClientState.receiveFrame_frame_append maxMessageSize (rest.flatMap frame)
      round.arrived hlength
    rw [← hstream, if_neg fun h => hsize h.2] at hreceive
    by_cases hpart : round.arrived < 4 + data.length
    · rw [if_pos hpart] at hreceive
      refine hinv.failed hreceive fun _ htimeout => ?_
      have hnothing : link.server.stream.take round.arrived = [] := by
        refine (hguard htimeout).resolve_right ?_
        rintro ⟨data', rest', hwhole⟩
        rw [hstream] at hwhole
        exact absurd (length_le_of_take_eq hlength hwhole) (by omega)
      have hsplit := take_append_drop round.arrived link.server.stream
      rwa [hnothing, nil_append] at hsplit
    · rw [if_neg hpart] at hreceive
      exact hinv.received hsent hsizes' hreceive

/-- **Framing.**  In every run in which deadlines pass between frames only, the messages
    passed to the handler are the first of those sent. -/
theorem messages_prefix_of_run {as : List Action}
    (hrun : GuardedRun (step maxMessageSize) BetweenFrames {} as link) :
    link.server.messages <+: link.sent := by
  have hstart : InStep maxMessageSize {} := ⟨[], rfl, by simp, fun _ => rfl⟩
  refine (hrun.invariant (fun _ a _ h hguard hstep => ?_) hstart).messages_isPrefix
  cases a with
  | send data => exact h.send hguard hstep
  | round round => exact h.round hguard hstep

/-- A deadline that passes before the first of two messages. -/
theorem late_messages_in_order :
    ∃ link : Link, link.sent.length = 2 ∧ link.server.messages.length = 2 ∧
      link.server.messages <+: link.sent := by
  have hrun : GuardedRun (step 100) BetweenFrames {}
      [.round { arrived := 0 }, .send (ascii "one"), .send (ascii "two"),
        .round { arrived := 14 }, .round { arrived := 7 }] _ :=
    .cons (fun _ => .inl rfl) rfl (.cons (by unfold BetweenFrames; decide) rfl
      (.cons (by unfold BetweenFrames; decide) rfl
      (.cons (fun _ => .inr ⟨ascii "one", frame (ascii "two"), rfl⟩) rfl
      (.cons (fun _ => .inr ⟨ascii "two", [], rfl⟩) rfl (.nil _)))))
  exact ⟨_, by decide, by decide, messages_prefix_of_run hrun⟩

/-- A message whose bytes look like a frame, and a deadline that passes between its header
    and the rest: the handler gets a message that was never sent. -/
theorem payload_read_as_frame :
    ¬ ∀ (as : List Action) (link : Link), Runs (step 100) {} as link →
      link.server.messages <+: link.sent := by
  intro hall
  have hrun : Runs (step 100) {}
      [.send (frame [7]), .round { arrived := 4 }, .round { arrived := 5 }] _ :=
    .cons trivial rfl (.cons trivial rfl (.cons trivial rfl (.nil _)))
  have hfirst := hall _ _ hrun
  revert hfirst
  decide

end Link

end GridKV
