import GridKV.Spec.Leaving
import GridKV.Spec.PingExchange

/-!
# Who gets the answer to an indirect probe?

A proxy remembers for each target of an indirect probe who asked for it, and forwards the
next ack of the target to that member.  It remembers one member only: a second request about
the same target takes the place of the first (`Tracks`).  So of several members that have
asked since the last ack of the target, the last one is answered and the others are not.
-/

namespace GridKV

open Go List

/-- The messages of indirect probing that a proxy handles. -/
inductive ProxyMsg where
  | probe (msg : IndirectProbeMsg)
  | ack (msg : AckMsg)

namespace ProxyMsg

def toMsg : ProxyMsg → MemberMsg
  | .probe msg => .indirectProbe (some msg)
  | .ack msg => .ack (some msg)

/-- The members a message names. -/
def peers : ProxyMsg → List GoString
  | .probe msg => [msg.sender, msg.target]
  | .ack msg => [msg.sender]

/-- Who has asked about the target since its last ack, after one more message. -/
def noted (target : GoString) (askers : List GoString) : ProxyMsg → List GoString
  | .probe msg => if msg.target = target then askers ++ [msg.sender] else askers
  | .ack msg => if msg.sender = target then [] else askers

end ProxyMsg

/-- A list all of whose members are its last one. -/
theorem forall_getLast?_eq_iff {α : Type} {xs : List α} :
    (∀ x ∈ xs, xs.getLast? = some x) ↔ ∀ x ∈ xs, ∀ y ∈ xs, x = y := by
  constructor
  · intro h x hx y hy
    exact Option.some.inj ((h x hx).symm.trans (h y hy))
  · intro h x hx
    obtain ⟨last, hlast⟩ := Option.isSome_iff_exists.mp
      (getLast?_isSome.mpr (ne_nil_of_mem hx))
    rw [hlast, h last (mem_of_getLast? hlast) x hx]

/-- Who has asked about the target since its last ack, in their order. -/
def askers (target : GoString) (msgs : List ((Nat → Time) × ProxyMsg)) : List GoString :=
  msgs.foldl (fun asked msg => msg.2.noted target asked) []

namespace MemberMgr

variable {m₀ m m' : MemberMgr} {clock : Nat → Time} {asked : GoString → List GoString}
  {out : MemberMgr × List MemberEffect}

/-! ### What a proxy remembers -/

/-- The proxy knows everybody it was told about under the address it started with, and
    remembers the last member that asked about each target. -/
structure Tracks (m₀ : MemberMgr) (asked : GoString → List GoString) (m : MemberMgr) : Prop where
  probes : ∀ target, m.indirectProbes.lookup target = (asked target).getLast?
  known : ∀ target, ∀ x ∈ asked target, m₀.addressOf x ≠ []
  address : ∀ x, m.addressOf x = m₀.addressOf x
  sends : m.hasSendFunc = true

/-- Forwarding an ack ends the probe of its sender. -/
theorem lookup_forwardIndirectAck (ack : AckMsg) (target : GoString) :
    (m.forwardIndirectAck ack).1.indirectProbes.lookup target =
      if ack.sender = target then none else m.indirectProbes.lookup target := by
  have hprobes : (m.forwardIndirectAck ack).1.indirectProbes = m.indirectProbes.erase ack.sender ∨
      m.indirectProbes.lookup ack.sender = none ∧ (m.forwardIndirectAck ack).1 = m := by
    unfold forwardIndirectAck
    split
    · exact .inr ⟨‹_›, rfl⟩
    · dsimp only
      split <;> exact .inl rfl
  by_cases heq : ack.sender = target
  · subst heq
    rw [if_pos rfl]
    obtain herase | ⟨hnone, hsame⟩ := hprobes
    · rw [herase, AList.lookup_erase]
    · rw [hsame, hnone]
  · rw [if_neg heq]
    obtain herase | ⟨-, hsame⟩ := hprobes
    · rw [herase, AList.lookup_erase_ne (Ne.symm heq)]
    · rw [hsame]

theorem Tracks.handleIndirectProbe (h : Tracks m₀ asked m) {msg : IndirectProbeMsg}
    (hsender : m₀.addressOf msg.sender ≠ []) (htarget : m₀.addressOf msg.target ≠ []) :
    Tracks m₀ (fun target => (ProxyMsg.probe msg).noted target (asked target))
      (m.handleIndirectProbe (some msg)).1 := by
  have haddress : m.addressOf msg.target ≠ [] := by
    rw [h.address]
    exact htarget
  simp only [MemberMgr.handleIndirectProbe, if_pos (And.intro h.sends haddress)]
  refine ⟨fun target => ?_, fun target x hx => ?_, h.address, h.sends⟩
  · simp only [ProxyMsg.noted]
    by_cases heq : msg.target = target
    · rw [if_pos heq, ← heq, AList.lookup_insert, getLast?_concat]
    · rw [if_neg heq, AList.lookup_insert_ne (Ne.symm heq)]
      exact h.probes target
  · simp only [ProxyMsg.noted] at hx
    split at hx
    · obtain hx | hx := mem_append.mp hx
      · exact h.known target x hx
      · rw [mem_singleton.mp hx]
        exact hsender
    · exact h.known target x hx

/-- The update changes the table and no address in it. -/
theorem acked_fst (m : MemberMgr) (now : Time) (ack : AckMsg) :
    ∃ members, (m.acked now ack).1 = { m with members } ∧
      ∀ x, (m.acked now ack).1.addressOf x = m.addressOf x := by
  unfold MemberMgr.acked
  split
  · obtain ⟨members, hfst⟩ := updateNode_fst m now ack.sender (m.addressOf ack.sender)
      ack.incarnation NodeState.alive
    exact ⟨members, hfst, Exchange.addressOf_updateNode m now ack.sender ack.incarnation _⟩
  · exact ⟨_, rfl, fun _ => rfl⟩

theorem Tracks.acked (h : Tracks m₀ asked m) (now : Time) (ack : AckMsg) :
    Tracks m₀ asked (m.acked now ack).1 := by
  obtain ⟨members, hmembers, haddress⟩ := acked_fst m now ack
  rw [hmembers] at haddress ⊢
  exact ⟨h.probes, h.known, fun x => (haddress x).trans (h.address x), h.sends⟩

theorem Tracks.handleAck (h : Tracks m₀ asked m) (now : Time) (ack : AckMsg) :
    Tracks m₀ (fun target => (ProxyMsg.ack ack).noted target (asked target))
      (m.handleAck now (some ack)).1 := by
  have hacked := h.acked now ack
  rw [handleAck_eq]
  obtain ⟨probes, hforward⟩ := forwardIndirectAck_fst (m.acked now ack).1 ack
  refine ⟨fun target => ?_, fun target x hx => ?_, ?_, ?_⟩
  · rw [lookup_forwardIndirectAck, hacked.probes]
    simp only [ProxyMsg.noted]
    split <;> rfl
  · simp only [ProxyMsg.noted] at hx
    split at hx
    · cases hx
    · exact h.known target x hx
  · rw [hforward]
    exact hacked.address
  · rw [hforward]
    exact hacked.sends

theorem Tracks.handleMessage (h : Tracks m₀ asked m) {msg : ProxyMsg}
    (hknown : ∀ x ∈ msg.peers, m₀.addressOf x ≠ [])
    (hout : m.handleMessage clock msg.toMsg = .ok out) :
    Tracks m₀ (fun target => msg.noted target (asked target)) out.1 := by
  cases msg with
  | probe msg =>
    cases hout
    exact h.handleIndirectProbe (hknown _ (by simp [ProxyMsg.peers]))
      (hknown _ (by simp [ProxyMsg.peers]))
  | ack msg =>
    cases hout
    exact h.handleAck (clock 0) msg

/-- The messages of a run, as they are handled. -/
def proxied (msgs : List ((Nat → Time) × ProxyMsg)) : List ((Nat → Time) × MemberMsg) :=
  msgs.map fun msg => (msg.1, msg.2.toMsg)

theorem Tracks.handleMessages (h : Tracks m₀ asked m) {msgs : List ((Nat → Time) × ProxyMsg)}
    (hknown : ∀ msg ∈ msgs, ∀ x ∈ msg.2.peers, m₀.addressOf x ≠ [])
    (hrun : m.handleMessages (proxied msgs) = .ok m') :
    Tracks m₀ (fun target => msgs.foldl (fun asked msg => msg.2.noted target asked)
      (asked target)) m' := by
  induction msgs generalizing m asked with
  | nil =>
    cases hrun
    exact h
  | cons msg msgs ih =>
    obtain ⟨hfirst, hrest⟩ := forall_mem_cons.mp hknown
    cases hout : m.handleMessage msg.1 msg.2.toMsg with
    | error err =>
      simp only [proxied, map_cons, MemberMgr.handleMessages, hout] at hrun
      cases hrun
    | ok out =>
      rw [proxied, map_cons, handleMessages_cons hout] at hrun
      exact ih (h.handleMessage hfirst hout) hrest hrun

/-! ### Who is answered -/

/-- The forwarded ack for one of the members that asked. -/
def forwarded (m : MemberMgr) (ack : AckMsg) (asker : GoString) : MemberEffect :=
  .send (m.addressOf asker) (.indirectAck (some
    { sender := m.nodeID, receiver := asker, target := ack.sender
      incarnation := ack.incarnation }))

/-- An update sends nothing. -/
theorem notMem_acked (m : MemberMgr) (now : Time) (ack : AckMsg) (asker : GoString) :
    m.forwarded ack asker ∉ (m.acked now ack).2 := by
  unfold MemberMgr.acked
  split
  · obtain ⟨-, hupdate⟩ | ⟨-, -, effects, heffects, hupdate⟩ := updateNode_cases m now ack.sender
      (m.addressOf ack.sender) ack.incarnation NodeState.alive
    · rw [hupdate]
      exact not_mem_nil
    · rw [hupdate]
      obtain rfl | rfl := heffects <;> simp [forwarded]
  · exact not_mem_nil

/-- What an ack makes the proxy send when somebody has asked. -/
theorem forwardIndirectAck_of_asked {ack : AckMsg} {asker : GoString}
    (hasked : m.indirectProbes.lookup ack.sender = some asker) (haddress : m.addressOf asker ≠ [])
    (hsend : m.hasSendFunc = true) :
    (m.forwardIndirectAck ack).2 = [m.forwarded ack asker] := by
  simp only [forwardIndirectAck, hasked]
  rw [if_pos (by exact haddress)]
  exact if_pos hsend

theorem forwarded_inj {ack : AckMsg} {x y : GoString} :
    m.forwarded ack x = m.forwarded ack y ↔ x = y := by
  constructor
  · intro h
    injection h with _ hmsg
    injection hmsg with hmsg
    injection Option.some.inj hmsg
  · rintro rfl
    rfl

/-- The ack is forwarded to the last member that asked, and to nobody else. -/
theorem Tracks.mem_handleAck (h : Tracks m₀ asked m) (now : Time) (ack : AckMsg)
    (asker : GoString) :
    m.forwarded ack asker ∈ (m.handleAck now (some ack)).2 ↔
      (asked ack.sender).getLast? = some asker := by
  have hacked := h.acked now ack
  obtain ⟨members, hmembers, haddress⟩ := acked_fst m now ack
  have hsame : m.forwarded ack = (m.acked now ack).1.forwarded ack := by
    funext x
    unfold forwarded
    rw [haddress, hmembers]
  rw [handleAck_eq, mem_append, or_iff_right (notMem_acked m now ack asker), hsame,
    ← hacked.probes]
  cases hlast : (m.acked now ack).1.indirectProbes.lookup ack.sender with
  | none => simp [forwardIndirectAck, hlast]
  | some last =>
    have hmem : last ∈ asked ack.sender :=
      mem_of_getLast? ((hacked.probes ack.sender).symm.trans hlast)
    have hknown : (m.acked now ack).1.addressOf last ≠ [] := by
      rw [hacked.address]
      exact h.known _ last hmem
    rw [forwardIndirectAck_of_asked hlast hknown hacked.sends, mem_singleton, forwarded_inj,
      Option.some.injEq]
    exact eq_comm

/-- **Everybody who asked is answered when only one has asked.**  A proxy handles any indirect
    probes and acks among members it knows.  The next ack of a target is then forwarded to all
    members that asked about it since its last ack exactly if these are one member at most. -/
theorem all_askers_answered_iff (m m' : MemberMgr) (msgs : List ((Nat → Time) × ProxyMsg))
    (clock : Nat → Time) (ack : AckMsg) (out : MemberMgr × List MemberEffect)
    (hnew : m.indirectProbes = ∅) (hsend : m.hasSendFunc = true)
    (hknown : ∀ msg ∈ msgs, ∀ x ∈ msg.2.peers, m.addressOf x ≠ [])
    (hrun : m.handleMessages (proxied msgs) = .ok m')
    (hout : m'.handleMessage clock (.ack (some ack)) = .ok out) :
    (∀ x ∈ askers ack.sender msgs, m'.forwarded ack x ∈ out.2) ↔
      ∀ x ∈ askers ack.sender msgs, ∀ y ∈ askers ack.sender msgs, x = y := by
  have hstart : Tracks m (fun _ => []) m := by
    refine ⟨fun target => ?_, fun target x hx => ?_, fun _ => rfl, hsend⟩
    · rw [hnew]
      rfl
    · cases hx
  have htracks := hstart.handleMessages hknown hrun
  cases hout
  rw [← forall_getLast?_eq_iff]
  exact forall₂_congr fun x _ => htracks.mem_handleAck (clock 0) ack x

/-! ### Two members ask -/

/-- A proxy that knows three other members. -/
def proxy : MemberMgr where
  nodeID := ascii "p"
  address := ascii "p:1"
  incarnation := 1
  members := [ascii "a", ascii "b", ascii "t"].foldl (fun members id => members.insert id
    { nodeID := id, address := id ++ ascii ":1", state := NodeState.alive
      incarnation := 1, lastActive := 0 }) ∅

/-- A member asks the proxy to probe `t`. -/
def asks (sender : GoString) : (Nat → Time) × ProxyMsg :=
  (fun _ => 0, .probe { sender, target := ascii "t", incarnation := 1 })

def ackOfTarget : AckMsg where
  sender := ascii "t"
  receiver := ascii "p"
  incarnation := 1

theorem asker_answered :
    ∃ m' out, proxy.handleMessages (proxied [asks (ascii "a")]) = .ok m' ∧
      m'.handleMessage (fun _ => 0) (.ack (some ackOfTarget)) = .ok out ∧
      m'.forwarded ackOfTarget (ascii "a") ∈ out.2 := by
  refine ⟨_, _, rfl, rfl, ?_⟩
  refine (all_askers_answered_iff proxy _ [asks (ascii "a")] (fun _ => 0) ackOfTarget _ rfl rfl
    (by decide) rfl rfl).mpr ?_ _ ?_
  · decide
  · decide

/-- `a` and `b` ask about `t`, and `t` answers: `a` is not told. -/
theorem first_asker_not_answered :
    ∃ m' out, proxy.handleMessages (proxied [asks (ascii "a"), asks (ascii "b")]) = .ok m' ∧
      m'.handleMessage (fun _ => 0) (.ack (some ackOfTarget)) = .ok out ∧
      askers (ascii "t") [asks (ascii "a"), asks (ascii "b")] = [ascii "a", ascii "b"] ∧
      m'.forwarded ackOfTarget (ascii "a") ∉ out.2 :=
  ⟨_, _, rfl, rfl, by decide, by decide⟩

end MemberMgr

end GridKV
