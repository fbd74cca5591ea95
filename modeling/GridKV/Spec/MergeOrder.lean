import GridKV.ForStd.Lww
import GridKV.Spec.MemberHandlers

/-!
# Does the order of membership news matter?

Every cluster sync goes through `updateNode`, which compares incarnations only: news with
the incarnation on record replace the record, whatever state they report.  For each node
the table is a register that takes ties (`standing_syncMembers`), so two members that have
heard the same news agree on a node unless two reports of its highest incarnation differ in
the state, in which case the later one wins.
-/

namespace GridKV

open Go List

namespace MemberMgr

variable {m : MemberMgr} {x : GoString} {news : List NodeInfo} (now : Time) {last : NodeInfo}
  (nodeID : GoString) {address : GoString}

/-- What the table says about a node: its incarnation and its state. -/
def standing (m : MemberMgr) (x : GoString) : Option (Int64 × NodeState) :=
  (m.members.lookup x).map fun info => (info.incarnation, info.state)

/-- Reports are compared by incarnation. -/
def rank (report : Int64 × NodeState) : Int := report.1.toInt

/-! ### One message -/

theorem standing_storeNode (incarnation : Int64) (state : NodeState) :
    (m.storeNode now nodeID address incarnation state).standing x =
      if x = nodeID then some (incarnation, state) else m.standing x := by
  simp only [standing, storeNode]
  by_cases hx : x = nodeID
  · subst hx
    rw [AList.lookup_insert, if_pos rfl, Option.map_some]
  · rw [AList.lookup_insert_ne hx, if_neg hx]

/-- `updateNode` is an offer to the register of the node. -/
theorem standing_updateNode (haddress : address ≠ []) (incarnation : Int64) (state : NodeState)
    (x : GoString) :
    (m.updateNode now nodeID address incarnation state).1.standing x =
      if x = nodeID then Lww.replace rank (m.standing x) (incarnation, state)
      else m.standing x := by
  obtain ⟨hignored, hupdate⟩ | ⟨-, hnews, effects, -, hupdate⟩ :=
    updateNode_cases m now nodeID address incarnation state
  · rw [hupdate]
    by_cases hx : x = nodeID
    · subst hx
      obtain ⟨info, hlookup, hstale | ⟨hsame, -⟩⟩ := hignored.resolve_left haddress
      · have hlt : rank (incarnation, state) < rank (info.incarnation, info.state) :=
          Int64.lt_iff_toInt_lt.mp hstale
        rw [if_pos rfl, standing, hlookup, Option.map_some, Lww.replace, if_pos hlt]
      · -- The same report again.
        rw [if_pos rfl, standing, hlookup, Option.map_some, Lww.replace, hsame.1, hsame.2.2,
          ite_self]
    · rw [if_neg hx]
  · rw [hupdate, standing_storeNode]
    by_cases hx : x = nodeID
    · subst hx
      have hnotBelow : Lww.NotBelow rank (m.standing x) (rank (incarnation, state)) := by
        intro report hreport
        obtain ⟨info, hlookup, rfl⟩ := Option.map_eq_some_iff.mp hreport
        exact Int64.le_iff_toInt_le.mp (hnews info hlookup)
      rw [if_pos rfl, if_pos rfl, Lww.replace_of_notBelow hnotBelow]
    · rw [if_neg hx, if_neg hx]

/-- The entries that `handleClusterSync` takes into account. -/
def Counts (self : GoString) (entry : NodeInfo) : Prop :=
  entry.nodeID ≠ self ∧ validAddress entry.address

instance decidableCounts (self : GoString) (entry : NodeInfo) : Decidable (Counts self entry) :=
  inferInstanceAs (Decidable (_ ∧ _))

/-- The reports about a node in a list of entries. -/
def reports (self x : GoString) (news : List NodeInfo) : List (Int64 × NodeState) :=
  (news.filter fun entry => entry.nodeID = x ∧ Counts self entry).map fun entry =>
    (entry.incarnation, entry.state)

theorem mem_reports {self : GoString} {report : Int64 × NodeState} :
    report ∈ reports self x news ↔
      ∃ entry ∈ news, entry.nodeID = x ∧ Counts self entry ∧
        (entry.incarnation, entry.state) = report := by
  simp only [reports, mem_map, mem_filter, decide_eq_true_eq, and_assoc]

theorem ne_nil_of_validAddress (h : validAddress address) : address ≠ [] := by
  rintro rfl
  exact nomatch h

/-- A cluster sync offers its reports one after the other. -/
theorem standing_syncMembers (clock : Nat → Time) (i : Nat) :
    (m.syncMembers clock i news).1.standing x =
      (reports m.nodeID x news).foldl (Lww.replace rank) (m.standing x) := by
  induction news generalizing m i with
  | nil => rfl
  | cons entry news ih =>
    simp only [syncMembers]
    by_cases hcounts : Counts m.nodeID entry
    · have haddress := ne_nil_of_validAddress hcounts.2
      have hguard : entry.nodeID ≠ m.nodeID ∧ validAddress entry.address := hcounts
      rw [if_pos hguard, ih, nodeID_updateNode, standing_updateNode _ _ haddress]
      by_cases hx : x = entry.nodeID
      · subst hx
        simp only [reports, filter_cons, hcounts, and_self, decide_true, if_true,
          map_cons, foldl_cons]
      · have hother : ¬(entry.nodeID = x ∧ Counts m.nodeID entry) := fun h => hx h.1.symm
        simp only [if_neg hx, reports, filter_cons, hother, decide_false, Bool.false_eq_true,
          if_false]
    · have hskip : ¬(entry.nodeID = x ∧ Counts m.nodeID entry) := fun h => hcounts h.2
      have hguard : ¬(entry.nodeID ≠ m.nodeID ∧ validAddress entry.address) := hcounts
      rw [if_neg hguard, ih]
      simp only [reports, filter_cons, hskip, decide_false, Bool.false_eq_true, if_false]

@[simp] theorem nodeID_syncMembers (clock : Nat → Time) (i : Nat) :
    (m.syncMembers clock i news).1.nodeID = m.nodeID := by
  induction news generalizing m i with
  | nil => rfl
  | cons entry news ih =>
    simp only [syncMembers]
    rw [ih]
    split
    · exact nodeID_updateNode ..
    · rfl

/-! ### Any number of messages -/

/-- Handle cluster syncs one after the other, each with the clock it meets. -/
def hear (m : MemberMgr) : List ((Nat → Time) × ClusterSyncMsg) → Exec MemberMgr
  | [] => return m
  | (clock, msg) :: rest => do
    let (m, _) ← m.handleClusterSync clock (some msg)
    m.hear rest

/-- All entries of some messages. -/
def newsOf (msgs : List ((Nat → Time) × ClusterSyncMsg)) : List NodeInfo :=
  msgs.flatMap fun msg => msg.2.members

theorem reports_append (self : GoString) (news' : List NodeInfo) :
    reports self x (news ++ news') = reports self x news ++ reports self x news' := by
  simp only [reports, filter_append, map_append]

theorem standing_hear (m : MemberMgr) (msgs : List ((Nat → Time) × ClusterSyncMsg)) :
    ∃ m', m.hear msgs = .ok m' ∧ ∀ x, m'.standing x =
      (reports m.nodeID x (newsOf msgs)).foldl (Lww.replace rank) (m.standing x) := by
  induction msgs generalizing m with
  | nil => exact ⟨m, rfl, fun x => rfl⟩
  | cons head rest ih =>
    obtain ⟨clock, msg⟩ := head
    obtain ⟨m', hhear, hstanding⟩ := ih (m.syncMembers clock 0 msg.members).1
    refine ⟨m', hhear, fun x => ?_⟩
    have hnews : newsOf ((clock, msg) :: rest) = msg.members ++ newsOf rest := rfl
    rw [hstanding, nodeID_syncMembers, standing_syncMembers, hnews, reports_append,
      foldl_append]

/-- Members that start with the same table and hear the news, in any order, any number of
    times and in any messages, agree on the incarnation and the state of every node. -/
def Converges (m : MemberMgr) (news : List NodeInfo) : Prop :=
  ∀ msgs msgs', (∀ entry, entry ∈ newsOf msgs ↔ entry ∈ news) →
    (∀ entry, entry ∈ newsOf msgs' ↔ entry ∈ news) →
    ∃ m₁ m₂, m.hear msgs = .ok m₁ ∧ m.hear msgs' = .ok m₂ ∧ ∀ x, m₁.standing x = m₂.standing x

/-- No entry about the same node is above this one, and neither is the table. -/
def Newest (m : MemberMgr) (news : List NodeInfo) (entry : NodeInfo) : Prop :=
  (∀ other ∈ news, Counts m.nodeID other → other.nodeID = entry.nodeID →
    other.incarnation ≤ entry.incarnation) ∧
  ∀ info, m.members.lookup entry.nodeID = some info → info.incarnation ≤ entry.incarnation

/-- Where two newest entries about a node have the same incarnation, they report the same
    state. -/
def Unambiguous (m : MemberMgr) (news : List NodeInfo) : Prop :=
  ∀ entry ∈ news, ∀ other ∈ news, Counts m.nodeID entry → Counts m.nodeID other →
    entry.nodeID = other.nodeID → entry.incarnation = other.incarnation →
    Newest m news entry → entry.state = other.state

/-- The newest entries are the leading offers. -/
theorem leads_iff_newest {entry : NodeInfo} :
    Lww.Leads rank (m.standing entry.nodeID) (reports m.nodeID entry.nodeID news)
      (entry.incarnation, entry.state) ↔ Newest m news entry := by
  apply and_congr
  · constructor
    · intro h other hother hcounts hid
      exact Int64.le_iff_toInt_le.mpr
        (h _ (mem_reports.mpr ⟨other, hother, hid, hcounts, rfl⟩))
    · intro h report hreport
      obtain ⟨other, hother, hid, hcounts, rfl⟩ := mem_reports.mp hreport
      exact Int64.le_iff_toInt_le.mp (h other hother hcounts hid)
  · constructor
    · intro h info hinfo
      apply Int64.le_iff_toInt_le.mpr
      exact h (info.incarnation, info.state) (by rw [standing, hinfo, Option.map_some])
    · intro h report hreport
      obtain ⟨info, hinfo, rfl⟩ := Option.map_eq_some_iff.mp hreport
      exact Int64.le_iff_toInt_le.mp (h info hinfo)

theorem settled_of_unambiguous (h : Unambiguous m news) (x : GoString) :
    Lww.Settled rank (m.standing x) (reports m.nodeID x news) := by
  intro report hreport report' hreport' hrank hlead
  obtain ⟨entry, hentry, rfl, hcounts, rfl⟩ := mem_reports.mp hreport
  obtain ⟨other, hother, hid, hcounts', rfl⟩ := mem_reports.mp hreport'
  have hinc : entry.incarnation = other.incarnation := Int64.toInt_inj.mp hrank
  have hstate := h entry hentry other hother hcounts hcounts' hid.symm hinc
    (leads_iff_newest.mp hlead)
  rw [hinc, hstate]

/-- Members that have heard reports of the same entries agree, where these are settled. -/
theorem Unambiguous.converges (h : Unambiguous m news) : Converges m news := by
  intro msgs msgs' hmsgs hmsgs'
  obtain ⟨m₁, hhear₁, hstanding₁⟩ := standing_hear m msgs
  obtain ⟨m₂, hhear₂, hstanding₂⟩ := standing_hear m msgs'
  refine ⟨m₁, m₂, hhear₁, hhear₂, fun x => ?_⟩
  rw [hstanding₁, hstanding₂]
  have hreports : ∀ {news' : List NodeInfo}, (∀ e, e ∈ news' ↔ e ∈ news) → ∀ report,
      report ∈ reports m.nodeID x news' ↔ report ∈ reports m.nodeID x news := by
    intro news' hnews' report
    simp only [mem_reports, hnews']
  exact (settled_of_unambiguous h x).foldl_replace_eq (hreports hmsgs) (hreports hmsgs')

/-- A message with all the news, and one of the entries again at the end. -/
def toldAgain (news : List NodeInfo) (last : NodeInfo) :
    List ((Nat → Time) × ClusterSyncMsg) :=
  [(fun _ => 0, { sender := [], members := news ++ [last] })]

theorem newsOf_toldAgain : newsOf (toldAgain news last) = news ++ [last] := by
  simp only [newsOf, toldAgain, flatMap_cons, flatMap_nil, append_nil]

theorem mem_newsOf_toldAgain (hlast : last ∈ news) (e : NodeInfo) :
    e ∈ newsOf (toldAgain news last) ↔ e ∈ news := by
  rw [newsOf_toldAgain, mem_append, mem_singleton]
  exact ⟨fun he => he.elim id fun heq => heq ▸ hlast, .inl⟩

/-- One of the newest entries, if it is heard last, is what is recorded. -/
theorem standing_toldAgain (hcounts : Counts m.nodeID last) (hnewest : Newest m news last)
    {m' : MemberMgr} (hhear : m.hear (toldAgain news last) = .ok m') :
    m'.standing last.nodeID = some (last.incarnation, last.state) := by
  obtain ⟨m'', hhear', hstanding⟩ := standing_hear m (toldAgain news last)
  obtain rfl : m'' = m' := Except.ok.inj (hhear'.symm.trans hhear)
  have hreport : reports m.nodeID last.nodeID [last] = [(last.incarnation, last.state)] := by
    simp [reports, hcounts]
  rw [hstanding, newsOf_toldAgain, reports_append, hreport]
  exact Lww.foldl_replace_snoc (leads_iff_newest.mpr hnewest)

/-- Two members hear everything, and then one of two newest entries each. -/
theorem Converges.unambiguous (h : Converges m news) : Unambiguous m news := by
  intro entry hentry other hother hcounts hcounts' hid hinc hnewest
  have hnewest' : Newest m news other := by
    unfold Newest at hnewest ⊢
    rwa [← hid, ← hinc]
  obtain ⟨m₁, m₂, hhear₁, hhear₂, hagree⟩ :=
    h (toldAgain news entry) (toldAgain news other) (mem_newsOf_toldAgain hentry)
      (mem_newsOf_toldAgain hother)
  have hsame := hagree entry.nodeID
  rw [standing_toldAgain hcounts hnewest hhear₁, hid,
    standing_toldAgain hcounts' hnewest' hhear₂] at hsame
  exact (Prod.mk.inj (Option.some.inj hsame)).2

/-- **Order of news.**  Members that have heard the same news agree on every node, whatever
    the order and the repetitions, exactly when the newest news about a node are
    unambiguous. -/
theorem converges_iff_unambiguous (m : MemberMgr) (news : List NodeInfo) :
    Converges m news ↔ Unambiguous m news :=
  ⟨Converges.unambiguous, Unambiguous.converges⟩

/-- A report about node n, with its first incarnation. -/
def reportOf (state : NodeState) : NodeInfo where
  nodeID := ascii "n"
  address := ascii "n:1"
  state := state
  incarnation := 1
  lastActive := 0

/-- A member that knows only itself hears that n is alive and that n is dead; which of the
    two it hears last decides. -/
theorem not_converges_alive_and_dead :
    (∃ m₁ m₂, (MemberMgr.new (ascii "m") (ascii "m:1") 1 0).hear
          [(fun _ => 0, ⟨ascii "p", [reportOf NodeState.alive, reportOf NodeState.dead]⟩)] =
            .ok m₁ ∧
        (MemberMgr.new (ascii "m") (ascii "m:1") 1 0).hear
          [(fun _ => 0, ⟨ascii "p", [reportOf NodeState.dead, reportOf NodeState.alive]⟩)] =
            .ok m₂ ∧
        m₁.standing (ascii "n") = some (1, NodeState.dead) ∧
        m₂.standing (ascii "n") = some (1, NodeState.alive)) ∧
      ¬Converges (MemberMgr.new (ascii "m") (ascii "m:1") 1 0)
        [reportOf NodeState.alive, reportOf NodeState.dead] := by
  have hruns : ∃ m₁ m₂, (MemberMgr.new (ascii "m") (ascii "m:1") 1 0).hear
          [(fun _ => 0, ⟨ascii "p", [reportOf NodeState.alive, reportOf NodeState.dead]⟩)] =
            .ok m₁ ∧
        (MemberMgr.new (ascii "m") (ascii "m:1") 1 0).hear
          [(fun _ => 0, ⟨ascii "p", [reportOf NodeState.dead, reportOf NodeState.alive]⟩)] =
            .ok m₂ ∧
        m₁.standing (ascii "n") = some (1, NodeState.dead) ∧
        m₂.standing (ascii "n") = some (1, NodeState.alive) :=
    ⟨_, _, rfl, rfl, by decide, by decide⟩
  refine ⟨hruns, fun h => ?_⟩
  obtain ⟨m₁, m₂, hhear₁, hhear₂, hdead, halive⟩ := hruns
  obtain ⟨n₁, n₂, hhear₁', hhear₂', hagree⟩ :=
    h [(fun _ => 0, ⟨ascii "p", [reportOf NodeState.alive, reportOf NodeState.dead]⟩)]
      [(fun _ => 0, ⟨ascii "p", [reportOf NodeState.dead, reportOf NodeState.alive]⟩)]
      (fun e => Iff.rfl) (fun e => by simp [newsOf, or_comm])
  obtain rfl : m₁ = n₁ := Except.ok.inj (hhear₁.symm.trans hhear₁')
  obtain rfl : m₂ = n₂ := Except.ok.inj (hhear₂.symm.trans hhear₂')
  have hsame := hagree (ascii "n")
  rw [hdead, halive] at hsame
  exact absurd hsame (by decide)

end MemberMgr

end GridKV
