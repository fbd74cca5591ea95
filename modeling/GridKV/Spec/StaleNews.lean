import GridKV.ForStd.Interleave
import GridKV.Model.RingUpdate

/-!
# Can stale membership news win?

Any number of calls update the entry of one node at the same time.  Each compares
incarnations with the entry it loads and stores later, without looking again.  As long as
the entry a call overwrites still has the incarnation it loaded, incarnations only go up;
a call that is overtaken between its `Load` and its `Store` overwrites the newer entry.
-/

namespace GridKV

open Go Run Interleave

/-- What a call writes: a new entry of the node that is not older than the one it has
    loaded, or a copy of that one in another state. -/
theorem MemberCall.writes_cases {nodeID : GoString} {call : MemberCall}
    {loaded : Option NodeInfo} {info : NodeInfo} (h : call.writes nodeID loaded = some info) :
    (info.nodeID = nodeID ∧ ∀ old, loaded = some old → old.incarnation ≤ info.incarnation) ∨
      ∃ old state, loaded = some old ∧ info = { old with state } := by
  have hmarked : ∀ state, marked state loaded = some info →
      ∃ old state, loaded = some old ∧ info = { old with state } := by
    intro state h
    cases loaded with
    | none => exact nomatch h
    | some old =>
      simp only [marked] at h
      split at h
      · exact nomatch h
      · exact ⟨old, state, rfl, (Option.some.inj h).symm⟩
  cases call with
  | updateNode now address incarnation state =>
    left
    simp only [writes] at h
    split at h
    · exact nomatch h
    · cases loaded with
      | none =>
        cases h
        exact ⟨rfl, nofun⟩
      | some old =>
        dsimp only at h
        split at h
        · exact nomatch h
        · rename_i hnotOlder
          -- Both of the remaining branches that write, write the entry of the message.
          have hcompared : ∀ e, some old = some e → e.incarnation ≤ incarnation := by
            intro e he
            cases he
            exact Int64.not_lt.mp hnotOlder
          split at h
          · split at h <;> cases h
            exact ⟨rfl, hcompared⟩
          · cases h
            exact ⟨rfl, hcompared⟩
  | markSuspect | markDead => exact .inr (hmarked _ h)

/-- Calls on the entry of one node. -/
structure NodeUpdates (ι : Type) where
  nodeID : GoString
  call : ι → MemberCall

namespace NodeUpdates

/-- The entry is not older than it was. -/
def Advances (old new : Option NodeInfo) : Prop :=
  ∀ e, old = some e → ∃ e', new = some e' ∧ e.incarnation ≤ e'.incarnation

theorem Advances.refl (old : Option NodeInfo) : Advances old old :=
  fun e he => ⟨e, he, Int64.le_refl _⟩

theorem Advances.trans {a b c : Option NodeInfo} (h : Advances a b) (h' : Advances b c) :
    Advances a c := by
  intro e he
  obtain ⟨e', he', hle⟩ := h e he
  obtain ⟨e'', he'', hle'⟩ := h' e' he'
  exact ⟨e'', he'', Int64.le_trans hle hle'⟩

/-- What a call is about to store is not older than what it has loaded. -/
def Compared : MemberPhase → Prop
  | .store loaded info => ∀ e, loaded = some e → e.incarnation ≤ info.incarnation
  | _ => True

/-! ### One call -/

/-- Every call compares before it decides to write. -/
theorem le_of_writes {nodeID : GoString} {call : MemberCall} {old info : NodeInfo}
    (h : call.writes nodeID (some old) = some info) : old.incarnation ≤ info.incarnation := by
  obtain ⟨-, hcompared⟩ | ⟨e, state, he, rfl⟩ := MemberCall.writes_cases h
  · exact hcompared old rfl
  · cases he
    exact Int64.le_refl _

/-- What a step does: it loads, or it stores over the entry. -/
theorem memberStep_cases {nodeID : GoString} {call : MemberCall} {m m' : MemberMgr}
    {p q : MemberPhase} (h : memberStep nodeID call m p = some (m', q)) :
    (m' = m ∧ Compared q) ∨
      ∃ loaded info, p = .store loaded info ∧ q = .done ∧
        m'.members.lookup nodeID = some info := by
  cases p with
  | load =>
    simp only [memberStep] at h
    split at h
    · cases h
      exact .inl ⟨rfl, trivial⟩
    · rename_i info hwrites
      cases h
      -- The comparison is with the entry as it is now, which may change before the `Store`.
      refine .inl ⟨rfl, fun e he => ?_⟩
      rw [he] at hwrites
      exact le_of_writes hwrites
  | store loaded info =>
    cases h
    exact .inr ⟨loaded, info, rfl, rfl, AList.lookup_insert _⟩
  | done => exact nomatch h

/-! ### All calls -/

variable {ι : Type} [DecidableEq ι] (u : NodeUpdates ι)

/-- One of the calls takes a step. -/
def step : System ι MemberMgr MemberPhase → ι → Option (System ι MemberMgr MemberPhase) :=
  Interleave.step fun i => memberStep u.nodeID (u.call i)

/-- Before any of the calls. -/
def launch (m : MemberMgr) : System ι MemberMgr MemberPhase where
  shared := m
  phase _ := .load

/-- The entry of the node. -/
def recorded (m : MemberMgr) : Option NodeInfo := m.members.lookup u.nodeID

/-- A call stores only if the entry still has the incarnation that the call has loaded. -/
def StillLoaded (s : System ι MemberMgr MemberPhase) (i : ι) : Prop :=
  match s.phase i with
  | .store loaded _ =>
    (recorded u s.shared).map NodeInfo.incarnation = loaded.map NodeInfo.incarnation
  | _ => True

variable {u} {m : MemberMgr} {i : ι} {is js : List ι} {s t : System ι MemberMgr MemberPhase}

omit [DecidableEq ι] in
/-- A store of a call that was not overtaken does not go back. -/
theorem le_of_stillLoaded {loaded : Option NodeInfo} {info e : NodeInfo}
    (hphase : s.phase i = .store loaded info) (hcompared : Compared (s.phase i))
    (hguard : StillLoaded u s i) (he : recorded u s.shared = some e) :
    e.incarnation ≤ info.incarnation := by
  simp only [StillLoaded, hphase, he, Option.map_some] at hguard
  rw [hphase] at hcompared
  obtain ⟨old, hold, hinc⟩ := Option.map_eq_some_iff.mp hguard.symm
  rw [← hinc]
  exact hcompared old hold

theorem step_advances (h : ∀ j, Compared (s.phase j)) (hguard : StillLoaded u s i)
    (hstep : u.step s i = some t) :
    (∀ j, Compared (t.phase j)) ∧ Advances (recorded u s.shared) (recorded u t.shared) := by
  obtain ⟨q, hact, hphase⟩ := step_eq_some hstep
  obtain ⟨hsame, hq⟩ | ⟨loaded, info, hp, rfl, hstored⟩ := memberStep_cases hact
  · exact ⟨forall_phase_update hphase h hq, hsame ▸ Advances.refl _⟩
  · refine ⟨forall_phase_update hphase h trivial, fun e he => ⟨info, hstored, ?_⟩⟩
    exact le_of_stillLoaded hp (h i) hguard he

theorem run_advances (h : ∀ j, Compared (s.phase j))
    (hrun : GuardedRun u.step (StillLoaded u) s is t) :
    (∀ j, Compared (t.phase j)) ∧ Advances (recorded u s.shared) (recorded u t.shared) := by
  induction hrun with
  | nil => exact ⟨h, Advances.refl _⟩
  | cons hguard hstep _ ih =>
    obtain ⟨hnext, hadv⟩ := step_advances h hguard hstep
    obtain ⟨hlast, hadv'⟩ := ih hnext
    exact ⟨hlast, hadv.trans hadv'⟩

/-- **Stale news.**  Along every run in which each `Store` finds the incarnation that its
    call has loaded, the recorded incarnation never goes down, and no call overwrites an
    entry with a greater incarnation than the one it writes. -/
theorem stale_news_never_wins
    (hrun : GuardedRun u.step (StillLoaded u) (launch m) is s)
    (hrun' : GuardedRun u.step (StillLoaded u) s js t) :
    (∀ e, s.shared.members.lookup u.nodeID = some e →
      ∃ e', t.shared.members.lookup u.nodeID = some e' ∧ e.incarnation ≤ e'.incarnation) ∧
    ∀ i loaded info, t.phase i = .store loaded info → StillLoaded u t i →
      ∀ e, t.shared.members.lookup u.nodeID = some e → e.incarnation ≤ info.incarnation := by
  have hstart : ∀ j, Compared ((launch m : System ι MemberMgr MemberPhase).phase j) :=
    fun _ => trivial
  have hs := (run_advances hstart hrun).1
  obtain ⟨ht, hadv⟩ := run_advances hs hrun'
  exact ⟨hadv, fun i loaded info hphase hguard e he => le_of_stillLoaded hphase (ht i) hguard he⟩

/-- Two workers handle messages of the node n, the older one with incarnation 5. -/
def twoMessages : NodeUpdates Bool where
  nodeID := ascii "n"
  call
    | false => .updateNode 0 (ascii "n:1") 5 NodeState.alive
    | true => .updateNode 0 (ascii "n:1") 9 NodeState.alive

/-- One message after the other. -/
theorem stale_news_in_turn :
    ∃ t, Runs twoMessages.step (launch (.new (ascii "m") (ascii "m:1") 1 0))
        [false, false, true, true] t ∧
      ∃ e, t.shared.members.lookup (ascii "n") = some e ∧ 5 ≤ e.incarnation := by
  have hfirst : ∃ s, GuardedRun twoMessages.step (StillLoaded twoMessages)
      (launch (.new (ascii "m") (ascii "m:1") 1 0)) [false, false] s ∧
      ∃ t, GuardedRun twoMessages.step (StillLoaded twoMessages) s [true, true] t ∧
        ∃ e, s.shared.members.lookup (ascii "n") = some e ∧ e.incarnation = 5 :=
    ⟨_, .cons trivial rfl (.cons rfl rfl (.nil _)), _,
      .cons trivial rfl (.cons rfl rfl (.nil _)), _, rfl, rfl⟩
  obtain ⟨s, hrun, t, hrun', e, he, hinc⟩ := hfirst
  obtain ⟨e', he', hle⟩ := (stale_news_never_wins hrun hrun').1 e he
  exact ⟨t, (hrun.append hrun').runs, e', he', hinc ▸ hle⟩

/-- Both messages are compared with the empty table, and the older one is stored last. -/
theorem stale_news_wins :
    ∃ s t, Runs twoMessages.step (launch (.new (ascii "m") (ascii "m:1") 1 0))
        [false, true, true] s ∧ Runs twoMessages.step s [false] t ∧
      ∃ e e', s.shared.members.lookup (ascii "n") = some e ∧ e.incarnation = 9 ∧
        t.shared.members.lookup (ascii "n") = some e' ∧ e'.incarnation = 5 :=
  ⟨_, _, runs_of_exec rfl, runs_of_exec rfl, _, _, rfl, rfl, rfl, rfl⟩

end NodeUpdates

end GridKV
