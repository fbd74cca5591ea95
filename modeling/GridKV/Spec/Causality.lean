import GridKV.ForStd.HappensBefore
import GridKV.ForStd.Interleave
import GridKV.Spec.HlcOrder

/-!
# Causality

Any number of clocks take readings with `Now` and are told about the readings of others
with `Update`; the wall clock may read anything.  A reading is stamped above every reading
that happened before it: `tick` raises the pair of timestamp and counter and `Update` takes
the larger of two pairs, so the log of a run is consistent in the sense of
`Causal.Consistent`.  The pair survives the way through the string because timestamps are
never negative and a counter is at most the number of steps taken.
-/

namespace GridKV

open Go Run Causal Function

/-- The pair of timestamp and counter, in lexicographic order. -/
def HLC.stamp (h : HLC) : ℤ ×ₗ ℕ := toLex (h.lastTs.toInt, h.counter.toNat)

/-! ### One clock -/

/-- `Now` moves the clock forward, whatever the wall clock reads. -/
theorem stamp_lt_stamp_tick {h : HLC} (hc : h.counter.toNat + 1 < 2 ^ 64) (now : Int64) :
    h.stamp < (h.tick now).stamp := by
  rw [HLC.stamp, HLC.stamp, Prod.Lex.toLex_lt_toLex]
  unfold HLC.tick
  split
  · rename_i hnow
    exact .inl (Int64.lt_iff_toInt_lt.mp hnow)
  · refine .inr ⟨rfl, ?_⟩
    show h.counter.toNat < (h.counter + 1).toNat
    rw [UInt64.toNat_add, UInt64.toNat_one, Nat.mod_eq_of_lt hc]
    exact Nat.lt_succ_self _

theorem tick_nonneg {h : HLC} (hts : 0 ≤ h.lastTs) (now : Int64) : 0 ≤ (h.tick now).lastTs := by
  unfold HLC.tick
  split
  · rename_i hnow
    exact Int64.le_trans hts (Int64.le_of_lt hnow)
  · exact hts

theorem counter_tick_le (h : HLC) (now : Int64) :
    (h.tick now).counter.toNat ≤ h.counter.toNat + 1 := by
  unfold HLC.tick
  split
  · exact Nat.zero_le _
  · show (h.counter + 1).toNat ≤ _
    rw [UInt64.toNat_add, UInt64.toNat_one]
    exact Nat.mod_le _ _

/-- What `Update` does with a reading it can parse: it keeps its own pair or takes the other
    one, whichever is larger. -/
theorem update_cases {h : HLC} {s : GoString} {ts : Int64} {c : UInt64}
    (hparse : parseHLC s = some (ts, c)) :
    h.stamp ≤ (h.update s).stamp ∧ toLex (ts.toInt, c.toNat) ≤ (h.update s).stamp ∧
      (h.update s).nodeID = h.nodeID ∧
      (((h.update s).lastTs = h.lastTs ∧ (h.update s).counter = h.counter) ∨
        ((h.update s).lastTs = ts ∧ (h.update s).counter = c)) := by
  simp only [HLC.update, hparse]
  split
  · rename_i hlater
    have hlt : h.lastTs.toInt < ts.toInt := Int64.lt_iff_toInt_lt.mp hlater
    refine ⟨le_of_lt ?_, le_refl _, rfl, .inr ⟨rfl, rfl⟩⟩
    exact Prod.Lex.toLex_lt_toLex.mpr (.inl hlt)
  · rename_i hnotLater
    have hle : ts.toInt ≤ h.lastTs.toInt := Int64.le_iff_toInt_le.mp (Int64.not_lt.mp hnotLater)
    split
    · rename_i hsame
      obtain ⟨rfl, hc⟩ := hsame
      have hlt : h.counter.toNat < c.toNat := UInt64.lt_iff_toNat_lt.mp hc
      refine ⟨le_of_lt ?_, le_refl _, rfl, .inr ⟨rfl, rfl⟩⟩
      exact Prod.Lex.toLex_lt_toLex.mpr (.inr ⟨rfl, hlt⟩)
    · -- The own pair is at least as large.
      rename_i hnotAhead
      refine ⟨le_refl _, ?_, rfl, .inl ⟨rfl, rfl⟩⟩
      rw [HLC.stamp, Prod.Lex.toLex_le_toLex]
      rcases lt_or_eq_of_le hle with hlt | heq
      · exact .inl hlt
      · refine .inr ⟨heq, ?_⟩
        have hnot : ¬ c > h.counter := fun hc => hnotAhead ⟨Int64.toInt_inj.mp heq, hc⟩
        exact UInt64.le_iff_toNat_le.mp (UInt64.not_lt.mp hnot)

/-! ### Runs -/

/-- The clocks, the log of the calls made, and the string each call of `Now` returned. -/
structure Clocks (ι : Type) where
  clock : ι → HLC
  log : List (Event ι (ℤ ×ₗ ℕ)) := []
  sent : List (Option GoString) := []

namespace Clocks

/-- `Now` at a reading of the wall clock, or `Update` with the string returned by the call
    at a position of the log. -/
inductive Action (ι : Type) where
  | now (i : ι) (wall : Int64)
  | update (i : ι) (source : Nat)

variable {ι : Type} [DecidableEq ι]

def start (ids : ι → GoString) : Clocks ι where
  clock i := newHLC (ids i)

def step (s : Clocks ι) : Action ι → Option (Clocks ι)
  | .now i wall =>
    match (s.clock i).now wall with
    | .error _ => none
    | .ok (h, str) => some
      { clock := update s.clock i h
        log := s.log ++ [⟨i, none, h.stamp⟩]
        sent := s.sent ++ [some str] }
  | .update i source =>
    match s.sent[source]? with
    | some (some str) => some
      { clock := update s.clock i ((s.clock i).update str)
        log := s.log ++ [⟨i, some source, ((s.clock i).update str).stamp⟩]
        sent := s.sent ++ [none] }
    | _ => none

/-- What holds after each step. -/
structure Ordered (ids : ι → GoString) (s : Clocks ι) : Prop where
  consistent : Consistent s.log fun i => (s.clock i).stamp
  length_sent : s.sent.length = s.log.length
  nodeID : ∀ i, (s.clock i).nodeID = ids i
  nonneg : ∀ i, 0 ≤ (s.clock i).lastTs
  counter_le : ∀ i, (s.clock i).counter.toNat ≤ s.log.length
  /-- A string stands for the stamp of the call that returned it. -/
  message : ∀ {a : Nat} {str : GoString}, s.sent[a]? = some (some str) →
    ∃ (ts : Int64) (c : UInt64) (e : Event ι (ℤ ×ₗ ℕ)), parseHLC str = some (ts, c) ∧
      s.log[a]? = some e ∧ e.stamp = toLex (ts.toInt, c.toNat) ∧ 0 ≤ ts ∧
      c.toNat ≤ s.log.length

omit [DecidableEq ι] in
theorem ordered_start (ids : ι → GoString) : Ordered ids (start ids) where
  consistent := consistent_nil _
  length_sent := rfl
  nodeID _ := rfl
  nonneg _ := Int64.le_refl _
  counter_le _ := Nat.le_refl _
  message h := nomatch h

variable {ids : ι → GoString} {s t : Clocks ι} {a : Action ι}

/-- One more call: clock `i` goes on to `h`, and the string returned, if there is one, says
    so. -/
theorem Ordered.append (hs : Ordered ids s) {i : ι} {h : HLC} {source : Option Nat}
    {str : Option GoString} (hid : h.nodeID = ids i) (hts : 0 ≤ h.lastTs)
    (hc : h.counter.toNat ≤ s.log.length + 1) (hle : (s.clock i).stamp ≤ h.stamp)
    (hlt : source = none → (s.clock i).stamp < h.stamp)
    (hreceived : ∀ a, source = some a → ∃ f, s.log[a]? = some f ∧ f.stamp ≤ h.stamp)
    (hstr : ∀ x, str = some x → parseHLC x = some (h.lastTs, h.counter)) :
    Ordered ids
      { clock := update s.clock i h
        log := s.log ++ [⟨i, source, h.stamp⟩]
        sent := s.sent ++ [str] } := by
  constructor
  · have hreadings : (fun j => (update s.clock i h j).stamp) =
        update (fun j => (s.clock j).stamp) i h.stamp := by
      funext j
      exact apply_update (fun _ clock => HLC.stamp clock) s.clock i h j
    show Consistent _ fun j => (update s.clock i h j).stamp
    rw [hreadings]
    exact hs.consistent.append hle hlt hreceived
  · simp [hs.length_sent]
  · exact Interleave.forall_phase_update (J := fun j (clock : HLC) => clock.nodeID = ids j) rfl
      hs.nodeID hid
  · exact Interleave.forall_phase_update (J := fun _ (clock : HLC) => 0 ≤ clock.lastTs) rfl
      hs.nonneg hts
  · rw [List.length_append, List.length_singleton]
    exact Interleave.forall_phase_update
      (J := fun _ (clock : HLC) => clock.counter.toNat ≤ s.log.length + 1) rfl
      (fun j => Nat.le_succ_of_le (hs.counter_le j)) hc
  · intro a x hx
    rw [List.length_append, List.length_singleton]
    obtain hold | ⟨ha, hlast⟩ := getElem?_snoc hx
    · obtain ⟨ts, c, e, hparse, he, hstamp, hnonneg, hcount⟩ := hs.message hold
      exact ⟨ts, c, e, hparse, getElem?_append_of_some _ he, hstamp, hnonneg,
        Nat.le_succ_of_le hcount⟩
    · -- The string is the one just returned, and its call is the last of the log.
      rw [ha, hs.length_sent]
      exact ⟨h.lastTs, h.counter, _, hstr x hlast.symm, List.getElem?_concat_length, rfl, hts, hc⟩

theorem Ordered.step (hids : ∀ i, colon ∉ ids i) (hs : Ordered ids s)
    (hshort : s.log.length + 1 < 2 ^ 63) (hstep : s.step a = some t) : Ordered ids t := by
  cases a with
  | now i wall =>
    -- The counter is at most the number of calls, so it neither wraps nor changes its sign.
    have hcounter := hs.counter_le i
    have htick := counter_tick_le (s.clock i) wall
    have hts := tick_nonneg (hs.nonneg i) wall
    obtain ⟨h, str, hnow, hlast, hctr, hid, hparse⟩ :=
      now_eq_ok wall (by rw [hs.nodeID]; exact hids i) hts (by omega)
    have hlt : (s.clock i).stamp < h.stamp := by
      have hticked := stamp_lt_stamp_tick (h := s.clock i) (by omega) wall
      rwa [HLC.stamp, HLC.stamp, ← hlast, ← hctr] at hticked
    simp only [Clocks.step, hnow] at hstep
    cases hstep
    refine hs.append (hid.trans (hs.nodeID i)) (hlast ▸ hts) ?_ (le_of_lt hlt) (fun _ => hlt)
      (fun a ha => nomatch ha) ?_
    · rw [hctr]
      omega
    · intro x hx
      cases hx
      rw [hlast, hctr]
      exact hparse
  | update i source =>
    simp only [Clocks.step] at hstep
    split at hstep <;> cases hstep
    rename_i str hsent
    obtain ⟨ts, c, e, hparse, he, hstamp, hnonneg, hcount⟩ := hs.message hsent
    -- The clock ends at its own pair or at the one received; both are within the bounds.
    obtain ⟨hown, hother, hid, hfields⟩ := update_cases (h := s.clock i) hparse
    have hkept : 0 ≤ ((s.clock i).update str).lastTs ∧
        ((s.clock i).update str).counter.toNat ≤ s.log.length := by
      obtain ⟨hlast, hctr⟩ | ⟨hlast, hctr⟩ := hfields
      · rw [hlast, hctr]
        exact ⟨hs.nonneg i, hs.counter_le i⟩
      · rw [hlast, hctr]
        exact ⟨hnonneg, hcount⟩
    refine hs.append (hid.trans (hs.nodeID i)) hkept.1 (Nat.le_succ_of_le hkept.2) hown
      (fun hnone => nomatch hnone) ?_ (fun x hx => nomatch hx)
    intro a ha
    cases ha
    exact ⟨e, he, hstamp ▸ hother⟩

theorem length_log_step (hstep : s.step a = some t) : t.log.length = s.log.length + 1 := by
  cases a with
  | now i wall =>
    simp only [Clocks.step] at hstep
    split at hstep <;> cases hstep
    simp
  | update i source =>
    simp only [Clocks.step] at hstep
    split at hstep <;> cases hstep
    simp

/-- Every call is in the log. -/
theorem length_log_of_runs {as : List (Action ι)} (hrun : Runs step s as t) :
    t.log.length = s.log.length + as.length := by
  induction hrun with
  | nil => rfl
  | cons _ hstep _ ih =>
    rw [ih, length_log_step hstep, List.length_cons]
    omega

theorem ordered_of_runs (hids : ∀ i, colon ∉ ids i) {as : List (Action ι)}
    (hrun : Runs step (start ids) as s) (hshort : as.length < 2 ^ 63) : Ordered ids s := by
  -- The log only grows, so a bound at the end is a bound all along.
  have hinv : s.log.length < 2 ^ 63 → Ordered ids s := by
    refine hrun.invariant (I := fun s => s.log.length < 2 ^ 63 → Ordered ids s) ?_
      fun _ => ordered_start ids
    intro s a t hs _ hstep hlength
    rw [length_log_step hstep] at hlength
    exact (hs (by omega)).step hids hlength hstep
  refine hinv ?_
  rw [length_log_of_runs hrun]
  simpa [start] using hshort

/-- **Causality.**  In every run of any number of clocks with colon-free node IDs, at any
    readings of the wall clock, in which `Update` is given strings that `Now` returned: the
    pair of a `Now` is above the pair of every `Now` that happened before it. -/
theorem stamp_lt_of_happensBefore (hids : ∀ i, colon ∉ ids i) {as : List (Action ι)}
    (hrun : Runs step (start ids) as s) (hshort : as.length < 2 ^ 63) {a b : Nat}
    (hab : HappensBefore s.log a b) {e f : Event ι (ℤ ×ₗ ℕ)} (ha : s.log[a]? = some e)
    (hb : s.log[b]? = some f) (hnow : f.source = none) :
    e.stamp < f.stamp :=
  (ordered_of_runs hids hrun hshort).consistent.stamp_lt hab ha hb hnow

/-- The second clock is told about a reading of the first and then takes one itself, with a
    wall clock that is behind. -/
theorem stamp_lt_after_message :
    ∃ s, Runs step (start fun i : Bool => if i then ascii "b" else ascii "a")
        [.now false 10, .update true 0, .now true 5] s ∧
      ∃ e f, s.log[0]? = some e ∧ s.log[2]? = some f ∧ e.stamp = toLex (10, 0) ∧
        f.stamp = toLex (10, 1) ∧ e.stamp < f.stamp := by
  have hids : ∀ i : Bool, colon ∉ (if i then ascii "b" else ascii "a") := by decide
  have hrun : Runs step (start fun i : Bool => if i then ascii "b" else ascii "a")
      [.now false 10, .update true 0, .now true 5] _ := runs_of_exec rfl
  refine ⟨_, hrun, _, _, rfl, rfl, rfl, rfl, ?_⟩
  exact stamp_lt_of_happensBefore hids hrun (by decide)
    (.trans (.message (b := 1) rfl rfl) (.program Nat.one_lt_two rfl rfl rfl)) rfl rfl rfl

end Clocks

end GridKV
