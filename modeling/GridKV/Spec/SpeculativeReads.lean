import GridKV.Spec.ConsistencyLevels

/-!
# Speculative reads

`GetSpeculative` waits for the answers of all live replicas, and its loop finds the highest
version among the answers it keeps (`gather_eq`).  It keeps the live ones only: a tombstone
is dropped before versions are compared, so a deletion that some replicas have seen does
not hide an older value that another replica still holds.
-/

namespace GridKV

open Go List

namespace ReadEnv

/-! ### The loop -/

/-- One more live item is an offer to a register. -/
theorem better_eq_put :
    better = Lww.put fun item : StoredItem => item.version.toInt := by
  funext best item
  cases best with
  | none => rfl
  | some b => simp only [better, Lww.put, gt_iff_lt, Int64.lt_iff_toInt_lt]

/-- Given enough rounds, the loop keeps the live answers and the best of them. -/
theorem gather_eq {count : Nat} {results : List (Option (Option StoredItem))}
    (hcount : results.length ≤ count) (items : List StoredItem) (best : Option StoredItem) :
    gather count results items best =
      (items ++ results.filterMap live,
        (results.filterMap live).foldl (Lww.put fun item => item.version.toInt) best) := by
  -- Induction on the answers still to come; what was gathered so far is the accumulator.
  induction results generalizing count items best with
  | nil => cases count <;> simp [gather]
  | cons res results ih =>
    cases count with
    | zero => exact absurd hcount (Nat.not_succ_le_zero _)
    | succ count =>
      have hrest : results.length ≤ count := Nat.le_of_succ_le_succ hcount
      have hskip : live res = none →
          gather count results items best =
            (items ++ (res :: results).filterMap live,
              ((res :: results).filterMap live).foldl
                (Lww.put fun item => item.version.toInt) best) := by
        intro hlive
        rw [ih hrest, filterMap_cons_none hlive]
      simp only [gather]
      split
      · rename_i item
        split
        · rename_i hitem
          have hlive : live (some (some item)) = some item := if_pos hitem
          rw [ih hrest, filterMap_cons_some hlive, better_eq_put, foldl_cons,
            append_assoc, singleton_append]
        · rename_i hitem
          exact hskip (if_neg hitem)
      · rename_i hnone
        apply hskip
        unfold live
        split
        · exact absurd rfl (hnone _)
        · rfl

/-! ### What is returned -/

/-- The live nodes among the replicas a speculative read asks. -/
def speculated (env : ReadEnv) (key : GoString) (n : Int) : List GoString :=
  (env.cfg.ring.getN key (if n ≤ 0 then 3 else n)).filter fun target =>
    env.alive target ∨ target = env.cfg.nodeID

/-- Each of these nodes holds an item for the key, a live value or a tombstone, and the
    answers of all of them arrive.  A node answers with its item, or for a tombstone with
    no item at all, as the `ReadRequest` handler does. -/
structure AllAnswer (env : ReadEnv) (held : GoString → StoredItem) (key : GoString) (n : Int) :
    Prop where
  accepted : submitted env.accepts (env.speculated key n) = env.speculated key n
  arrived : (env.order (env.speculated key n)).Perm (env.speculated key n)
  live_or_deleted : ∀ target ∈ env.speculated key n,
    (held target).value ≠ [] ∨ (held target).isTombstone
  answers : ∀ target ∈ env.speculated key n,
    env.answer key target = some (some (held target)) ∨
      ((held target).isTombstone ∧ env.answer key target = some none)

/-- The read returns the item of the highest version held, and nil if that is a tombstone or
    if nobody holds anything. -/
def ReturnsHighest (env : ReadEnv) (held : GoString → StoredItem) (key : GoString) (n : Int) :
    Prop :=
  ∃ top : Option StoredItem,
    Lww.IsHighest (fun item : StoredItem => item.version.toInt)
      (fun item => ∃ target ∈ env.speculated key n, held target = item) top ∧
    (env.getSpeculative key n).result = .ok (top.filter fun item => ¬ item.isTombstone)

/-- If any of the nodes holds a live value, then no tombstone is newer than all of them. -/
def NoNewerTombstone (env : ReadEnv) (held : GoString → StoredItem) (key : GoString) (n : Int) :
    Prop :=
  ∀ deleted ∈ env.speculated key n, (held deleted).isTombstone →
    (∃ target ∈ env.speculated key n, ¬ (held target).isTombstone) →
    ∃ target ∈ env.speculated key n, ¬ (held target).isTombstone ∧
      (held deleted).version ≤ (held target).version

variable {env : ReadEnv} {held : GoString → StoredItem} {key : GoString} {n : Int}

/-- The empty key is refused, so no item and no nil is returned. -/
theorem result_getSpeculative_nil (env : ReadEnv) (n : Int) (res : Option StoredItem) :
    (env.getSpeculative [] n).result ≠ .ok res := by
  simp [getSpeculative, MemStorage.get, MemStorage.getNoCopy, Except.map]

theorem result_getSpeculative (hkey : key ≠ [])
    (haccepted : submitted env.accepts (env.speculated key n) = env.speculated key n) :
    (env.getSpeculative key n).result =
      .ok ((((env.order (env.speculated key n)).map (env.answer key)).filterMap live).foldl
        (Lww.put fun item => item.version.toInt) none) := by
  have hnone : env.speculated key n = [] →
      ((((env.order (env.speculated key n)).map (env.answer key)).filterMap live).foldl
        (Lww.put fun item => item.version.toInt) none) = none := by
    intro hnil
    have horder := (env.order_subperm (env.speculated key n)).length_le
    rw [hnil, length_nil, Nat.le_zero, length_eq_zero_iff] at horder
    rw [hnil, horder]
    rfl
  simp only [getSpeculative, if_neg hkey]
  by_cases htargets : env.cfg.ring.getN key (if n ≤ 0 then 3 else n) = []
  · rw [if_pos htargets, hnone (by simp only [speculated, htargets, filter_nil])]
  · rw [if_neg htargets]
    change (if env.speculated key n = [] then _ else _ : ReadOutcome).result = _
    by_cases hnil : env.speculated key n = []
    · rw [if_pos hnil, hnone hnil]
    · rw [if_neg hnil]
      show Except.ok (gather (env.speculated key n).length
        ((env.order (submitted env.accepts (env.speculated key n))).map (env.answer key)) []
        none).2 = _
      rw [haccepted, gather_eq]
      rw [length_map]
      exact (env.order_subperm _).length_le

/-- The live answers are the live items held. -/
theorem mem_filterMap_live (h : env.AllAnswer held key n) {item : StoredItem} :
    item ∈ ((env.order (env.speculated key n)).map (env.answer key)).filterMap live ↔
      ∃ target ∈ env.speculated key n, ¬ (held target).isTombstone ∧ held target = item := by
  have hlive : ∀ target ∈ env.speculated key n, live (env.answer key target) =
      if (held target).isTombstone then none else some (held target) := by
    intro target htarget
    by_cases htomb : (held target).isTombstone
    · obtain hanswer | ⟨-, hanswer⟩ := h.answers target htarget
      all_goals simp [hanswer, live, htomb]
    · have hvalue : (held target).value ≠ [] :=
        (h.live_or_deleted target htarget).resolve_right htomb
      have hanswer := (h.answers target htarget).resolve_right fun hdeleted => htomb hdeleted.1
      simp [hanswer, live, htomb, length_pos_iff, hvalue]
  rw [filterMap_map, mem_filterMap]
  constructor
  · rintro ⟨target, horder, hitem⟩
    have htarget := h.arrived.mem_iff.mp horder
    rw [Function.comp_apply, hlive target htarget] at hitem
    split at hitem
    · exact nomatch hitem
    · rename_i htomb
      exact ⟨target, htarget, htomb, Option.some.inj hitem⟩
  · rintro ⟨target, htarget, htomb, rfl⟩
    refine ⟨target, h.arrived.mem_iff.mpr htarget, ?_⟩
    rw [Function.comp_apply, hlive target htarget, if_neg htomb]

/-- What is returned has the highest version among the live values held. -/
theorem exists_result_isHighest (hkey : key ≠ []) (h : env.AllAnswer held key n) :
    ∃ best, (env.getSpeculative key n).result = .ok best ∧
      Lww.IsHighest (fun item : StoredItem => item.version.toInt)
        (fun item => ∃ target ∈ env.speculated key n, ¬ (held target).isTombstone ∧
          held target = item) best := by
  refine ⟨_, result_getSpeculative hkey h.accepted, ?_⟩
  refine (Lww.isHighest_foldl_put _ none _).congr fun item => ?_
  rw [← mem_filterMap_live h]
  simp

/-- **Speculative reads.**  For all items held by the live replicas and every order in which
    their answers arrive, the read returns the highest version, or nil for a tombstone,
    exactly when the key is not empty and no tombstone is newer than all live values. -/
theorem returnsHighest_iff (h : env.AllAnswer held key n) :
    env.ReturnsHighest held key n ↔ key ≠ [] ∧ env.NoNewerTombstone held key n := by
  constructor
  · rintro ⟨top, htop, hresult⟩
    have hkey : key ≠ [] := by
      rintro rfl
      exact result_getSpeculative_nil env n _ hresult
    refine ⟨hkey, fun deleted hdeleted htomb hsome => ?_⟩
    obtain ⟨best, hbest, hhighest⟩ := exists_result_isHighest hkey h
    rw [hbest] at hresult
    cases hresult
    -- There is a live value, so something is returned, and it is the highest of all.
    cases top with
    | none =>
      obtain ⟨target, htarget, -⟩ := hsome
      exact absurd ⟨target, htarget, rfl⟩ (htop (held target))
    | some item =>
      by_cases hitem : item.isTombstone
      · obtain ⟨target, htarget, hlive⟩ := hsome
        simp only [Option.filter, hitem, not_true_eq_false, decide_false] at hhighest
        exact absurd ⟨target, htarget, hlive, rfl⟩ (hhighest (held target))
      · obtain ⟨⟨target, htarget, rfl⟩, hmax⟩ := htop
        exact ⟨target, htarget, hitem,
          Int64.le_iff_toInt_le.mpr (hmax (held deleted) ⟨deleted, hdeleted, rfl⟩)⟩
  · rintro ⟨hkey, hno⟩
    obtain ⟨best, hbest, hhighest⟩ := exists_result_isHighest hkey h
    cases best with
    | none =>
      -- Only tombstones are held; any one of the highest version will do.
      have htombs : ∀ target ∈ env.speculated key n, (held target).isTombstone := by
        intro target htarget
        by_contra hlive
        exact hhighest (held target) ⟨target, htarget, hlive, rfl⟩
      have htop := (Lww.isHighest_foldl_put (fun item : StoredItem => item.version.toInt) none
        ((env.speculated key n).map held)).congr
        (Q := fun item => ∃ target ∈ env.speculated key n, held target = item)
        fun item => by simp
      refine ⟨_, htop, ?_⟩
      rw [hbest]
      cases hcase : ((env.speculated key n).map held).foldl
          (Lww.put fun item : StoredItem => item.version.toInt) none with
      | none => rfl
      | some item =>
        rw [hcase] at htop
        obtain ⟨⟨target, htarget, rfl⟩, -⟩ := htop
        simp [Option.filter, htombs target htarget]
    | some best =>
      obtain ⟨⟨target, htarget, hlive, rfl⟩, hmax⟩ := hhighest
      refine ⟨some (held target), ⟨⟨target, htarget, rfl⟩, ?_⟩, ?_⟩
      · rintro item ⟨other, hother, rfl⟩
        by_cases hdeleted : (held other).isTombstone
        · obtain ⟨newer, hnewer, hnewerLive, hle⟩ :=
            hno other hother hdeleted ⟨target, htarget, hlive⟩
          exact le_trans (Int64.le_iff_toInt_le.mp hle)
            (hmax (held newer) ⟨newer, hnewer, hnewerLive, rfl⟩)
        · exact hmax (held other) ⟨other, hother, hdeleted, rfl⟩
      · rw [hbest]
        simp [Option.filter, hlive]

/-- The key was deleted, and the deletion has reached the first replica only. -/
def deletedAtOne (target : GoString) : StoredItem :=
  if target = ascii "n1" then plainItem 2 "" else plainItem 1 "a"

/-- The three replicas with these items. -/
def halfDeleted : ReadEnv :=
  { threeReplicas with fetch := fun target => some (some (deletedAtOne target)) }

theorem allAnswer_halfDeleted : halfDeleted.AllAnswer deletedAtOne (ascii "k") 3 where
  accepted := by decide
  arrived := by decide
  live_or_deleted := by decide
  answers := by decide

/-- The read returns the value that was deleted. -/
theorem deleted_value_returned :
    halfDeleted.AllAnswer deletedAtOne (ascii "k") 3 ∧
      (halfDeleted.getSpeculative (ascii "k") 3).result = .ok (some (plainItem 1 "a")) ∧
      ¬ halfDeleted.ReturnsHighest deletedAtOne (ascii "k") 3 := by
  have hresult :
      (halfDeleted.getSpeculative (ascii "k") 3).result = .ok (some (plainItem 1 "a")) := rfl
  refine ⟨allAnswer_halfDeleted, hresult, ?_⟩
  rintro ⟨top, htop, hreturned⟩
  rw [hresult] at hreturned
  obtain ⟨rfl, -⟩ := Option.filter_eq_some_iff.mp (Except.ok.inj hreturned).symm
  have hle := htop.2 (plainItem 2 "") ⟨ascii "n1", by decide, by decide⟩
  exact absurd hle (by decide)

/-- With three values and no deletion the read returns the newest. -/
theorem newest_value_returned :
    threeReplicas.ReturnsHighest
      (fun target => ((threeReplicas.fetch target).getD none).getD (plainItem 0 ""))
      (ascii "k") 3 := by
  refine (returnsHighest_iff ⟨?_, ?_, ?_, ?_⟩).mpr ⟨?_, ?_⟩
  · decide
  · decide
  · decide
  · decide
  · decide
  · intro deleted hdeleted htomb
    revert deleted
    decide

end ReadEnv

end GridKV
