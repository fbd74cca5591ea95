import GridKV.Model.ReadRepair
import GridKV.Spec.LocalWrites
import GridKV.Spec.WriterOffers

/-!
# Read repair next to other writes

`Repair` picks the highest of the versions a read has seen and leaves it to a task to write
it; until the task runs, the key is written and gossip is applied.  Every one of these
steps offers one item to the register of the key (`entry_step`).  The repair offers the
value it was given, but through `writer.Set`, which stamps it with a new version: it wins
over everything stored in the meantime.
-/

namespace GridKV

open Go Run MemStorage List

/-! ### The item of the repair -/

namespace ReadRepair

theorem some_maxVersion (first : StoredItem) (rest : List StoredItem) :
    some (maxVersion first rest) =
      rest.foldl (Lww.put fun item => item.version.toInt) (some first) := by
  induction rest generalizing first with
  | nil => rfl
  | cons item rest ih =>
    simp only [maxVersion, foldl_cons, gt_iff_lt, Int64.lt_iff_toInt_lt] at ih ⊢
    rw [ih]
    congr 1
    exact (apply_ite some _ item first)

/-- The task writes one of the versions observed, and none of them is higher. -/
theorem isHighest_of_repair {limiter : RateLimiter} {now : Int64} {hasWriter accepts : Bool}
    {versions : List StoredItem} {item : StoredItem}
    (h : (repair limiter now hasWriter accepts versions).2 = some item) :
    item ∈ versions ∧ ∀ other ∈ versions, other.version ≤ item.version := by
  cases versions with
  | nil => exact nomatch h
  | cons first rest =>
    have hitem : some (maxVersion first rest) = some item := by
      unfold repair at h
      dsimp only at h
      split at h
      · cases h
      · by_cases haccepted : hasWriter ∧ accepts
        · rwa [if_pos haccepted] at h
        · rw [if_neg haccepted] at h
          cases h
    have hhighest := (Lww.isHighest_self (fun item : StoredItem => item.version.toInt)
      (some first)).foldl_put rest
    rw [← some_maxVersion, hitem] at hhighest
    obtain ⟨hmem, hmax⟩ := hhighest
    refine ⟨?_, fun other hother => Int64.le_iff_toInt_le.mpr (hmax other ?_)⟩
    · obtain hfirst | hrest := hmem
      · exact (Option.some.inj hfirst) ▸ mem_cons_self
      · exact mem_cons_of_mem _ hrest
    · obtain rfl | hrest := mem_cons.mp hother
      · exact .inl rfl
      · exact .inr hrest

end ReadRepair

/-! ### The interleavings -/

/-- A node with the repair task that waits for its turn, and the items stored under the
    key since the observation. -/
structure Repairing where
  node : Node
  task : Option StoredItem
  stored : List StoredItem := []

namespace Repairing

/-- The write methods and the application of one gossip operation, all for the key, and the
    run of the repair task. -/
inductive Action where
  | set (item : StoredItem) (reading : Int64) (visit : List GoString) (accepts : Nat → Bool)
  | delete (version reading : Int64) (accepts : Nat → Bool)
  | batchSet (item : StoredItem) (reading : Int64) (accepts : Nat → Bool)
  | apply (now : Time) (item : StoredItem)
  | repair (reading : Int64) (visit : List GoString) (accepts : Nat → Bool)

variable (cfg : NodeConfig) (key : GoString)

/-- The item an action offers to the store. -/
def offered (s : Repairing) : Action → Option StoredItem
  | .set item reading _ _ => s.node.setItem cfg key item reading
  | .delete version reading _ => Node.deleteItem cfg key version reading
  | .batchSet item reading _ => Node.batchItem cfg key item reading
  | .apply _ item => if cfg.isReplica key then some item else none
  | .repair reading _ _ => s.task.bind fun item => s.node.setItem cfg key item reading

def step (s : Repairing) (a : Action) : Option Repairing :=
  let stored := (s.offered cfg key a).toList ++ s.stored
  match a with
  | .set item reading visit accepts =>
    some { s with node := (s.node.set cfg key item reading visit accepts).1, stored }
  | .delete version reading accepts =>
    some { s with node := (s.node.delete cfg key version reading accepts).1, stored }
  | .batchSet item reading accepts =>
    some { s with node := s.node.batchSet cfg [(key, item)] reading accepts, stored }
  | .apply now item =>
    some { s with node.store := (Gossip.applyOp cfg now s.node.store key item).1, stored }
  | .repair reading visit accepts =>
    -- What the repair stores is not counted: it has no business to be new.
    match s.task with
    | none => none
    | some item =>
      some { s with node := (s.node.set cfg key item reading visit accepts).1, task := none }

/-- The action neither finds an expired entry nor meets the memory limit. -/
def Calm (s : Repairing) (a : Action) : Prop :=
  ∀ item, s.offered cfg key a = some item →
    match a with
    | .apply now _ => Gossip.Calm cfg now s.node.store key item
    | _ => RoomFor cfg.store s.node.store key item

variable {cfg key} {s t u : Repairing} {a : Action}

/-- Every action offers its item to the register of the key. -/
theorem entry_step (hkey : key ≠ []) (hcalm : s.Calm cfg key a)
    (hstep : s.step cfg key a = some t) :
    entry cfg.store t.node.store key =
      Node.afterOffer cfg (entry cfg.store s.node.store key) (s.offered cfg key a) := by
  cases a with
  | set item reading visit accepts =>
    cases hstep
    exact Node.entry_set_of_room hkey hcalm
  | delete version reading accepts =>
    cases hstep
    exact Node.entry_delete_of_room hkey hcalm
  | batchSet item reading accepts =>
    cases hstep
    exact (Node.entry_batchSetEntry_of_room hkey hcalm).trans (if_pos rfl)
  | apply now item =>
    cases hstep
    simp only [Calm, offered] at hcalm ⊢
    by_cases hreplica : cfg.isReplica key
    · simp only [if_pos hreplica, Node.afterOffer] at hcalm ⊢
      rw [Gossip.entry_applyOp_of_calm hreplica hkey (hcalm _ rfl), if_pos rfl]
    · simp only [if_neg hreplica, Node.afterOffer]
      rw [Gossip.applyOp_of_not_isReplica hreplica]
  | repair reading visit accepts =>
    simp only [step] at hstep
    split at hstep <;> cases hstep
    rename_i item htask
    simp only [Calm, offered, htask, Option.bind_some] at hcalm ⊢
    exact Node.entry_set_of_room hkey hcalm

/-- A step is the run of the task, or it leaves the task and counts its item as stored. -/
theorem step_cases (hstep : s.step cfg key a = some t) :
    (∃ item reading visit accepts, a = .repair reading visit accepts ∧ s.task = some item ∧
      t.task = none ∧ t.stored = s.stored) ∨
    (t.task = s.task ∧ t.stored = (s.offered cfg key a).toList ++ s.stored) := by
  cases a with
  | repair reading visit accepts =>
    simp only [step] at hstep
    split at hstep <;> cases hstep
    rename_i item htask
    exact .inl ⟨item, reading, visit, accepts, rfl, htask, rfl, rfl⟩
  | _ =>
    cases hstep
    exact .inr ⟨rfl, rfl⟩

/-! ### What the store holds -/

/-- The entries that count: what the store held at the observation, the versions observed
    and the items stored since. -/
def Candidate (cfg : NodeConfig) (key : GoString) (start : Node) (versions stored : List StoredItem)
    (e : CompressedItem) : Prop :=
  entry cfg.store start.store key = some e ∨
    ∃ item ∈ versions ++ stored, e = prepareCompressedItem cfg.store item

/-- The store holds the highest of them. -/
def HoldsHighest (cfg : NodeConfig) (key : GoString) (start : Node) (versions : List StoredItem)
    (s : Repairing) : Prop :=
  Lww.IsHighest versionOf (Candidate cfg key start versions s.stored)
    (entry cfg.store s.node.store key)

variable {start : Node} {versions : List StoredItem} {item : StoredItem}

theorem candidate_of_mem {stored : List StoredItem} (hmem : item ∈ versions) :
    Candidate cfg key start versions stored (prepareCompressedItem cfg.store item) :=
  .inr ⟨item, mem_append_left _ hmem, rfl⟩

theorem holdsHighest_start (cfg : NodeConfig) (key : GoString) (start : Node)
    (task : Option StoredItem) :
    HoldsHighest cfg key start [] { node := start, task } :=
  (Lww.isHighest_self versionOf _).congr fun e => by simp [Candidate]

/-- The steps other than the repair keep this up. -/
theorem HoldsHighest.step (hkey : key ≠ []) (h : HoldsHighest cfg key start versions s)
    (hcalm : s.Calm cfg key a) (hstep : s.step cfg key a = some t)
    (hstored : t.stored = (s.offered cfg key a).toList ++ s.stored) :
    HoldsHighest cfg key start versions t := by
  unfold HoldsHighest
  rw [entry_step hkey hcalm hstep, hstored]
  cases s.offered cfg key a with
  | none => exact h
  | some item =>
    refine (Lww.IsHighest.put h _).congr fun e => ?_
    simp only [Candidate, Option.toList_some, mem_append, mem_singleton]
    constructor
    · rintro ((hheld | ⟨x, hx, rfl⟩) | rfl)
      · exact .inl hheld
      · exact .inr ⟨x, hx.imp_right .inr, rfl⟩
      · exact .inr ⟨item, .inr (.inl rfl), rfl⟩
    · rintro (hheld | ⟨x, hobserved | rfl | hold, rfl⟩)
      · exact .inl (.inl hheld)
      · exact .inl (.inr ⟨x, .inl hobserved, rfl⟩)
      · exact .inr rfl
      · exact .inl (.inr ⟨x, .inr hold, rfl⟩)

/-- Until the task runs, the store holds the highest of what it was offered. -/
theorem holdsHighest_before (hkey : key ≠ []) {before : List Action}
    (hrun : GuardedRun (step cfg key) (Calm cfg key) { node := start, task := some item } before
      s) :
    (s.task = some item ∧ HoldsHighest cfg key start [] s) ∨ s.task = none := by
  refine hrun.invariant (I := fun s =>
    (s.task = some item ∧ HoldsHighest cfg key start [] s) ∨ s.task = none) ?_
    (.inl ⟨rfl, holdsHighest_start cfg key start _⟩)
  intro s a t hs hcalm hstep
  obtain ⟨_, _, _, _, -, -, hnone, -⟩ | ⟨htask, hstored⟩ := step_cases hstep
  · exact .inr hnone
  · obtain ⟨hpending, hheld⟩ | hdone := hs
    · exact .inl ⟨htask.trans hpending, hheld.step hkey hcalm hstep hstored⟩
    · exact .inr (htask.trans hdone)

/-- Once the task has run, what it has left is kept up by the other steps. -/
theorem holdsHighest_after (hkey : key ≠ []) {after : List Action} (hdone : s.task = none)
    (h : HoldsHighest cfg key start versions s)
    (hrun : GuardedRun (step cfg key) (Calm cfg key) s after t) :
    HoldsHighest cfg key start versions t := by
  refine (hrun.invariant (I := fun s => s.task = none ∧ HoldsHighest cfg key start versions s) ?_
    ⟨hdone, h⟩).2
  -- There is no second task, so only the other steps are left.
  intro s a t ⟨hdone, hs⟩ hcalm hstep
  obtain ⟨_, _, _, _, -, hpending, -, -⟩ | ⟨htask, hstored⟩ := step_cases hstep
  · rw [hdone] at hpending
    exact nomatch hpending
  · exact ⟨htask.trans hdone, hs.step hkey hcalm hstep hstored⟩

/-- The repair changes nothing that it should not: the clock gives the item the version it
    has already, or the store refuses it and holds something as new as the item.  A key
    without replicas is not written at all. -/
def Harmless (cfg : NodeConfig) (key : GoString) (s : Repairing) (item : StoredItem)
    (reading : Int64) : Prop :=
  let held := entry cfg.store s.node.store key
  let version := s.node.writer.nextVersion key reading
  if cfg.replicas key = [] then Lww.Reached versionOf held item.version.toInt
  else
    version = item.version ∨
      (Lww.Reached versionOf held item.version.toInt ∧ Lww.Reached versionOf held version.toInt)

/-- Offering the highest of the observed versions is as good as offering all of them. -/
theorem isHighest_observed (hmem : item ∈ versions)
    (hmax : ∀ other ∈ versions, other.version ≤ item.version) {stored : List StoredItem}
    {r : Option CompressedItem}
    (h : Lww.IsHighest versionOf (Candidate cfg key start [] stored) r) :
    Lww.IsHighest versionOf (Candidate cfg key start versions stored)
      (Lww.put versionOf r (prepareCompressedItem cfg.store item)) := by
  have hoffer := h.put (prepareCompressedItem cfg.store item)
  refine Lww.isHighest_of_reached (fun e he => ?_) (fun e he => ?_)
  · rw [he] at hoffer
    obtain (hstart | ⟨x, hx, rfl⟩) | rfl := hoffer.1
    · exact .inl hstart
    · exact .inr ⟨x, mem_append_right _ hx, rfl⟩
    · exact candidate_of_mem hmem
  · obtain hstart | ⟨x, hx, rfl⟩ := he
    · exact hoffer.reached (.inl (.inl hstart))
    · obtain hobserved | hstored := mem_append.mp hx
      · exact (hoffer.reached (.inr rfl)).mono (Int64.le_iff_toInt_le.mp (hmax x hobserved))
      · exact hoffer.reached (.inl (.inr ⟨x, hstored, rfl⟩))

/-- A store that holds the highest of what it was offered holds the highest also among the
    observed versions, if and only if it has reached the highest of those. -/
theorem holdsHighest_iff_reached (hmem : item ∈ versions)
    (hmax : ∀ other ∈ versions, other.version ≤ item.version)
    (h : HoldsHighest cfg key start [] s) :
    HoldsHighest cfg key start versions s ↔
      Lww.Reached versionOf (entry cfg.store s.node.store key) item.version.toInt := by
  constructor
  · intro hall
    have hreached := hall.reached (candidate_of_mem hmem)
    exact hreached
  · intro hreached
    have hoffer := isHighest_observed hmem hmax h
    rwa [Lww.Reached.put_eq hreached] at hoffer

/-- The repair itself. -/
theorem holdsHighest_repair_iff (hkey : key ≠ []) (hmem : item ∈ versions)
    (hmax : ∀ other ∈ versions, other.version ≤ item.version) (htask : s.task = some item)
    (h : HoldsHighest cfg key start [] s) {reading : Int64} {visit : List GoString}
    {accepts : Nat → Bool} (hcalm : s.Calm cfg key (.repair reading visit accepts))
    (hstep : s.step cfg key (.repair reading visit accepts) = some t) :
    HoldsHighest cfg key start versions t ↔ Harmless cfg key s item reading := by
  have hentry := entry_step hkey hcalm hstep
  have hstored : t.stored = s.stored := by
    simp only [Repairing.step, htask] at hstep
    cases hstep
    rfl
  simp only [offered, htask, Option.bind_some, Node.setItem] at hentry
  unfold Harmless
  dsimp only
  by_cases hreplicas : cfg.replicas key = []
  · -- Nobody to write to: the store stays as it is.
    rw [if_pos hreplicas] at hentry ⊢
    rw [← holdsHighest_iff_reached hmem hmax h, HoldsHighest, HoldsHighest, hentry, hstored]
    rfl
  · rw [if_neg hreplicas] at hentry ⊢
    dsimp only [Node.afterOffer] at hentry
    by_cases hreached : Lww.Reached versionOf (entry cfg.store s.node.store key)
        (s.node.writer.nextVersion key reading).toInt
    · -- The store refuses the repair.
      have hput := hreached.put_eq (a := prepareCompressedItem cfg.store
        (Node.versionedItem key item (s.node.writer.nextVersion key reading)))
      rw [hput] at hentry
      have hsame :
          HoldsHighest cfg key start versions t ↔ HoldsHighest cfg key start versions s := by
        rw [HoldsHighest, HoldsHighest, hentry, hstored]
      rw [hsame, holdsHighest_iff_reached hmem hmax h]
      constructor
      · exact fun hitem => .inr ⟨hitem, hreached⟩
      · rintro (heq | ⟨hitem, -⟩)
        · rwa [← heq]
        · exact hitem
    · -- The store takes it: this is right only if the version is the item's own.
      have hput := Lww.put_of_not_reached (a := prepareCompressedItem cfg.store
        (Node.versionedItem key item (s.node.writer.nextVersion key reading))) hreached
      rw [hput] at hentry
      constructor
      · intro hall
        left
        unfold HoldsHighest at hall
        rw [hentry, hstored] at hall
        obtain ⟨hcandidate, hhighest⟩ := hall
        have hitem := hhighest _ (candidate_of_mem hmem)
        have hle : item.version ≤ s.node.writer.nextVersion key reading :=
          Int64.le_iff_toInt_le.mpr hitem
        -- What is held now must have been there already; it was not held before, so it is
        -- one of the observed versions, and the highest of them.
        obtain hstart | ⟨x, hx, heq⟩ := hcandidate
        · exact absurd (h.reached (.inl hstart)) hreached
        · have hversion : s.node.writer.nextVersion key reading = x.version :=
            congrArg CompressedItem.version heq
          obtain hobserved | hold := mem_append.mp hx
          · exact Int64.le_antisymm (hversion ▸ hmax x hobserved) hle
          · refine absurd (h.reached (.inr ⟨x, hold, rfl⟩)) ?_
            rw [← heq]
            exact hreached
      · rintro (heq | ⟨-, hother⟩)
        · unfold HoldsHighest
          rw [hentry, hstored, ← hput, heq]
          exact isHighest_observed hmem hmax h
        · exact absurd hother hreached

/-- **Read repair.**  For every list of observed versions and every interleaving of the
    repair task with writes and gossip for the key: in every state after the repair the
    store holds the highest among the observed versions, what it held and what was stored
    since, exactly when the repair was harmless in the state it ran in. -/
theorem holdsHighest_after_repair_iff (hkey : key ≠ []) {limiter : RateLimiter} {now : Int64}
    {hasWriter accepted : Bool}
    (hrepair : (ReadRepair.repair limiter now hasWriter accepted versions).2 = some item)
    {before : List Action}
    (hbefore : GuardedRun (step cfg key) (Calm cfg key) { node := start, task := some item }
      before s)
    {reading : Int64} {visit : List GoString} {accepts : Nat → Bool}
    (hcalm : s.Calm cfg key (.repair reading visit accepts))
    (hstep : s.step cfg key (.repair reading visit accepts) = some t) :
    (∀ after u, GuardedRun (step cfg key) (Calm cfg key) t after u →
      HoldsHighest cfg key start versions u) ↔ Harmless cfg key s item reading := by
  obtain ⟨hmem, hmax⟩ := ReadRepair.isHighest_of_repair hrepair
  have hdone : s.task ≠ none ∧ t.task = none := by
    obtain ⟨_, _, _, _, -, hpending, hnone, -⟩ | ⟨htask, -⟩ := step_cases hstep
    · exact ⟨by simp [hpending], hnone⟩
    · simp only [Repairing.step] at hstep
      split at hstep <;> cases hstep
      rename_i hpending
      exact ⟨by simp [hpending], rfl⟩
  obtain ⟨hpending, hheld⟩ := (holdsHighest_before hkey hbefore).resolve_right hdone.1
  rw [← holdsHighest_repair_iff hkey hmem hmax hpending hheld hcalm hstep]
  constructor
  · exact fun hall => hall [] t (.nil t)
  · exact fun hrepaired after u hafter => holdsHighest_after hkey hdone.2 hrepaired hafter

/-- Two versions of a key that a read has seen. -/
def observed : List StoredItem := [plainItem 1 "a", plainItem 2 "b"]

/-- The value `c` is written at 10, after the read; the repair that runs at 20 puts `b` in
    its place, as version 20. -/
theorem repair_replaces_newer_write :
    (ReadRepair.repair (ReadRepair.newLimiter 100 0) 0 true true observed).2 =
        some (plainItem 2 "b") ∧
      ∃ s, GuardedRun (step ClockedNode.solo (ascii "k")) (Calm ClockedNode.solo (ascii "k"))
          { node := {}, task := some (plainItem 2 "b") }
          [.set (plainItem 0 "c") 10 [] fun _ => true, .repair 20 [] fun _ => true] s ∧
        entry oneShard s.node.store (ascii "k") =
          some (prepareCompressedItem oneShard (plainItem 20 "b")) ∧
        ¬ HoldsHighest ClockedNode.solo (ascii "k") {} observed s := by
  refine ⟨by decide, _, .cons ?_ rfl (.cons ?_ rfl (.nil _)), by decide, ?_⟩
  · intro item hitem
    cases hitem
    exact HasMemory.roomFor (by unfold HasMemory; decide)
  · intro item hitem
    cases hitem
    exact HasMemory.roomFor (by unfold HasMemory; decide)
  · intro hhighest
    -- Version 20 was neither observed nor written.
    obtain ⟨hheld | ⟨item, hitem, heq⟩, -⟩ := hhighest
    · exact nomatch hheld
    · revert item
      decide

/-- The node after a newer version of the key has arrived from another one. -/
def afterNewerOp : Repairing where
  node.store := (Gossip.applyOp ClockedNode.solo 0 .empty (ascii "k") (plainItem 30 "c")).1
  task := some (plainItem 2 "b")
  stored := [plainItem 30 "c"]

/-- The store refuses the repair. -/
theorem repair_refused_after_newer_op :
    ∃ t, afterNewerOp.step ClockedNode.solo (ascii "k") (.repair 20 [] fun _ => true) = some t ∧
      entry oneShard t.node.store (ascii "k") =
        some (prepareCompressedItem oneShard (plainItem 30 "c")) ∧
      ∀ after u, GuardedRun (step ClockedNode.solo (ascii "k")) (Calm ClockedNode.solo (ascii "k"))
        t after u → HoldsHighest ClockedNode.solo (ascii "k") {} observed u := by
  have hrepair : (ReadRepair.repair (ReadRepair.newLimiter 100 0) 0 true true observed).2 =
      some (plainItem 2 "b") := by decide
  have hbefore : GuardedRun (step ClockedNode.solo (ascii "k")) (Calm ClockedNode.solo (ascii "k"))
      { node := {}, task := some (plainItem 2 "b") } [.apply 0 (plainItem 30 "c")]
      afterNewerOp := by
    refine .cons ?_ rfl (.nil _)
    intro item hitem
    cases hitem
    exact Gossip.calm_of_hasMemory (by unfold HasMemory; decide) (by unfold Unexpired; decide)
  refine ⟨_, rfl, by decide, ?_⟩
  refine (holdsHighest_after_repair_iff (by decide) hrepair hbefore ?_ rfl).mpr ?_
  · intro item hitem
    cases hitem
    exact HasMemory.roomFor (by unfold HasMemory; decide)
  · exact .inr ⟨⟨_, rfl, by decide⟩, ⟨_, rfl, by decide⟩⟩

end Repairing

end GridKV
