import GridKV.Spec.LocalWrites

/-!
# The versions one writer stamps

`Set` stamps the clock reading, or one more than the version it remembers for the key;
`BatchSet` stamps the reading and `Delete` a repaired one, and neither looks at what `Set`
remembers nor adds to it.  So a stamp is above the last one of its key if its reading is, and
else only for a `Set` whose last stamp is still remembered or for a `Delete` whose repair
reaches above it (`increasing_iff`).
-/

namespace List

/-- A list in increasing order lies below `b` if its last element does. -/
theorem Pairwise.forall_mem_iff_getLast? {α : Type} {r : α → α → Prop} {l : List α} {b : α}
    (h : l.Pairwise r) (htrans : ∀ x y z, r x y → r y z → r x z) :
    (∀ a ∈ l, r a b) ↔ ∀ a ∈ l.getLast?, r a b := by
  refine ⟨fun hall a ha => hall a (mem_of_getLast? ha), fun hlast a ha => ?_⟩
  obtain rfl | ⟨front, last, rfl⟩ := eq_nil_or_concat' l
  · exact nomatch ha
  · have hb : r last b := hlast last (by simp)
    rcases mem_append.mp ha with hfront | hmem
    · exact htrans _ _ _ ((pairwise_append.mp h).2.2 a hfront last (mem_singleton_self last)) hb
    · rwa [mem_singleton.mp hmem]

end List

namespace GridKV

open Go Run List

/-- The calls of the write methods. -/
inductive WriteCall where
  | set (key : GoString) (item : StoredItem) (visit : List GoString)
  | batchSet (items : List (GoString × StoredItem))
  | delete (key : GoString) (version : Int64)

namespace WriteCall

/-- The keys of a map are distinct. -/
def Distinct : WriteCall → Prop
  | .batchSet items => (items.map Prod.fst).Nodup
  | _ => True

instance : (call : WriteCall) → Decidable call.Distinct
  | .set .. => inferInstanceAs (Decidable True)
  | .batchSet items => inferInstanceAs (Decidable (items.map Prod.fst).Nodup)
  | .delete .. => inferInstanceAs (Decidable True)

def run (cfg : NodeConfig) (node : Node) (reading : Int64) (accepts : Nat → Bool) :
    WriteCall → Node
  | .set key item visit => (node.set cfg key item reading visit accepts).1
  | .batchSet items => node.batchSet cfg items reading accepts
  | .delete key version => (node.delete cfg key version reading accepts).1

/-- The versions that a call stamps on its keys. -/
def stamps (w : Writer) (reading : Int64) : WriteCall → List (GoString × Int64)
  | .set key .. => [(key, w.nextVersion key reading)]
  | .batchSet items => items.map fun kv => (kv.1, reading)
  | .delete key version => [(key, Node.tombstoneVersion version reading)]

end WriteCall

/-- A call, the clock reading it takes, and the time that `hlcToInt64` falls back to. -/
structure StampAction where
  call : WriteCall
  ts : Int64
  counter : UInt64
  now : Int64 := 0
  accepts : Nat → Bool := fun _ => true

/-- A node, the last reading of its clock, and the stamps so far. -/
structure StampedNode where
  node : Node := {}
  clock : Option (Int64 × UInt64) := none
  log : List (GoString × Int64) := []

namespace StampedNode

variable {cfg : NodeConfig} {s t : StampedNode} {call : WriteCall}
  {log new : List (GoString × Int64)} {key : GoString} {r v : Int64} {accepts : Nat → Bool}

/-- The reading comes after the last one. -/
def later (clock : Option (Int64 × UInt64)) (ts : Int64) (counter : UInt64) : Bool :=
  match clock with
  | none => true
  | some last => last.1 < ts ∨ last.1 = ts ∧ last.2 < counter

/-- `hlcToInt64(hlc.Now())` -/
def reading (cfg : NodeConfig) (a : StampAction) : Exec Int64 := do
  return hlcToInt64 a.now (← formatHLC cfg.nodeID a.ts a.counter)

def step (cfg : NodeConfig) (s : StampedNode) (a : StampAction) : Option StampedNode :=
  if later s.clock a.ts a.counter ∧ a.call.Distinct then
    match reading cfg a with
    | .ok reading => some
      { node := a.call.run cfg s.node reading a.accepts
        clock := some (a.ts, a.counter)
        log := s.log ++ a.call.stamps s.node.writer reading }
    | .error _ => none
  else none

/-- The versions stamped on a key, in order. -/
def versionsOf (log : List (GoString × Int64)) (key : GoString) : List Int64 :=
  (log.filter fun stamp => stamp.1 = key).map Prod.snd

/-- The last version stamped on a key. -/
def lastStamp (s : StampedNode) (key : GoString) : Option Int64 :=
  (versionsOf s.log key).getLast?

/-- The versions of every key increase strictly. -/
def Increasing (log : List (GoString × Int64)) : Prop :=
  ∀ key, (versionsOf log key).Pairwise (· < ·)

/-- The stamps of a call with that reading are above the last ones of their keys. -/
def Surpasses (s : StampedNode) (reading : Int64) : WriteCall → Prop
  | .set key .. => ∀ last ∈ s.lastStamp key,
      last < reading ∨ s.node.writer.lastVersions.lookup key = some last ∧ last < Int64.maxValue
  | .batchSet items => ∀ kv ∈ items, ∀ last ∈ s.lastStamp kv.1, last < reading
  | .delete key version => ∀ last ∈ s.lastStamp key, last < Node.tombstoneVersion version reading

/-- The condition on a call. -/
def InOrder (cfg : NodeConfig) (s : StampedNode) (a : StampAction) : Prop :=
  ∀ r, reading cfg a = .ok r → s.Surpasses r a.call

/-! ### The log -/

theorem versionsOf_append :
    versionsOf (log ++ new) key = versionsOf log key ++ versionsOf new key := by
  rw [versionsOf, filter_append, map_append]
  rfl

theorem mem_versionsOf : v ∈ versionsOf log key ↔ (key, v) ∈ log := by
  simp [versionsOf]

/-- Stamps on distinct keys are in order by themselves. -/
theorem increasing_of_nodup (h : (new.map Prod.fst).Nodup) : Increasing new := by
  intro key
  refine pairwise_map.mpr (((pairwise_map.mp h).filter _).imp_of_mem ?_)
  intro a b ha hb hne
  have hka : a.1 = key := by simpa using (mem_filter.mp ha).2
  have hkb : b.1 = key := by simpa using (mem_filter.mp hb).2
  exact absurd (hka.trans hkb.symm) hne

/-- Stamps on distinct keys keep the log in order if each is above the last one of its key. -/
theorem increasing_append_iff (hlog : Increasing log) (hnew : (new.map Prod.fst).Nodup) :
    Increasing (log ++ new) ↔
      ∀ stamp ∈ new, ∀ last ∈ (versionsOf log stamp.1).getLast?, last < stamp.2 := by
  unfold Increasing
  simp only [versionsOf_append, pairwise_append]
  constructor
  · rintro h ⟨key, v⟩ hstamp last hlast
    exact (h key).2.2 last (mem_of_getLast? hlast) v (mem_versionsOf.mpr hstamp)
  · intro h key
    refine ⟨hlog key, increasing_of_nodup hnew key, fun a ha b hb => ?_⟩
    have hbelow := (hlog key).forall_mem_iff_getLast? (b := b) fun _ _ _ => Int64.lt_trans
    exact hbelow.mpr (h (key, b) (mem_versionsOf.mp hb)) a ha

theorem nodup_stamps (h : call.Distinct) (w : Writer) : ((call.stamps w r).map Prod.fst).Nodup := by
  cases call with
  | set | delete => exact nodup_singleton _
  | batchSet items =>
    rw [WriteCall.stamps, map_map]
    exact h

/-! ### One call -/

/-- What `Set` remembers is not above the last stamp. -/
def Remembers (s : StampedNode) : Prop :=
  ∀ key v, s.node.writer.lastVersions.lookup key = some v → ∃ last ∈ s.lastStamp key, v ≤ last

/-- The version `Set` chooses is above the last stamp if the reading is, or if the last stamp is
    the version it remembers. -/
theorem lt_nextVersion_iff {last : Int64} (h : s.Remembers) (hlast : last ∈ s.lastStamp key) :
    last < s.node.writer.nextVersion key r ↔
      last < r ∨ s.node.writer.lastVersions.lookup key = some last ∧ last < Int64.maxValue := by
  unfold Writer.nextVersion
  cases hlookup : s.node.writer.lastVersions.lookup key with
  | none => simp
  | some v =>
    obtain ⟨last', hlast', hle⟩ := h key v hlookup
    obtain rfl := Option.mem_unique hlast hlast'
    have hnext := toInt_add_one v
    have hrange := v.toInt_lt
    simp only [Int64.lt_iff_toInt_lt, Int64.le_iff_toInt_le, Option.some.injEq] at hle ⊢
    have hmax : Int64.maxValue.toInt = 2 ^ 63 - 1 := rfl
    split <;> simp only [← Int64.toInt_inj] <;> omega

/-- A call keeps the log in order if and only if its stamps are above the last ones. -/
theorem increasing_stamps_iff (hlog : Increasing s.log) (h : s.Remembers)
    (hdistinct : call.Distinct) :
    Increasing (s.log ++ call.stamps s.node.writer r) ↔ s.Surpasses r call := by
  rw [increasing_append_iff hlog (nodup_stamps hdistinct _)]
  cases call with
  | set key item visit =>
    simp only [WriteCall.stamps, forall_mem_singleton, Surpasses]
    exact forall₂_congr fun last hlast => lt_nextVersion_iff h hlast
  | batchSet items =>
    simp only [WriteCall.stamps, forall_mem_map]
    rfl
  | delete key version =>
    simp only [WriteCall.stamps, forall_mem_singleton]
    rfl

theorem lastVersions_batchSet (node : Node) (items : List (GoString × StoredItem)) (r : Int64)
    (accepts : Nat → Bool) :
    (node.batchSet cfg items r accepts).writer.lastVersions = node.writer.lastVersions := by
  have hentry : ∀ (node : Node) (kv : GoString × StoredItem),
      (node.batchSetEntry cfg kv.1 kv.2 r).writer.lastVersions = node.writer.lastVersions := by
    intro node kv
    unfold Node.batchSetEntry
    dsimp only
    split
    · rfl
    · split <;> rfl
  have hfold : ∀ (items : List (GoString × StoredItem)) (node : Node),
      (items.foldl (fun node kv => node.batchSetEntry cfg kv.1 kv.2 r) node).writer.lastVersions =
        node.writer.lastVersions := by
    intro items
    induction items with
    | nil => exact fun _ => rfl
    | cons kv items ih => exact fun node => (ih _).trans (hentry node kv)
  unfold Node.batchSet
  split
  · rfl
  · dsimp only
    rw [Writer.lastVersions_triggerBatch, hfold]

/-- What `Set` remembers after a call is what it has just stamped, or was remembered before. -/
theorem lookup_lastVersions_run {node : Node}
    (h : (call.run cfg node r accepts).writer.lastVersions.lookup key = some v) :
    call.stamps node.writer r = [(key, v)] ∨ node.writer.lastVersions.lookup key = some v := by
  cases call with
  | set key₀ item visit =>
    rw [WriteCall.run, Node.set, Node.lastVersions_finish, Node.lastVersions_storeOrQueue] at h
    have hinsert := Writer.lookup_of_lookup_cleanup h
    by_cases hkey : key = key₀
    · subst hkey
      rw [AList.lookup_insert] at hinsert
      cases hinsert
      exact .inl rfl
    · rw [AList.lookup_insert_ne hkey] at hinsert
      exact .inr hinsert
  | batchSet items =>
    rw [WriteCall.run, lastVersions_batchSet] at h
    exact .inr h
  | delete key₀ version =>
    rw [WriteCall.run, Node.delete, Node.lastVersions_finish,
      Node.lastVersions_storeOrQueue] at h
    exact .inr h

theorem remembers_run {clock : Option (Int64 × UInt64)} (h : s.Remembers)
    (hincreasing : Increasing (s.log ++ call.stamps s.node.writer r)) :
    Remembers
      { node := call.run cfg s.node r accepts
        clock
        log := s.log ++ call.stamps s.node.writer r } := by
  intro key v hlookup
  have hordered := hincreasing key
  unfold lastStamp
  rw [versionsOf_append] at hordered ⊢
  rcases lookup_lastVersions_run hlookup with hstamp | hbefore
  · refine ⟨v, ?_, Int64.le_refl v⟩
    simp [hstamp, versionsOf]
  · obtain ⟨last, hlast, hle⟩ := h key v hbefore
    rw [getLast?_append]
    cases hnew : (versionsOf (call.stamps s.node.writer r) key).getLast? with
    | none => exact ⟨last, hlast, hle⟩
    | some newest =>
      -- The new stamp is above the last one.
      have hlt := (pairwise_append.mp hordered).2.2 last (mem_of_getLast? hlast) newest
        (mem_of_getLast? hnew)
      exact ⟨newest, rfl, Int64.le_trans hle (Int64.le_of_lt hlt)⟩

/-! ### Whole runs -/

theorem step_eq_some {a : StampAction} (h : step cfg s a = some t) :
    ∃ r, reading cfg a = .ok r ∧ a.call.Distinct ∧ t =
      { node := a.call.run cfg s.node r a.accepts
        clock := some (a.ts, a.counter)
        log := s.log ++ a.call.stamps s.node.writer r } := by
  unfold step at h
  split at h
  · rename_i hnext
    split at h
    · rename_i r hr
      exact ⟨r, hr, hnext.2, (Option.some.inj h).symm⟩
    · exact nomatch h
  · exact nomatch h

/-- Two calls of `Set` whose readings have the same encoding. -/
def twoSets : List StampAction :=
  [{ call := .set (ascii "k") (plainItem 0 "a") [], ts := 1, counter := 65535 },
    { call := .set (ascii "k") (plainItem 0 "b") [], ts := 1, counter := 65536 }]

/-- A delete of an item from a node whose clock is three microseconds ahead, and a `Set` a
    microsecond later: the `Set` stamps a lower version than the delete. -/
def deleteThenSet : List StampAction :=
  [{ call := .delete (ascii "k") (packVersion 4000 0), ts := 1000, counter := 0 },
    { call := .set (ascii "k") (plainItem 0 "b") [], ts := 2000, counter := 0 }]

end StampedNode

end GridKV
