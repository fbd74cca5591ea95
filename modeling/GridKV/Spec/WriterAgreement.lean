import GridKV.Spec.ReadConvergence

/-!
# Do concurrent writers agree?

Two replicas of a key, each with its own hybrid clock, accept writes to the key and apply
each other's operations in any order and any number of times.  Each store is a
last-write-wins register, so both end up with a write of highest version.  That is one
write only if no version is used for two values, which the clocks do not ensure:
`hlcToInt64` leaves the node ID out of the version, so two clocks that read the same time
stamp the same version, and each store keeps the write it saw first.
-/

namespace GridKV

open Go Run MemStorage Function

/-- The two replicas. -/
inductive Replica where
  | a
  | b
  deriving DecidableEq, Repr

def Replica.other : Replica → Replica
  | .a => .b
  | .b => .a

/-- The replicas of the key `k`; each has its own configuration. -/
structure PairConfig where
  k : GoString
  node : Replica → NodeConfig
  replica : ∀ x, (node x).isReplica k

/-- The nodes with their clocks, the items written at each, and the items of the other
    node's operations that each has applied. -/
structure WriterPair where
  node : Replica → Node := fun _ => {}
  hlc : Replica → HLC
  written : List (Replica × StoredItem) := []
  applied : List (Replica × StoredItem) := []

namespace WriterPair

variable {x : Replica} {item : StoredItem}

/-- A `writer.Set` at wall-clock reading `wall` (`fallback` is the reading `hlcToInt64`
    takes when it cannot parse a timestamp), or the delivery of the operation the writer
    has queued for an item.  Delivery leaves the operation in the queue. -/
inductive Action where
  | set (x : Replica) (item : StoredItem) (wall fallback : Int64) (visit : List GoString)
      (accepts : Nat → Bool)
  | deliver (x : Replica) (item : StoredItem) (now : Time)

/-- `hlcToInt64(hlc.Now())` -/
def stamp (h : HLC) (wall fallback : Int64) : Exec (HLC × Int64) := do
  let (h, s) ← h.now wall
  return (h, hlcToInt64 fallback s)

variable (cfg : PairConfig)

/-- The item a write stores and queues for the other replicas
    (`Node.mem_pendingOps_set`). -/
def itemOf (p : WriterPair) (x : Replica) (item : StoredItem) (reading : Int64) : StoredItem :=
  Node.versionedItem cfg.k item ((p.node x).writer.nextVersion cfg.k reading)

def step (p : WriterPair) : Action → Option WriterPair
  | .set x item wall fallback visit accepts =>
    match stamp (p.hlc x) wall fallback with
    | .error _ => none
    | .ok (h, reading) =>
      let out := (p.node x).set (cfg.node x) cfg.k item reading visit accepts
      if out.2 = none then
        some { p with
          node := update p.node x out.1
          hlc := update p.hlc x h
          written := (x, itemOf cfg p x item reading) :: p.written }
      else none
  | .deliver x item now =>
    if (x.other, item) ∈ p.written then
      some { p with
        node := update p.node x { p.node x with
          store := (Gossip.applyOps (cfg.node x) (fun _ => now) 0 (p.node x).store
            [some { key := cfg.k, opType := .set, item := some item }]).1 }
        applied := (x, item) :: p.applied }
    else none

/-- The entry of the key at a node. -/
def held (p : WriterPair) (x : Replica) : Option CompressedItem :=
  entry (cfg.node x).store (p.node x).store cfg.k

/-- Nothing expires, is evicted or refused for lack of memory. -/
def Undisturbed (p : WriterPair) : Action → Prop
  | .set x item wall fallback _ _ =>
    ∀ h reading, stamp (p.hlc x) wall fallback = .ok (h, reading) →
      RoomFor (cfg.node x).store (p.node x).store cfg.k (itemOf cfg p x item reading)
  | .deliver x item now => Gossip.Calm (cfg.node x) now (p.node x).store cfg.k item

/-- A write does not use a version again, unless for the same value. -/
def OwnVersion (p : WriterPair) : Action → Prop
  | .set x item wall fallback _ _ =>
    ∀ h reading, stamp (p.hlc x) wall fallback = .ok (h, reading) →
      ∀ w ∈ p.written, w.2.version = (itemOf cfg p x item reading).version →
        w.2.value = item.value
  | .deliver .. => True

/-- Every write has been applied at the other replica. -/
def Delivered (p : WriterPair) : Prop :=
  ∀ w ∈ p.written, (w.1.other, w.2) ∈ p.applied

/-- Both stores hold a value, and it is the same, or neither does. -/
def SameValue (p : WriterPair) : Prop :=
  (held cfg p .a = none ∧ held cfg p .b = none) ∨
    ∃ e e' x, held cfg p .a = some e ∧ held cfg p .b = some e' ∧
      Holds (cfg.node .a).store.lz4 e x ∧ Holds (cfg.node .b).store.lz4 e' x

/-- The key is held under the same version. -/
def SameVersion (p : WriterPair) : Prop :=
  (held cfg p .a).map versionOf = (held cfg p .b).map versionOf

/-! ### Both stores as registers -/

/-- An item has been offered to the store of a node: it was written there, or it was
    applied. -/
def Offered (p : WriterPair) (x : Replica) (item : StoredItem) : Prop :=
  (x, item) ∈ p.written ∨ (x, item) ∈ p.applied

/-- What holds along a run that started at `start`. -/
structure Registered (start p : WriterPair) : Prop where
  held_after : ∀ x, Lww.HeldAfter versionOf (prepareCompressedItem (cfg.node x).store)
    (held cfg start x) (Offered p x) (held cfg p x)
  applied_written : ∀ {x item}, (x, item) ∈ p.applied → ∃ y, (y, item) ∈ p.written
  own_version : ∀ {x y item item'}, (x, item) ∈ p.written → (y, item') ∈ p.written →
    item.version = item'.version → item.value = item'.value
  placed : p.written ≠ [] → cfg.k ≠ []

variable {cfg} {start p q : WriterPair}

theorem registered_start (hwritten : start.written = []) (happlied : start.applied = []) :
    Registered cfg start start where
  held_after x := by
    refine (Lww.heldAfter_start _ _ _).congr fun item => ?_
    simp [Offered, hwritten, happlied]
  applied_written h := by simp [happlied] at h
  own_version h := by simp [hwritten] at h
  placed h := absurd hwritten h

/-- A step that offers an item to one of the stores. -/
theorem Registered.offer (h : Registered cfg start p) (hself : held cfg q x =
      Lww.put versionOf (held cfg p x) (prepareCompressedItem (cfg.node x).store item))
    (hother : ∀ y, y ≠ x → held cfg q y = held cfg p y)
    (hoffered : ∀ y item', Offered q y item' ↔ Offered p y item' ∨ (y = x ∧ item' = item))
    (y : Replica) :
    Lww.HeldAfter versionOf (prepareCompressedItem (cfg.node y).store) (held cfg start y)
      (Offered q y) (held cfg q y) := by
  by_cases hy : y = x
  · subst hy
    rw [hself]
    refine ((h.held_after y).put item).congr fun item' => ?_
    rw [hoffered]
    simp
  · rw [hother y hy]
    refine (h.held_after y).congr fun item' => ?_
    rw [hoffered]
    simp [hy]

theorem Registered.set (h : Registered cfg start p) {wall fallback : Int64} {visit : List GoString}
    {accepts : Nat → Bool} (hcalm : Undisturbed cfg p (.set x item wall fallback visit accepts))
    (hown : OwnVersion cfg p (.set x item wall fallback visit accepts))
    (hstep : p.step cfg (.set x item wall fallback visit accepts) = some q) :
    Registered cfg start q := by
  simp only [step] at hstep
  split at hstep
  · exact nomatch hstep
  · rename_i clock reading hstamp
    split at hstep <;> cases hstep
    rename_i hnil
    obtain ⟨-, hstore, hset⟩ := Node.store_set_of_nil hnil
    have hk : cfg.k ≠ [] := (set_snd_eq_none_iff.mp hset).1
    have hput := entry_set_of_roomFor hk (hcalm clock reading hstamp) cfg.k
    rw [if_pos rfl] at hput
    have hold := hown clock reading hstamp
    constructor
    · apply h.offer (x := x)
      · unfold held
        simp only [update_self]
        rw [hstore]
        exact hput
      · intro y hy
        unfold held
        simp only [update_of_ne hy]
      · intro y item'
        simp only [Offered, List.mem_cons, Prod.mk.injEq]
        tauto
    · intro y item' happlied
      obtain ⟨z, hz⟩ := h.applied_written happlied
      exact ⟨z, List.mem_cons_of_mem _ hz⟩
    · -- The version of the new write is not used for another value.
      intro y z item' item'' hy hz heq
      rw [List.mem_cons, Prod.mk.injEq] at hy hz
      obtain ⟨rfl, rfl⟩ | hy := hy
      · obtain ⟨rfl, rfl⟩ | hz := hz
        · rfl
        · exact (hold _ hz heq.symm).symm
      · obtain ⟨rfl, rfl⟩ | hz := hz
        · exact hold _ hy heq
        · exact h.own_version hy hz heq
    · exact fun _ => hk

theorem Registered.deliver (h : Registered cfg start p) {now : Time}
    (hcalm : Undisturbed cfg p (.deliver x item now))
    (hstep : p.step cfg (.deliver x item now) = some q) : Registered cfg start q := by
  simp only [step] at hstep
  split at hstep <;> cases hstep
  rename_i hmem
  have hk : cfg.k ≠ [] := h.placed (List.ne_nil_of_mem hmem)
  constructor
  · apply h.offer (x := x)
    · unfold held
      simp only [update_self]
      rw [Gossip.applyOps_singleton rfl,
        Gossip.entry_applyOp_of_calm (cfg.replica x) hk hcalm cfg.k, if_pos rfl]
    · intro z hz
      unfold held
      simp only [update_of_ne hz]
    · intro z item'
      simp only [Offered, List.mem_cons, Prod.mk.injEq]
      tauto
  · intro z item' happlied
    rw [List.mem_cons, Prod.mk.injEq] at happlied
    obtain ⟨rfl, rfl⟩ | happlied := happlied
    · exact ⟨_, hmem⟩
    · exact h.applied_written happlied
  · exact h.own_version
  · exact h.placed

theorem registered_of_run {as : List Action}
    (hrun : GuardedRun (step cfg) (fun p a => Undisturbed cfg p a ∧ OwnVersion cfg p a) start as p)
    (hwritten : start.written = []) (happlied : start.applied = []) :
    Registered cfg start p := by
  refine hrun.invariant (fun p a q h hguard hstep => ?_) (registered_start hwritten happlied)
  cases a with
  | set x item wall fallback visit accepts => exact h.set hguard.1 hguard.2 hstep
  | deliver x item now => exact h.deliver hguard.1 hstep

/-! ### Agreement -/

/-- Once everything is delivered, both stores have been offered the writes. -/
theorem Registered.offered_iff (h : Registered cfg start p) (hall : Delivered p) (x : Replica)
    (item : StoredItem) : Offered p x item ↔ ∃ y, (y, item) ∈ p.written := by
  constructor
  · intro hoffered
    obtain hwritten | happlied := hoffered
    · exact ⟨x, hwritten⟩
    · exact h.applied_written happlied
  · intro ⟨y, hy⟩
    have happlied := hall _ hy
    cases x <;> cases y
    · exact .inl hy
    · exact .inr happlied
    · exact .inr happlied
    · exact .inl hy

/-- **Concurrent writers.**  Two replicas that start with the same entry for the key hold
    the same value once each other's operations have been applied, if nothing expired or
    was evicted meanwhile and no write used the version of a write of another value. -/
theorem sameValue_of_run {as : List Action}
    (hrun : GuardedRun (step cfg) (fun p a => Undisturbed cfg p a ∧ OwnVersion cfg p a) start as p)
    (hwritten : start.written = []) (happlied : start.applied = [])
    (hvalue : SameValue cfg start) (hversion : SameVersion cfg start) (hall : Delivered p) :
    SameValue cfg p := by
  have hreg := registered_of_run hrun hwritten happlied
  have hafter : ∀ x, Lww.HeldAfter versionOf (prepareCompressedItem (cfg.node x).store)
      (held cfg start x) (fun item => ∃ y, (y, item) ∈ p.written) (held cfg p x) :=
    fun x => (hreg.held_after x).congr (hreg.offered_iff hall x)
  have hstart : ∀ v, Lww.Reached versionOf (held cfg start .a) v ↔
      Lww.Reached versionOf (held cfg start .b) v := by
    intro v
    obtain ⟨ha, hb⟩ | ⟨e, e', _, ha, hb, -⟩ := hvalue
    · rw [ha, hb]
    · unfold SameVersion at hversion
      rw [ha, hb] at hversion ⊢
      have heq : versionOf e = versionOf e' := Option.some.inj hversion
      simp [Lww.Reached, heq]
  obtain ⟨ha, hb⟩ | ⟨item, item', ⟨y, hy⟩, ⟨z, hz⟩, heq, ha, hb⟩ :=
    (hafter .a).agree (hafter .b) hstart fun _ => rfl
  · -- Neither store has taken any of the writes.
    unfold SameValue
    rw [ha, hb]
    exact hvalue
  · -- Both hold writes of one version, which are writes of one value.
    have hsame := hreg.own_version hy hz (Int64.toInt_inj.mp heq)
    refine .inr ⟨_, _, item.value, ha, hb, holds_prepareCompressedItem _ item, ?_⟩
    rw [hsame]
    exact holds_prepareCompressedItem _ item'

/-- The nodes n1 and n2 on a ring of two, with one shard each. -/
def twoReplicas : PairConfig where
  k := ascii "k"
  node
    | .a => { nodeID := ascii "n1", store := oneShard, ring := Cluster.pair.ring }
    | .b => { nodeID := ascii "n2", store := oneShard, ring := Cluster.pair.ring }
  replica x := by cases x <;> decide

/-- Both nodes new. -/
def newWriters : WriterPair where
  hlc
    | .a => newHLC (ascii "n1")
    | .b => newHLC (ascii "n2")

/-- The item the nodes store for a write of `x` at wall-clock reading `wall`. -/
def stampedItem (wall : Int64) (x : String) : StoredItem :=
  Node.versionedItem (ascii "k") (plainItem 0 x) (packVersion wall 0)

/-- A write of "a" at n1, then one of "b" at n2, delivered after both. -/
def crossing (wallA wallB : Int64) : List Action :=
  [.set .a (plainItem 0 "a") wallA 0 [] fun _ => true,
    .set .b (plainItem 0 "b") wallB 0 [] fun _ => true,
    .deliver .b (stampedItem wallA "a") 0, .deliver .a (stampedItem wallB "b") 0]

theorem sameValue_newWriters : SameValue twoReplicas newWriters := .inl ⟨rfl, rfl⟩

/-- One clock is ahead of the other. -/
theorem sameValue_crossing_apart :
    ∃ p, Runs (step twoReplicas) newWriters (crossing 1 2) p ∧ SameValue twoReplicas p := by
  have hrun : ∃ p, GuardedRun (step twoReplicas)
      (fun p a => Undisturbed twoReplicas p a ∧ OwnVersion twoReplicas p a) newWriters
      (crossing 1 2) p ∧ Delivered p := by
    refine ⟨_, .cons ⟨?_, ?_⟩ rfl (.cons ⟨?_, ?_⟩ rfl (.cons ⟨?_, trivial⟩ rfl
      (.cons ⟨?_, trivial⟩ rfl (.nil _)))), by unfold Delivered; decide⟩
    · intro h reading hstamp
      cases hstamp
      exact HasMemory.roomFor (by unfold HasMemory; decide)
    · intro h reading _ w hw
      exact nomatch hw
    · intro h reading hstamp
      cases hstamp
      exact HasMemory.roomFor (by unfold HasMemory; decide)
    · intro h reading hstamp
      cases hstamp
      decide
    all_goals exact Gossip.calm_of_hasMemory (by unfold HasMemory; decide) (by unfold Unexpired; decide)
  obtain ⟨p, hrun, hall⟩ := hrun
  exact ⟨p, hrun.runs,
    sameValue_of_run hrun rfl rfl sameValue_newWriters rfl hall⟩

/-- Both clocks read the same time, so both writes have the same version, and each node
    keeps its own. -/
theorem not_sameValue_crossing :
    ∃ p, Runs (step twoReplicas) newWriters (crossing 1 1) p ∧ Delivered p ∧
      SameValue twoReplicas newWriters ∧ ¬ SameValue twoReplicas p := by
  have hrun : ∃ p, Runs (step twoReplicas) newWriters (crossing 1 1) p ∧ Delivered p ∧
      held twoReplicas p .a = some ⟨65536, zeroTime, ascii "a", false, 1⟩ ∧
      held twoReplicas p .b = some ⟨65536, zeroTime, ascii "b", false, 1⟩ :=
    ⟨_, runs_of_exec rfl, by unfold Delivered; decide, by decide, by decide⟩
  obtain ⟨p, hrun, hall, ha, hb⟩ := hrun
  refine ⟨p, hrun, hall, sameValue_newWriters, fun hsame => ?_⟩
  obtain ⟨hnone, -⟩ | ⟨e, e', x, ha', hb', hx, hx'⟩ := hsame
  · exact nomatch hnone.symm.trans ha
  · cases ha.symm.trans ha'
    cases hb.symm.trans hb'
    have heq : ascii "a" = ascii "b" := Eq.trans hx.2 (Eq.symm hx'.2)
    exact absurd heq (by decide)

end WriterPair

end GridKV
