import GridKV.Spec.LocalWrites
import GridKV.Spec.StoreLww

/-!
# Is applying gossip a join?

A batch of operations is applied in any order, with any repetitions, cut into any calls of
`applyOps`.  While nothing expires and memory is not an issue, each operation offers its
item to the register of its key, so what a key holds in the end is the item of highest
version among its old entry and the batch, and applying the batch again changes nothing.
One operation spoils this: `Set` refuses the empty key, and `applyOps` returns at the first
error, so whatever stands behind such an operation in its call is not applied.
-/

namespace GridKV

open Go MemStorage ClockedNode List

namespace Gossip

/-! ### Calls -/

/-- A call of `applyOps`. -/
structure ApplyCall where
  clock : Nat → Time
  ops : List (Option SyncOperation)

/-- One call after the other; the handlers of gossip messages drop the error. -/
def applyCalls (cfg : NodeConfig) : MemStorage → List ApplyCall → MemStorage
  | s, [] => s
  | s, call :: calls => applyCalls cfg (applyOps cfg call.clock 0 s call.ops).1 calls

/-- The operation, if it gets as far as the store, is applied calmly. -/
def CalmOp (cfg : NodeConfig) (now : Time) (s : MemStorage) : Option SyncOperation → Prop
  | none => True
  | some op => ∀ item, op.item = some item → cfg.isReplica op.key → op.key ≠ [] →
      Calm cfg now s op.key item

/-- Nothing expires, is evicted or refused for lack of memory while the operations are
    applied, up to the one that ends the call. -/
def CalmOps (cfg : NodeConfig) (clock : Nat → Time) : Nat → MemStorage →
    List (Option SyncOperation) → Prop
  | _, _, [] => True
  | n, s, op :: ops => CalmOp cfg (clock n) s op ∧
      ((applyOps cfg clock n s [op]).2 = none →
        CalmOps cfg clock (n + 1) (applyOps cfg clock n s [op]).1 ops)

def CalmCalls (cfg : NodeConfig) : MemStorage → List ApplyCall → Prop
  | _, [] => True
  | s, call :: calls => CalmOps cfg call.clock 0 s call.ops ∧
      CalmCalls cfg (applyOps cfg call.clock 0 s call.ops).1 calls

/-! ### The join -/

/-- What a key can hold: its old entry, or an item of the batch. -/
def Candidate (cfg : NodeConfig) (s : MemStorage) (batch : List (Option SyncOperation))
    (k : GoString) (e : CompressedItem) : Prop :=
  entry cfg.store s k = some e ∨ ∃ op item, some op ∈ batch ∧ op.key = k ∧ op.item = some item ∧
    e = prepareCompressedItem cfg.store item

/-- The join of a store and a batch, as a map from keys to entries. -/
structure IsJoin (cfg : NodeConfig) (s : MemStorage) (batch : List (Option SyncOperation))
    (join : GoString → Option CompressedItem) : Prop where
  replicated : ∀ k, cfg.isReplica k →
    Lww.IsHighest versionOf (Candidate cfg s batch k) (join k)
  other : ∀ k, ¬ cfg.isReplica k → join k = entry cfg.store s k

/-- However the batch is permuted, repeated and cut into calls, the store ends up as the
    join, and then the batch has nothing more to change or to pass on. -/
def AppliesAsJoin (cfg : NodeConfig) (s : MemStorage) (batch : List (Option SyncOperation)) :
    Prop :=
  ∃ join, IsJoin cfg s batch join ∧
    ∀ calls, (∀ op, op ∈ calls.flatMap ApplyCall.ops ↔ op ∈ batch) → CalmCalls cfg s calls →
      (∀ k, entry cfg.store (applyCalls cfg s calls) k = join k) ∧
      ∀ clock, CalmOps cfg clock 0 (applyCalls cfg s calls) batch →
        (∀ k, entry cfg.store (applyOps cfg clock 0 (applyCalls cfg s calls) batch).1 k =
          entry cfg.store (applyCalls cfg s calls) k) ∧
        ∀ i, buffer (applyOps cfg clock 0 (applyCalls cfg s calls) batch).1 i =
          buffer (applyCalls cfg s calls) i

/-- No version of a key stands for two items, in the batch or in the store. -/
structure DistinctVersions (cfg : NodeConfig) (s : MemStorage)
    (batch : List (Option SyncOperation)) : Prop where
  offered : ∀ {op op' item item'}, some op ∈ batch → some op' ∈ batch → op.key = op'.key →
    op.item = some item → op'.item = some item' → item.version = item'.version → item = item'
  stored : ∀ {op item e}, some op ∈ batch → op.item = some item →
    entry cfg.store s op.key = some e → e.version = item.version →
    e = prepareCompressedItem cfg.store item

/-- The operation reaches `Set`, which refuses it. -/
def refused (cfg : NodeConfig) (op : SyncOperation) : Bool :=
  op.key = [] ∧ op.item.isSome ∧ cfg.isReplica op.key

variable {cfg : NodeConfig} {clock : Nat → Time} {n : Nat} {s : MemStorage}
  {batch ops : List (Option SyncOperation)}

variable {now : Time} {calls : List ApplyCall} {op : Option SyncOperation} {key k : GoString}
  {item : StoredItem}

/-- Versions tell the candidates of a key apart. -/
theorem DistinctVersions.eq_of_version_eq (h : DistinctVersions cfg s batch) {a b : CompressedItem}
    (ha : Candidate cfg s batch k a) (hb : Candidate cfg s batch k b)
    (heq : versionOf a = versionOf b) : a = b := by
  have hversion : a.version = b.version := Int64.toInt_inj.mp heq
  obtain ha | ⟨op, item, hmem, hkey, hitem, rfl⟩ := ha
  · obtain hb | ⟨op, item, hmem, hkey, hitem, rfl⟩ := hb
    · exact Option.some.inj (ha.symm.trans hb)
    · exact h.stored hmem hitem (hkey ▸ ha) hversion
  · obtain hb | ⟨op', item', hmem', hkey', hitem', rfl⟩ := hb
    · exact (h.stored hmem hitem (hkey ▸ hb) hversion.symm).symm
    · rw [h.offered hmem hmem' (hkey.trans hkey'.symm) hitem hitem' hversion]

/-! ### Operations as offers -/

/-- What an operation offers to the register of a key. -/
def offer (cfg : NodeConfig) (k : GoString) (op : Option SyncOperation) : Option CompressedItem :=
  op.bind fun op =>
    if op.key = k ∧ cfg.isReplica k then op.item.map (prepareCompressedItem cfg.store) else none

theorem offer_eq_some_iff {e : CompressedItem} :
    offer cfg k op = some e ↔ cfg.isReplica k ∧ ∃ o item, op = some o ∧ o.key = k ∧
      o.item = some item ∧ e = prepareCompressedItem cfg.store item := by
  cases op with
  | none => simp [offer]
  | some o =>
    by_cases hk : o.key = k ∧ cfg.isReplica k
    · simp only [offer, Option.bind_some, if_pos hk, Option.map_eq_some_iff]
      constructor
      · rintro ⟨item, hitem, rfl⟩
        exact ⟨hk.2, o, item, rfl, hk.1, hitem, rfl⟩
      · rintro ⟨-, o', item, ho, -, hitem, rfl⟩
        cases ho
        exact ⟨item, hitem, rfl⟩
    · simp only [offer, Option.bind_some, if_neg hk]
      constructor
      · exact fun h => nomatch h
      · rintro ⟨hreplica, o', item, ho, hkey, -⟩
        cases ho
        exact absurd ⟨hkey, hreplica⟩ hk

theorem applyOp_snd_of_calm (hkey : key ≠ []) (hcalm : Calm cfg now s key item) :
    (applyOp cfg now s key item).2 = none := by
  by_cases hreplica : cfg.isReplica key
  · obtain ⟨existing, -, -, happ⟩ | ⟨hroom, happ⟩ := applyOp_cases hreplica hcalm
    · rw [happ]
    · rw [happ]
      exact set_snd_eq_none_iff.mpr ⟨hkey, hroom.1⟩
  · rw [applyOp_of_not_isReplica hreplica]

theorem refused_or_not (cfg : NodeConfig) (op : Option SyncOperation) :
    (∃ o, op = some o ∧ refused cfg o) ∨ ∀ o, op = some o → refused cfg o = false := by
  by_cases hend : ∃ o, op = some o ∧ refused cfg o
  · exact .inl hend
  · refine .inr fun o ho => ?_
    rw [← Bool.not_eq_true]
    exact fun hrefused => hend ⟨o, ho, hrefused⟩

/-- An operation that is stored and not refused has a key. -/
theorem key_ne_nil_of_not_refused {op : SyncOperation} (hrefused : refused cfg op = false)
    (hitem : op.item = some item) (hreplica : cfg.isReplica op.key) : op.key ≠ [] := by
  intro hkey
  simp [refused, hkey, hitem, hkey ▸ hreplica] at hrefused

/-- A calm operation that is not refused offers its item to the register of its key. -/
theorem applyOps_singleton_of_calm (hrefused : ∀ o, op = some o → refused cfg o = false)
    (hcalm : CalmOp cfg (clock n) s op) :
    (applyOps cfg clock n s [op]).2 = none ∧
      ∀ k, entry cfg.store (applyOps cfg clock n s [op]).1 k =
        ((offer cfg k op).toList).foldl (Lww.put versionOf) (entry cfg.store s k) := by
  cases op with
  | none => exact ⟨rfl, fun _ => rfl⟩
  | some o =>
    cases hitem : o.item with
    | none =>
      have hsame : applyOps cfg clock n s [some o] = (s, none) := by simp only [applyOps, hitem]
      rw [hsame]
      refine ⟨rfl, fun k => ?_⟩
      simp [offer, hitem]
    | some item =>
      rw [applyOps_singleton hitem]
      by_cases hreplica : cfg.isReplica o.key
      · have hkey := key_ne_nil_of_not_refused (hrefused o rfl) hitem hreplica
        have hcalm' := hcalm item hitem hreplica hkey
        refine ⟨applyOp_snd_of_calm hkey hcalm', fun k => ?_⟩
        rw [entry_applyOp_of_calm hreplica hkey hcalm' k]
        by_cases hk : k = o.key
        · subst hk
          simp [offer, hitem, hreplica]
        · simp [offer, hk, Ne.symm hk]
      · rw [applyOp_of_not_isReplica hreplica]
        refine ⟨rfl, fun k => ?_⟩
        have hskip : ¬ (o.key = k ∧ cfg.isReplica k = true) := fun h => hreplica (h.1 ▸ h.2)
        simp [offer, hskip]

theorem applyOps_of_calm (hrefused : ∀ o, some o ∈ ops → refused cfg o = false)
    (hcalm : CalmOps cfg clock n s ops) :
    (applyOps cfg clock n s ops).2 = none ∧
      ∀ k, entry cfg.store (applyOps cfg clock n s ops).1 k =
        (ops.filterMap (offer cfg k)).foldl (Lww.put versionOf) (entry cfg.store s k) := by
  induction ops generalizing n s with
  | nil => exact ⟨rfl, fun _ => rfl⟩
  | cons op ops ih =>
    obtain ⟨hfirst, hrest⟩ := hcalm
    have hhead : ∀ o, op = some o → refused cfg o = false :=
      fun o ho => hrefused o (ho ▸ mem_cons_self)
    obtain ⟨hnil, hentry⟩ := applyOps_singleton_of_calm hhead hfirst
    obtain ⟨hnil', hentry'⟩ :=
      ih (fun o ho => hrefused o (mem_cons_of_mem _ ho)) (hrest hnil)
    rw [applyOps_cons hnil]
    refine ⟨hnil', fun k => ?_⟩
    rw [hentry' k, hentry k]
    cases hoffer : offer cfg k op with
    | none => rw [filterMap_cons_none hoffer]; rfl
    | some e => rw [filterMap_cons_some hoffer]; rfl

/-- Any sequence of calls offers all its items, in order. -/
theorem entry_applyCalls_of_calm
    (hrefused : ∀ o, some o ∈ calls.flatMap ApplyCall.ops → refused cfg o = false)
    (hcalm : CalmCalls cfg s calls) (k : GoString) :
    entry cfg.store (applyCalls cfg s calls) k =
      ((calls.flatMap ApplyCall.ops).filterMap (offer cfg k)).foldl (Lww.put versionOf)
        (entry cfg.store s k) := by
  induction calls generalizing s with
  | nil => rfl
  | cons call calls ih =>
    rw [flatMap_cons] at hrefused ⊢
    have hfirst := applyOps_of_calm
      (fun o ho => hrefused o (mem_append_left _ ho)) hcalm.1
    rw [applyCalls, ih (fun o ho => hrefused o (mem_append_right _ ho)) hcalm.2,
      hfirst.2 k, filterMap_append, foldl_append]

/-- The offers to a replicated key are the candidates other than the old entry. -/
theorem candidate_iff_offered (hsame : ∀ op, op ∈ calls.flatMap ApplyCall.ops ↔ op ∈ batch)
    (hreplica : cfg.isReplica k) (e : CompressedItem) :
    (entry cfg.store s k = some e ∨ e ∈ (calls.flatMap ApplyCall.ops).filterMap (offer cfg k)) ↔
      Candidate cfg s batch k e := by
  refine or_congr Iff.rfl ?_
  rw [mem_filterMap]
  constructor
  · rintro ⟨op, hmem, hoffer⟩
    obtain ⟨-, o, item, rfl, hkey, hitem, rfl⟩ := offer_eq_some_iff.mp hoffer
    exact ⟨o, item, (hsame _).mp hmem, hkey, hitem, rfl⟩
  · rintro ⟨o, item, hmem, hkey, hitem, rfl⟩
    exact ⟨some o, (hsame _).mpr hmem,
      offer_eq_some_iff.mpr ⟨hreplica, o, item, rfl, hkey, hitem, rfl⟩⟩

theorem offers_eq_nil (hreplica : ¬ cfg.isReplica k) : ops.filterMap (offer cfg k) = [] := by
  rw [filterMap_eq_nil_iff]
  intro op _
  cases hoffer : offer cfg k op with
  | none => rfl
  | some e => exact absurd (offer_eq_some_iff.mp hoffer).1 hreplica

/-! ### Applying the batch once more -/

/-- The store holds, for every operation of the batch it would store, something as new. -/
def Caught (cfg : NodeConfig) (s : MemStorage) (ops : List (Option SyncOperation)) : Prop :=
  ∀ op item, some op ∈ ops → op.item = some item → cfg.isReplica op.key →
    Lww.Reached versionOf (entry cfg.store s op.key) item.version.toInt

theorem Caught.of_entry_eq {t : MemStorage} (h : Caught cfg s ops)
    (hentry : ∀ k, entry cfg.store t k = entry cfg.store s k) : Caught cfg t ops := by
  intro op item hmem hitem hreplica
  rw [hentry]
  exact h op item hmem hitem hreplica

theorem Caught.subset {ops' : List (Option SyncOperation)} (h : Caught cfg s ops)
    (hsub : ∀ op, op ∈ ops' → op ∈ ops) : Caught cfg s ops' :=
  fun op item hmem => h op item (hsub _ hmem)

/-- A `Set` of a version that is already there queues nothing. -/
theorem buffer_set_of_reached (hroom : RoomFor cfg.store s key item)
    (hreached : Lww.Reached versionOf (entry cfg.store s key) item.version.toInt) (i : Nat) :
    buffer (s.set cfg.store key (some item)).1 i = buffer s i := by
  have hnot : ¬ setStores cfg.store s key item := by
    obtain ⟨e, he, hle⟩ := hreached
    have hold : accepts cfg.store
        (s.makeRoom cfg.store key (prepareCompressedItem cfg.store item)).1 key item.version =
        false := by
      unfold accepts
      rw [hroom.2, he]
      exact decide_eq_false (Int64.not_lt.mpr (Int64.le_iff_toInt_le.mpr hle))
    simp [setStores, hold]
  exact (removes_set_of_not_setStores hnot).buffer_eq i

theorem buffer_applyOp_of_reached (hcalm : Calm cfg now s key item)
    (hreached : Lww.Reached versionOf (entry cfg.store s key) item.version.toInt) (i : Nat) :
    buffer (applyOp cfg now s key item).1 i = buffer s i := by
  have hread := (removes_getNoCopy cfg.store now s key).buffer_eq i
  by_cases hreplica : cfg.isReplica key
  · obtain ⟨existing, -, -, happ⟩ | ⟨hroom, happ⟩ := applyOp_cases hreplica hcalm
    · rw [happ]
      exact hread
    · rw [happ]
      have hentry := (getNoCopy_fst_of_unexpired hcalm.1).1 key
      exact (buffer_set_of_reached hroom (hentry ▸ hreached) i).trans hread
  · rw [applyOp_of_not_isReplica hreplica]

/-- An operation the store has caught up with queues nothing. -/
theorem buffer_applyOps_singleton (hrefused : ∀ o, op = some o → refused cfg o = false)
    (hcalm : CalmOp cfg (clock n) s op) (hcaught : Caught cfg s [op]) (i : Nat) :
    buffer (applyOps cfg clock n s [op]).1 i = buffer s i := by
  cases op with
  | none => rfl
  | some o =>
    cases hitem : o.item with
    | none => simp only [applyOps, hitem]
    | some item =>
      rw [applyOps_singleton hitem]
      by_cases hreplica : cfg.isReplica o.key
      · have hkey := key_ne_nil_of_not_refused (hrefused o rfl) hitem hreplica
        exact buffer_applyOp_of_reached (hcalm item hitem hreplica hkey)
          (hcaught o item mem_cons_self hitem hreplica) i
      · rw [applyOp_of_not_isReplica hreplica]

/-- An operation that is refused leaves the store as it is and ends its call. -/
theorem applyOps_of_refused {op : SyncOperation} (hrefused : refused cfg op)
    (ops : List (Option SyncOperation)) :
    applyOps cfg clock n s (some op :: ops) = (s, some .emptyKey) := by
  simp only [refused, Bool.decide_and, Bool.and_eq_true, decide_eq_true_eq,
    Option.isSome_iff_exists] at hrefused
  obtain ⟨hkey, ⟨item, hitem⟩, hreplica⟩ := hrefused
  have hread : s.getNoCopy cfg.store (clock n) op.key = (s, .error .emptyKey) := by
    rw [hkey]; rfl
  have hset : s.set cfg.store op.key (some item) = (s, some .emptyKey) := by
    rw [hkey]; rfl
  simp only [applyOps, hitem, applyOp, hreplica, if_true, hread, hset]

/-- Operations the store has caught up with change no entry and queue nothing. -/
theorem applyOps_of_caught (hcalm : CalmOps cfg clock n s ops) (hcaught : Caught cfg s ops) :
    (∀ k, entry cfg.store (applyOps cfg clock n s ops).1 k = entry cfg.store s k) ∧
      ∀ i, buffer (applyOps cfg clock n s ops).1 i = buffer s i := by
  induction ops generalizing n s with
  | nil => exact ⟨fun _ => rfl, fun _ => rfl⟩
  | cons op ops ih =>
    obtain ⟨hfirst, hrest⟩ := hcalm
    obtain ⟨o, rfl, hrefused⟩ | hhead := refused_or_not cfg op
    · rw [applyOps_of_refused hrefused]
      exact ⟨fun _ => rfl, fun _ => rfl⟩
    obtain ⟨hnil, hoffered⟩ := applyOps_singleton_of_calm hhead hfirst
    have hentry : ∀ k, entry cfg.store (applyOps cfg clock n s [op]).1 k =
        entry cfg.store s k := by
      intro k
      rw [hoffered k]
      cases hoffer : offer cfg k op with
      | none => rfl
      | some e =>
        obtain ⟨hreplica, o, item, rfl, rfl, hitem, rfl⟩ := offer_eq_some_iff.mp hoffer
        exact (hcaught o item mem_cons_self hitem hreplica).put_eq
    have hbuffer := buffer_applyOps_singleton hhead hfirst
      (hcaught.subset fun _ h => mem_singleton.mp h ▸ mem_cons_self)
    -- The rest of the batch finds the same entries.
    have hcaught' : Caught cfg (applyOps cfg clock n s [op]).1 ops :=
      (hcaught.subset fun _ h => mem_cons_of_mem _ h).of_entry_eq hentry
    obtain ⟨hentry', hbuffer'⟩ := ih (hrest hnil) hcaught'
    rw [applyOps_cons hnil]
    exact ⟨fun k => (hentry' k).trans (hentry k), fun i => (hbuffer' i).trans (hbuffer i)⟩

theorem entry_applyCalls_of_caught (hcalm : CalmCalls cfg s calls)
    (hcaught : Caught cfg s (calls.flatMap ApplyCall.ops)) (k : GoString) :
    entry cfg.store (applyCalls cfg s calls) k = entry cfg.store s k := by
  induction calls generalizing s with
  | nil => rfl
  | cons call calls ih =>
    rw [flatMap_cons] at hcaught
    have hfirst := (applyOps_of_caught hcalm.1
      (hcaught.subset fun _ h => mem_append_left _ h)).1
    have hrest := (hcaught.subset fun _ h => mem_append_right _ h).of_entry_eq hfirst
    rw [applyCalls, ih hcalm.2 hrest, hfirst]

/-! ### When applying is a join -/

theorem isJoin_foldl_put (cfg : NodeConfig) (s : MemStorage) (batch : List (Option SyncOperation)) :
    IsJoin cfg s batch fun k =>
      (batch.filterMap (offer cfg k)).foldl (Lww.put versionOf) (entry cfg.store s k) where
  replicated k hreplica := by
    refine (Lww.isHighest_foldl_put versionOf (entry cfg.store s k) _).congr fun e => ?_
    have hsame : ∀ op, op ∈ [ApplyCall.mk (fun _ => 0) batch].flatMap ApplyCall.ops ↔
        op ∈ batch := by simp
    simpa using candidate_iff_offered (s := s) hsame hreplica e
  other k hreplica := by rw [offers_eq_nil hreplica]; rfl

theorem appliesAsJoin_of_not_refused (hdistinct : DistinctVersions cfg s batch)
    (hrefused : ∀ op, some op ∈ batch → refused cfg op = false) : AppliesAsJoin cfg s batch := by
  refine ⟨_, isJoin_foldl_put cfg s batch, fun calls hsame hcalm => ?_⟩
  have hrefused' : ∀ o, some o ∈ calls.flatMap ApplyCall.ops → refused cfg o = false :=
    fun o ho => hrefused o ((hsame _).mp ho)
  have hentry := entry_applyCalls_of_calm hrefused' hcalm
  have hhighest : ∀ k, cfg.isReplica k → Lww.IsHighest versionOf (Candidate cfg s batch k)
      (entry cfg.store (applyCalls cfg s calls) k) := by
    intro k hreplica
    rw [hentry k]
    exact (Lww.isHighest_foldl_put versionOf _ _).congr (candidate_iff_offered hsame hreplica)
  refine ⟨fun k => ?_, fun clock hagain => applyOps_of_caught hagain ?_⟩
  · by_cases hreplica : cfg.isReplica k
    · exact (hhighest k hreplica).unique ((isJoin_foldl_put cfg s batch).replicated k hreplica)
        fun _ _ => hdistinct.eq_of_version_eq
    · rw [hentry k, offers_eq_nil hreplica, offers_eq_nil hreplica]
  · intro op item hmem hitem hreplica
    exact (hhighest op.key hreplica).reached
      (a := prepareCompressedItem cfg.store item) (.inr ⟨op, item, hmem, rfl, hitem, rfl⟩)

theorem appliesAsJoin_of_caught (hcaught : Caught cfg s batch) : AppliesAsJoin cfg s batch := by
  refine ⟨entry cfg.store s, ⟨fun k hreplica => ?_, fun _ _ => rfl⟩, fun calls hsame hcalm => ?_⟩
  · -- Every candidate from the batch is at most what the key holds.
    apply Lww.isHighest_of_reached
    · exact fun e he => .inl he
    · rintro e (he | ⟨op, item, hmem, rfl, hitem, rfl⟩)
      · exact ⟨e, he, le_refl _⟩
      · exact hcaught op item hmem hitem hreplica
  · have hentry := entry_applyCalls_of_caught hcalm (hcaught.subset fun op => (hsame op).mp)
    exact ⟨hentry, fun clock hagain =>
      applyOps_of_caught hagain (hcaught.of_entry_eq hentry)⟩

/-- **When applying gossip is a join.**  For a batch whose versions tell its items apart:
    exactly when no operation of the batch has an item and the empty key (or the node does
    not replicate the empty key), or the store has nothing to take from the batch. -/
theorem appliesAsJoin_iff (hdistinct : DistinctVersions cfg s batch) :
    AppliesAsJoin cfg s batch ↔
      (∀ op, some op ∈ batch → refused cfg op = false) ∨ Caught cfg s batch := by
  refine ⟨fun h => ?_, fun h =>
    h.elim (appliesAsJoin_of_not_refused hdistinct) appliesAsJoin_of_caught⟩
  by_contra hbad
  push Not at hbad
  obtain ⟨⟨op, hmem, hrefused⟩, hnew⟩ := hbad
  rw [ne_eq, Bool.not_eq_false] at hrefused
  obtain ⟨join, hjoin, hall⟩ := h
  -- The refused operation comes first, so the call ends before anything else is applied.
  have happly : ∀ ops, applyOps cfg (fun _ => 0) 0 s (some op :: ops) = (s, some .emptyKey) :=
    applyOps_of_refused hrefused
  have hcalm : CalmCalls cfg s [⟨fun _ => 0, some op :: batch⟩] := by
    have hkey : op.key = [] ∧ op.item.isSome ∧ cfg.isReplica op.key := by
      simpa [refused] using hrefused
    refine ⟨⟨fun item _ _ hne => absurd hkey.1 hne, fun hnil => ?_⟩, trivial⟩
    rw [happly] at hnil
    exact nomatch hnil
  have hsame : ∀ o, o ∈ [ApplyCall.mk (fun _ => 0) (some op :: batch)].flatMap ApplyCall.ops ↔
      o ∈ batch := by
    intro o
    simp only [flatMap_cons, flatMap_nil, append_nil, mem_cons]
    exact ⟨fun h => h.elim (fun h => h ▸ hmem) id, .inr⟩
  -- So the join is the store as it was, which is behind some operation.
  have hentry : ∀ k, entry cfg.store s k = join k := by
    intro k
    have := (hall _ hsame hcalm).1 k
    rwa [applyCalls, applyCalls, happly] at this
  refine hnew fun o item ho hitem hreplica => ?_
  rw [hentry]
  exact (hjoin.replicated o.key hreplica).reached
    (a := prepareCompressedItem cfg.store item) (.inr ⟨o, item, ho, rfl, hitem, rfl⟩)

theorem distinctVersions_pair {op op' : SyncOperation} {item' : StoredItem}
    (hitem : op.item = some item) (hitem' : op'.item = some item')
    (h : op.key ≠ op'.key ∨ item.version ≠ item'.version) :
    DistinctVersions cfg .empty [some op, some op'] := by
  refine ⟨fun {a b x y} ha hb hkey hx hy hversion => ?_, fun _ _ he _ => nomatch he⟩
  simp only [mem_cons, Option.some.injEq, not_mem_nil, or_false] at ha hb
  obtain rfl | rfl := ha <;> obtain rfl | rfl := hb
  · exact Option.some.inj (hx.symm.trans hy)
  · cases hitem.symm.trans hx
    cases hitem'.symm.trans hy
    exact absurd hversion (h.resolve_left fun hne => hne hkey)
  · cases hitem.symm.trans hy
    cases hitem'.symm.trans hx
    exact absurd hversion.symm (h.resolve_left fun hne => hne hkey.symm)
  · exact Option.some.inj (hx.symm.trans hy)

/-- Two versions of one key. -/
theorem appliesAsJoin_two_versions :
    DistinctVersions solo .empty [some (remoteOp 1 "a"), some (remoteOp 2 "b")] ∧
      AppliesAsJoin solo .empty [some (remoteOp 1 "a"), some (remoteOp 2 "b")] := by
  have hdistinct : DistinctVersions solo .empty [some (remoteOp 1 "a"), some (remoteOp 2 "b")] :=
    distinctVersions_pair rfl rfl (.inr (by decide))
  refine ⟨hdistinct, (appliesAsJoin_iff hdistinct).mpr (.inl fun op hop => ?_)⟩
  simp only [mem_cons, Option.some.injEq, not_mem_nil, or_false] at hop
  obtain rfl | rfl := hop <;> decide

/-- An operation on the empty key. -/
def emptyKeyOp : SyncOperation := { remoteOp 1 "b" with key := [] }

/-- The operation on the empty key ends the call before the other one is applied, if it
    comes first. -/
theorem not_appliesAsJoin_emptyKeyOp :
    DistinctVersions solo .empty [some emptyKeyOp, some (remoteOp 1 "a")] ∧
      ¬ AppliesAsJoin solo .empty [some emptyKeyOp, some (remoteOp 1 "a")] := by
  refine ⟨distinctVersions_pair rfl rfl (.inl (by decide)), ?_⟩
  intro ⟨join, _, hall⟩
  have hcalm : Calm solo 0 .empty (ascii "k") (plainItem 1 "a") :=
    calm_of_hasMemory (by unfold HasMemory; decide) fun e he => nomatch he
  have hfirst : join (ascii "k") = none := by
    rw [← (hall [⟨fun _ => 0, [some emptyKeyOp, some (remoteOp 1 "a")]⟩] (by simp) ?_).1]
    · decide
    · exact ⟨⟨fun item _ _ hne => absurd rfl hne, fun hnil => nomatch hnil⟩, trivial⟩
  have hlast : (join (ascii "k")).isSome := by
    rw [← (hall [⟨fun _ => 0, [some (remoteOp 1 "a"), some emptyKeyOp]⟩] (by simp [or_comm]) ?_).1]
    · decide
    · refine ⟨⟨fun item hitem _ _ => ?_, fun _ => ⟨fun item _ _ hne => absurd rfl hne,
        fun hnil => nomatch hnil⟩⟩, trivial⟩
      cases hitem
      exact hcalm
  rw [hfirst] at hlast
  exact nomatch hlast

end Gossip

end GridKV
