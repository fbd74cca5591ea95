import GridKV.Spec.ApplyJoin

/-!
# What a rejected operation costs the rest of its call

`applyOps` skips an operation that is nil, has no item or is not for this node, and one
whose key already holds a version at least as high.  Every other operation goes to `Set`,
and the first one that `Set` rejects, for its empty key or for lack of memory, ends the
call: what stands behind it is not looked at.  So the operations the store would accept are
all served exactly when no rejected one stands before an operation that is still waiting.
-/

namespace GridKV

open Go MemStorage ClockedNode

namespace Gossip

variable {cfg : NodeConfig} {clock : Nat → Time} {now : Time} {n : Nat} {s : MemStorage}
  {key : GoString} {item : StoredItem} {op : Option SyncOperation}
  {ops before after : List (Option SyncOperation)}

/-- The store would accept the item: `Set`, after the read that `applyOps` makes first,
    returns no error. -/
def StoreAccepts (cfg : NodeConfig) (now : Time) (s : MemStorage) (key : GoString)
    (item : StoredItem) : Prop :=
  ((s.getNoCopy cfg.store now key).1.set cfg.store key (some item)).2 = none

/-- The read finds a version at least as high, so that the item need not be stored. -/
def Superseded (cfg : NodeConfig) (now : Time) (s : MemStorage) (key : GoString)
    (item : StoredItem) : Prop :=
  ∃ existing, (s.getNoCopy cfg.store now key).2 = .ok existing ∧ existing.version ≥ item.version

/-- The item is stored, or a version at least as high is. -/
def Served (cfg : NodeConfig) (s : MemStorage) (key : GoString) (item : StoredItem) : Prop :=
  Lww.Reached versionOf (entry cfg.store s key) item.version.toInt

/-- The operation gets as far as `Set`, which rejects it. -/
def Rejected (cfg : NodeConfig) (now : Time) (s : MemStorage) (op : Option SyncOperation) : Prop :=
  ∃ o item, op = some o ∧ o.item = some item ∧ cfg.isReplica o.key ∧
    ¬ Superseded cfg now s o.key item ∧ ¬ StoreAccepts cfg now s o.key item

/-- The operation is one that this node has to store. -/
structure Due (cfg : NodeConfig) (op : SyncOperation) (item : StoredItem) : Prop where
  item_eq : op.item = some item
  key_ne : op.key ≠ []
  replica : cfg.isReplica op.key

/-- Whatever is due in the list satisfies `P`, which also gets what stands before it. -/
def EachDue (cfg : NodeConfig) (ops : List (Option SyncOperation))
    (P : List (Option SyncOperation) → SyncOperation → StoredItem → Prop) : Prop :=
  ∀ before op after item, ops = before ++ some op :: after → Due cfg op item → P before op item

/-- Whatever is due and accepted by the store in its turn is served when its turn is over.
    Once the call has ended, the operations behind find the store that the call returns. -/
def ServedInTurn (cfg : NodeConfig) (clock : Nat → Time) (n : Nat) (s : MemStorage)
    (ops : List (Option SyncOperation)) : Prop :=
  EachDue cfg ops fun before op item =>
    StoreAccepts cfg (clock (n + before.length)) (applyOps cfg clock n s before).1 op.key item →
    Served cfg (applyOps cfg clock n s (before ++ [some op])).1 op.key item

/-- Whatever is due and accepted by the store in its turn is served when `applyOps` returns. -/
def ServedAtReturn (cfg : NodeConfig) (clock : Nat → Time) (n : Nat) (s : MemStorage)
    (ops : List (Option SyncOperation)) : Prop :=
  EachDue cfg ops fun before op item =>
    StoreAccepts cfg (clock (n + before.length)) (applyOps cfg clock n s before).1 op.key item →
    Served cfg (applyOps cfg clock n s ops).1 op.key item

/-- Of the operations that are due, the store accepts none that it has not served. -/
def NoneWaiting (cfg : NodeConfig) (clock : Nat → Time) (n : Nat) (s : MemStorage)
    (ops : List (Option SyncOperation)) : Prop :=
  EachDue cfg ops fun before op item =>
    StoreAccepts cfg (clock (n + before.length)) s op.key item → Served cfg s op.key item

/-- No operation is waiting behind the first one that is rejected. -/
def Unblocked (cfg : NodeConfig) (clock : Nat → Time) : Nat → MemStorage →
    List (Option SyncOperation) → Prop
  | _, _, [] => True
  | n, s, op :: ops =>
    (Rejected cfg (clock n) s op →
      NoneWaiting cfg clock (n + 1) (applyOps cfg clock n s [op]).1 ops) ∧
    (¬ Rejected cfg (clock n) s op →
      Unblocked cfg clock (n + 1) (applyOps cfg clock n s [op]).1 ops)

/-! ### One operation -/

/-- A read that succeeds found an entry that is not expired. -/
theorem unexpired_of_getNoCopy_eq_ok {existing : StoredItem}
    (h : (s.getNoCopy cfg.store now key).2 = .ok existing) :
    Unexpired cfg.store now s key := by
  intro e he
  rw [← Bool.not_eq_true]
  intro hexpired
  have hkey : key ≠ [] := by
    rintro rfl
    cases h
  have hlookup : (s.shards (cfg.store.shardIndex key)).data.lookup key = some e := he
  simp only [getNoCopy, if_neg hkey, hlookup, if_pos hexpired] at h
  cases h

/-- An operation that is not superseded is handed to `Set`. -/
theorem applyOp_of_not_superseded (hreplica : cfg.isReplica key)
    (h : ¬ Superseded cfg now s key item) :
    applyOp cfg now s key item =
      (s.getNoCopy cfg.store now key).1.set cfg.store key (some item) := by
  cases hread : (s.getNoCopy cfg.store now key).2 with
  | ok existing =>
    have hnew : ¬ existing.version ≥ item.version := fun hold => h ⟨existing, hread, hold⟩
    simp only [applyOp, hreplica, if_true, hread, if_neg hnew]
  | error err => simp only [applyOp, hreplica, if_true, hread]

theorem applyOp_of_superseded (hreplica : cfg.isReplica key)
    (h : Superseded cfg now s key item) :
    applyOp cfg now s key item = ((s.getNoCopy cfg.store now key).1, none) := by
  obtain ⟨existing, hread, hold⟩ := h
  simp only [applyOp, hreplica, if_true, hread, if_pos hold]

/-- The call goes on after an operation exactly when that was not rejected. -/
theorem applyOps_singleton_snd_eq_none_iff :
    (applyOps cfg clock n s [op]).2 = none ↔ ¬ Rejected cfg (clock n) s op := by
  cases op with
  | none => simp [applyOps, Rejected]
  | some o =>
    cases hitem : o.item with
    | none => simp [applyOps, Rejected, hitem]
    | some item =>
      rw [applyOps_singleton hitem]
      by_cases hreplica : cfg.isReplica o.key
      · by_cases hold : Superseded cfg (clock n) s o.key item
        · simp [applyOp_of_superseded hreplica hold, Rejected, hitem, hold]
        · simp [applyOp_of_not_superseded hreplica hold, Rejected, hitem, hold, hreplica,
            StoreAccepts]
      · simp [applyOp_of_not_isReplica hreplica, Rejected, hreplica]

/-- An operation the store accepts is served when its turn is over. -/
theorem served_applyOp (hreplica : cfg.isReplica key) (h : StoreAccepts cfg now s key item) :
    Served cfg (applyOp cfg now s key item).1 key item := by
  by_cases hold : Superseded cfg now s key item
  · rw [applyOp_of_superseded hreplica hold]
    obtain ⟨existing, hread, hversion⟩ := hold
    obtain ⟨e, he, heq⟩ := version_of_getNoCopy_eq_ok hread
    have hsame := (getNoCopy_fst_of_unexpired (unexpired_of_getNoCopy_eq_ok hread)).1 key
    refine ⟨e, hsame.trans he, ?_⟩
    unfold versionOf
    rw [heq]
    exact Int64.le_iff_toInt_le.mp hversion
  · rw [applyOp_of_not_superseded hreplica hold]
    exact reached_of_set_eq_none h

/-! ### A call -/

/-- A rejected operation ends the call. -/
theorem applyOps_cons_of_rejected (h : Rejected cfg (clock n) s op) :
    applyOps cfg clock n s (op :: ops) = applyOps cfg clock n s [op] := by
  have hfails : (applyOps cfg clock n s [op]).2 ≠ none :=
    fun hnone => applyOps_singleton_snd_eq_none_iff.mp hnone h
  obtain ⟨o, item, rfl, hitem, -⟩ := h
  rw [applyOps_singleton hitem] at hfails ⊢
  cases happ : applyOp cfg (clock n) s o.key item with
  | mk t err =>
    cases err with
    | none => exact absurd (congrArg Prod.snd happ) hfails
    | some err => simp only [applyOps, hitem, happ]

theorem applyOps_cons_of_not_rejected (h : ¬ Rejected cfg (clock n) s op) :
    applyOps cfg clock n s (op :: ops) =
      applyOps cfg clock (n + 1) (applyOps cfg clock n s [op]).1 ops :=
  applyOps_cons (applyOps_singleton_snd_eq_none_iff.mpr h)

/-- What is due in a list is its first operation or due behind it. -/
theorem eachDue_cons {P : List (Option SyncOperation) → SyncOperation → StoredItem → Prop} :
    EachDue cfg (op :: ops) P ↔
      (∀ o item, op = some o → Due cfg o item → P [] o item) ∧
        EachDue cfg ops fun before => P (op :: before) := by
  constructor
  · intro h
    constructor
    · rintro o item rfl hdue
      exact h [] o ops item rfl hdue
    · intro before o after item heq hdue
      exact h (op :: before) o after item (by rw [heq]; rfl) hdue
  · rintro ⟨hfirst, hrest⟩ before o after item heq hdue
    cases before with
    | nil => exact hfirst o item (List.cons.inj heq).1 hdue
    | cons op' before =>
      cases heq
      exact hrest before o after item rfl hdue

/-- The first operation of a call is served if the store accepts it. -/
theorem served_of_due {o : SyncOperation} (hdue : Due cfg o item)
    (h : StoreAccepts cfg (clock n) s o.key item) :
    Served cfg (applyOps cfg clock n s [some o]).1 o.key item := by
  rw [applyOps_singleton hdue.item_eq]
  exact served_applyOp hdue.replica h

/-- The first operation is served in its turn, so what matters are those behind it. -/
theorem servedInTurn_cons :
    ServedInTurn cfg clock n s (op :: ops) ↔
      EachDue cfg ops fun before o item =>
        StoreAccepts cfg (clock (n + 1 + before.length))
          (applyOps cfg clock n s (op :: before)).1 o.key item →
        Served cfg (applyOps cfg clock n s (op :: (before ++ [some o]))).1 o.key item := by
  have hlength : ∀ m, n + 1 + m = n + (m + 1) := by omega
  unfold ServedInTurn
  rw [eachDue_cons]
  simp only [hlength]
  exact and_iff_right fun _ _ _ hdue => served_of_due hdue

/-- Whatever stands behind a rejected operation, the call returns the store that its `Set`
    left. -/
theorem servedInTurn_cons_of_rejected (h : Rejected cfg (clock n) s op) :
    ServedInTurn cfg clock n s (op :: ops) ↔
      NoneWaiting cfg clock (n + 1) (applyOps cfg clock n s [op]).1 ops := by
  obtain ⟨result, hend⟩ : ∃ result, ∀ rest, applyOps cfg clock n s (op :: rest) = result :=
    ⟨_, fun _ => applyOps_cons_of_rejected h⟩
  simp only [servedInTurn_cons, hend, NoneWaiting]

theorem servedInTurn_cons_of_not_rejected (h : ¬ Rejected cfg (clock n) s op) :
    ServedInTurn cfg clock n s (op :: ops) ↔
      ServedInTurn cfg clock (n + 1) (applyOps cfg clock n s [op]).1 ops := by
  rw [servedInTurn_cons]
  unfold ServedInTurn
  simp only [← applyOps_cons_of_not_rejected h]

theorem servedInTurn_iff : ServedInTurn cfg clock n s ops ↔ Unblocked cfg clock n s ops := by
  induction ops generalizing n s with
  | nil => exact iff_of_true (fun before _ _ _ heq => by cases before <;> cases heq) trivial
  | cons op ops ih =>
    by_cases hrejected : Rejected cfg (clock n) s op
    · simp [servedInTurn_cons_of_rejected hrejected, Unblocked, hrejected]
    · simp [servedInTurn_cons_of_not_rejected hrejected, Unblocked, hrejected, ih]

/-! ### When the call returns -/

/-- A calm call never lowers the version of an entry. -/
theorem reached_applyOps_of_calm (hcalm : CalmOps cfg clock n s ops) {k : GoString} {v : Int}
    (h : Lww.Reached versionOf (entry cfg.store s k) v) :
    Lww.Reached versionOf (entry cfg.store (applyOps cfg clock n s ops).1 k) v := by
  induction ops generalizing n s with
  | nil => exact h
  | cons op ops ih =>
    obtain ⟨o, rfl, hrefused⟩ | hhead := refused_or_not cfg op
    · rwa [applyOps_of_refused hrefused]
    obtain ⟨hnil, hoffered⟩ := applyOps_singleton_of_calm hhead hcalm.1
    rw [applyOps_cons hnil]
    apply ih (hcalm.2 hnil)
    rw [hoffered k]
    cases offer cfg k op with
    | none => exact h
    | some e => exact h.put e

/-- A call that starts with the operations `before` does no less than they do alone. -/
theorem reached_applyOps_append (hcalm : CalmOps cfg clock n s (before ++ after)) {k : GoString}
    {v : Int} (h : Lww.Reached versionOf (entry cfg.store (applyOps cfg clock n s before).1 k) v) :
    Lww.Reached versionOf (entry cfg.store (applyOps cfg clock n s (before ++ after)).1 k) v := by
  induction before generalizing n s with
  | nil => exact reached_applyOps_of_calm hcalm h
  | cons op before ih =>
    rw [List.cons_append] at hcalm ⊢
    by_cases hrejected : Rejected cfg (clock n) s op
    · rwa [applyOps_cons_of_rejected hrejected] at h ⊢
    · rw [applyOps_cons_of_not_rejected hrejected] at h ⊢
      exact ih (hcalm.2 (applyOps_singleton_snd_eq_none_iff.mpr hrejected)) h

theorem servedAtReturn_of_calm (hcalm : CalmOps cfg clock n s ops)
    (h : ServedInTurn cfg clock n s ops) : ServedAtReturn cfg clock n s ops := by
  rintro before o after item rfl hdue haccepts
  have hturn := h before o after item rfl hdue haccepts
  rw [List.append_cons] at hcalm ⊢
  exact reached_applyOps_append hcalm hturn

/-- **What a rejected operation costs.**  Every operation that is due and that the store
    accepts in its turn is served exactly when no operation is waiting behind the first one
    that is rejected.  Unless a later step of the call has the store remove entries, it is
    then still served when `applyOps` returns. -/
theorem servedInTurn_iff_unblocked (cfg : NodeConfig) (clock : Nat → Time) (s : MemStorage)
    (ops : List (Option SyncOperation)) :
    (ServedInTurn cfg clock 0 s ops ↔ Unblocked cfg clock 0 s ops) ∧
      (CalmOps cfg clock 0 s ops → Unblocked cfg clock 0 s ops →
        ServedAtReturn cfg clock 0 s ops) :=
  ⟨servedInTurn_iff, fun hcalm h => servedAtReturn_of_calm hcalm (servedInTurn_iff.mpr h)⟩

/-- A nil operation before the one that is due, and a rejected one behind it. -/
theorem servedAtReturn_between :
    ServedAtReturn solo (fun _ => 0) 0 .empty
      [none, some (remoteOp 1 "a"), some emptyKeyOp] := by
  have hcalm : Calm solo 0 .empty (ascii "k") (plainItem 1 "a") :=
    calm_of_hasMemory (by unfold HasMemory; decide) fun e he => nomatch he
  apply (servedInTurn_iff_unblocked solo (fun _ => 0) .empty _).2
  · refine ⟨trivial, fun _ => ⟨fun item hitem _ _ => ?_, fun _ => ⟨fun _ _ _ hne => ?_, ?_⟩⟩⟩
    · cases hitem
      exact hcalm
    · exact absurd rfl hne
    · exact fun _ => trivial
  · -- Only the last operation is rejected, and nothing stands behind it.
    have hnil : ∀ {P}, EachDue solo [] P := fun before _ _ _ heq => by cases before <;> cases heq
    have hgoes : ∀ m op, (applyOps solo (fun _ => 0) m .empty [op]).2 = none →
        ¬ Rejected solo 0 .empty op := by
      intro m op h
      rwa [applyOps_singleton_snd_eq_none_iff] at h
    exact ⟨fun h => absurd h (hgoes 0 none rfl), fun _ =>
      ⟨fun h => absurd h (hgoes 1 (some (remoteOp 1 "a")) (by decide)), fun _ =>
        ⟨fun _ => hnil, fun _ => trivial⟩⟩⟩

/-- The operation on the empty key comes first, so the one behind it is not applied: neither
    by its turn nor when the call returns. -/
theorem emptyKeyOp_blocks :
    ¬ ServedInTurn solo (fun _ => 0) 0 .empty [some emptyKeyOp, some (remoteOp 1 "a")] ∧
      ¬ ServedAtReturn solo (fun _ => 0) 0 .empty [some emptyKeyOp, some (remoteOp 1 "a")] := by
  have hstore : applyOps solo (fun _ => 0) 0 .empty [some emptyKeyOp, some (remoteOp 1 "a")] =
      (.empty, some .emptyKey) := applyOps_of_refused (by decide) _
  have hdue : Due solo (remoteOp 1 "a") (plainItem 1 "a") := ⟨rfl, by decide, by decide⟩
  have hnone : ¬ Served solo .empty (ascii "k") (plainItem 1 "a") := fun ⟨_, he, _⟩ => nomatch he
  have haccepts : StoreAccepts solo 0
      (applyOps solo (fun _ => 0) 0 .empty [some emptyKeyOp]).1 (ascii "k") (plainItem 1 "a") := by
    unfold StoreAccepts
    decide
  constructor
  · intro h
    have hserved := h [some emptyKeyOp] (remoteOp 1 "a") [] (plainItem 1 "a") rfl hdue haccepts
    rw [List.cons_append, List.nil_append, hstore] at hserved
    exact hnone hserved
  · intro h
    have hserved := h [some emptyKeyOp] (remoteOp 1 "a") [] (plainItem 1 "a") rfl hdue haccepts
    rw [hstore] at hserved
    exact hnone hserved

end Gossip

end GridKV
