import GridKV.Spec.SyncDrain

/-!
# Which value a replicated operation carries

The sync buffer keeps operations without their values and `GetSyncBuffer` reads the
store again.  `TracedStore` adds to the store a record of what every `Set` stored, so
that the value an operation comes with can be compared with the one its version was
stored with.  They agree as long as the store still holds that version, unexpired, when
the buffer is drained; after an overwrite, a deletion, an eviction or an expiry they do
not.
-/

namespace GridKV

open Go Run MemStorage

/-- What a call of `Set` stored. -/
structure Install where
  key : GoString
  version : Int64
  value : Bytes
  deriving DecidableEq, Repr

/-- The store with the history of what was stored, latest first. -/
structure TracedStore where
  store : MemStorage
  history : List Install

namespace TracedStore

def initial : TracedStore := ⟨.empty, []⟩

/-- The calls of the store's methods, and the steps of its background loops. -/
inductive Action where
  | set (key : GoString) (item : Option StoredItem)
  | get (now : Time) (key : GoString)
  | delete (key : GoString) (version : Int64)
  | evict (batchSize : Int)
  | runAsyncEviction
  | cleanExpired (now : Time)
  | getSyncBuffer (clock : Nat → Time)

/-- The record a call of `Set` leaves. -/
def recordSet (cfg : StoreConfig) (s : MemStorage) (key : GoString) :
    Option StoredItem → List Install
  | none => []
  | some item => if setStores cfg s key item then [⟨key, item.version, item.value⟩] else []

def step (cfg : StoreConfig) (t : TracedStore) : Action → Option TracedStore
  | .set key item =>
    some ⟨(t.store.set cfg key item).1, recordSet cfg t.store key item ++ t.history⟩
  | .get now key => some { t with store := (t.store.get cfg now key).1 }
  | .delete key version => some { t with store := (t.store.delete cfg key version).1 }
  | .evict batchSize => some { t with store := (t.store.evictBatchLRU cfg batchSize).1 }
  | .runAsyncEviction => some { t with store := t.store.runAsyncEviction cfg }
  | .cleanExpired now => some { t with store := t.store.cleanExpired cfg now }
  | .getSyncBuffer clock => some { t with store := (t.store.getSyncBuffer cfg clock).1 }

/-- The value passed to the (latest) `Set` that stored a version of a key. -/
def lastInstalled (history : List Install) (key : GoString) (version : Int64) : Option Bytes :=
  (history.find? fun install => install.key = key ∧ install.version = version).map (·.value)

/-- An operation has the value its own version was stored with. -/
def CarriesOwnValue (history : List Install) (op : SyncOperation) : Prop :=
  ∃ item, op.item = some item ∧ lastInstalled history op.key item.version = some item.value

/-! ### The invariant of every run -/

/-- Every entry is the stored form of the value its version was stored with, and pending
    operations have no values. -/
structure Consistent (cfg : StoreConfig) (t : TracedStore) : Prop where
  entry_holds : ∀ {k e}, entry cfg t.store k = some e →
    ∃ x, lastInstalled t.history k e.version = some x ∧ Holds cfg.lz4 e x
  key_ne_nil : ∀ {k e}, entry cfg t.store k = some e → k ≠ []
  pending_valueless : ∀ {i op item}, op ∈ (buffer t.store i).toList → op.item = some item →
    item.value = []

variable {cfg : StoreConfig} {t u : TracedStore}

theorem consistent_initial (cfg : StoreConfig) : Consistent cfg initial where
  entry_holds h := nomatch h
  key_ne_nil h := nomatch h
  pending_valueless h := nomatch h

/-- Nothing that only takes entries away can break the invariant. -/
theorem Consistent.of_removes {s : MemStorage} (h : Consistent cfg t)
    (hremoves : Removes cfg t.store s) : Consistent cfg { t with store := s } where
  entry_holds he := h.entry_holds (hremoves.entry_of_entry he)
  key_ne_nil he := h.key_ne_nil (hremoves.entry_of_entry he)
  pending_valueless hop hitem := h.pending_valueless (hremoves.buffer_eq _ ▸ hop) hitem

theorem Consistent.of_installs {s : MemStorage} {key : GoString} {item : StoredItem}
    (h : Consistent cfg t) (hkey : key ≠ []) (hinstalls : Installs cfg t.store s key item) :
    Consistent cfg ⟨s, ⟨key, item.version, item.value⟩ :: t.history⟩ where
  entry_holds := by
    intro k e he
    rw [hinstalls.entry_eq] at he
    split at he
    · cases he
      subst k
      exact ⟨item.value, by simp [lastInstalled, prepareCompressedItem],
        holds_prepareCompressedItem cfg item⟩
    · rename_i hne
      -- The new record is about another key.
      have hskip : lastInstalled (⟨key, item.version, item.value⟩ :: t.history) k e.version =
          lastInstalled t.history k e.version := by
        simp [lastInstalled, Ne.symm hne]
      rw [hskip]
      exact h.entry_holds he
  key_ne_nil := by
    intro k e he
    rw [hinstalls.entry_eq] at he
    split at he
    · rename_i hk; exact hk ▸ hkey
    · exact h.key_ne_nil he
  pending_valueless := by
    intro i op x hop hx
    rw [hinstalls.buffer_eq] at hop
    split at hop
    · cases RingBuffer.eq_or_mem_of_mem_toList_push hop with
      | inl hnew =>
        subst hnew
        cases hx
        rfl
      | inr hold => exact h.pending_valueless hold hx
    · exact h.pending_valueless hop hx

theorem Consistent.set (h : Consistent cfg t) (key : GoString) (item : Option StoredItem) :
    Consistent cfg
      ⟨(t.store.set cfg key item).1, recordSet cfg t.store key item ++ t.history⟩ := by
  cases item with
  | none =>
    have hsame : (t.store.set cfg key none).1 = t.store := by
      unfold MemStorage.set
      split <;> rfl
    rw [hsame]
    exact h
  | some item =>
    by_cases hstores : setStores cfg t.store key item
    · -- Eviction comes first, and the item goes into what it leaves.
      have hroom := h.of_removes (removes_makeRoom cfg t.store key (prepareCompressedItem cfg item))
      have hkey : key ≠ [] := by
        simp only [setStores, decide_eq_true_eq] at hstores
        exact hstores.1
      rw [recordSet, if_pos hstores]
      exact hroom.of_installs hkey (set_of_setStores hstores).2
    · rw [recordSet, if_neg hstores]
      exact h.of_removes (removes_set_of_not_setStores hstores)

theorem Consistent.step {a : Action} (h : Consistent cfg t) (hstep : t.step cfg a = some u) :
    Consistent cfg u := by
  cases a with
  | set key item =>
    cases hstep
    exact h.set key item
  | get now key =>
    cases hstep
    exact h.of_removes (removes_getNoCopy cfg now t.store key)
  | delete key version =>
    cases hstep
    refine ⟨fun he => h.entry_holds (entry_of_entry_delete he),
      fun he => h.key_ne_nil (entry_of_entry_delete he), fun hop hitem => ?_⟩
    cases mem_buffer_delete hop with
    -- The operation a deletion queues has no item.
    | inl hnew => subst hnew; exact nomatch hitem
    | inr hold => exact h.pending_valueless hold hitem
  | evict batchSize =>
    cases hstep
    exact h.of_removes (removes_evictBatchLRU cfg t.store batchSize)
  | runAsyncEviction =>
    cases hstep
    exact h.of_removes (removes_runAsyncEviction cfg t.store)
  | cleanExpired now =>
    cases hstep
    exact h.of_removes (removes_cleanExpired cfg now t.store)
  | getSyncBuffer clock =>
    cases hstep
    exact ⟨fun he => h.entry_holds (entry_of_entry_getSyncBuffer he),
      fun he => h.key_ne_nil (entry_of_entry_getSyncBuffer he),
      fun hop => h.pending_valueless (mem_buffer_getSyncBuffer hop)⟩

theorem consistent_of_runs {as : List Action} (hrun : Runs (step cfg) initial as t) :
    Consistent cfg t :=
  hrun.invariant (fun _ _ _ h _ hstep => h.step hstep) (consistent_initial cfg)

/-! ### What a drain hands out -/

/-- When the drain begins, the store still holds the version of the operation; the entry
    has not expired at any reading of the clock, and it can be decompressed. -/
def StillStored (cfg : StoreConfig) (clock : Nat → Time) (s : MemStorage) (op : SyncOperation) :
    Prop :=
  ∃ item e, op.item = some item ∧ entry cfg s op.key = some e ∧ e.version = item.version ∧
    (∀ n, expiredAt (clock n) e = false) ∧ Readable e

/-- In every run, an `OpSet` that is drained while the store still holds its version
    carries the value that version was stored with. -/
theorem carriesOwnValue_of_stillStored (hlz4 : cfg.lz4.Lawful) {as : List Action}
    (hrun : Runs (step cfg) initial as t) (clock : Nat → Time) {op : SyncOperation}
    (hdrained : op ∈ (t.store.getSyncBuffer cfg clock).2) (hset : op.opType = .set)
    (hstored : StillStored cfg clock t.store op) : CarriesOwnValue t.history op := by
  have hconsistent := consistent_of_runs hrun
  obtain ⟨item', e, hitem', he, hversion, hfresh, hreadable⟩ := hstored
  -- No look at the store during the drain removes this entry.
  obtain ⟨pending, hpending, n, s, hs, hfilled⟩ := exists_pending_of_mem_getSyncBuffer
    (I := fun s => entry cfg s op.key = some e)
    (fun n s pending h => entry_fillOp_of_fresh h (hfresh n) pending)
    (fun s i h => by simpa using h) he hdrained
  have hheader : header op = header pending := hfilled ▸ header_fillOp cfg (clock n) s pending
  have hkey : op.key = pending.key := key_eq_of_header_eq hheader
  have htype : op.opType = pending.opType := opType_eq_of_header_eq hheader
  obtain ⟨item, hitem, hitemVersion⟩ := exists_item_of_header_eq hheader hitem'
  obtain ⟨i, -, hbuffered⟩ := List.mem_flatMap.mp hpending
  obtain ⟨x, hinstalled, hholds⟩ := hconsistent.entry_holds he
  have hop : op = { pending with item := some { item with value := x } } :=
    hfilled.trans (fillOp_snd_of_entry hitem (hconsistent.pending_valueless hbuffered hitem)
      (htype ▸ hset) (hkey ▸ hconsistent.key_ne_nil he) (hkey ▸ hs) (hfresh n)
      (valueOf_of_holds hlz4 hholds hreadable))
  refine ⟨{ item with value := x }, by rw [hop], ?_⟩
  rw [← hinstalled, hversion, ← hitemVersion]

/-- One `Set`, drained at once. -/
theorem carriesOwnValue_after_one_set :
    CarriesOwnValue [⟨ascii "k", 1, ascii "a"⟩]
      ⟨ascii "k", .set, some ⟨1, zeroTime, ascii "a", ascii "k"⟩⟩ := by
  have hrun : Runs (step oneShard) initial [.set (ascii "k") (some (plainItem 1 "a"))] _ :=
    runs_of_exec rfl
  exact carriesOwnValue_of_stillStored shortInputLZ4_lawful hrun (fun _ => 0) (by decide) rfl
    ⟨⟨1, zeroTime, ascii "a", ascii "k"⟩, ⟨1, zeroTime, ascii "a", false, 1⟩, rfl, by decide, rfl,
      fun _ => rfl, fun h => nomatch h⟩

/-- Two versions of one key, drained afterwards: version 1 goes out with the value of
    version 2. -/
theorem not_carriesOwnValue_after_overwrite :
    ¬ ∀ (as : List Action) (t : TracedStore), Runs (step oneShard) initial as t →
      ∀ clock, ∀ op ∈ (t.store.getSyncBuffer oneShard clock).2, op.opType = .set →
        CarriesOwnValue t.history op := by
  intro hall
  have hrun : Runs (step oneShard) initial [.set (ascii "k") (some (plainItem 1 "a")),
      .set (ascii "k") (some (plainItem 2 "b"))] _ := runs_of_exec rfl
  obtain ⟨item, hitem, hinstalled⟩ := hall _ _ hrun (fun _ => 0)
    ⟨ascii "k", .set, some ⟨1, zeroTime, ascii "b", ascii "k"⟩⟩ (by decide) rfl
  cases hitem
  revert hinstalled
  decide

end TracedStore

end GridKV
