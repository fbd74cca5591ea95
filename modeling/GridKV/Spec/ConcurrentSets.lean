import GridKV.ForStd.Interleave
import GridKV.Model.StoreSteps
import GridKV.Spec.StoreLww

/-!
# Concurrent `Set`s of one key

Any number of goroutines call `Set` with the same key, and their atomic steps interleave
in any way.  Of the store, only the entry of the key, its pointer and three counts matter;
`SetMove` says what a step does to these (`setMove_of_setStep`).  The invariant is that an
entry is what its pointer points to, that a goroutine about to swap has seen an older
entry, and that one whose item has been stored or refused has seen the key reach its
version.  So versions only go up, and the last one standing is the highest.
-/

namespace GridKV

open Go Run Interleave MemStorage

/-! ### What a step does to the key -/

/-- What the goroutines have of the key, and what they count. -/
structure KeyView (ι : Type) where
  held : Option CompressedItem
  pointer : Pointer ι
  setCount : Int64
  installs : Nat
  /-- The operations ever added to the sync buffer of the key's shard. -/
  appended : Nat

namespace SharedStore

variable {ι : Type} (cfg : StoreConfig) (key : GoString) (s : SharedStore ι)

def view (cfg : StoreConfig) (key : GoString) (s : SharedStore ι) : KeyView ι where
  held := entry cfg s.store key
  pointer := s.pointer
  setCount := s.setCount
  installs := s.installs
  appended := (buffer s.store (cfg.shardIndex key)).head

theorem load_eq : s.load cfg key = (s.view cfg key).held.map fun item => ⟨s.pointer, item⟩ := rfl

theorem view_install (i : ι) (e : CompressedItem) :
    (s.install cfg key i e).view cfg key =
      { s.view cfg key with
        held := some e, pointer := .call i, installs := s.installs + 1 } := by
  simp [view, install, entry_store]

end SharedStore

/-- A step of the `Set` call `i` that offers `e`, seen from the key. -/
inductive SetMove {ι : Type} (e : CompressedItem) (i : ι) (v : KeyView ι) :
    SetPhase ι → KeyView ι → SetPhase ι → Prop
  | check : SetMove e i v .start v .load
  | miss (hheld : v.held = none) : SetMove e i v .load v .insert
  | refuse {old : CompressedItem} (hheld : v.held = some old) (hle : e.version ≤ old.version) :
      SetMove e i v .load v .refused
  | find {old : CompressedItem} (hheld : v.held = some old) (hlt : old.version < e.version) :
      SetMove e i v .load v (.recheck ⟨v.pointer, old⟩)
  | retryInsert : SetMove e i v .insert v .load
  | retryRecheck (existing : Loaded ι) : SetMove e i v (.recheck existing) v .load
  | retrySwap (existing : Loaded ι) : SetMove e i v (.swap existing) v .load
  | recheck (existing : Loaded ι) : SetMove e i v (.recheck existing) v (.swap existing)
  | insert (hheld : v.held = none) :
      SetMove e i v .insert
        { v with held := some e, pointer := .call i, installs := v.installs + 1 } (.stats none)
  | swap {existing : Loaded ι} {old : CompressedItem} (hheld : v.held = some old)
      (hpointer : v.pointer = existing.pointer) :
      SetMove e i v (.swap existing)
        { v with held := some e, pointer := .call i, installs := v.installs + 1 }
        (.stats (some existing.item))
  | countRefused : SetMove e i v .refused { v with setCount := v.setCount + 1 } .done
  | countStored (replaced : Option CompressedItem) :
      SetMove e i v (.stats replaced) { v with setCount := v.setCount + 1 } .touch
  | touch : SetMove e i v .touch v .publish
  | publish : SetMove e i v .publish { v with appended := v.appended + 1 } .done

/-- The memory check of a `Set` that is about to make it lets the item pass and leaves the
    entry of the key alone. -/
def PassesCheck (cfg : StoreConfig) (key : GoString) (item : StoredItem) (s : MemStorage) : Prop :=
  (s.makeRoom cfg key (prepareCompressedItem cfg item)).2 = none ∧
    entry cfg (s.makeRoom cfg key (prepareCompressedItem cfg item)).1 key = entry cfg s key

theorem setMove_of_setStep {ι : Type} [DecidableEq ι] {cfg : StoreConfig} {key : GoString}
    {item : StoredItem} {i : ι} {s t : SharedStore ι} {p q : SetPhase ι} (hkey : key ≠ [])
    (hcheck : p = .start → PassesCheck cfg key item s.store)
    (h : setStep cfg key item i s p = some (t, q)) :
    SetMove (prepareCompressedItem cfg item) i (s.view cfg key) p (t.view cfg key) q := by
  cases p with
  | start =>
    obtain ⟨hroom, hentry⟩ := hcheck rfl
    simp only [setStep, if_neg hkey] at h
    split at h
    · rename_i hmake
      rw [hmake] at hroom
      exact nomatch hroom
    · -- The check may have evicted other keys, which the view does not show.
      rename_i store hmake
      cases h
      rw [hmake] at hentry
      have hbuffer := (removes_makeRoom cfg s.store key (prepareCompressedItem cfg item)).buffer_eq
        (cfg.shardIndex key)
      rw [hmake] at hbuffer
      have hview : SharedStore.view cfg key { s with store } = s.view cfg key := by
        simp only [SharedStore.view, hentry, hbuffer]
      rw [hview]
      exact .check
  | load =>
    simp only [setStep, SharedStore.load_eq] at h
    split at h
    · rename_i hload
      cases h
      exact .miss (Option.map_eq_none_iff.mp hload)
    · rename_i existing hload
      obtain ⟨old, hheld, rfl⟩ := Option.map_eq_some_iff.mp hload
      split at h
      · rename_i hle
        cases h
        exact .refuse hheld hle
      · rename_i hlt
        cases h
        exact .find hheld (Int64.not_le.mp hlt)
  | insert =>
    simp only [setStep, SharedStore.load_eq] at h
    split at h
    · rename_i hload
      cases h
      rw [SharedStore.view_install]
      exact .insert (Option.map_eq_none_iff.mp hload)
    · cases h
      exact .retryInsert
  | refused =>
    cases h
    exact .countRefused
  | recheck existing =>
    simp only [setStep] at h
    split at h
    · cases h
      exact .retryRecheck existing
    · split at h
      · cases h
        exact .retryRecheck existing
      · cases h
        exact .recheck existing
  | swap existing =>
    simp only [setStep, SharedStore.load_eq] at h
    split at h
    · cases h
      exact .retrySwap existing
    · rename_i current hload
      obtain ⟨old, hheld, rfl⟩ := Option.map_eq_some_iff.mp hload
      split at h
      · rename_i hpointer
        cases h
        rw [SharedStore.view_install]
        exact .swap hheld hpointer
      · cases h
        exact .retrySwap existing
  | stats replaced =>
    cases h
    have hmove := SetMove.countStored (e := prepareCompressedItem cfg item) (i := i)
      (v := s.view cfg key) replaced
    simpa [SharedStore.view] using hmove
  | touch =>
    cases h
    have hmove := SetMove.touch (e := prepareCompressedItem cfg item) (i := i)
      (v := s.view cfg key)
    simpa [SharedStore.view] using hmove
  | publish =>
    cases h
    have hmove := SetMove.publish (e := prepareCompressedItem cfg item) (i := i)
      (v := s.view cfg key)
    simpa [SharedStore.view, buffer_addToSyncBuffer, RingBuffer.head_push] using hmove
  | failed | done => exact nomatch h

/-! ### The invariant -/

section

variable {ι : Type} (start : Option CompressedItem) (offer : ι → CompressedItem)

/-- What a pointer points to. -/
def allocated : Pointer ι → Option CompressedItem
  | .initial => start
  | .call i => some (offer i)

/-- The entry is what its pointer points to, and the version the key had at the start has
    not been lost. -/
structure Pointed (v : KeyView ι) : Prop where
  held_eq : ∀ {e}, v.held = some e → allocated start offer v.pointer = some e
  reached_start : ∀ {x}, Lww.Reached versionOf start x → Lww.Reached versionOf v.held x

/-- What a call knows in each of its phases. -/
def Knows (i : ι) (v : KeyView ι) : SetPhase ι → Prop
  | .start | .load | .insert => True
  | .recheck existing | .swap existing =>
    allocated start offer existing.pointer = some existing.item ∧
      versionOf existing.item < versionOf (offer i)
  | .refused | .stats _ | .touch | .publish | .done =>
    Lww.Reached versionOf v.held (versionOf (offer i))
  | .failed _ => False

/-- No version that was reached is lost. -/
def Advances (v w : KeyView ι) : Prop :=
  ∀ {x}, Lww.Reached versionOf v.held x → Lww.Reached versionOf w.held x

variable {start offer} {i : ι} {v w : KeyView ι} {p q : SetPhase ι}

theorem Knows.advance (h : Knows start offer i v p) (hadv : Advances v w) :
    Knows start offer i w p := by
  cases p with
  | start | load | insert | recheck | swap | failed => exact h
  | refused | stats | touch | publish | done => exact hadv h

/-- Storing an item over an older one, or over none. -/
theorem Pointed.install (h : Pointed start offer v)
    (holder : ∀ {old}, v.held = some old → versionOf old < versionOf (offer i)) (n : Nat) :
    Pointed start offer { v with held := some (offer i), pointer := .call i, installs := n } ∧
      Advances v { v with held := some (offer i), pointer := .call i, installs := n } := by
  have hadv : Advances v { v with held := some (offer i), pointer := .call i, installs := n } := by
    intro x hx
    obtain ⟨old, hheld, hle⟩ := hx
    exact ⟨offer i, rfl, le_trans hle (le_of_lt (holder hheld))⟩
  exact ⟨⟨id, fun hx => hadv (h.reached_start hx)⟩, hadv⟩

/-- A step keeps the invariant. -/
theorem SetMove.preserves (h : SetMove (offer i) i v p w q) (hv : Pointed start offer v)
    (hp : Knows start offer i v p) :
    Pointed start offer w ∧ Knows start offer i w q ∧ Advances v w := by
  cases h with
  | check | miss | retryInsert | retryRecheck | retrySwap => exact ⟨hv, trivial, id⟩
  | refuse hheld hle => exact ⟨hv, ⟨_, hheld, Int64.le_iff_toInt_le.mp hle⟩, id⟩
  | find hheld hlt => exact ⟨hv, ⟨hv.held_eq hheld, Int64.lt_iff_toInt_lt.mp hlt⟩, id⟩
  | recheck | touch => exact ⟨hv, hp, id⟩
  | insert hheld =>
    obtain ⟨hpointed, hadv⟩ := hv.install (i := i)
      (fun hold => nomatch hheld.symm.trans hold) (v.installs + 1)
    exact ⟨hpointed, ⟨_, rfl, le_refl _⟩, hadv⟩
  | @swap existing old hheld hpointer =>
    -- The pointers agree, so what is replaced is the entry that was found to be older.
    have hsame : old = existing.item := by
      have hold := hv.held_eq hheld
      rw [hpointer, hp.1] at hold
      exact (Option.some.inj hold).symm
    obtain ⟨hpointed, hadv⟩ := hv.install (i := i) (fun hold => by
      cases hheld.symm.trans hold
      exact hsame ▸ hp.2) (v.installs + 1)
    exact ⟨hpointed, ⟨_, rfl, le_refl _⟩, hadv⟩
  | countRefused | countStored | publish => exact ⟨⟨hv.held_eq, hv.reached_start⟩, hp, id⟩

/-! ### Counting -/

/-- The call has been counted by `setCount`. -/
def SetPhase.counted : SetPhase ι → Nat
  | .touch | .publish | .done => 1
  | _ => 0

/-- The call has stored its item and not yet queued the operation. -/
def SetPhase.unpublished : SetPhase ι → Nat
  | .stats _ | .touch | .publish => 1
  | _ => 0

theorem SetMove.setCount_eq {e : CompressedItem} (h : SetMove e i v p w q) :
    w.setCount = v.setCount + Int64.ofNat (q.counted - p.counted) ∧ p.counted ≤ q.counted := by
  cases h <;> simp [SetPhase.counted]

theorem SetMove.appended_eq {e : CompressedItem} (h : SetMove e i v p w q) :
    w.appended + q.unpublished + v.installs = v.appended + p.unpublished + w.installs := by
  cases h <;> simp only [SetPhase.unpublished] <;> omega

end

/-! ### Runs -/

/-- `Set` calls with one key, which is not empty. -/
structure SetCalls (ι : Type) where
  key : GoString
  key_ne_nil : key ≠ []
  item : ι → StoredItem

namespace SetCalls

variable {ι : Type} [DecidableEq ι] (cfg : StoreConfig) (calls : SetCalls ι)

/-- The entry a call offers. -/
def offer (i : ι) : CompressedItem := prepareCompressedItem cfg (calls.item i)

/-- One of the goroutines takes a step. -/
def step : System ι (SharedStore ι) (SetPhase ι) → ι →
    Option (System ι (SharedStore ι) (SetPhase ι)) :=
  Interleave.step fun i => setStep cfg calls.key (calls.item i) i

/-- Before any of the calls. -/
def launch (store : MemStorage) (setCount : Int64) : System ι (SharedStore ι) (SetPhase ι) where
  shared := { store, setCount }
  phase _ := .start

def view (s : System ι (SharedStore ι) (SetPhase ι)) : KeyView ι := s.shared.view cfg calls.key

/-- No call evicts the key or is refused for lack of memory. -/
def Undisturbed (s : System ι (SharedStore ι) (SetPhase ι)) (i : ι) : Prop :=
  s.phase i = .start → PassesCheck cfg calls.key (calls.item i) s.shared.store

variable {cfg calls} {store : MemStorage} {setCount : Int64} {i : ι} {is js : List ι}
  {s t : System ι (SharedStore ι) (SetPhase ι)}

theorem setMove_of_step (hguard : Undisturbed cfg calls s i) (h : step cfg calls s i = some t) :
    ∃ q, SetMove (offer cfg calls i) i (view cfg calls s) (s.phase i) (view cfg calls t) q ∧
      t.phase = Function.update s.phase i q := by
  obtain ⟨q, hact, hphase⟩ := step_eq_some h
  exact ⟨q, setMove_of_setStep calls.key_ne_nil hguard hact, hphase⟩

variable (cfg calls) in
/-- What holds in every state that is reached from `launch store setCount`. -/
structure Ordered [Fintype ι] (store : MemStorage) (setCount : Int64)
    (s : System ι (SharedStore ι) (SetPhase ι)) : Prop where
  satisfies : Satisfies
    (fun x => Pointed (entry cfg store calls.key) (offer cfg calls) (x.view cfg calls.key))
    (fun i x p => Knows (entry cfg store calls.key) (offer cfg calls) i (x.view cfg calls.key) p) s
  setCount_eq : s.shared.setCount = setCount + Int64.ofNat (tally SetPhase.counted s.phase)
  appended_eq : (view cfg calls s).appended + tally SetPhase.unpublished s.phase =
    (buffer store (cfg.shardIndex calls.key)).head + s.shared.installs

variable [Fintype ι]

omit [DecidableEq ι] in
theorem ordered_launch (store : MemStorage) (setCount : Int64) :
    Ordered cfg calls store setCount (launch store setCount) where
  satisfies := ⟨⟨id, id⟩, fun _ => trivial⟩
  setCount_eq := by simp [launch, tally, SetPhase.counted]
  appended_eq := by simp [launch, tally, SetPhase.unpublished, view, SharedStore.view]

theorem Ordered.step (h : Ordered cfg calls store setCount s) (hguard : Undisturbed cfg calls s i)
    (hstep : calls.step cfg s i = some t) :
    Ordered cfg calls store setCount t ∧ Advances (view cfg calls s) (view cfg calls t) := by
  obtain ⟨q, hmove, hphase⟩ := setMove_of_step hguard hstep
  have hkept := hmove.preserves h.satisfies.1 (h.satisfies.2 i)
  -- The invariant of the calls, and the two tallies.
  refine ⟨⟨?_, ?_, ?_⟩, hkept.2.2⟩
  · apply satisfies_step (G := fun x y => Advances (x.view cfg calls.key) (y.view cfg calls.key))
      _ (fun j x p y hj hadv => hj.advance hadv) h.satisfies hstep
    intro y q' hact
    exact (setMove_of_setStep calls.key_ne_nil hguard hact).preserves h.satisfies.1
      (h.satisfies.2 i)
  · obtain ⟨hcount, hle⟩ := hmove.setCount_eq
    have htally := tally_step SetPhase.counted hphase
    have hsum : tally SetPhase.counted t.phase =
        tally SetPhase.counted s.phase + (q.counted - (s.phase i).counted) := by omega
    rw [hsum, Int64.ofNat_add, ← Int64.add_assoc, ← h.setCount_eq]
    exact hcount
  · have happended := hmove.appended_eq
    have htally := tally_step SetPhase.unpublished hphase
    have hold := h.appended_eq
    simp only [view, SharedStore.view] at happended hold ⊢
    omega

theorem Ordered.run (h : Ordered cfg calls store setCount s)
    (hrun : GuardedRun (calls.step cfg) (Undisturbed cfg calls) s is t) :
    Ordered cfg calls store setCount t ∧ Advances (view cfg calls s) (view cfg calls t) := by
  induction hrun with
  | nil => exact ⟨h, id⟩
  | cons hguard hstep _ ih =>
    obtain ⟨hnext, hadv⟩ := h.step hguard hstep
    obtain ⟨hlast, hadv'⟩ := ih hnext
    exact ⟨hlast, fun hx => hadv' (hadv hx)⟩

/-- **Concurrent `Set`s of one key.**  Along every interleaving the version of the key never
    goes down.  When all calls have returned, the key holds an item of highest version among
    those offered and the one it held before, `setCount` has grown by the number of calls,
    and as many operations have been queued as items were stored. -/
theorem sets_linearise
    (hrun : GuardedRun (calls.step cfg) (Undisturbed cfg calls) (launch store setCount) is s)
    (hrun' : GuardedRun (calls.step cfg) (Undisturbed cfg calls) s js t) :
    (∀ e, entry cfg s.shared.store calls.key = some e →
      ∃ e', entry cfg t.shared.store calls.key = some e' ∧ e.version ≤ e'.version) ∧
    ((∀ i, t.phase i = .done) →
      Lww.IsHighest versionOf
        (fun e => entry cfg store calls.key = some e ∨
          ∃ i, e = prepareCompressedItem cfg (calls.item i))
        (entry cfg t.shared.store calls.key) ∧
      t.shared.setCount = setCount + Int64.ofNat (Fintype.card ι) ∧
      (buffer t.shared.store (cfg.shardIndex calls.key)).head =
        (buffer store (cfg.shardIndex calls.key)).head + t.shared.installs) := by
  obtain ⟨hs, -⟩ := (ordered_launch store setCount).run hrun
  obtain ⟨ht, hadv⟩ := hs.run hrun'
  refine ⟨fun e he => ?_, fun hdone => ⟨?_, ?_, ?_⟩⟩
  · obtain ⟨e', he', hle⟩ := hadv ⟨e, he, le_refl (versionOf e)⟩
    exact ⟨e', he', Int64.le_iff_toInt_le.mpr hle⟩
  · obtain ⟨hpointed, hknows⟩ := ht.satisfies
    apply Lww.isHighest_of_reached
    · intro e he
      have hpointer := hpointed.held_eq he
      cases hp : (t.shared.view cfg calls.key).pointer with
      | initial => exact .inl (by rwa [hp] at hpointer)
      | call i =>
        rw [hp] at hpointer
        exact .inr ⟨i, (Option.some.inj hpointer).symm⟩
    · intro e he
      obtain hold | ⟨i, rfl⟩ := he
      · exact hpointed.reached_start ⟨e, hold, le_refl _⟩
      · have hi := hknows i
        rw [hdone i] at hi
        exact hi
  · rw [ht.setCount_eq, tally_const (n := 1) fun i => by rw [hdone i]; rfl, Nat.mul_one]
  · have happended := ht.appended_eq
    rw [tally_const (n := 0) fun i => by rw [hdone i]; rfl, Nat.mul_zero, Nat.add_zero] at happended
    exact happended

/-- Two calls: `false` offers version 1, `true` version 2. -/
def rivals : SetCalls Bool where
  key := ascii "k"
  key_ne_nil := by decide
  item
    | false => plainItem 1 "a"
    | true => plainItem 2 "b"

/-- Both find the key absent, `true` is too late to insert and swaps its item in. -/
def tooLate : List Bool :=
  [false, true, false, true, false, true, true, true, true, true, true, true, false, false, false]

theorem sets_linearise_tooLate :
    ∃ t, Runs (rivals.step { oneShard with maxMemoryMB := 0 }) (launch .empty 0) tooLate t ∧
      (∀ i, t.phase i = .done) ∧ t.shared.setCount = 2 := by
  obtain ⟨t, hrun, hdone⟩ : ∃ t, Runs (rivals.step { oneShard with maxMemoryMB := 0 })
      (launch .empty 0) tooLate t ∧ ∀ i, t.phase i = .done :=
    ⟨_, runs_of_exec rfl, fun i => by cases i <;> rfl⟩
  -- Without a memory limit the check lets everything pass.
  have hcalm : GuardedRun (rivals.step { oneShard with maxMemoryMB := 0 })
      (Undisturbed { oneShard with maxMemoryMB := 0 } rivals) (launch .empty 0) tooLate t :=
    hrun.mono fun s i _ _ => ⟨rfl, rfl⟩
  exact ⟨t, hrun, hdone, ((sets_linearise hcalm (.nil _)).2 hdone).2.1⟩

/-! ### A call by itself -/

variable {cfg : StoreConfig} {key : GoString} {item : StoredItem}

/-- Past the checks, a call that runs alone is `storeItemWithConflictResolution`. -/
theorem alone_of_load (s : SharedStore Unit) :
    ∃ t, Alone (setStep cfg key item ()) (s, .load) (t, .done) ∧
      t.store = s.store.storeItemWithConflictResolution cfg key (prepareCompressedItem cfg item)
        item := by
  cases hlookup : (s.store.shards (cfg.shardIndex key)).data.lookup key with
  | none =>
    have hload : s.load cfg key = none := by simp [SharedStore.load, hlookup]
    have hmiss : setStep cfg key item () s .load = some (s, .insert) := by
      simp only [setStep, hload]
    have hinsert : setStep cfg key item () s .insert =
        some (s.install cfg key () (prepareCompressedItem cfg item), .stats none) := by
      simp only [setStep, hload]
    refine ⟨_, .cons hmiss (.cons hinsert (.cons rfl (.cons rfl (.cons rfl .refl)))), ?_⟩
    simp only [storeItemWithConflictResolution, hlookup]
    rfl
  | some existing =>
    have hload : s.load cfg key = some ⟨s.pointer, existing⟩ := by
      simp [SharedStore.load, hlookup]
    simp only [storeItemWithConflictResolution, hlookup, tryUpdateExistingKey]
    split
    · rename_i hle
      have hrefuse : setStep cfg key item () s .load = some (s, .refused) := by
        simp only [setStep, hload]
        exact if_pos hle
      exact ⟨_, .cons hrefuse (.cons rfl .refl), rfl⟩
    · rename_i hle
      have hfind : setStep cfg key item () s .load =
          some (s, .recheck ⟨s.pointer, existing⟩) := by
        simp only [setStep, hload]
        exact if_neg hle
      have hrecheck : setStep cfg key item () s (.recheck ⟨s.pointer, existing⟩) =
          some (s, .swap ⟨s.pointer, existing⟩) := by simp [setStep, hload]
      have hswap : setStep cfg key item () s (.swap ⟨s.pointer, existing⟩) =
          some (s.install cfg key () (prepareCompressedItem cfg item), .stats (some existing)) := by
        simp [setStep, hload]
      exact ⟨_, .cons hfind (.cons hrecheck (.cons hswap
        (.cons rfl (.cons rfl (.cons rfl .refl))))), rfl⟩

/-- A call that runs alone is the method of the sequential store. -/
theorem runs_alone (cfg : StoreConfig) (calls : SetCalls Unit) (store : MemStorage)
    (setCount : Int64) :
    ∃ is t, Runs (calls.step cfg) (launch store setCount) is t ∧
      t.shared.store = (store.set cfg calls.key (some (calls.item ()))).1 ∧
      t.phase () = match (store.set cfg calls.key (some (calls.item ()))).2 with
        | none => .done
        | some err => .failed err := by
  rw [set_of_ne_nil calls.key_ne_nil]
  cases hroom : store.makeRoom cfg calls.key (prepareCompressedItem cfg (calls.item ())) with
  | mk room err =>
    cases err with
    | some err =>
      have hfail : setStep cfg calls.key (calls.item ()) () { store, setCount } .start =
          some ({ store := room, setCount }, .failed err) := by
        simp only [setStep, if_neg calls.key_ne_nil, hroom]
      obtain ⟨is, hrun⟩ := exists_runs_of_alone (.cons hfail .refl)
      exact ⟨is, _, hrun, rfl, rfl⟩
    | none =>
      have hpass : setStep cfg calls.key (calls.item ()) () { store, setCount } .start =
          some ({ store := room, setCount }, .load) := by
        simp only [setStep, if_neg calls.key_ne_nil, hroom]
      obtain ⟨t, halone, hstore⟩ := alone_of_load { store := room, setCount }
      obtain ⟨is, hrun⟩ := exists_runs_of_alone (.cons hpass halone)
      exact ⟨is, _, hrun, hstore, rfl⟩

end SetCalls

end GridKV
