import GridKV.Spec.ConcurrentSets

/-!
# Does expiry destroy a live write?

A `Set` of a newer item runs while another call removes the expired entry of the key.
That call looks at the entry first and deletes by key afterwards: `Delete` and
`LoadAndDelete` remove whatever the map holds by then.  The new item survives exactly the
runs in which the deletion does not come after it was stored (`holds_iff_guardedRun`).
-/

namespace GridKV

open Go Run MemStorage Interleave

/-- A `Set` of an item, and a call that removes what has expired at `now`. -/
structure RaceConfig where
  store : StoreConfig
  key : GoString
  key_ne_nil : key ≠ []
  item : StoredItem
  call : ExpiringCall
  now : Time

/-- The two calls and the store they share. -/
structure ExpiryRace where
  shared : SharedStore Unit
  setter : SetPhase Unit := .start
  expirer : ExpiryPhase := .load

/-- A read that is not interrupted. -/
theorem alone_expiryStep {ι : Type} {cfg : StoreConfig} {key : GoString} {call : ExpiringCall}
    {now : Time} (hreads : call ≠ .cleanExpired) (x : SharedStore ι) :
    Alone (expiryStep cfg key call now) (x, .load)
      ({ x with store := x.store.afterRead cfg (call.expired now) key }, .done) := by
  simp only [afterRead, entry]
  cases hlookup : (x.store.shards (cfg.shardIndex key)).data.lookup key with
  | none => exact .single (by simp [expiryStep, SharedStore.load, hlookup])
  | some e =>
    by_cases hexpired : call.expired now e
    · have hdelete : expiryStep cfg key call now x .delete =
          some ({ x with store := x.store.erase (cfg.shardIndex key) key },
            .uncount { keys := -1 }) := by
        cases call with
        | cleanExpired => exact absurd rfl hreads
        | _ => rfl
      have hload : expiryStep cfg key call now x .load = some (x, .delete) := by
        simp [expiryStep, SharedStore.load, hlookup, hexpired]
      simp only [if_pos hexpired]
      exact .cons hload (.cons hdelete (.cons rfl (.cons rfl .refl)))
    · have hload : expiryStep cfg key call now x .load = some (x, .touch) := by
        simp [expiryStep, SharedStore.load, hlookup, hexpired, hreads]
      simp only [if_neg hexpired]
      exact .cons hload (.cons rfl .refl)

namespace ExpiryRace

/-- Who takes the next step. -/
inductive Mover where
  | setter
  | expirer
  deriving DecidableEq, Repr

variable (cfg : RaceConfig)

def step (r : ExpiryRace) : Mover → Option ExpiryRace
  | .setter =>
    (setStep cfg.store cfg.key cfg.item () r.shared r.setter).map fun out =>
      { r with shared := out.1, setter := out.2 }
  | .expirer =>
    (expiryStep cfg.store cfg.key cfg.call cfg.now r.shared r.expirer).map fun out =>
      { r with shared := out.1, expirer := out.2 }

/-- The entry of the key. -/
def held (r : ExpiryRace) : Option CompressedItem := entry cfg.store r.shared.store cfg.key

/-- The entry the `Set` stores. -/
def fresh : CompressedItem := prepareCompressedItem cfg.store cfg.item

/-- A deletion finds something else than the new item. -/
def DeletesBefore (r : ExpiryRace) : Mover → Prop
  | .setter => True
  | .expirer =>
    match r.expirer with
    | .delete => held cfg r ≠ some (fresh cfg)
    | _ => True

/-- The `Set` has put its item into the map. -/
def stored : SetPhase Unit → Bool
  | .stats _ | .touch | .publish | .done => true
  | _ => false

/-- The call is past the deletion, or has none to make. -/
def passed : ExpiryPhase → Bool
  | .load | .delete => false
  | _ => true

/-- As long as no deletion came too late: the key holds the old entry or none until the
    `Set` has stored its item, and from then on the new one. -/
def InTime (old fresh : CompressedItem) (held : Option CompressedItem) (p : SetPhase Unit) : Prop :=
  p ≠ .refused ∧
    if stored p then held = some fresh else held = none ∨ held = some old

/-- The deletion has come too late: the key is gone, and nobody will store it again. -/
def Lost (r : ExpiryRace) : Prop :=
  stored r.setter ∧ held cfg r = none ∧ passed r.expirer

variable {cfg} {old : CompressedItem} {r t : ExpiryRace} {a : Mover} {as : List Mover}

/-! ### Steps of the `Set` -/

theorem setMove_of_setter (hstart : r.setter ≠ .start) (h : r.step cfg .setter = some t) :
    SetMove (fresh cfg) () (r.shared.view cfg.store cfg.key) r.setter
      (t.shared.view cfg.store cfg.key) t.setter ∧ t.expirer = r.expirer := by
  obtain ⟨⟨shared, q⟩, hset, rfl⟩ := Option.map_eq_some_iff.mp h
  exact ⟨setMove_of_setStep cfg.key_ne_nil (fun hp => absurd hp hstart) hset, rfl⟩

/-- The checks can at most evict the old entry. -/
theorem setter_of_start (hstart : r.setter = .start) (h : r.step cfg .setter = some t) :
    (held cfg t = none ∨ held cfg t = held cfg r) ∧ t.setter ≠ .refused ∧
      stored t.setter = false := by
  obtain ⟨⟨shared, q⟩, hset, rfl⟩ := Option.map_eq_some_iff.mp h
  have hkept : ∀ room, (r.shared.store.makeRoom cfg.store cfg.key (fresh cfg)).1 = room →
      entry cfg.store room cfg.key = none ∨
        entry cfg.store room cfg.key = entry cfg.store r.shared.store cfg.key := by
    intro room hroom
    have hremoves := removes_makeRoom cfg.store r.shared.store cfg.key (fresh cfg)
    cases hentry : entry cfg.store room cfg.key with
    | none => exact .inl rfl
    | some e => exact .inr (hremoves.entry_of_entry (hroom ▸ hentry)).symm
  rw [hstart] at hset
  simp only [setStep, if_neg cfg.key_ne_nil] at hset
  split at hset
  · rename_i room err hroom
    cases hset
    refine ⟨hkept room (congrArg Prod.fst hroom), fun h => ?_, rfl⟩
    cases h
  · rename_i room hroom
    cases hset
    refine ⟨hkept room (congrArg Prod.fst hroom), fun h => ?_, rfl⟩
    cases h

theorem inTime_of_setMove {new : CompressedItem} {v w : KeyView Unit} {p q : SetPhase Unit}
    (hmove : SetMove new () v p w q) (hversion : old.version < new.version)
    (h : InTime old new v.held p) : InTime old new w.held q := by
  obtain ⟨hp, hheld⟩ := h
  cases hmove with
  | check | miss | find | retryInsert | retryRecheck | retrySwap | recheck =>
    exact ⟨nofun, hheld⟩
  | refuse hold hle =>
    -- The old entry is older than the new one, so it cannot be refused.
    obtain hnone | hsome := hheld
    · exact nomatch hold.symm.trans hnone
    · cases hold.symm.trans hsome
      exact absurd hle (Int64.not_le.mpr hversion)
  | insert | swap => exact ⟨nofun, rfl⟩
  | countRefused => exact absurd rfl hp
  | countStored | touch | publish => exact ⟨nofun, hheld⟩

theorem inTime_setter (hversion : old.version < (fresh cfg).version)
    (h : InTime old (fresh cfg) (held cfg r) r.setter) (hstep : r.step cfg .setter = some t) :
    InTime old (fresh cfg) (held cfg t) t.setter := by
  by_cases hstart : r.setter = .start
  · obtain ⟨hheld, hrefused, hstored⟩ := setter_of_start hstart hstep
    have hbefore : held cfg r = none ∨ held cfg r = some old := by
      rw [hstart] at h
      exact h.2
    refine ⟨hrefused, ?_⟩
    rw [hstored]
    obtain hnone | hsame := hheld
    · exact .inl hnone
    · rw [hsame]
      exact hbefore
  · exact inTime_of_setMove (setMove_of_setter hstart hstep).1 hversion h

theorem Lost.setter (h : Lost cfg r) (hstep : r.step cfg .setter = some t) : Lost cfg t := by
  obtain ⟨hstored, hheld, hpassed⟩ := h
  have hstart : r.setter ≠ .start := by
    intro hp
    rw [hp] at hstored
    exact nomatch hstored
  obtain ⟨hmove, hexpirer⟩ := setMove_of_setter hstart hstep
  rw [Lost, hexpirer]
  have hkept : ∀ {v w : KeyView Unit} {p q}, SetMove (fresh cfg) () v p w q → stored p = true →
      stored q = true ∧ w.held = v.held := by
    intro v w p q hmove hp
    cases hmove with
    | countStored | touch | publish => exact ⟨rfl, rfl⟩
    | check | miss | refuse | find | retryInsert | retryRecheck | retrySwap | recheck | insert
      | swap | countRefused => exact nomatch hp
  obtain ⟨hstored', hheld'⟩ := hkept hmove hstored
  exact ⟨hstored', hheld'.trans hheld, hpassed⟩

/-! ### Steps of the other call -/

/-- The call leaves the entry alone except for the deletion, after which the key is gone. -/
theorem expirer_cases (hstep : r.step cfg .expirer = some t) :
    t.setter = r.setter ∧
      (r.expirer = .delete ∧ held cfg t = none ∧ passed t.expirer ∨
        r.expirer ≠ .delete ∧ held cfg t = held cfg r ∧
          (passed r.expirer → passed t.expirer)) := by
  obtain ⟨⟨shared, q⟩, hexpire, rfl⟩ := Option.map_eq_some_iff.mp hstep
  refine ⟨rfl, ?_⟩
  dsimp only [held]
  cases hphase : r.expirer with
  | load =>
    refine .inr ⟨nofun, ?_, nofun⟩
    rw [hphase] at hexpire
    simp only [expiryStep] at hexpire
    split at hexpire
    · obtain ⟨rfl, -⟩ := Prod.mk.inj (Option.some.inj hexpire)
      rfl
    · repeat' split at hexpire
      all_goals
        obtain ⟨rfl, -⟩ := Prod.mk.inj (Option.some.inj hexpire)
        rfl
  | delete =>
    refine .inl ⟨rfl, ?_⟩
    have hgone : entry cfg.store (r.shared.store.erase (cfg.store.shardIndex cfg.key) cfg.key)
        cfg.key = none := by
      rw [entry_erase, if_pos ⟨rfl, rfl⟩]
    rw [hphase] at hexpire
    simp only [expiryStep] at hexpire
    split at hexpire
    · -- `LoadAndDelete` of `cleanExpired`, which may find nothing
      split at hexpire
      · rename_i hload
        cases hexpire
        exact ⟨Option.map_eq_none_iff.mp hload, rfl⟩
      · cases hexpire
        exact ⟨hgone, rfl⟩
    all_goals
      cases hexpire
      exact ⟨hgone, rfl⟩
  | uncount change =>
    rw [hphase] at hexpire
    cases hexpire
    exact .inr ⟨nofun, entry_addStats _ _ _, id⟩
  | unlink =>
    rw [hphase] at hexpire
    cases hexpire
    exact .inr ⟨nofun, entry_removeFromLRU _ _ _, id⟩
  | touch =>
    rw [hphase] at hexpire
    cases hexpire
    exact .inr ⟨nofun, entry_touchLRU _ _ _, id⟩
  | done =>
    rw [hphase] at hexpire
    exact nomatch hexpire

/-! ### Runs -/

theorem inTime_step (hversion : old.version < (fresh cfg).version)
    (h : InTime old (fresh cfg) (held cfg r) r.setter) (hguard : DeletesBefore cfg r a)
    (hstep : r.step cfg a = some t) : InTime old (fresh cfg) (held cfg t) t.setter := by
  cases a with
  | setter => exact inTime_setter hversion h hstep
  | expirer =>
    obtain ⟨hsetter, ⟨hdelete, hgone, -⟩ | ⟨-, hsame, -⟩⟩ := expirer_cases hstep
    · rw [hsetter, hgone]
      refine ⟨h.1, ?_⟩
      -- The new item is not there yet, so the `Set` has not stored it.
      simp only [DeletesBefore, hdelete] at hguard
      split
      · rename_i hstored
        have hnew := h.2
        rw [if_pos hstored] at hnew
        exact absurd hnew hguard
      · exact .inl rfl
    · rw [hsetter, hsame]
      exact h

theorem lost_step (h : InTime old (fresh cfg) (held cfg r) r.setter)
    (hversion : old.version < (fresh cfg).version) (hlate : ¬ DeletesBefore cfg r a)
    (hstep : r.step cfg a = some t) : Lost cfg t := by
  cases a with
  | setter => exact absurd trivial hlate
  | expirer =>
    obtain ⟨hsetter, ⟨hdelete, hgone, hpassed⟩ | ⟨hother, -⟩⟩ := expirer_cases hstep
    · simp only [DeletesBefore, hdelete, not_not] at hlate
      refine ⟨?_, hgone, hpassed⟩
      rw [hsetter]
      by_contra hstored
      have hbefore := h.2
      rw [if_neg hstored, hlate] at hbefore
      obtain hnone | hsame := hbefore
      · exact nomatch hnone
      · rw [Option.some.inj hsame] at hversion
        exact Int64.lt_irrefl hversion
    · -- Nothing else is guarded.
      refine absurd ?_ hlate
      unfold DeletesBefore
      dsimp only
      split
      · rename_i hdelete
        exact absurd hdelete hother
      · trivial

theorem Lost.step (h : Lost cfg r) (hstep : r.step cfg a = some t) : Lost cfg t := by
  cases a with
  | setter => exact h.setter hstep
  | expirer =>
    obtain ⟨hsetter, ⟨hdelete, -⟩ | ⟨-, hsame, hpassed⟩⟩ := expirer_cases hstep
    · have := h.2.2
      rw [hdelete] at this
      exact nomatch this
    · exact ⟨hsetter ▸ h.1, hsame.trans h.2.1, hpassed h.2.2⟩

/-- **Expiry and a live write.**  The key holds an entry; a `Set` of a newer item and a call
    that removes expired entries run concurrently.  Once the `Set` has returned, and so also
    when both have, the key holds the new item exactly if the call has not deleted it: if the
    call's deletion, when it made one, found something else in the map. -/
theorem holds_iff_guardedRun {store : MemStorage} {old : CompressedItem}
    (hold : entry cfg.store store cfg.key = some old) (hnewer : old.version < cfg.item.version)
    (hrun : Runs (step cfg) { shared := { store } } as t) (hset : t.setter = .done) :
    entry cfg.store t.shared.store cfg.key = some (prepareCompressedItem cfg.store cfg.item) ↔
      GuardedRun (step cfg) (DeletesBefore cfg) { shared := { store } } as t := by
  have hstart : InTime old (fresh cfg) (held cfg { shared := { store } }) .start :=
    ⟨nofun, .inr hold⟩
  constructor
  · -- Once the item is lost it stays lost, but at the end it is there.
    intro hheld
    refine guardedRun_of_not_bad (fun r => InTime old (fresh cfg) (held cfg r) r.setter) (Lost cfg)
      (fun r a t h hstep => ?_) (fun _ _ _ h hstep => h.step hstep) hrun hstart
      fun hlost => nomatch hlost.2.1.symm.trans hheld
    exact ⟨fun hguard => inTime_step hnewer h hguard hstep,
      fun hlate => lost_step h hnewer hlate hstep⟩
  · intro hguarded
    have hend := hguarded.invariant (I := fun r => InTime old (fresh cfg) (held cfg r) r.setter)
      (fun r a t h hguard hstep => inTime_step hnewer h hguard hstep) hstart
    rw [hset] at hend
    exact hend.2

/-- A store whose only entry has expired by the time 2. -/
def expiredStore : MemStorage :=
  (MemStorage.empty.set oneShard (ascii "k") (some { plainItem 1 "a" with expireAt := 1 })).1

/-- A `Set` of version 2 against a call at time 2. -/
def newerSet (call : ExpiringCall) : RaceConfig where
  store := oneShard
  key := ascii "k"
  key_ne_nil := SetCalls.rivals.key_ne_nil
  item := plainItem 2 "b"
  call
  now := 2

/-- The call looks at the entry after the `Set` has returned. -/
theorem holds_after_set : ∃ t,
    Runs (step (newerSet .get)) { shared := { store := expiredStore } }
      (List.replicate 7 .setter ++ [.expirer, .expirer]) t ∧
      entry oneShard t.shared.store (ascii "k") =
        some (prepareCompressedItem oneShard (plainItem 2 "b")) := by
  have hguarded : ∃ t : ExpiryRace,
      GuardedRun (step (newerSet .get)) (DeletesBefore (newerSet .get))
        { shared := { store := expiredStore } }
        (List.replicate 7 Mover.setter ++ [Mover.expirer, Mover.expirer]) t ∧ t.setter = .done :=
    ⟨_, .cons trivial rfl (.cons trivial rfl (.cons trivial rfl (.cons trivial rfl
      (.cons trivial rfl (.cons trivial rfl (.cons trivial rfl (.cons trivial rfl
        (.cons trivial rfl (.nil _))))))))), rfl⟩
  obtain ⟨t, hrun, hset⟩ := hguarded
  have hruns := hrun.runs
  exact ⟨t, hruns, (holds_iff_guardedRun rfl (by decide) hruns hset).mpr hrun⟩

/-- Whichever the call: it finds the expired entry, the `Set` replaces it and returns, and
    the call deletes the new one. -/
theorem gone_after_late_deletion (call : ExpiringCall) : ∃ t : ExpiryRace,
    Runs (step (newerSet call)) { shared := { store := expiredStore } }
        (Mover.expirer ::
          (List.replicate 7 Mover.setter ++ [Mover.expirer, Mover.expirer, Mover.expirer])) t ∧
      t.setter = .done ∧ t.expirer = .done ∧ entry oneShard t.shared.store (ascii "k") = none := by
  cases call <;> exact ⟨_, runs_of_exec rfl, rfl, rfl, by decide⟩

/-- A `Get` whose deletion comes too late. -/
theorem not_holds_after_late_deletion : ∃ t old,
    entry oneShard expiredStore (ascii "k") = some old ∧ ExpiringCall.get.expired 2 old = true ∧
      old.version < 2 ∧
      ExpiringCall.get.expired 2 (prepareCompressedItem oneShard (plainItem 2 "b")) = false ∧
      Runs (step (newerSet .get)) { shared := { store := expiredStore } }
        (.expirer :: (List.replicate 7 .setter ++ [.expirer, .expirer, .expirer])) t ∧
      t.setter = .done ∧ t.expirer = .done ∧ entry oneShard t.shared.store (ascii "k") = none := by
  obtain ⟨t, hrun, hset, hexpirer, hgone⟩ := gone_after_late_deletion .get
  exact ⟨t, _, rfl, by decide, by decide, by decide, hrun, hset, hexpirer, hgone⟩

end ExpiryRace

end GridKV
