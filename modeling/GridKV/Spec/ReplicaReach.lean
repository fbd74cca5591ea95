import GridKV.Model.Cluster
import GridKV.Spec.StoreEntries

/-!
# Do reads reach every replica?

`New` passes its replica count to the writer and to gossip but not to the reader, which
therefore walks three nodes of the ring, however many hold the key.  And the reads of one
`Get` share a deadline: a live node that does not answer keeps the others behind it from
being asked.
-/

namespace GridKV

open Go

namespace Reader

variable {reads : RemoteReads} {left : Nat} {targets : List GoString} {t : GoString}
  {item : StoredItem} {cfg : ReaderConfig} {now : Time} {s : MemStorage} {d : Nat}
  {alive : GoString → Bool} {remaining : Option Nat} {key : GoString}

/-- A read of the node returns a live item. -/
def Answers (reads : RemoteReads) (t : GoString) (item : StoredItem) : Prop :=
  reads.fetch t = some (some item) ∧ ¬item.isTombstone ∧ item.value.length ≠ 0

/-- How long reads of some nodes take one after the other; `none` if one never returns. -/
def totalDelay (delay : GoString → Option Nat) : List GoString → Option Nat
  | [] => some 0
  | t :: ts => (delay t).bind fun d => (totalDelay delay ts).map (d + ·)

/-- The nodes asked before `t` let the loop come to `t` before the time is up. -/
def InTime (delay : GoString → Option Nat) (left : Nat) (targets : List GoString)
    (t : GoString) : Prop :=
  ∃ d, totalDelay delay (targets.takeWhile (· ≠ t)) = some d ∧ d < left

/-! ### The loop -/

/-- Once the time is up nothing is found. -/
theorem firstLiveWithin_zero (reads : RemoteReads) (targets : List GoString) :
    firstLiveWithin reads 0 targets = none := by
  induction targets with
  | nil => rfl
  | cons target targets ih =>
    unfold firstLiveWithin
    cases reads.delay target with
    | none => exact ih
    | some d =>
      dsimp only
      rw [if_neg (Nat.not_lt_zero d)]
      exact ih

/-- A node that is asked and has no live item costs the time it takes. -/
theorem firstLiveWithin_cons (targets : List GoString) (hdelay : reads.delay t = some d)
    (hlt : d < left) :
    (∃ item, Answers reads t item ∧ firstLiveWithin reads left (t :: targets) = some item) ∨
      (∀ item, ¬Answers reads t item) ∧
        firstLiveWithin reads left (t :: targets) = firstLiveWithin reads (left - d) targets := by
  simp only [firstLiveWithin, hdelay, if_pos hlt]
  split
  · rename_i item hfetch
    split
    · rename_i hlive
      exact .inl ⟨item, ⟨hfetch, hlive⟩, rfl⟩
    · rename_i hlive
      refine .inr ⟨fun item' h => hlive ?_, rfl⟩
      obtain rfl : item = item' := Option.some.inj (Option.some.inj (hfetch.symm.trans h.1))
      exact h.2
  · rename_i hfetch
    exact .inr ⟨fun item h => hfetch item h.1, rfl⟩

theorem inTime_cons_self (hleft : 0 < left) : InTime reads.delay left (t :: targets) t :=
  ⟨0, by simp [totalDelay], hleft⟩

theorem inTime_cons_of_ne {target : GoString} (hne : target ≠ t) :
    InTime reads.delay left (target :: targets) t ↔
      ∃ d, reads.delay target = some d ∧ d < left ∧
        InTime reads.delay (left - d) targets t := by
  have hbefore : (target :: targets).takeWhile (· ≠ t) =
      target :: targets.takeWhile (· ≠ t) := by
    simp [hne]
  simp only [InTime, hbefore, totalDelay, Option.bind_eq_some_iff, Option.map_eq_some_iff]
  constructor
  · rintro ⟨total, ⟨d, hd, rest, hrest, rfl⟩, hlt⟩
    exact ⟨d, hd, by omega, rest, hrest, by omega⟩
  · rintro ⟨d, hd, hlt, rest, hrest, hlt'⟩
    exact ⟨d + rest, ⟨d, hd, rest, hrest, rfl⟩, by omega⟩

/-- A node that answers at once and whose turn comes in time makes the read succeed. -/
theorem exists_firstLiveWithin (hmem : t ∈ targets) (hzero : reads.delay t = some 0)
    (hanswers : Answers reads t item) (htime : InTime reads.delay left targets t) :
    ∃ t' item', Answers reads t' item' ∧ firstLiveWithin reads left targets = some item' := by
  induction targets generalizing left with
  | nil => exact nomatch hmem
  | cons target targets ih =>
    by_cases htarget : target = t
    · subst htarget
      obtain ⟨d, -, hlt⟩ := htime
      obtain ⟨item', h, hfound⟩ | ⟨hnone, -⟩ :=
        firstLiveWithin_cons targets hzero (Nat.lt_of_le_of_lt (Nat.zero_le d) hlt)
      · exact ⟨target, item', h, hfound⟩
      · exact absurd hanswers (hnone item)
    · obtain ⟨d, hd, hlt, hrest⟩ := (inTime_cons_of_ne htarget).mp htime
      have hmem' : t ∈ targets := (List.mem_cons.mp hmem).resolve_left (Ne.symm htarget)
      obtain ⟨item', h, hfound⟩ | ⟨-, hnext⟩ :=
        firstLiveWithin_cons targets hd hlt
      · exact ⟨target, item', h, hfound⟩
      · rw [hnext]
        exact ih hmem' hrest

/-- A read that succeeds has found a node that answers, in time. -/
theorem of_firstLiveWithin_eq_some (h : firstLiveWithin reads left targets = some item) :
    ∃ t ∈ targets, Answers reads t item ∧ InTime reads.delay left targets t := by
  induction targets generalizing left with
  | nil => exact nomatch h
  | cons target targets ih =>
    cases hdelay : reads.delay target with
    | none =>
      simp only [firstLiveWithin, hdelay, firstLiveWithin_zero] at h
      exact nomatch h
    | some d =>
      by_cases hlt : d < left
      · obtain ⟨item', hanswers, hfound⟩ | ⟨hnone, hnext⟩ :=
          firstLiveWithin_cons targets hdelay hlt
        · obtain rfl : item' = item := Option.some.inj (hfound.symm.trans h)
          exact ⟨target, List.mem_cons_self, hanswers,
            inTime_cons_self (Nat.lt_of_le_of_lt (Nat.zero_le d) hlt)⟩
        · rw [hnext] at h
          obtain ⟨t, ht, hanswers, htime⟩ := ih h
          have hne : target ≠ t := by
            rintro rfl
            exact hnone item hanswers
          exact ⟨t, List.mem_cons_of_mem _ ht, hanswers,
            (inTime_cons_of_ne hne).mpr ⟨d, hdelay, hlt, htime⟩⟩
      · simp only [firstLiveWithin, hdelay, if_neg hlt, firstLiveWithin_zero] at h
        exact nomatch h

/-- When every read is back in time, the clock makes no difference. -/
theorem firstLiveWithin_eq_firstLive (htotal : totalDelay reads.delay targets = some d)
    (hlt : d < left) : firstLiveWithin reads left targets = firstLive reads.fetch targets := by
  induction targets generalizing left d with
  | nil => rfl
  | cons target targets ih =>
    obtain ⟨d₁, hdelay, hrest⟩ := Option.bind_eq_some_iff.mp htotal
    obtain ⟨d₂, hrest₂, rfl⟩ := Option.map_eq_some_iff.mp hrest
    have hasked : d₁ < left := by omega
    have hnext : firstLiveWithin reads (left - d₁) targets = firstLive reads.fetch targets :=
      ih hrest₂ (by omega)
    cases hfetch : reads.fetch target with
    | none => simp only [firstLiveWithin, firstLive, hdelay, if_pos hasked, hnext, hfetch]
    | some found =>
      cases found with
      | none | some => simp only [firstLiveWithin, firstLive, hdelay, if_pos hasked, hnext, hfetch]

/-- A read whose remote reads are all back in time is `Reader.get`. -/
theorem getWithin_eq_get
    (htotal : totalDelay reads.delay ((cfg.ring.getN key cfg.replicaCount).filter fun target =>
      target ≠ cfg.nodeID ∧ alive target) = some d) (hlt : d < readTimeout remaining) :
    getWithin cfg now s alive reads remaining key = get cfg now s alive reads.fetch key := by
  have hloop := firstLiveWithin_eq_firstLive htotal hlt
  cases hget : s.get cfg.store now key with
  | mk s' found =>
    cases found with
    | ok item => simp only [getWithin, get, hget]
    | error err => simp only [getWithin, get, hget, hloop]

/-- Without a local entry the read goes to the live replicas. -/
theorem getWithin_of_absent (hkey : key ≠ []) (h : s.entry cfg.store key = none) :
    (getWithin cfg now s alive reads remaining key).2 =
      .ok (firstLiveWithin reads (readTimeout remaining)
        ((cfg.ring.getN key cfg.replicaCount).filter fun t => t ≠ cfg.nodeID ∧ alive t)) := by
  have hread : s.getNoCopy cfg.store now key = (s, .error .notFound) := by
    unfold MemStorage.entry at h
    simp [MemStorage.getNoCopy, hkey, h]
  simp [getWithin, MemStorage.get, hread]

end Reader

/-! ### Replicas and reads -/

namespace Config

variable {cfg : Config} {now : Time} {s : MemStorage} {alive : GoString → Bool}
  {delay : GoString → Option Nat} {remaining : Option Nat} {key t : GoString}

/-- The nodes the reader asks about a key, in this order. -/
def asked (cfg : Config) (alive : GoString → Bool) (key : GoString) : List GoString :=
  (cfg.ring.getN key 3).filter fun target => target ≠ cfg.nodeID ∧ alive target

/-- Another node that is a replica of the key, alive, and quick to answer.  The store takes
    no empty key, so no node has anything to answer about that one. -/
structure PromptReplica (cfg : Config) (alive : GoString → Bool) (delay : GoString → Option Nat)
    (key t : GoString) : Prop where
  key_ne_nil : key ≠ []
  mem_replicas : t ∈ cfg.writer.replicas key
  ne_nodeID : t ≠ cfg.nodeID
  alive : alive t
  delay_eq : delay t = some 0

/-- Whatever the nodes hold, a read returns something if one of the replicas that answer at
    once has a live item. -/
def ReachesReplicas (cfg : Config) (now : Time) (s : MemStorage) (alive : GoString → Bool)
    (delay : GoString → Option Nat) (remaining : Option Nat) (key : GoString) : Prop :=
  ∀ fetch t item, cfg.PromptReplica alive delay key t → Reader.Answers ⟨delay, fetch⟩ t item →
    ∃ value, (cfg.get now s alive ⟨delay, fetch⟩ remaining key).2 = .ok value ∧ value ≠ []

/-- Without a local entry, a read returns a value exactly when the loop finds one. -/
theorem get_eq_ok_iff {reads : RemoteReads} (hkey : key ≠ [])
    (habsent : s.entry cfg.store key = none) :
    (∃ value, (cfg.get now s alive reads remaining key).2 = .ok value ∧ value ≠ []) ↔
      ∃ item, Reader.firstLiveWithin reads (Reader.readTimeout remaining)
        (cfg.asked alive key) = some item := by
  have hread : (Reader.getWithin cfg.reader now s alive reads remaining key).2 =
      .ok (Reader.firstLiveWithin reads (Reader.readTimeout remaining) (cfg.asked alive key)) :=
    Reader.getWithin_of_absent hkey habsent
  generalize hfound : Reader.firstLiveWithin reads _ _ = found at hread
  have hget : (cfg.get now s alive reads remaining key).2 =
      .ok ((found.map (·.value)).getD []) := by
    unfold get
    split <;> rename_i hout <;> rw [hout] at hread
    · exact nomatch hread
    · cases hread
      rfl
    · cases hread
      rfl
  cases found with
  | none => simp [hget]
  | some item =>
    obtain ⟨t, -, hanswers, -⟩ := Reader.of_firstLiveWithin_eq_some hfound
    have hvalue : item.value ≠ [] := by simpa using hanswers.2.2
    simp [hget, hvalue]

/-- Reads reach the replicas of a key exactly when each of them that would answer at once is
    among the three nodes the reader knows of and the live ones before it are through in
    time. -/
theorem reachesReplicas_iff (habsent : s.entry cfg.store key = none) :
    cfg.ReachesReplicas now s alive delay remaining key ↔
      ∀ t, cfg.PromptReplica alive delay key t →
        t ∈ cfg.ring.getN key 3 ∧
          Reader.InTime delay (Reader.readTimeout remaining) (cfg.asked alive key) t := by
  constructor
  · intro h t ht
    -- Only `t` holds the key.
    let held : StoredItem := { version := 1, expireAt := zeroTime, value := [0], key }
    let fetch (target : GoString) : Option (Option StoredItem) :=
      if target = t then some (some held) else some none
    have hself : Reader.Answers ⟨delay, fetch⟩ t held := by
      refine ⟨if_pos rfl, ?_, ?_⟩ <;> simp [held, StoredItem.isTombstone]
    obtain ⟨item, hfound⟩ := (get_eq_ok_iff ht.key_ne_nil habsent).mp (h fetch t held ht hself)
    obtain ⟨t', hmem, hanswers, htime⟩ := Reader.of_firstLiveWithin_eq_some hfound
    have ht' : t' = t := by
      by_contra hne
      have hnone : fetch t' = some none := if_neg hne
      exact nomatch hnone.symm.trans hanswers.1
    subst ht'
    exact ⟨(List.mem_filter.mp hmem).1, htime⟩
  · intro h fetch t item ht hanswers
    obtain ⟨hmem, htime⟩ := h t ht
    have hasked : t ∈ cfg.asked alive key :=
      List.mem_filter.mpr ⟨hmem, decide_eq_true ⟨ht.ne_nodeID, ht.alive⟩⟩
    obtain ⟨-, item', -, hfound⟩ :=
      Reader.exists_firstLiveWithin hasked ht.delay_eq hanswers htime
    exact (get_eq_ok_iff ht.key_ne_nil habsent).mpr ⟨item', hfound⟩

/-- The first of four nodes with the given replica count. -/
def quartet (replicaCount : Int) : Config where
  nodeID := ascii "n1"
  store := oneShard
  ring :=
    { hashHi := fun _ => 0
      nodes := [⟨0, ascii "n1"⟩, ⟨1, ascii "n2"⟩, ⟨2, ascii "n3"⟩, ⟨3, ascii "n4"⟩]
      sorted := by decide }
  replicaCount := replicaCount
  batchThreshold := 200

/-- With three replicas that all answer at once, every replica is reached. -/
theorem three_replicas_reached :
    (quartet 3).ReachesReplicas 0 .empty (fun _ => true) (fun _ => some 0) none (ascii "k") := by
  refine (reachesReplicas_iff rfl).mpr fun t ht => ⟨ht.mem_replicas, ?_⟩
  have hthree : t ∈ [ascii "n1", ascii "n2", ascii "n3"] := ht.mem_replicas
  simp only [List.mem_cons, List.not_mem_nil, or_false] at hthree
  obtain rfl | rfl | rfl := hthree
  · exact absurd rfl ht.ne_nodeID
  · exact ⟨0, by decide, by decide⟩
  · exact ⟨0, by decide, by decide⟩

/-- With four replicas, of which the second and the third are dead, a read finds nothing
    though the fourth has the key and answers at once. -/
theorem fourth_replica_not_reached :
    ¬ ∀ (cfg : Config) (now : Time) (s : MemStorage) (alive : GoString → Bool)
      (delay : GoString → Option Nat) (remaining : Option Nat) (key : GoString),
      s.entry cfg.store key = none → cfg.ReachesReplicas now s alive delay remaining key := by
  intro hall
  obtain ⟨value, hget, hvalue⟩ := hall (quartet 4) 0 .empty (fun t => t = ascii "n4")
    (fun _ => some 0) none (ascii "k") rfl (fun _ => some (some (plainItem 1 "x"))) (ascii "n4")
    (plainItem 1 "x") ⟨by decide, by decide, by decide, by decide, rfl⟩
    ⟨rfl, by decide, by decide⟩
  have hnil : ((quartet 4).get 0 .empty (fun t => t = ascii "n4")
      ⟨fun _ => some 0, fun _ => some (some (plainItem 1 "x"))⟩ none (ascii "k")).2 = .ok [] := by
    decide
  exact hvalue (Except.ok.inj (hget.symm.trans hnil))

end Config

end GridKV
