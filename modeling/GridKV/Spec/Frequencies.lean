import GridKV.ForStd.AgedCount
import GridKV.Model.TinyLFU

/-!
# Frequency estimates

A cell of the sketch is the aged count of the keys that hash to it, as long as no counter
can reach its limit (`counts_run`).  The estimate of a key is the least of its cells, so it
is at least the aged count of the key, and at most that of all keys together.
-/

namespace GridKV

open Go AgedCount List

namespace CountMinSketch

variable {width depth : UInt32} [NeZero width.toNat] {sum64 : GoString → UInt64}
  {cms : CountMinSketch width depth} {key : GoString} (ops : List (Event GoString)) {n : Nat}
  (op : Event GoString)

/-- What is done with the sketch: a key is incremented, or all counters are halved. -/
def perform (sum64 : GoString → UInt64) (cms : CountMinSketch width depth) :
    Event GoString → CountMinSketch width depth
  | .hit key => cms.increment sum64 key
  | .halve => cms.reset

/-- A sequence of operations. -/
def run (sum64 : GoString → UInt64) (cms : CountMinSketch width depth)
    (ops : List (Event GoString)) : CountMinSketch width depth :=
  ops.foldl (perform sum64) cms

theorem run_concat : cms.run sum64 (ops ++ [op]) = (cms.run sum64 ops).perform sum64 op :=
  foldl_concat ..

/-! ### The cells -/

theorem seed_perform : (cms.perform sum64 op).seed = cms.seed := by
  cases op <;> rfl

theorem seed_run : (cms.run sum64 ops).seed = cms.seed := by
  induction ops using reverseRecOn with
  | nil => rfl
  | append_singleton ops op ih => rw [run_concat, seed_perform, ih]

/-- The cells do not move. -/
theorem index_run (h1 : UInt64) (i : Nat) : (cms.run sum64 ops).index h1 i = cms.index h1 i := by
  unfold index
  rw [seed_run]

theorem toNat_bump {count : UInt64} (h : count.toNat + 1 < 2 ^ 64) :
    (bump count).toNat = count.toNat + 1 := by
  have hlimit : count < 0xFFFFFFFFFFFFFFFF := by
    rw [UInt64.lt_iff_toNat_lt]
    show count.toNat < 2 ^ 64 - 1
    omega
  rw [bump, if_pos hlimit, UInt64.toNat_add]
  exact Nat.mod_eq_of_lt h

/-- An operation counts in a cell what is counted there. -/
theorem counts_perform (i : Fin depth.toNat) (j : Fin width.toNat)
    (h : ((cms.counts.get i).get j).toNat + 1 < 2 ^ 64) :
    (((cms.perform sum64 op).counts.get i).get j).toNat =
      tick (fun key => cms.index (sum64 key) i = j) ((cms.counts.get i).get j).toNat op := by
  rw [Vector.get_eq_getElem, Vector.get_eq_getElem] at h ⊢
  cases op with
  | hit key =>
    simp only [perform, increment, tick, Vector.get_eq_getElem, Vector.getElem_ofFn,
      Fin.getElem_fin, Vector.getElem_set, Fin.val_inj]
    split
    · rename_i hcell
      subst hcell
      exact toNat_bump h
    · rfl
  | halve =>
    simp only [perform, reset, tick, Vector.get_eq_getElem, Vector.getElem_map,
      UInt64.toNat_shiftRight]
    exact Nat.shiftRight_one _

/-- The cells after fewer than `2⁶⁴` operations on a new sketch. -/
theorem counts_run (hops : ops.length < 2 ^ 64) (i : Fin depth.toNat) (j : Fin width.toNat) :
    ((((new width depth).run sum64 ops).counts.get i).get j).toNat =
      aged (fun key => (new width depth).index (sum64 key) i = j) ops := by
  induction ops using reverseRecOn with
  | nil => simp [run, new, aged]
  | append_singleton ops op ih =>
    rw [length_append, length_singleton] at hops
    have hcell := ih (by omega)
    have hsmall := aged_le_length (p := fun key => (new width depth).index (sum64 key) i = j) ops
    rw [run_concat, counts_perform op i j (by omega), aged_concat, hcell]
    simp only [index_run]

/-! ### The estimate -/

/-- The loop of `Estimate` from the second row on, where `i == 0` is false. -/
theorem foldl_isLeast (count : Fin n → UInt64) (rows : List (Fin n)) (hrows : ∀ i ∈ rows, i.val ≠ 0)
    (first : Fin n) :
    IsLeast { c | ∃ i ∈ first :: rows, count i = c }
      (rows.foldl (fun minCount i =>
        if i.val = 0 ∨ count i < minCount then count i else minCount) (count first)) := by
  induction rows generalizing first with
  | nil =>
    refine ⟨⟨first, mem_cons_self, rfl⟩, ?_⟩
    simp [lowerBounds]
  | cons i rows ih =>
    obtain ⟨hi, hrows⟩ := forall_mem_cons.mp hrows
    -- The least count so far is that of a row, and the loop goes on from this row.
    obtain ⟨best, hbest, hmem, hfirst, hnext⟩ : ∃ best,
        (if i.val = 0 ∨ count i < count first then count i else count first) = count best ∧
        best ∈ [first, i] ∧ count best ≤ count first ∧ count best ≤ count i := by
      by_cases hless : count i < count first
      · exact ⟨i, if_pos (.inr hless), by simp, UInt64.le_of_lt hless, UInt64.le_refl _⟩
      · exact ⟨first, if_neg (by simp [hi, hless]), by simp, UInt64.le_refl _,
          UInt64.not_lt.mp hless⟩
    obtain ⟨⟨k, hk, hcount⟩, hlow⟩ := ih hrows best
    rw [foldl_cons, hbest]
    refine ⟨⟨k, ?_, hcount⟩, ?_⟩
    · simp only [mem_cons, not_mem_nil, or_false] at hk hmem ⊢
      grind
    · rintro c ⟨j, hj, rfl⟩
      have hleast := hlow ⟨best, mem_cons_self, rfl⟩
      simp only [mem_cons] at hj
      obtain rfl | rfl | hj := hj
      · exact UInt64.le_trans hleast hfirst
      · exact UInt64.le_trans hleast hnext
      · exact hlow ⟨j, mem_cons_of_mem _ hj, rfl⟩

/-- The whole loop. -/
theorem foldl_finRange_isLeast (hn : 0 < n) (count : Fin n → UInt64) :
    IsLeast { c | ∃ i, count i = c }
      ((finRange n).foldl (fun minCount i =>
        if i.val = 0 ∨ count i < minCount then count i else minCount) 0) := by
  cases n with
  | zero => exact absurd hn (Nat.lt_irrefl 0)
  | succ n =>
    have hlater : ∀ i ∈ (finRange n).map Fin.succ, i.val ≠ 0 := by simp
    obtain ⟨⟨i, -, hi⟩, hlow⟩ := foldl_isLeast count ((finRange n).map Fin.succ) hlater 0
    rw [finRange_succ, foldl_cons, if_pos (.inl (Fin.val_zero _))]
    refine ⟨⟨i, hi⟩, ?_⟩
    rintro c ⟨j, rfl⟩
    refine hlow ⟨j, ?_, rfl⟩
    rw [← finRange_succ]
    exact mem_finRange j

/-- The estimate is the least of the cells of the key. -/
theorem estimate_isLeast (hdepth : 0 < depth) (cms : CountMinSketch width depth)
    (sum64 : GoString → UInt64) (key : GoString) :
    IsLeast { c | ∃ i : Fin depth.toNat, (cms.counts.get i).get (cms.index (sum64 key) i) = c }
      (cms.estimate sum64 key) :=
  foldl_finRange_isLeast (UInt32.lt_iff_toNat_lt.mp hdepth) _

/-- **Estimates.**  After fewer than `2⁶⁴` operations the estimate of a key is at least its
    aged count and at most that of all keys. -/
theorem estimate_between (hdepth : 0 < depth) (sum64 : GoString → UInt64)
    (ops : List (Event GoString)) (hops : ops.length < 2 ^ 64) (key : GoString) :
    aged (fun k => k = key) ops ≤
        (((new width depth).run sum64 ops).estimate sum64 key).toNat ∧
      (((new width depth).run sum64 ops).estimate sum64 key).toNat ≤ aged (fun _ => True) ops := by
  obtain ⟨⟨i, hcell⟩, -⟩ := estimate_isLeast hdepth ((new width depth).run sum64 ops) sum64 key
  rw [← hcell, counts_run ops hops, index_run]
  constructor
  · apply aged_mono
    rintro k rfl
    rfl
  · exact aged_mono (fun _ _ => trivial) ops

/-- The sketch of the cache is 512 wide and 4 deep. -/
instance neZero_cacheWidth : NeZero (512 : UInt32).toNat := ⟨by decide⟩

/-- A hash under which all keys collide; one key is incremented twice, another once, and the
    counters are halved. -/
theorem estimate_between_colliding :
    aged (fun k => k = ascii "a") [.hit (ascii "a"), .hit (ascii "b"), .hit (ascii "a"), .halve] ≤
        (((new 512 4).run (fun _ => 0) [.hit (ascii "a"), .hit (ascii "b"), .hit (ascii "a"),
          .halve]).estimate (fun _ => 0) (ascii "a")).toNat ∧
      (((new 512 4).run (fun _ => 0) [.hit (ascii "a"), .hit (ascii "b"), .hit (ascii "a"),
          .halve]).estimate (fun _ => 0) (ascii "a")).toNat ≤
        aged (fun _ => True) [.hit (ascii "a"), .hit (ascii "b"), .hit (ascii "a"), .halve] :=
  estimate_between (by decide) _ _ (by decide) _

end CountMinSketch

end GridKV
