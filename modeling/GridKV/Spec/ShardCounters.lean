import GridKV.Spec.StoreMoves

/-!
# Do the counters of the shards add up to those of the store?

Eight counters are kept by hand, four for each shard and four for the whole store.  Some methods
adjust only a part of them, but what they add to a counter of a shard they also add to the same
counter of the store.  So after every sequence of calls the two agree
(`totals_eq_shardSums`), whether or not they are what they should be.
-/

namespace GridKV

open Go List

namespace MemStorage

variable {cfg : StoreConfig} {s t : MemStorage} {i : Nat} {counter : Counters → Int64}

/-! ### Sums over the shards -/

/-- Two sums over a range whose terms agree but for one. -/
theorem sum_range_of_eq_off {f g : Nat → Int64} {d : Int64} (hi : g i = f i + d)
    (hoff : ∀ j, j ≠ i → g j = f j) (n : Nat) :
    ((range n).map g).sum = ((range n).map f).sum + if i < n then d else 0 := by
  induction n with
  | zero => simp
  | succ n ih =>
    rw [range_succ, map_append, map_append, sum_append, sum_append, ih]
    simp only [map_cons, map_nil, sum_cons, sum_nil, Int64.add_zero]
    by_cases hn : n = i
    · -- The term that differs is the last one.
      subst hn
      rw [if_neg (Nat.lt_irrefl n), if_pos (Nat.lt_succ_self n), hi, Int64.add_zero,
        Int64.add_assoc]
    · have hlt : i < n + 1 ↔ i < n := by omega
      simp only [hoff n hn, hlt]
      rw [Int64.add_assoc, Int64.add_comm _ (f n), ← Int64.add_assoc]

/-- A counter of the shards, added up. -/
def shardSum (cfg : StoreConfig) (counter : Counters → Int64) (s : MemStorage) : Int64 :=
  ((range cfg.shardCount).map fun i => counter (s.shards i).counters).sum

/-- `counter` starts at 0 and adds what is added. -/
structure Additive (counter : Counters → Int64) : Prop where
  zero : counter {} = 0
  add : ∀ c d, counter (c.add d) = counter c + counter d

theorem additive_keys : Additive Counters.keys := ⟨rfl, fun _ _ => rfl⟩

theorem additive_bytes : Additive Counters.bytes := ⟨rfl, fun _ _ => rfl⟩

theorem additive_compressed : Additive Counters.compressed := ⟨rfl, fun _ _ => rfl⟩

theorem additive_original : Additive Counters.original := ⟨rfl, fun _ _ => rfl⟩

theorem shardSum_addStats (h : Additive counter) (hi : i < cfg.shardCount) (d : Counters) :
    shardSum cfg counter (s.addStats i d) = shardSum cfg counter s + counter d := by
  have hsum := sum_range_of_eq_off (i := i) (d := counter d)
    (f := fun j => counter (s.shards j).counters)
    (g := fun j => counter ((s.addStats i d).shards j).counters) ?_ ?_ cfg.shardCount
  · rw [if_pos hi] at hsum
    exact hsum
  · simp only [addStats, modifyShard, Function.update_self, h.add]
  · intro j hj
    simp only [addStats, modifyShard, Function.update_of_ne hj]

/-! ### The invariant -/

/-- The counter of the store is the sum of those of its shards. -/
def Agrees (cfg : StoreConfig) (counter : Counters → Int64) (s : MemStorage) : Prop :=
  counter s.totals = shardSum cfg counter s

namespace Agrees

theorem addStats (hs : Agrees cfg counter s) (h : Additive counter) (hi : i < cfg.shardCount)
    (d : Counters) : Agrees cfg counter (s.addStats i d) := by
  show counter (s.totals.add d) = _
  rw [h.add, hs, shardSum_addStats h hi]

/-- Changing anything but the counters. -/
theorem modifyShard (hs : Agrees cfg counter s) {f : Shard → Shard}
    (hf : (f (s.shards i)).counters = (s.shards i).counters) :
    Agrees cfg counter (s.modifyShard i f) := by
  have hsame : ∀ j, ((s.modifyShard i f).shards j).counters = (s.shards j).counters := by
    intro j
    by_cases hj : j = i
    · subst hj
      rw [modifyShard_self, hf]
    · rw [modifyShard_of_ne s f hj]
  rw [Agrees, shardSum]
  simp only [hsame]
  exact hs

theorem clear (h : Additive counter) (s : MemStorage) : Agrees cfg counter (s.clear cfg) := by
  have hzero : ∀ i ∈ range cfg.shardCount, counter ((s.clear cfg).shards i).counters = 0 := by
    intro i hi
    simp only [MemStorage.clear, if_pos (mem_range.mp hi)]
    exact h.zero
  rw [Agrees, shardSum, map_congr_left hzero]
  show counter {} = _
  rw [h.zero]
  -- A sum of zeros.
  induction cfg.shardCount with
  | zero => rfl
  | succ n ih => rw [range_succ, map_append, sum_append, ← ih]; rfl

/-- A method changes a counter of a shard and that of the store by the same amount. -/
theorem move (hs : Agrees cfg counter s) (h : Additive counter) {a : StoreMove}
    (hmove : move cfg s a = some t) : Agrees cfg counter t := by
  cases moved_of_move hmove with
  | install key compItem =>
    have hstored : Agrees cfg counter (s.store (cfg.shardIndex key) key compItem) :=
      hs.modifyShard rfl
    exact (hstored.addStats h (shardIndex_lt cfg key) _).modifyShard rfl
  | drop i key e hi =>
    have herased : Agrees cfg counter (s.erase i key) := hs.modifyShard rfl
    exact (herased.addStats h hi _).modifyShard rfl
  | expire key =>
    -- Only the number of keys is adjusted, but both times.
    have herased : Agrees cfg counter (s.erase (cfg.shardIndex key) key) := hs.modifyShard rfl
    exact (herased.addStats h (shardIndex_lt cfg key) _).modifyShard rfl
  | forget | touch | unlist | queue => exact hs.modifyShard rfl
  | rotate => exact hs
  | clear => exact .clear h s

end Agrees

theorem agrees_reached (cfg : StoreConfig) (h : Additive counter) (calls : List StoreCall) :
    Agrees cfg counter (reached cfg calls) := by
  apply invariant_reached
  · -- The empty store is what `Clear` leaves of it.
    have hclear : Agrees cfg counter (MemStorage.clear cfg .empty) := .clear h .empty
    have hsame : ∀ i, ((MemStorage.clear cfg .empty).shards i).counters =
        (MemStorage.empty.shards i).counters := by
      intro i
      simp only [MemStorage.clear]
      split <;> rfl
    rw [Agrees, shardSum] at hclear ⊢
    simp only [hsame] at hclear
    exact hclear
  · exact fun s a t hs hmove => hs.move h hmove

/-- **Agreement of the counters.**  After any sequence of calls, each counter of the store is the
    sum over all shards of the corresponding counter of the shard. -/
theorem totals_eq_shardSums (cfg : StoreConfig) (calls : List StoreCall) :
    (reached cfg calls).totals.keys = shardSum cfg Counters.keys (reached cfg calls) ∧
      (reached cfg calls).totals.bytes = shardSum cfg Counters.bytes (reached cfg calls) ∧
      (reached cfg calls).totals.compressed =
        shardSum cfg Counters.compressed (reached cfg calls) ∧
      (reached cfg calls).totals.original = shardSum cfg Counters.original (reached cfg calls) :=
  ⟨agrees_reached cfg additive_keys calls, agrees_reached cfg additive_bytes calls,
    agrees_reached cfg additive_compressed calls, agrees_reached cfg additive_original calls⟩

end MemStorage

end GridKV
