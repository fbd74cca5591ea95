import GridKV.ForStd.Smear
import GridKV.Model.MemStorage

/-!
# The shards of a store

`New` rounds the configured number of shards up to a power of two and selects a shard by the lowest
bits of the hash of its key.  The rounding is done in `uint64` on a number that the configuration
holds as an `int`: a negative one becomes larger than all powers of two that there are, and the
store is made without any shard.  `index_lt_iff` says that this is all that can go wrong.
-/

namespace GridKV

open Go

theorem smears_uint64 {x n : UInt64} {w : Nat} (hw : w < 64) (h : Nat.Smears w x.toNat n.toNat) :
    Nat.Smears (2 * w) x.toNat (n ||| (n >>> UInt64.ofNat w)).toNat := by
  have hshift : (UInt64.ofNat w).toNat % 64 = w := by
    rw [UInt64.toNat_ofNat_of_lt' (Nat.lt_of_lt_of_le hw (by decide)), Nat.mod_eq_of_lt hw]
  rw [UInt64.toNat_or, UInt64.toNat_shiftRight, hshift]
  exact h.step

theorem toNat_succ_of_smears {n m : UInt64} (hn : 1 ≤ n.toNat)
    (h : Nat.Smears 64 (n - 1).toNat m.toNat) :
    (m + 1).toNat = 2 ^ Nat.clog 2 n.toNat % 2 ^ 64 := by
  have hpred : (n - 1).toNat = n.toNat - 1 := UInt64.toNat_sub_of_le n 1 hn
  have hsucc := h.succ_eq_two_pow_clog (n - 1).toNat_lt
  rw [hpred, Nat.sub_add_cancel hn] at hsucc
  rw [UInt64.toNat_add, ← hsucc]
  rfl

/-- The first power of two that is not below the number, in the arithmetic of `uint64`. -/
theorem toNat_nextPowerOf2 (n : UInt64) :
    (nextPowerOf2 n).toNat = 2 ^ Nat.clog 2 n.toNat % 2 ^ 64 := by
  unfold nextPowerOf2
  split
  · rename_i hzero
    subst hzero
    rfl
  · rename_i hpos
    have hone : 1 ≤ n.toNat := Nat.one_le_iff_ne_zero.mpr fun h => hpos (UInt64.toNat_inj.mp h)
    have h2 := smears_uint64 (by decide) (Nat.smears_one (n - 1).toNat)
    have h4 := smears_uint64 (by decide) h2
    have h8 := smears_uint64 (by decide) h4
    have h16 := smears_uint64 (by decide) h8
    have h32 := smears_uint64 (by decide) h16
    exact toNat_succ_of_smears hone (smears_uint64 (by decide) h32)

theorem toNat_toUInt64 (n : Int64) : (n.toUInt64.toNat : Int) = n.toInt % 2 ^ 64 := by
  have hbits : n.toUInt64.toNat = n.toBitVec.toNat := rfl
  have hlt := n.toUInt64.toNat_lt
  rw [← Int64.toInt_toBitVec, BitVec.toInt_eq_toNat_bmod, Int.bmod_def]
  omega

theorem toInt_toInt64_of_nonneg {u : UInt64} (h : ¬ u.toInt64 < 0) :
    u.toInt64.toInt = u.toNat := by
  have hbmod : u.toInt64.toInt = (u.toNat : Int).bmod (2 ^ 64) := by
    rw [← Int64.toInt_toBitVec, BitVec.toInt_eq_toNat_bmod]
    rfl
  have hlt := u.toNat_lt
  rw [Int64.lt_iff_toInt_lt, Int64.toInt_zero] at h
  rw [hbmod, Int.bmod_def] at h ⊢
  omega

namespace MemConfig

variable {config : MemConfig} {cpuCount : Int64} {table : ShardTable}

/-- What is rounded up: the configured number, or one that fits the machine. -/
theorem exists_requested (config : MemConfig) (cpuCount : Int64) :
    ∃ requested : Int64,
      config.shards cpuCount = (nextPowerOf2 requested.toUInt64).toInt64 ∧
      (0 ≤ config.shardCount → 0 < requested ∧ config.shardCount ≤ requested) ∧
      (config.shardCount < 0 → requested = config.shardCount) := by
  by_cases hauto : config.shardCount = 0
  · unfold shards
    rw [if_pos hauto, hauto]
    refine ⟨_, rfl, fun _ => ?_, fun h => absurd h (by decide)⟩
    dsimp only
    split
    · decide
    · split
      · decide
      · rename_i hlarge _
        have hpos := Int64.lt_of_lt_of_le (by decide : (0 : Int64) < 256) (Int64.not_lt.mp hlarge)
        exact ⟨hpos, Int64.le_of_lt hpos⟩
  · unfold shards
    rw [if_neg hauto]
    refine ⟨_, rfl, fun h => ⟨?_, Int64.le_refl _⟩, fun _ => rfl⟩
    exact Int64.lt_of_le_of_ne h (Ne.symm hauto)

theorem table_eq_some {rounded : UInt64} (hshards : config.shards cpuCount = rounded.toInt64)
    (h : config.table cpuCount = some table) :
    table.count = rounded.toNat ∧ rounded.toNat < 2 ^ 63 ∧ table.shardMask = rounded - 1 := by
  unfold MemConfig.table at h
  rw [hshards] at h
  split at h <;> cases h
  rename_i hnonneg
  have hint := toInt_toInt64_of_nonneg hnonneg
  have hlt := Int64.toInt_lt rounded.toInt64
  dsimp only
  refine ⟨by omega, by omega, ?_⟩
  rw [Int64.toUInt64_sub, UInt64.toUInt64_toInt64]
  rfl

/-- A store with a shard at least has the shards of its table. -/
theorem table_of_new {hashLo : GoString → UInt64} {lz4 : LZ4} {cfg : StoreConfig}
    (h : config.new cpuCount hashLo lz4 = some cfg) :
    config.table cpuCount = some ⟨cfg.shardCount, cfg.shardMask⟩ := by
  unfold new at h
  split at h <;> cases h
  rename_i hpos
  have hconv := toNat_toUInt64 (config.shards cpuCount - 1)
  have hlt := Int64.toInt_lt (config.shards cpuCount)
  rw [Int64.toInt_sub, Int.bmod_def, show Int64.toInt 1 = 1 from rfl] at hconv
  rw [Int64.not_le, Int64.lt_iff_toInt_lt, Int64.toInt_zero] at hpos
  have hnonneg : ¬ config.shards cpuCount < 0 := by
    rw [Int64.lt_iff_toInt_lt, Int64.toInt_zero]
    omega
  have hcount : (config.shards cpuCount).toInt.toNat =
      (config.shards cpuCount - 1).toUInt64.toNat + 1 := by omega
  unfold MemConfig.table
  rw [if_neg hnonneg, hcount]
  rfl

/-- A positive number is rounded up to a power of two. -/
theorem rounded_of_pos {requested : Int64} (hpos : 0 < requested) :
    ∃ k, (nextPowerOf2 requested.toUInt64).toNat = 2 ^ k ∧ requested.toInt ≤ (2 : Int) ^ k := by
  rw [Int64.lt_iff_toInt_lt, Int64.toInt_zero] at hpos
  have hconv := toNat_toUInt64 requested
  have hlt := Int64.toInt_lt requested
  have hle : requested.toUInt64.toNat ≤ 2 ^ Nat.clog 2 requested.toUInt64.toNat :=
    Nat.le_pow_clog Nat.one_lt_two _
  have hk : Nat.clog 2 requested.toUInt64.toNat ≤ 63 := Nat.clog_le_of_le_pow (by omega)
  refine ⟨Nat.clog 2 requested.toUInt64.toNat, ?_, ?_⟩
  · rw [toNat_nextPowerOf2]
    exact Nat.mod_eq_of_lt (Nat.pow_lt_pow_right Nat.one_lt_two (Nat.lt_succ_of_le hk))
  · have hcast : requested.toInt = (requested.toUInt64.toNat : Int) := by omega
    rw [hcast]
    exact_mod_cast hle

/-- A negative one, in `uint64`, is larger than all powers of two but the last. -/
theorem rounded_of_neg {requested : Int64} (hneg : requested < 0)
    (hlt : (nextPowerOf2 requested.toUInt64).toNat < 2 ^ 63) :
    (nextPowerOf2 requested.toUInt64).toNat = 0 := by
  rw [Int64.lt_iff_toInt_lt, Int64.toInt_zero] at hneg
  have hconv := toNat_toUInt64 requested
  have hge := Int64.le_toInt requested
  have hnat := requested.toUInt64.toNat_lt
  rw [toNat_nextPowerOf2] at hlt ⊢
  have hle : Nat.clog 2 requested.toUInt64.toNat ≤ 64 := Nat.clog_le_of_le_pow hnat.le
  have hlow : 62 < Nat.clog 2 requested.toUInt64.toNat :=
    (Nat.lt_clog_iff_pow_lt Nat.one_lt_two).mpr (by omega)
  generalize Nat.clog 2 requested.toUInt64.toNat = k at *
  obtain rfl | rfl : k = 63 ∨ k = 64 := by omega
  · exact absurd hlt (by decide)
  · rfl

/-- **Shard lookup.**  When `New` returns, every key falls to a shard, whatever its hash, and the
    number of shards is a power of two that is not below the configured one, exactly if that is
    not negative. -/
theorem index_lt_iff (h : config.table cpuCount = some table) (hashLo : GoString → UInt64) :
    (∀ key, table.index hashLo key < table.count) ∧
        (∃ k, table.count = 2 ^ k) ∧ config.shardCount.toInt ≤ table.count ↔
      0 ≤ config.shardCount := by
  obtain ⟨requested, hshards, hauto, hkept⟩ := exists_requested config cpuCount
  obtain ⟨hcount, hlt, hmask⟩ := table_eq_some hshards h
  constructor
  · rintro ⟨-, ⟨k, hpow⟩, -⟩
    by_contra hneg
    have hnone := rounded_of_neg (hkept (Int64.not_le.mp hneg) ▸ Int64.not_le.mp hneg) hlt
    have hpos := Nat.two_pow_pos k
    omega
  · intro hnonneg
    obtain ⟨hpos, hle⟩ := hauto hnonneg
    obtain ⟨k, hpow, hrequested⟩ := rounded_of_pos hpos
    rw [hpow] at hcount
    refine ⟨fun key => ?_, ⟨k, hcount⟩, ?_⟩
    · have hmask' : table.shardMask.toNat = 2 ^ k - 1 := by
        have hone : 1 ≤ (nextPowerOf2 requested.toUInt64).toNat := by
          rw [hpow]
          exact Nat.two_pow_pos k
        rw [hmask, ← hpow]
        exact UInt64.toNat_sub_of_le _ 1 hone
      rw [ShardTable.index, UInt64.toNat_and, hmask', Nat.and_two_pow_sub_one_eq_mod, hcount]
      exact Nat.mod_lt _ (Nat.two_pow_pos k)
    · rw [Int64.le_iff_toInt_le] at hle
      rw [hcount]
      push_cast
      omega

/-- Three shards become four. -/
theorem index_lt_of_three :
    ({ shardCount := 3 } : MemConfig).table 1 = some ⟨4, 3⟩ ∧
      ∀ key, ShardTable.index ⟨4, 3⟩ (fun key => UInt64.ofNat key.length) key < 4 := by
  have htable : ({ shardCount := 3 } : MemConfig).table 1 = some ⟨4, 3⟩ := rfl
  exact ⟨htable, ((index_lt_iff htable _).mpr (by decide)).1⟩

/-- With `-1` for the number of shards there are none, and no key has a place. -/
theorem not_index_lt_of_negative :
    ¬ ∀ (config : MemConfig) (cpuCount : Int64) (table : ShardTable)
      (hashLo : GoString → UInt64), config.table cpuCount = some table →
      (∀ key, table.index hashLo key < table.count) ∧
        (∃ k, table.count = 2 ^ k) ∧ config.shardCount.toInt ≤ table.count := by
  intro hall
  have htable : ({ shardCount := -1 } : MemConfig).table 1 = some ⟨0, -1⟩ := rfl
  exact Nat.not_lt_zero _ ((hall _ 1 _ (fun _ => 0) htable).1 [])

end MemConfig

end GridKV
