import GridKV.Model.ReadRepair

/-!
# How often a read is repaired

The limiter of read repair hands out tokens, of which it has `rate` at first and gets
`rate` a second.  It never hands out more, although its arithmetic wraps around: an
overflow can take tokens away, and one that gives tokens comes so late that they are due
by then (`granted_le`).  But it can hand out fewer.  A call adds the whole tokens of the
time since the call before, and what is left of that time is forgotten; calls that come
faster than the tokens never get one (`due_le_granted_iff`).
-/

namespace GridKV

open Go List

namespace RateLimiter

variable {rl : RateLimiter} {rate now : Int64} {times : List Int64}

/-- How many calls of `Allow` at these times return true. -/
def granted (rl : RateLimiter) : List Int64 → Nat
  | [] => 0
  | now :: times => (if (rl.allow now).2 then 1 else 0) + granted (rl.allow now).1 times

/-- The time from `start` to the last call. -/
def span (start : Int64) (times : List Int64) : Int := (times.getLastD start).toInt - start.toInt

theorem span_cons (start now : Int64) (times : List Int64) :
    span start (now :: times) = now.toInt - start.toInt + span now times := by
  rw [span, span, getLastD_cons]
  omega

theorem of_pairwise_cons {last : Int64} (h : (last :: now :: times).Pairwise (· ≤ ·)) :
    last.toInt ≤ now.toInt ∧ (now :: times).Pairwise (· ≤ ·) := by
  obtain ⟨hfirst, hrest⟩ := pairwise_cons.mp h
  exact ⟨Int64.le_iff_toInt_le.mp (hfirst now mem_cons_self), hrest⟩

/-! ### One call -/

/-- What a call adds. -/
def added (rl : RateLimiter) (now : Int64) : Int64 := (now - rl.last) * rl.rate / 1000000000

/-- The tokens before the call takes one. -/
def refilled (rl : RateLimiter) (now : Int64) : Int64 :=
  if rl.tokens + rl.added now > rl.rate then rl.rate else rl.tokens + rl.added now

theorem allow_eq (rl : RateLimiter) (now : Int64) :
    rl.allow now =
      if rl.refilled now ≥ 1 then ({ rl with tokens := rl.refilled now - 1, last := now }, true)
      else ({ rl with tokens := rl.refilled now, last := now }, false) :=
  rfl

theorem toInt_refilled (rl : RateLimiter) (now : Int64) :
    (rl.refilled now).toInt =
      min rl.rate.toInt ((rl.tokens.toInt + (rl.added now).toInt).bmod (2 ^ 64)) := by
  rw [refilled, ← Int64.toInt_add]
  split
  · rename_i h
    have hlt := Int64.lt_iff_toInt_lt.mp h
    omega
  · rename_i h
    have hle := Int64.lt_iff_toInt_lt.not.mp h
    omega

/-- Taking a token is exact. -/
theorem toInt_sub_one {tokens : Int64} (h : tokens ≥ 1) :
    (tokens - 1).toInt = tokens.toInt - 1 := by
  have hpos : 1 ≤ tokens.toInt := Int64.le_iff_toInt_le.mp h
  have hlt := tokens.toInt_lt
  rw [Int64.toInt_sub]
  show (tokens.toInt - 1).bmod (2 ^ 64) = _
  apply Int.bmod_eq_of_le <;> omega

/-- A call takes a token if there is one. -/
theorem granted_cons (rl : RateLimiter) (now : Int64) (times : List Int64) :
    (∃ tokens : Int64, tokens.toInt = (rl.refilled now).toInt - 1 ∧ 0 ≤ tokens.toInt ∧
      rl.granted (now :: times) = granted { rl with tokens, last := now } times + 1) ∨
    ((rl.refilled now).toInt ≤ 0 ∧
      rl.granted (now :: times) =
        granted { rl with tokens := rl.refilled now, last := now } times) := by
  rw [granted, allow_eq]
  split
  · rename_i hone
    have hpos : 1 ≤ (rl.refilled now).toInt := Int64.le_iff_toInt_le.mp hone
    have htokens := toInt_sub_one hone
    exact .inl ⟨rl.refilled now - 1, htokens, by omega, Nat.add_comm ..⟩
  · rename_i hnone
    have hzero : ¬ 1 ≤ (rl.refilled now).toInt := fun h => hnone (Int64.le_iff_toInt_le.mpr h)
    exact .inr ⟨by omega, Nat.zero_add _⟩

/-- Go's division rounds towards zero. -/
theorem tdiv_second (product : Int) :
    product.tdiv 1000000000 =
      if 0 ≤ product then product / 1000000000 else -(-product / 1000000000) := by
  split
  · rename_i h
    exact Int.tdiv_eq_ediv_of_nonneg h
  · rename_i h
    rw [← Int.tdiv_eq_ediv_of_nonneg (by omega : 0 ≤ -product), Int.neg_tdiv, neg_neg]

/-- The product wraps around, the division does not. -/
theorem toInt_added (rl : RateLimiter) (now : Int64) :
    (rl.added now).toInt =
      (((now.toInt - rl.last.toInt) * rl.rate.toInt).bmod (2 ^ 64)).tdiv 1000000000 := by
  have hproduct : ((now - rl.last) * rl.rate).toInt =
      ((now.toInt - rl.last.toInt) * rl.rate.toInt).bmod (2 ^ 64) := by
    rw [Int64.toInt_mul, Int64.toInt_sub, Int.bmod_mul_bmod]
  have hlow := ((now - rl.last) * rl.rate).le_toInt
  have hhigh := ((now - rl.last) * rl.rate).toInt_lt
  rw [← hproduct, added, Int64.toInt_div]
  show ((((now - rl.last) * rl.rate).toInt).tdiv 1000000000).bmod (2 ^ 64) = _
  generalize ((now - rl.last) * rl.rate).toInt = product at hlow hhigh ⊢
  rw [tdiv_second]
  apply Int.bmod_eq_of_le <;> split <;> omega

/-- Either the call adds no more tokens than are due, or it takes some away, and then time
    has passed. -/
theorem added_cases (hrate : 0 < rl.rate.toInt) (hnow : rl.last.toInt ≤ now.toInt) :
    (0 ≤ (rl.added now).toInt ∧
      1000000000 * (rl.added now).toInt ≤ rl.rate.toInt * (now.toInt - rl.last.toInt)) ∨
    (-9223372037 ≤ (rl.added now).toInt ∧ (rl.added now).toInt < 0 ∧
      1 ≤ now.toInt - rl.last.toInt) := by
  have hdue : 0 ≤ (now.toInt - rl.last.toInt) * rl.rate.toInt :=
    mul_nonneg (by omega) (by omega)
  -- Without time there is no overflow.
  have hzero : now.toInt - rl.last.toInt = 0 →
      (now.toInt - rl.last.toInt) * rl.rate.toInt = 0 := fun h => by rw [h, zero_mul]
  rw [toInt_added, mul_comm rl.rate.toInt]
  generalize (now.toInt - rl.last.toInt) * rl.rate.toInt = due at hdue hzero ⊢
  have hle : due.bmod (2 ^ 64) ≤ due := by
    rw [Int.bmod_def]
    split <;> omega
  have hlow : -2 ^ 63 ≤ due.bmod (2 ^ 64) := Int.le_bmod (by decide)
  have hnone : due = 0 → due.bmod (2 ^ 64) = 0 := fun h => by rw [h]; rfl
  rw [tdiv_second]
  generalize due.bmod (2 ^ 64) = product at hle hlow hnone ⊢
  split <;> omega

/-! ### Never too many -/

/-- What was granted is paid for: `granted` tokens and those in the bucket come out of the
    first `rate` and of the time that has passed.  Some of that time may be `lost`, and pays for
    the tokens below zero. -/
def Covered (rate granted elapsed tokens : Int) : Prop :=
  ∃ lost, 0 ≤ lost ∧ -tokens ≤ 9223372037 * lost ∧
    1000000000 * (granted + max tokens 0) + rate * lost ≤ 1000000000 * rate + rate * elapsed

namespace Covered

variable {rate granted elapsed tokens added time : Int}

theorem start (rate : Int) (hrate : 0 < rate) : Covered rate 0 0 rate := by
  refine ⟨0, Int.le_refl 0, by omega, ?_⟩
  omega

theorem bound (hrate : 0 < rate) (h : Covered rate granted elapsed tokens) :
    granted ≤ rate + rate * elapsed / 1000000000 := by
  obtain ⟨lost, hlost, -, hpaid⟩ := h
  have hpos : 0 ≤ rate * lost := mul_nonneg (by omega) hlost
  omega

/-- A token that is granted was in the bucket. -/
theorem take (h : Covered rate granted elapsed tokens) (htokens : 1 ≤ tokens) :
    Covered rate (granted + 1) elapsed (tokens - 1) := by
  obtain ⟨lost, hlost, hdebt, hpaid⟩ := h
  refine ⟨lost, hlost, by omega, ?_⟩
  omega

theorem refill (h : Covered rate granted elapsed tokens) (hrate : 0 < rate)
    (hrate' : rate < 2 ^ 63) (hlow : -2 ^ 63 ≤ tokens) (htokens : tokens ≤ rate)
    (hadded' : added < 2 ^ 63) (htime : 0 ≤ time)
    (hadded : 0 ≤ added ∧ 1000000000 * added ≤ rate * time ∨
      -9223372037 ≤ added ∧ added < 0 ∧ 1 ≤ time) :
    Covered rate granted (elapsed + time) (min rate ((tokens + added).bmod (2 ^ 64))) := by
  obtain ⟨lost, hlost, hdebt, hpaid⟩ := h
  have hdue : 0 ≤ rate * time := mul_nonneg (by omega) htime
  have hlost' : 0 ≤ rate * lost := mul_nonneg (by omega) hlost
  have hwrap : (tokens + added).bmod (2 ^ 64) = tokens + added ∨
      2 ^ 63 ≤ tokens + added ∧ (tokens + added).bmod (2 ^ 64) = tokens + added - 2 ^ 64 ∨
      tokens + added < -2 ^ 63 ∧ (tokens + added).bmod (2 ^ 64) = tokens + added + 2 ^ 64 := by
    rw [Int.bmod_def]
    split <;> omega
  obtain hwrap | ⟨hhigh, hwrap⟩ | ⟨hless, hwrap⟩ := hwrap
  · rw [hwrap]
    obtain ⟨hnonneg, hadded⟩ | ⟨hleast, hneg, hone⟩ := hadded
    · refine ⟨lost, hlost, by omega, ?_⟩
      rw [mul_add rate elapsed]
      omega
    · -- The product has overflowed, and all the time since the last call is lost.
      refine ⟨lost + time, by omega, by omega, ?_⟩
      rw [mul_add rate elapsed, mul_add rate lost]
      omega
  · -- The tokens have overflowed: a whole bucket is lost, which is worth a second.
    refine ⟨1000000000, by omega, by omega, ?_⟩
    rw [mul_add rate elapsed]
    omega
  · -- The debt has overflowed.  That takes more than a second of lost time, so that even a
    -- full bucket is paid for.
    have hsecond : 1000000000 ≤ lost + time := by omega
    have hworth : rate * 1000000000 ≤ rate * (lost + time) :=
      mul_le_mul_of_nonneg_left hsecond (by omega)
    rw [mul_add] at hworth
    refine ⟨0, Int.le_refl 0, by omega, ?_⟩
    rw [mul_add rate elapsed]
    omega

end Covered

/-- The invariant along a sequence of calls: `n` were granted before. -/
theorem covered_granted {start : Int} (rl : RateLimiter) (n : Nat) (hrate : 0 < rl.rate.toInt)
    (htokens : rl.tokens.toInt ≤ rl.rate.toInt)
    (htimes : (rl.last :: times).Pairwise (· ≤ ·))
    (h : Covered rl.rate.toInt n (rl.last.toInt - start) rl.tokens.toInt) :
    ∃ tokens, Covered rl.rate.toInt (n + rl.granted times)
      (rl.last.toInt - start + span rl.last times) tokens := by
  induction times generalizing rl n with
  | nil =>
    refine ⟨rl.tokens.toInt, ?_⟩
    simpa [granted, span] using h
  | cons now times ih =>
    obtain ⟨hnow, hrest⟩ := of_pairwise_cons htimes
    have hrefill := h.refill hrate rl.rate.toInt_lt rl.tokens.le_toInt htokens
      (rl.added now).toInt_lt (by omega : 0 ≤ now.toInt - rl.last.toInt) (added_cases hrate hnow)
    have htime : rl.last.toInt - start + (now.toInt - rl.last.toInt) = now.toInt - start := by omega
    rw [← toInt_refilled, htime] at hrefill
    have hcap : (rl.refilled now).toInt ≤ rl.rate.toInt := by
      rw [toInt_refilled]
      exact min_le_left ..
    rw [span_cons, ← add_assoc, htime]
    obtain ⟨tokens, htake, hleft, hgranted⟩ | ⟨-, hgranted⟩ := granted_cons rl now times
    · have hpaid := hrefill.take (by omega)
      rw [← htake, ← Nat.cast_succ] at hpaid
      obtain ⟨last, hend⟩ := ih { rl with tokens, last := now } (n + 1) hrate
        (show tokens.toInt ≤ rl.rate.toInt by omega) hrest hpaid
      refine ⟨last, ?_⟩
      rw [hgranted, Nat.add_comm (granted _ times), Nat.cast_add, ← add_assoc]
      exact hend
    · rw [hgranted]
      exact ih { rl with tokens := rl.refilled now, last := now } n hrate hcap hrest hrefill

/-- **The rate of repairs.**  Whenever `Allow` is called, as long as the clock does not go
    back, it returns true at most `rate` times and `rate` times a second. -/
theorem granted_le (hrate : 0 < rate) (htimes : (now :: times).Pairwise (· ≤ ·)) :
    ((new rate now).granted times : Int) ≤
      rate.toInt + rate.toInt * span now times / 1000000000 := by
  have hpos : 0 < rate.toInt := Int64.lt_iff_toInt_lt.mp hrate
  have hstart : Covered rate.toInt (0 : Nat) (now.toInt - now.toInt) rate.toInt := by
    rw [sub_self]
    exact Covered.start _ hpos
  obtain ⟨tokens, hend⟩ := covered_granted (new rate now) 0 hpos (Int.le_refl _) htimes hstart
  have hbound := hend.bound hpos
  simpa [new] using hbound

/-- Two calls whose products overflow. -/
theorem granted_le_of_overflow :
    ((new 4611686018427387904 0).granted [2, 4] : Int) ≤
      (4611686018427387904 : Int64).toInt +
        (4611686018427387904 : Int64).toInt * span 0 [2, 4] / 1000000000 :=
  granted_le (by decide) (by decide)

/-! ### Too few -/

/-- A call that comes exactly `10⁹ / rate` nanoseconds after the call before counts one. -/
def onTime (rate last now : Int64) : Nat :=
  if (now.toInt - last.toInt) * rate.toInt = 1000000000 then 1 else 0

theorem onTime_le_one (rate last now : Int64) : onTime rate last now ≤ 1 := by
  unfold onTime
  split <;> omega

/-- How many of the calls do. -/
def punctual (rate : Int64) : List Int64 → Nat
  | last :: now :: times => onTime rate last now + punctual rate (now :: times)
  | _ => 0

theorem punctual_cons_le (rate now : Int64) (times : List Int64) :
    punctual rate (now :: times) ≤ times.length := by
  induction times generalizing now with
  | nil => exact Nat.le_refl 0
  | cons next times ih =>
    have hrest := ih next
    have hone := onTime_le_one rate now next
    rw [punctual, length_cons]
    omega

/-- Each call comes at most `10⁹ / rate` nanoseconds after the one before. -/
def Brisk (rate : Int64) (times : List Int64) : Prop :=
  times.IsChain fun last now => (now.toInt - last.toInt) * rate.toInt ≤ 1000000000

instance decidableBrisk (rate : Int64) (times : List Int64) : Decidable (Brisk rate times) :=
  inferInstanceAs (Decidable (List.IsChain _ times))

theorem toInt_added_of_lt (hrate : 0 < rl.rate.toInt) (hnow : rl.last.toInt ≤ now.toInt)
    (hsmall : (now.toInt - rl.last.toInt) * rl.rate.toInt < 2 ^ 63) :
    (rl.added now).toInt = (now.toInt - rl.last.toInt) * rl.rate.toInt / 1000000000 := by
  have hdue : 0 ≤ (now.toInt - rl.last.toInt) * rl.rate.toInt :=
    mul_nonneg (by omega) (by omega)
  rw [toInt_added]
  generalize (now.toInt - rl.last.toInt) * rl.rate.toInt = due at hdue hsmall ⊢
  have hexact : due.bmod (2 ^ 64) = due := by
    apply Int.bmod_eq_of_le <;> omega
  rw [hexact, tdiv_second, if_pos hdue]

/-- A call soon after the one before adds a token only if it is punctual. -/
theorem toInt_added_of_brisk (hrate : 0 < rl.rate.toInt) (hnow : rl.last.toInt ≤ now.toInt)
    (hbrisk : (now.toInt - rl.last.toInt) * rl.rate.toInt ≤ 1000000000) :
    (rl.added now).toInt = onTime rl.rate rl.last now := by
  have hdue : 0 ≤ (now.toInt - rl.last.toInt) * rl.rate.toInt :=
    mul_nonneg (by omega) (by omega)
  rw [toInt_added_of_lt hrate hnow (by omega), onTime]
  split <;> omega

/-- After its first call, which has taken a token, a limiter grants its tokens and the
    punctual calls. -/
theorem granted_of_brisk (rl : RateLimiter) (hnonneg : 0 ≤ rl.tokens.toInt)
    (hless : rl.tokens.toInt < rl.rate.toInt) (htimes : (rl.last :: times).Pairwise (· ≤ ·))
    (hbrisk : Brisk rl.rate (rl.last :: times)) :
    (rl.granted times : Int) =
      min (times.length : Int) (rl.tokens.toInt + punctual rl.rate (rl.last :: times)) := by
  induction times generalizing rl with
  | nil => simp [granted, punctual, hnonneg]
  | cons now times ih =>
    obtain ⟨hnow, hrest⟩ := of_pairwise_cons htimes
    obtain ⟨hgap, hbrisk⟩ := isChain_cons_cons.mp hbrisk
    have hhigh := rl.rate.toInt_lt
    have hfew := punctual_cons_le rl.rate now times
    have hwhole := onTime_le_one rl.rate rl.last now
    -- There is room for one more token, so nothing is capped.
    have hrefilled : (rl.refilled now).toInt = rl.tokens.toInt + onTime rl.rate rl.last now := by
      rw [toInt_refilled, toInt_added_of_brisk (by omega) hnow hgap, Int.bmod_eq_of_le] <;> omega
    rw [punctual, length_cons]
    obtain ⟨tokens, htake, hleft, hgranted⟩ | ⟨hnone, hgranted⟩ := granted_cons rl now times
    · have hlater := ih { rl with tokens, last := now } hleft
        (show tokens.toInt < rl.rate.toInt by omega) hrest hbrisk
      simp only [htake] at hlater
      rw [hgranted, Nat.cast_succ, hlater]
      omega
    · have hlater := ih { rl with tokens := rl.refilled now, last := now }
        (show 0 ≤ (rl.refilled now).toInt by omega)
        (show (rl.refilled now).toInt < rl.rate.toInt by omega) hrest hbrisk
      dsimp only at hlater
      rw [hgranted, hlater]
      omega

/-- A limiter with a high rate does not recover from an overflow: such calls all come at the
    same time. -/
theorem granted_of_overflow (rl : RateLimiter) (htokens : rl.tokens.toInt ≤ 0)
    (hrate : 1000000000 < rl.rate.toInt) (htimes : (rl.last :: times).Pairwise (· ≤ ·))
    (hbrisk : Brisk rl.rate (rl.last :: times)) : rl.granted times = 0 := by
  induction times generalizing rl with
  | nil => rfl
  | cons now times ih =>
    obtain ⟨hnow, hrest⟩ := of_pairwise_cons htimes
    obtain ⟨hgap, hbrisk⟩ := isChain_cons_cons.mp hbrisk
    have hsame : now.toInt - rl.last.toInt = 0 := by
      by_contra hne
      have hless : 1 * rl.rate.toInt ≤ (now.toInt - rl.last.toInt) * rl.rate.toInt :=
        mul_le_mul_of_nonneg_right (by omega) (by omega)
      omega
    have hadded : (rl.added now).toInt = 0 := by
      rw [toInt_added_of_lt (by omega) hnow] <;> simp [hsame]
    have hlow := rl.tokens.le_toInt
    have hrefilled : (rl.refilled now).toInt = rl.tokens.toInt := by
      rw [toInt_refilled, hadded, Int.bmod_eq_of_le] <;> omega
    obtain ⟨tokens, htake, hleft, -⟩ | ⟨hnone, hgranted⟩ := granted_cons rl now times
    · omega
    · rw [hgranted]
      exact ih { rl with tokens := rl.refilled now, last := now } hnone hrate hrest hbrisk

theorem span_nonneg (htimes : (now :: times).Pairwise (· ≤ ·)) : 0 ≤ span now times := by
  induction times generalizing now with
  | nil => simp [span]
  | cons next times ih =>
    obtain ⟨hnext, hrest⟩ := of_pairwise_cons htimes
    have hspan := ih hrest
    rw [span_cons]
    omega

/-- The tokens that are due for a time, in whole. -/
def due (rate : Int64) (time : Int) : Int := rate.toInt * time / 1000000000

/-- The time until the first call. -/
def untilFirst (start : Int64) (times : List Int64) : Int :=
  (times.headD start).toInt - start.toInt

theorem untilFirst_le_span (htimes : (now :: times).Pairwise (· ≤ ·)) :
    untilFirst now times ≤ span now times := by
  cases times with
  | nil => exact Int.le_refl _
  | cons first times =>
    have hlater := span_nonneg (pairwise_cons.mp htimes).2
    rw [span_cons, untilFirst, headD_cons]
    omega

/-- How many of the calls are granted: those that find a token of the first bucket, and the
    punctual ones.  A bucket of almost `2⁶³` tokens overflows when the first call adds to it. -/
theorem granted_new (hrate : 0 < rate) (htimes : (now :: times).Pairwise (· ≤ ·))
    (hbrisk : Brisk rate times) (hspan : rate.toInt * span now times < 2 ^ 63) :
    ((new rate now).granted times : Int) =
      if rate.toInt + due rate (untilFirst now times) < 2 ^ 63 then
        min (times.length : Int) (rate.toInt + punctual rate times)
      else 0 := by
  have hpos : 0 < rate.toInt := Int64.lt_iff_toInt_lt.mp hrate
  cases times with
  | nil =>
    show (0 : Int) = if _ then min (0 : Int) (rate.toInt + (0 : Nat)) else 0
    split
    · exact (min_eq_left (by omega)).symm
    · rfl
  | cons first times =>
    obtain ⟨hnow, hrest⟩ := of_pairwise_cons htimes
    have hsmall : (first.toInt - now.toInt) * rate.toInt < 2 ^ 63 := by
      have hlater : 0 ≤ rate.toInt * span first times := mul_nonneg (by omega) (span_nonneg hrest)
      rw [span_cons, mul_add] at hspan
      rw [mul_comm]
      omega
    have hadded : ((new rate now).added first).toInt = due rate (first.toInt - now.toInt) := by
      rw [due, mul_comm rate.toInt]
      exact toInt_added_of_lt hpos hnow hsmall
    have hdue : 0 ≤ due rate (first.toInt - now.toInt) ∧
        1000000000 * due rate (first.toInt - now.toInt) < 2 ^ 63 := by
      have hnonneg : 0 ≤ (first.toInt - now.toInt) * rate.toInt :=
        mul_nonneg (by omega) (by omega)
      rw [due, mul_comm rate.toInt]
      omega
    have hrefilled : ((new rate now).refilled first).toInt =
        min rate.toInt ((rate.toInt + due rate (first.toInt - now.toInt)).bmod (2 ^ 64)) := by
      rw [← hadded]
      exact toInt_refilled ..
    have hhigh := rate.toInt_lt
    rw [untilFirst, headD_cons, length_cons]
    generalize due rate (first.toInt - now.toInt) = refill at hdue hrefilled ⊢
    by_cases hroom : rate.toInt + refill < 2 ^ 63
    · have hfull : ((new rate now).refilled first).toInt = rate.toInt := by
        rw [hrefilled, Int.bmod_eq_of_le] <;> omega
      obtain ⟨tokens, htake, hleft, hgranted⟩ | ⟨hnone, -⟩ :=
        granted_cons (new rate now) first times
      · have hlater := granted_of_brisk { new rate now with tokens, last := first } hleft
          (show tokens.toInt < rate.toInt by omega) hrest hbrisk
        simp only [htake, hfull] at hlater
        rw [if_pos hroom, hgranted, Nat.cast_succ, hlater]
        show min (times.length : Int) (rate.toInt - 1 + punctual rate (first :: times)) + 1 = _
        omega
      · omega
    · have hempty : ((new rate now).refilled first).toInt ≤ 0 := by
        rw [hrefilled, Int.bmod_def]
        split <;> omega
      obtain ⟨tokens, htake, hleft, -⟩ | ⟨-, hgranted⟩ := granted_cons (new rate now) first times
      · omega
      · rw [if_neg hroom, hgranted, granted_of_overflow
          { new rate now with tokens := (new rate now).refilled first, last := first } hempty
          (show 1000000000 < rate.toInt by omega) hrest hbrisk]
        rfl

/-- **Starving.**  Calls that come often enough are granted as many tokens as are due if and
    only if there are that many calls, the first bucket and the punctual calls make up for
    them, and the first call does not overflow the bucket. -/
theorem due_le_granted_iff (hrate : 0 < rate) (htimes : (now :: times).Pairwise (· ≤ ·))
    (hbrisk : Brisk rate times) (hspan : rate.toInt * span now times < 2 ^ 63) :
    due rate (span now times) ≤ (new rate now).granted times ↔
      due rate (span now times) ≤ times.length ∧
        due rate (span now times) ≤ rate.toInt + punctual rate times ∧
        rate.toInt + due rate (untilFirst now times) < 2 ^ 63 := by
  rw [granted_new hrate htimes hbrisk hspan]
  split
  · rename_i hroom
    rw [le_min_iff]
    constructor
    · exact fun h => ⟨h.1, h.2, hroom⟩
    · exact fun h => ⟨h.1, h.2.1⟩
  · rename_i hroom
    -- What overflows the bucket is due itself.
    have hpos : 0 < rate.toInt := Int64.lt_iff_toInt_lt.mp hrate
    have hhigh := rate.toInt_lt
    have hmono : due rate (untilFirst now times) ≤ due rate (span now times) :=
      Int.ediv_le_ediv (by decide)
        (mul_le_mul_of_nonneg_left (untilFirst_le_span htimes) (by omega))
    constructor
    · intro h
      omega
    · exact fun h => absurd h.2.2 hroom

/-- One call a second at a rate of one. -/
theorem due_le_granted_each_second :
    due 1 (span 0 [1000000000, 2000000000]) ≤
      (new 1 0).granted [1000000000, 2000000000] :=
  (due_le_granted_iff (by decide) (by decide) (by decide) (by decide)).mpr (by decide)

/-- A call each half second at a rate of one, for two seconds: no call finds a whole token,
    and only the one of the first bucket is granted where two are due. -/
theorem half_seconds_starve :
    Brisk 1 [0, 500000000, 1000000000, 1500000000, 2000000000] ∧
      (new 1 0).granted [500000000, 1000000000, 1500000000, 2000000000] = 1 ∧
      due 1 (span 0 [500000000, 1000000000, 1500000000, 2000000000]) = 2 := by
  decide

end RateLimiter

end GridKV
