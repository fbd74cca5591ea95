import GridKV.ForStd.Decimal
import GridKV.Model.Hlc

/-!
# Clock states as text

`Now` writes `nodeID:timestamp:counter` without escaping the node ID, and both parsers cut
the string at its first two colons.  If the node ID has a colon of its own, as in
`host:port`, they read the timestamp and the counter out of the node ID; `parseHLC_format`
says what they read, for every node ID and every pair.  Signs are lost as well: a negative
timestamp is not parsed at all, and a counter from `2 ^ 63` on is written as a negative
number and read as 0.  Everything else is exact (`parseHLC_formatHLC`).
-/

namespace GridKV

open Go Decimal List

variable (buf : Bytes) (nodeID : GoString) {b : UInt8} {bs s : GoString} (ts now : Int64)
  {r : Int64} {c k : UInt64}

/-! ### Formatting -/

theorem fillDigits_eq_ok {idx n : Nat} (acc : Bytes) (h : (digitBytes n).length ≤ idx) :
    fillDigits idx n acc = .ok (digitBytes n ++ acc) := by
  induction idx generalizing n acc with
  | zero =>
    rcases Nat.eq_zero_or_pos n with rfl | hpos
    · simp [fillDigits, digitBytes_zero]
    · simp [digitBytes_of_pos hpos] at h
  | succ idx ih =>
    rcases Nat.eq_zero_or_pos n with rfl | hpos
    · simp [fillDigits, digitBytes_zero]
    · rw [digitBytes_of_pos hpos] at h ⊢
      simp only [length_append, length_singleton] at h
      rw [fillDigits, if_neg (by omega), ih _ (by omega), digit, append_assoc,
        singleton_append]

/-- On the non-negative range the 20-byte scratch array always suffices. -/
theorem appendInt_of_nonneg {i : Int64} (h : 0 ≤ i) :
    appendInt buf i = .ok (buf ++ toDecimal i.toInt.toNat) := by
  have hnonneg : 0 ≤ i.toInt := by simpa [Int64.le_iff_toInt_le] using h
  have hlt : i.toInt < 2 ^ 63 := i.toInt_lt
  have hneg : ¬ i < 0 := by simpa [Int64.lt_iff_toInt_lt] using hnonneg
  by_cases hzero : i = 0
  · subst hzero
    simp [appendInt, toDecimal, pure, Except.pure]
  · have hpos : i.toInt.toNat ≠ 0 := by
      intro h0
      exact hzero (Int64.toInt_inj.mp (by simp; omega))
    have hlen : (digitBytes i.toInt.toNat).length ≤ 20 := length_digitBytes_le (by omega)
    simp only [appendInt, hzero, hneg, if_false, fillDigits_eq_ok [] hlen, toDecimal, hpos, pure,
      Except.pure, bind, Except.bind, append_nil]

/-- The text of an integer: digits, after a minus sign if it is negative. -/
def IntText (i : Int64) (text : Bytes) : Prop :=
  (0 ≤ i ∧ text = toDecimal i.toInt.toNat) ∨ (i < 0 ∧ ∃ n, text = 45 :: toDecimal n)

theorem appendInt_eq_ok (i : Int64) :
    ∃ text, appendInt buf i = .ok (buf ++ text) ∧ IntText i text := by
  by_cases hneg : i < 0
  · have hzero : i ≠ 0 := by
      rintro rfl
      exact absurd hneg (by decide)
    -- The smallest number has no negation, and the source spells it out.
    by_cases hmin : i = Int64.minValue
    · refine ⟨ascii "-9223372036854775808", ?_, .inr ⟨hneg, 9223372036854775808, ?_⟩⟩
      · simp only [appendInt, if_neg hzero, if_pos hneg, if_pos hmin, pure, Except.pure]
      · decide +kernel
    · have hlt : (-i).toInt < 2 ^ 63 := (-i).toInt_lt
      have hlen : (digitBytes (-i).toInt.toNat).length ≤ 20 := length_digitBytes_le (by omega)
      have hpos : (-i).toInt.toNat ≠ 0 := by
        have hnotMin : i.toInt ≠ -2 ^ 63 := fun h => hmin (Int64.toInt_inj.mp h)
        have hlow := i.le_toInt
        have hlt0 : i.toInt < 0 := by simpa [Int64.lt_iff_toInt_lt] using hneg
        rw [Int64.toInt_neg, Int.bmod_eq_of_le (by omega) (by omega)]
        omega
      refine ⟨45 :: toDecimal (-i).toInt.toNat, ?_, .inr ⟨hneg, _, rfl⟩⟩
      simp only [appendInt, if_neg hzero, if_pos hneg, if_neg hmin, fillDigits_eq_ok [] hlen,
        toDecimal, if_neg hpos, pure, Except.pure, bind, Except.bind, append_nil,
        append_assoc, singleton_append]
  · have hnonneg : 0 ≤ i := Int64.not_lt.mp hneg
    exact ⟨_, appendInt_of_nonneg buf hnonneg, .inl ⟨hnonneg, rfl⟩⟩

theorem appendUint_eq_ok (buf : Bytes) (u : UInt64) :
    appendUint buf u = .ok (buf ++ toDecimal u.toNat) := by
  by_cases hzero : u = 0
  · subst hzero
    simp [appendUint, toDecimal, pure, Except.pure]
  · have hpos : u.toNat ≠ 0 := fun h0 => hzero (UInt64.toNat_inj.mp h0)
    have hlt := u.toNat_lt
    have hlen : (digitBytes u.toNat).length ≤ 20 := length_digitBytes_le (by omega)
    simp only [appendUint, hzero, if_false, fillDigits_eq_ok [] hlen, toDecimal, hpos, pure,
      Except.pure, bind, Except.bind, append_nil]

/-- A counter below `2 ^ 63` keeps its value through the `int64` conversion. -/
theorem toInt_toInt64_of_lt (h : c.toNat < 2 ^ 63) : c.toInt64.toInt = c.toNat := by
  rw [← Int64.toInt_toBitVec, UInt64.toBitVec_toInt64, BitVec.toInt_eq_toNat_of_lt]
  · rfl
  · have : c.toBitVec.toNat = c.toNat := rfl
    omega

/-- Formatting never panics. -/
theorem formatHLC_eq_text (c : UInt64) :
    ∃ tsText ctrText, formatHLC nodeID ts c =
        .ok (nodeID ++ colon :: (tsText ++ colon :: ctrText)) ∧
      IntText ts tsText ∧ IntText c.toInt64 ctrText := by
  obtain ⟨tsText, hts, htsText⟩ := appendInt_eq_ok (nodeID ++ [colon]) ts
  obtain ⟨ctrText, hctr, hctrText⟩ :=
    appendInt_eq_ok (nodeID ++ [colon] ++ tsText ++ [colon]) c.toInt64
  refine ⟨tsText, ctrText, ?_, htsText, hctrText⟩
  simp only [formatHLC, hts, hctr, bind, Except.bind]
  simp

/-- `Now` never answers from its cache: it returns the formatted new state. -/
theorem now_eq_formatHLC (h : HLC) (now : Int64) :
    h.now now = (formatHLC h.nodeID (h.tick now).lastTs (h.tick now).counter).map fun s =>
      ({ h.tick now with
          cachedTS := s, cacheValid := true
          lastCacheTS := (h.tick now).lastTs, lastCacheCtr := (h.tick now).counter }, s) := by
  have hid : (h.tick now).nodeID = h.nodeID := by unfold HLC.tick; split <;> rfl
  -- Every tick invalidates the cache, so `Now` formats anew.
  have hcache : (h.tick now).cacheValid = false := by unfold HLC.tick; split <;> rfl
  simp [HLC.now, hcache, hid, bind, Except.bind, pure, Except.pure, Except.map]

/-! ### Parsing -/

/-- The first colon after a colon-free stretch is the one that ends it. -/
theorem findColon_append (start field rest : GoString) (h : colon ∉ field) :
    findColon (start ++ (field ++ colon :: rest)) start.length =
      some (start.length + field.length) := by
  have hfield : field.findIdx? (· == colon) = none := by
    rw [findIdx?_eq_none_iff]
    intro b hb
    simpa using ne_of_mem_of_not_mem hb h
  have hfirst : (field ++ colon :: rest).findIdx? (· == colon) = some field.length := by
    rw [findIdx?_append, hfield, findIdx?_cons]
    simp
  rw [findColon, drop_left, hfirst]
  rfl

private theorem not_out_of_range (h : IsDigit b) : ¬(b < 48 ∨ b > 57) := by
  simp only [IsDigit] at h
  simp only [UInt8.lt_iff_toNat_lt, gt_iff_lt, not_or, not_lt]
  exact h

private theorem toNat_sub_zero_char (h : IsDigit b) : (b - 48).toNat = b.toNat - 48 :=
  UInt8.toNat_sub_of_le _ _ (UInt8.le_iff_toNat_le.mpr h.1)

/-- On a digit string the timestamp loop computes the decimal value modulo `2 ^ 64`. -/
theorem parseTimestamp_digits (h : ∀ b ∈ bs, IsDigit b) (acc : Nat) :
    parseTimestamp bs (Int64.ofNat acc) = some (Int64.ofNat (valueFrom acc bs)) := by
  induction bs generalizing acc with
  | nil => rfl
  | cons b bs ih =>
    have hb : IsDigit b := h b mem_cons_self
    rw [parseTimestamp, if_neg (not_out_of_range hb), toNat_sub_zero_char hb]
    -- The accumulator may wrap around; `ofNat` of the decimal value wraps with it.
    have hstep : Int64.ofNat acc * 10 + Int64.ofNat (b.toNat - 48) =
        Int64.ofNat (acc * 10 + (b.toNat - 48)) := by
      rw [Int64.ofNat_add, Int64.ofNat_mul]
      rfl
    rw [hstep, ih fun b' hb' => h b' (mem_cons_of_mem _ hb')]
    rfl

/-- On a digit string the counter loop computes the decimal value modulo `2 ^ 64`. -/
theorem parseCounter_digits (h : ∀ b ∈ bs, IsDigit b) (acc : Nat) :
    parseCounter bs (UInt64.ofNat acc) = UInt64.ofNat (valueFrom acc bs) := by
  induction bs generalizing acc with
  | nil => rfl
  | cons b bs ih =>
    have hb : IsDigit b := h b mem_cons_self
    rw [parseCounter, if_neg (not_out_of_range hb), toNat_sub_zero_char hb]
    have hstep : UInt64.ofNat acc * 10 + UInt64.ofNat (b.toNat - 48) =
        UInt64.ofNat (acc * 10 + (b.toNat - 48)) := by
      rw [UInt64.ofNat_add, UInt64.ofNat_mul]
      rfl
    rw [hstep, ih fun b' hb' => h b' (mem_cons_of_mem _ hb')]
    rfl

theorem colon_not_mem_toDecimal (n : Nat) : colon ∉ toDecimal n := fun h =>
  absurd (isDigit_of_mem_toDecimal h) (by decide)

theorem ofNat_toNat_toInt {i : Int64} (h : 0 ≤ i) : Int64.ofNat i.toInt.toNat = i := by
  have hnonneg : 0 ≤ i.toInt := by simpa [Int64.le_iff_toInt_le] using h
  rw [← Int64.ofInt_eq_ofNat, Int.toNat_of_nonneg hnonneg, Int64.ofInt_toInt]

namespace IntText

variable {i : Int64} {text : Bytes}

theorem ne_nil (h : IntText i text) : text ≠ [] := by
  obtain ⟨-, rfl⟩ | ⟨-, n, rfl⟩ := h
  · exact toDecimal_ne_nil _
  · exact cons_ne_nil _ _

theorem colon_not_mem (h : IntText i text) : colon ∉ text := by
  obtain ⟨-, rfl⟩ | ⟨-, n, rfl⟩ := h
  · exact colon_not_mem_toDecimal _
  · intro hmem
    obtain hsign | hdigit := mem_cons.mp hmem
    · exact absurd hsign (by decide)
    · exact colon_not_mem_toDecimal n hdigit

/-- The timestamp loop refuses the sign. -/
theorem parseTimestamp_eq (h : IntText i text) :
    parseTimestamp text 0 = if 0 ≤ i then some i else none := by
  obtain ⟨hnonneg, rfl⟩ | ⟨hneg, n, rfl⟩ := h
  · have hread := parseTimestamp_digits
      (fun _ h => isDigit_of_mem_toDecimal (n := i.toInt.toNat) h) 0
    rw [valueFrom_toDecimal, ofNat_toNat_toInt hnonneg] at hread
    rw [if_pos hnonneg]
    exact hread
  · rw [if_neg (Int64.not_le.mpr hneg)]
    rfl

/-- The counter loop stops at it. -/
theorem parseCounter_eq (h : IntText i text) :
    parseCounter text 0 = if 0 ≤ i then UInt64.ofNat i.toInt.toNat else 0 := by
  obtain ⟨hnonneg, rfl⟩ | ⟨hneg, n, rfl⟩ := h
  · have hread := parseCounter_digits
      (fun _ h => isDigit_of_mem_toDecimal (n := i.toInt.toNat) h) 0
    rw [valueFrom_toDecimal] at hread
    rw [if_pos hnonneg]
    exact hread
  · rw [if_neg (Int64.not_le.mpr hneg)]
    rfl

end IntText

/-! ### Digits there and back -/

/-- The timestamp loop does not overflow on a text: after every digit it has the value of the
    digits so far. -/
def ReadByTimestamp (text : Bytes) : Prop :=
  ∀ front, front <+: text → ∃ ts, parseTimestamp front 0 = some ts ∧ ts.toInt = valueFrom 0 front

/-- The same for the counter loop. -/
def ReadByCounter (text : Bytes) : Prop :=
  ∀ front, front <+: text → (parseCounter front 0).toNat = valueFrom 0 front

theorem readByTimestamp_of_lt {text : Bytes} {n : Nat} (h : Canonical text n)
    (hlt : n < 2 ^ 63) : ReadByTimestamp text := by
  intro front hfront
  have hle := h.valueFrom_le hfront
  refine ⟨_, parseTimestamp_digits (fun b hb => h.digits b (hfront.subset hb)) 0, ?_⟩
  exact Int64.toInt_ofNat_of_lt (by omega)

theorem readByCounter_of_lt {text : Bytes} {n : Nat} (h : Canonical text n)
    (hlt : n < 2 ^ 64) : ReadByCounter text := by
  intro front hfront
  have hle := h.valueFrom_le hfront
  have hread := parseCounter_digits (fun b hb => h.digits b (hfront.subset hb)) 0
  rw [show parseCounter front 0 = _ from hread]
  exact UInt64.toNat_ofNat_of_lt' (by show _ < 2 ^ 64; omega)

/-- Both writers append the digits of a number to any buffer, and the loops of `Update` and
    `hlcToInt64` read the number back without overflow. -/
theorem appended_digits_read_back (buf : Bytes) {i : Int64} (hi : 0 ≤ i) (u : UInt64) :
    (∃ text, appendInt buf i = .ok (buf ++ text) ∧ Canonical text i.toInt.toNat ∧
      parseTimestamp text 0 = some i ∧ ReadByTimestamp text ∧
      parseCounter text 0 = UInt64.ofNat i.toInt.toNat ∧ ReadByCounter text) ∧
    ∃ text, appendUint buf u = .ok (buf ++ text) ∧ Canonical text u.toNat ∧
      parseCounter text 0 = u ∧ ReadByCounter text := by
  have hint := canonical_toDecimal i.toInt.toNat
  have huint := canonical_toDecimal u.toNat
  have hlt : i.toInt.toNat < 2 ^ 63 := by
    have := i.toInt_lt
    omega
  have htext : IntText i (toDecimal i.toInt.toNat) := .inl ⟨hi, rfl⟩
  have hts := htext.parseTimestamp_eq
  have hctr := htext.parseCounter_eq
  rw [if_pos hi] at hts hctr
  refine ⟨⟨_, appendInt_of_nonneg buf hi, hint, hts, readByTimestamp_of_lt hint hlt, hctr,
    readByCounter_of_lt hint (by omega)⟩, _, appendUint_eq_ok buf u, huint, ?_,
    readByCounter_of_lt huint u.toNat_lt⟩
  exact UInt64.toNat_inj.mp
    ((readByCounter_of_lt huint u.toNat_lt _ (prefix_refl _)).trans huint.value)

theorem appended_digits_read_back_max :
    0 ≤ Int64.maxValue ∧
      (∃ text, appendInt [] Int64.maxValue = .ok text ∧
        parseTimestamp text 0 = some Int64.maxValue) ∧
      ∃ text, appendUint [] (-1) = .ok text ∧ parseCounter text 0 = -1 := by
  have hnonneg : 0 ≤ Int64.maxValue := by decide
  obtain ⟨⟨text, hint, -, hts, -⟩, text', huint, -, hctr, -⟩ :=
    appended_digits_read_back [] hnonneg (-1)
  exact ⟨hnonneg, ⟨text, hint, hts⟩, text', huint, hctr⟩

/-! ### The fields -/

/-- The parse of a string cut at its first two colons: the field between them is the
    timestamp, and the counter starts after the second. -/
theorem parseHLC_fields {pre field rest : GoString} (hpre : colon ∉ pre) (hfield : colon ∉ field)
    (hrest : rest ≠ []) :
    parseHLC (pre ++ colon :: (field ++ colon :: rest)) =
      (parseTimestamp field 0).map fun ts => (ts, parseCounter rest 0) := by
  have hidx1 := findColon_append [] pre (field ++ colon :: rest) hpre
  have hidx2 := findColon_append (pre ++ [colon]) field rest hfield
  have hlen := length_pos_iff.mpr hrest
  simp only [nil_append, length_nil, Nat.zero_add, append_assoc, cons_append,
    length_append, length_singleton] at hidx1 hidx2
  -- What stands between and after the colons are the two fields.
  have hcutTs := drop_take_append (pre ++ [colon]) field (colon :: rest)
  have hcutCtr : ((pre ++ colon :: (field ++ [colon])) ++ rest).drop
      (pre ++ colon :: (field ++ [colon])).length = rest := drop_left
  simp only [append_assoc, cons_append, nil_append, length_append,
    length_cons, length_nil, Nat.zero_add] at hcutTs hcutCtr
  rw [show pre.length + (field.length + 1 + 1) = pre.length + 1 + field.length + 1 by omega]
    at hcutCtr
  have hne : pre ++ colon :: (field ++ colon :: rest) ≠ [] := by simp
  rw [parseHLC, if_neg hne, hidx1, Option.bind_eq_bind, Option.bind_some, if_neg (by simp), hidx2,
    Option.bind_some, if_neg (by simp; omega), hcutTs, hcutCtr]
  cases parseTimestamp field 0 <;> rfl

/-- The counter loop does not read past a colon. -/
theorem parseCounter_append_colon (rest : GoString) (ctr : UInt64) :
    parseCounter (bs ++ colon :: rest) ctr = parseCounter bs ctr := by
  induction bs generalizing ctr with
  | nil => rfl
  | cons b bs ih =>
    simp only [cons_append, parseCounter]
    split
    · rfl
    · exact ih _

/-! ### What is read back -/

/-- What the parsers read in the text of a pair: the fields between the colons of the node
    ID, as far as it has any. -/
def readBack (nodeID : GoString) (ts : Int64) (c : UInt64) : Option (Int64 × UInt64) :=
  match nodeID.splitOn colon with
  | _ :: first :: second :: _ =>
    (parseTimestamp first 0).map fun r => (r, parseCounter second 0)
  | [_, first] =>
    (parseTimestamp first 0).map fun r =>
      (r, if 0 ≤ ts then UInt64.ofNat ts.toInt.toNat else 0)
  | _ => if 0 ≤ ts then some (ts, if c.toNat < 2 ^ 63 then c else 0) else none

/-- The text of a counter, which is written as a signed number. -/
theorem parseCounter_toInt64 {text : Bytes} (h : IntText c.toInt64 text) :
    parseCounter text 0 = if c.toNat < 2 ^ 63 then c else 0 := by
  rw [h.parseCounter_eq]
  by_cases hc : c.toNat < 2 ^ 63
  · have hval := toInt_toInt64_of_lt hc
    have hnonneg : 0 ≤ c.toInt64 := by
      rw [Int64.le_iff_toInt_le, hval]
      simp
    rw [if_pos hc, if_pos hnonneg, hval, Int.toNat_natCast, UInt64.ofNat_toNat]
  · have hneg : ¬0 ≤ c.toInt64 := by
      have hlt := c.toNat_lt
      rw [Int64.le_iff_toInt_le, Int64.toInt_zero, ← Int64.toInt_toBitVec,
        UInt64.toBitVec_toInt64, BitVec.toInt_eq_toNat_cond, UInt64.toNat_toBitVec,
        if_neg (by omega)]
      omega
    rw [if_neg hc, if_neg hneg]

/-- The counter loop reads the first field only. -/
theorem parseCounter_append_field (rest : GoString) :
    parseCounter (bs ++ colon :: rest) 0 = parseCounter ((bs.splitOn colon).headD []) 0 := by
  rw [parseCounter_append_colon]
  by_cases hcolon : colon ∈ bs
  · obtain ⟨field, more, rfl, hfield⟩ := eq_append_cons_of_mem hcolon
    rw [splitOn_append_cons_self_of_not_mem hfield, parseCounter_append_colon]
    rfl
  · rw [splitOn_eq_singleton hcolon]
    rfl

theorem parseHLC_format {nodeID tsText ctrText : GoString} {ts : Int64} (hts : IntText ts tsText)
    (hctr : IntText c.toInt64 ctrText) :
    parseHLC (nodeID ++ colon :: (tsText ++ colon :: ctrText)) = readBack nodeID ts c := by
  by_cases hcolon : colon ∈ nodeID
  · obtain ⟨pre, rest, rfl, hpre⟩ := eq_append_cons_of_mem hcolon
    by_cases hmore : colon ∈ rest
    · -- Both fields come out of the node ID.
      obtain ⟨first, second, rfl, hfirst⟩ := eq_append_cons_of_mem hmore
      have hread := parseHLC_fields hpre hfirst
        (append_ne_nil_of_right_ne_nil second
          (cons_ne_nil colon (tsText ++ colon :: ctrText)))
      rw [parseCounter_append_field] at hread
      rw [readBack, splitOn_append_cons_self_of_not_mem hpre,
        splitOn_append_cons_self_of_not_mem hfirst]
      cases hsplit : second.splitOn colon with
      | nil => exact absurd hsplit (splitOn_ne_nil _ _)
      | cons field more => simpa [hsplit] using hread
    · -- The timestamp comes out of the node ID, and the counter is the timestamp written.
      have hread := parseHLC_fields hpre hmore
        (append_ne_nil_of_left_ne_nil hts.ne_nil (colon :: ctrText))
      rw [parseCounter_append_colon, hts.parseCounter_eq] at hread
      rw [readBack, splitOn_append_cons_self_of_not_mem hpre,
        splitOn_eq_singleton hmore]
      simpa using hread
  · rw [parseHLC_fields hcolon hts.colon_not_mem hctr.ne_nil, hts.parseTimestamp_eq,
      parseCounter_toInt64 hctr, readBack, splitOn_eq_singleton hcolon]
    by_cases hnonneg : 0 ≤ ts
    · simp only [if_pos hnonneg, Option.map_some]
    · simp only [if_neg hnonneg, Option.map_none]

/-- Parsing recovers a formatted clock state, for a colon-free node ID. -/
theorem parseHLC_formatHLC {nodeID : GoString} (hid : colon ∉ nodeID) {ts : Int64} (hts : 0 ≤ ts)
    (hc : c.toNat < 2 ^ 63) : ∃ s, formatHLC nodeID ts c = .ok s ∧ parseHLC s = some (ts, c) := by
  obtain ⟨tsText, ctrText, hs, htsText, hctrText⟩ := formatHLC_eq_text nodeID ts c
  refine ⟨_, hs, ?_⟩
  rw [parseHLC_format htsText hctrText, readBack, splitOn_eq_singleton hid]
  simp only [if_pos hts, if_pos hc]

/-- What `Now` returns, and the state it leaves, for a clock that is not before 1970 and
    whose counter does not overflow. -/
theorem now_eq_ok {h : HLC} (hid : colon ∉ h.nodeID) (hts : 0 ≤ (h.tick now).lastTs)
    (hc : (h.tick now).counter.toNat < 2 ^ 63) :
    ∃ h' s, h.now now = .ok (h', s) ∧ h'.lastTs = (h.tick now).lastTs ∧
      h'.counter = (h.tick now).counter ∧ h'.nodeID = h.nodeID ∧
      parseHLC s = some ((h.tick now).lastTs, (h.tick now).counter) := by
  obtain ⟨s, hs, hparse⟩ := parseHLC_formatHLC hid hts hc
  rw [now_eq_formatHLC, hs]
  refine ⟨_, s, rfl, rfl, rfl, ?_, hparse⟩
  unfold HLC.tick
  split <;> rfl

/-! ### Recovering the pair -/

/-- `Now` at wall-clock reading `wall` returns a string from which a fresh clock adopts the
    pair written, and `hlcToInt64` encodes it whatever it would fall back to. -/
def HLC.Recovered (h : HLC) (wall : Int64) : Prop :=
  ∃ h' s, h.now wall = .ok (h', s) ∧
    (∀ id, ((newHLC id).update s).lastTs = h'.lastTs ∧
      ((newHLC id).update s).counter = h'.counter) ∧
    ∀ fallback, hlcToInt64 fallback s = packVersion h'.lastTs h'.counter

/-- The pair read is the one written.  A fresh clock also stands at `(0, 0)` after a
    timestamp that overflowed to a negative number. -/
def Coincides (read : Option Int64) (ctr : UInt64) (ts : Int64) (c : UInt64) : Prop :=
  (0 ≤ ts ∧ read = some ts ∧ ctr = c) ∨
    (ts = 0 ∧ c = 0 ∧ ∃ r, read = some r ∧ r < 0 ∧ packVersion r ctr = 0)

/-- What has to hold of the node ID and the pair `(ts, c)` for the text to carry the pair:
    signs are lost, and the fields of a node ID with colons are read in their place. -/
def SurvivesText (nodeID : GoString) (ts : Int64) (c : UInt64) : Prop :=
  match nodeID.splitOn colon with
  | _ :: first :: second :: _ => Coincides (parseTimestamp first 0) (parseCounter second 0) ts c
  | [_, first] => Coincides (parseTimestamp first 0) (UInt64.ofNat ts.toInt.toNat) ts c
  | _ => 0 ≤ ts ∧ c.toNat < 2 ^ 63

/-- A fresh clock takes over whatever is not before its own `(0, 0)`. -/
theorem update_newHLC (id : GoString) (h : parseHLC s = some (r, k)) :
    (((newHLC id).update s).lastTs, ((newHLC id).update s).counter) =
      if 0 ≤ r then (r, k) else (0, 0) := by
  simp only [HLC.update, h]
  by_cases hpos : r > (newHLC id).lastTs
  · have hnonneg : 0 ≤ r := Int64.le_of_lt hpos
    rw [if_pos hpos, if_pos hnonneg]
  · have hle : r ≤ 0 := Int64.not_lt.mp hpos
    rw [if_neg hpos]
    by_cases hzero : r = 0
    · -- At timestamp 0 a larger counter is taken, and a counter of 0 is what the clock has.
      subst hzero
      by_cases hk : k > 0
      · rw [if_pos ⟨rfl, hk⟩]
        rfl
      · have : k = 0 := UInt64.le_zero_iff.mp (UInt64.not_lt.mp hk)
        rw [if_neg (fun hboth => hk hboth.2), this]
        rfl
    · have hneg : ¬0 ≤ r := fun hnonneg => hzero (Int64.le_antisymm hle hnonneg)
      rw [if_neg (fun hboth => hzero hboth.1), if_neg hneg]
      rfl

theorem forall_update_newHLC_iff {ts : Int64} (hread : parseHLC s = some (r, k)) :
    (∀ id, ((newHLC id).update s).lastTs = ts ∧ ((newHLC id).update s).counter = c) ↔
      (if 0 ≤ r then (r, k) else (0, 0)) = (ts, c) := by
  constructor
  · intro hall
    rw [← update_newHLC [] hread, (hall []).1, (hall []).2]
  · intro heq id
    exact Prod.mk.injEq .. ▸ (update_newHLC id hread).trans heq

/-- The pair read makes a fresh clock and the encoding what the pair written would. -/
def Adopted (read : Option (Int64 × UInt64)) (ts : Int64) (c : UInt64) : Prop :=
  ∃ r k, read = some (r, k) ∧
    ((0 ≤ ts ∧ r = ts ∧ k = c) ∨ (ts = 0 ∧ c = 0 ∧ r < 0 ∧ packVersion r k = 0))

theorem adopted_map_iff (read : Option Int64) (ts : Int64) (c : UInt64) :
    Adopted (read.map fun r => (r, k)) ts c ↔ Coincides read k ts c := by
  cases read with
  | none => simp [Adopted, Coincides]
  | some r =>
    simp only [Adopted, Coincides, Option.map_some, Option.some.injEq, Prod.mk.injEq]
    constructor
    · rintro ⟨r, k, ⟨rfl, rfl⟩, hread⟩
      simpa using hread
    · intro hread
      exact ⟨r, k, ⟨rfl, rfl⟩, by simpa using hread⟩

/-- Both parsers recover the pair iff what they read is adopted. -/
theorem parsers_recover_iff (ts : Int64) :
    ((∀ id, ((newHLC id).update s).lastTs = ts ∧ ((newHLC id).update s).counter = c) ∧
      ∀ fallback, hlcToInt64 fallback s = packVersion ts c) ↔ Adopted (parseHLC s) ts c := by
  cases hread : parseHLC s with
  | none =>
    -- The fallback is the reading of the clock, so no value is the right one.
    simp only [hlcToInt64, hread]
    constructor
    · rintro ⟨-, hfallback⟩
      exact absurd ((hfallback 0).trans (hfallback 1).symm) (by decide)
    · rintro ⟨r, k, hsome, -⟩
      cases hsome
  | some pair =>
    obtain ⟨r, k⟩ := pair
    rw [forall_update_newHLC_iff hread]
    simp only [hlcToInt64, hread, forall_const]
    constructor
    · -- The clock tells the pair, except for a negative timestamp, which it ignores.
      rintro ⟨heq, hversion⟩
      refine ⟨r, k, rfl, ?_⟩
      by_cases hnonneg : 0 ≤ r
      · rw [if_pos hnonneg] at heq
        cases heq
        exact .inl ⟨hnonneg, rfl, rfl⟩
      · rw [if_neg hnonneg] at heq
        cases heq
        exact .inr ⟨rfl, rfl, Int64.not_le.mp hnonneg, hversion.trans (by decide)⟩
    · rintro ⟨r', k', hsome, ⟨hnonneg, rfl, rfl⟩ | ⟨rfl, rfl, hneg, hversion⟩⟩
      · cases hsome
        exact ⟨if_pos hnonneg, rfl⟩
      · cases hsome
        exact ⟨if_neg (Int64.not_le.mpr hneg), hversion.trans (by decide)⟩

/-- Without colons in the node ID only the signs are at stake. -/
theorem adopted_unescaped_iff (c : UInt64) :
    Adopted (if 0 ≤ ts then some (ts, if c.toNat < 2 ^ 63 then c else 0) else none) ts c ↔
      0 ≤ ts ∧ c.toNat < 2 ^ 63 := by
  by_cases hnonneg : 0 ≤ ts
  · rw [if_pos hnonneg]
    constructor
    · rintro ⟨r, k, hsome, hread⟩
      cases hsome
      refine ⟨hnonneg, ?_⟩
      obtain ⟨-, -, hk⟩ | ⟨rfl, -, hneg, -⟩ := hread
      · by_contra hc
        rw [if_neg hc] at hk
        exact hc (hk ▸ by decide)
      · exact absurd hneg (by decide)
    · rintro ⟨-, hc⟩
      exact ⟨ts, c, by rw [if_pos hc], .inl ⟨hnonneg, rfl, rfl⟩⟩
  · rw [if_neg hnonneg]
    constructor
    · rintro ⟨r, k, hsome, -⟩
      cases hsome
    · exact fun hboth => absurd hboth.1 hnonneg

theorem adopted_readBack_iff : Adopted (readBack nodeID ts c) ts c ↔ SurvivesText nodeID ts c := by
  unfold readBack SurvivesText
  obtain _ | ⟨_, _ | ⟨first, _ | ⟨second, more⟩⟩⟩ := nodeID.splitOn colon
  · exact adopted_unescaped_iff ts c
  · exact adopted_unescaped_iff ts c
  · -- The counter is the timestamp; it has to be nonnegative to coincide at all.
    show Adopted _ ts c ↔ _
    rw [adopted_map_iff]
    by_cases hnonneg : 0 ≤ ts
    · rw [if_pos hnonneg]
    · have hzero : ts ≠ 0 := by
        rintro rfl
        exact hnonneg (Int64.le_refl 0)
      simp only [Coincides, hnonneg, hzero, false_and, or_self]
  · exact adopted_map_iff _ ts c

/-- **Which clock states survive the text.**  For every clock, whatever its node ID, and every
    reading of the wall clock. -/
theorem recovered_iff_survivesText (h : HLC) (wall : Int64) :
    h.Recovered wall ↔
      SurvivesText h.nodeID (h.tick wall).lastTs (h.tick wall).counter := by
  obtain ⟨tsText, ctrText, hs, hts, hctr⟩ :=
    formatHLC_eq_text h.nodeID (h.tick wall).lastTs (h.tick wall).counter
  rw [← adopted_readBack_iff, ← parseHLC_format hts hctr, ← parsers_recover_iff]
  unfold HLC.Recovered
  rw [now_eq_formatHLC, hs]
  constructor
  · rintro ⟨h', s, hok, hrecovered⟩
    cases hok
    exact hrecovered
  · intro hrecovered
    exact ⟨_, _, rfl, hrecovered⟩

/-- A node named by its address: the port is read as the timestamp and the timestamp as the
    counter. -/
theorem port_read_as_timestamp :
    ((newHLC (ascii "127.0.0.1:8080")).now 1000).map Prod.snd =
        .ok (ascii "127.0.0.1:8080:1000:0") ∧
      ((newHLC []).update (ascii "127.0.0.1:8080:1000:0")).lastTs = 8080 ∧
      ((newHLC []).update (ascii "127.0.0.1:8080:1000:0")).counter = 1000 ∧
      ¬(newHLC (ascii "127.0.0.1:8080")).Recovered 1000 := by
  have hnow : (newHLC (ascii "127.0.0.1:8080")).now 1000 = .ok
      (⟨1000, 0, ascii "127.0.0.1:8080", ascii "127.0.0.1:8080:1000:0", true, 1000, 0⟩,
        ascii "127.0.0.1:8080:1000:0") := by
    decide +kernel
  refine ⟨by rw [hnow]; rfl, by decide, by decide, ?_⟩
  rintro ⟨h', s, hok, hclock, -⟩
  rw [hnow] at hok
  cases hok
  exact absurd (hclock []).1 (by decide)

end GridKV
