import Mathlib

/-!
# Last-write-wins registers

A register holds nothing or one value, and a value offered to it replaces the held one
when its version is strictly higher.  Two facts describe any sequence of offers: the
version held never goes down, and the held value is one of those offered.  So a register
that has been offered a value of highest version, the only one with that version, holds
it (`eq_of_reached`), whatever else it was offered and in whatever order.  What a
register holds after any list of offers is a value of highest version among the old one
and the offers (`isHighest_foldl_put`).  Two registers that were offered the same values
end up with the same version (`HeldAfter.agree`).

A register of the other kind also takes a value of the version it holds.  What it ends up
with then depends on the order of the offers, unless those of the highest version are all
the same (`Settled.foldl_replace_eq`).
-/

namespace Lww

variable {α ι : Type} [LinearOrder ι] {version : α → ι} {r : Option α} {a b : α} {v : ι}
  {P : α → Prop} {w : ι}

/-- Offer a value to a register. -/
def put (version : α → ι) (r : Option α) (a : α) : Option α :=
  match r with
  | none => some a
  | some b => if version b < version a then some a else some b

/-- The register holds a version at least as high as `v`. -/
def Reached (version : α → ι) (r : Option α) (v : ι) : Prop := ∃ b, r = some b ∧ v ≤ version b

theorem eq_or_eq_of_put_eq_some (h : put version r a = some b) : b = a ∨ r = some b := by
  unfold put at h
  split at h
  · exact .inl (Option.some.inj h).symm
  · split at h
    · exact .inl (Option.some.inj h).symm
    · exact .inr h

/-- Whatever the register keeps, it has reached the version offered. -/
theorem reached_put (version : α → ι) (r : Option α) (a : α) :
    Reached version (put version r a) (version a) := by
  unfold put
  split
  · exact ⟨a, rfl, le_refl _⟩
  · rename_i b
    split
    · exact ⟨a, rfl, le_refl _⟩
    · exact ⟨b, rfl, not_lt.mp ‹_›⟩

theorem Reached.put (h : Reached version r v) (a : α) : Reached version (put version r a) v := by
  obtain ⟨b, rfl, hle⟩ := h
  unfold Lww.put
  dsimp only
  split
  · exact ⟨a, rfl, le_trans hle (le_of_lt ‹_›)⟩
  · exact ⟨b, rfl, hle⟩

/-- A register that holds one of the values `P` and has reached the highest version among
    them holds the value of that version. -/
theorem eq_of_reached (hheld : ∀ b, r = some b → P b) (hmax : ∀ b, P b → version b ≤ version a)
    (hunique : ∀ b, P b → version b = version a → b = a) (h : Reached version r (version a)) :
    r = some a := by
  obtain ⟨b, rfl, hle⟩ := h
  have hb := hheld b rfl
  rw [hunique b hb (le_antisymm (hmax b hb) hle)]

/-- A version already reached is refused. -/
theorem Reached.put_eq (h : Reached version r (version a)) : Lww.put version r a = r := by
  obtain ⟨b, rfl, hle⟩ := h
  simp only [Lww.put, if_neg (not_lt.mpr hle)]

theorem put_of_not_reached (h : ¬ Reached version r (version a)) :
    Lww.put version r a = some a := by
  cases r with
  | none => rfl
  | some b =>
    have hlt : version b < version a := by
      rw [← not_le]
      exact fun hle => h ⟨b, rfl, hle⟩
    simp only [Lww.put, if_pos hlt]

theorem Reached.mono (h : Reached version r v) (hle : w ≤ v) : Reached version r w := by
  obtain ⟨b, hb, hv⟩ := h
  exact ⟨b, hb, le_trans hle hv⟩

/-- Versions that were reached are below those that were not. -/
theorem Reached.lt (h : Reached version r v) (hw : ¬ Reached version r w) : v < w := by
  rw [← not_le]
  exact fun hle => hw (h.mono hle)

/-! ### Many offers -/

/-- The register holds a value of highest version among the values `P`, if there are any. -/
def IsHighest (version : α → ι) (P : α → Prop) : Option α → Prop
  | none => ∀ a, ¬ P a
  | some b => P b ∧ ∀ a, P a → version a ≤ version b

theorem IsHighest.reached (h : IsHighest version P r) (ha : P a) :
    Reached version r (version a) := by
  cases r with
  | none => exact absurd ha (h a)
  | some b => exact ⟨b, rfl, h.2 a ha⟩

/-- A register that holds one of the values `P` and has reached all their versions. -/
theorem isHighest_of_reached (hheld : ∀ b, r = some b → P b)
    (hreached : ∀ a, P a → Reached version r (version a)) : IsHighest version P r := by
  cases r with
  | none =>
    intro a ha
    obtain ⟨b, hb, -⟩ := hreached a ha
    exact nomatch hb
  | some b =>
    refine ⟨hheld b rfl, fun a ha => ?_⟩
    obtain ⟨c, hc, hle⟩ := hreached a ha
    rwa [Option.some.inj hc]

theorem IsHighest.congr {Q : α → Prop} (h : IsHighest version P r) (hPQ : ∀ a, P a ↔ Q a) :
    IsHighest version Q r := by
  rwa [← funext fun a => propext (hPQ a)]

/-- Where versions tell the values apart, the highest one is unique. -/
theorem IsHighest.unique {r' : Option α} (h : IsHighest version P r) (h' : IsHighest version P r')
    (hinj : ∀ a b, P a → P b → version a = version b → a = b) : r = r' := by
  cases r with
  | none =>
    cases r' with
    | none => rfl
    | some b => exact absurd h'.1 (h b)
  | some a =>
    cases r' with
    | none => exact absurd h.1 (h' a)
    | some b =>
      have heq : version a = version b := le_antisymm (h'.2 a h.1) (h.2 b h'.1)
      rw [hinj a b h.1 h'.1 heq]

theorem isHighest_self (version : α → ι) (r : Option α) :
    IsHighest version (fun x => r = some x) r := by
  cases r with
  | none => exact fun x hx => nomatch hx
  | some b =>
    refine ⟨rfl, fun x hx => ?_⟩
    cases hx
    exact le_refl _

/-- One offer. -/
theorem IsHighest.put (h : IsHighest version P r) (a : α) :
    IsHighest version (fun x => P x ∨ x = a) (put version r a) := by
  cases r with
  | none =>
    refine ⟨.inr rfl, fun x hx => ?_⟩
    obtain hold | rfl := hx
    · exact absurd hold (h x)
    · exact le_refl _
  | some b =>
    unfold Lww.put
    dsimp only
    split
    · rename_i hlt
      refine ⟨.inr rfl, fun x hx => ?_⟩
      obtain hold | rfl := hx
      · exact le_trans (h.2 x hold) (le_of_lt hlt)
      · exact le_refl _
    · rename_i hle
      refine ⟨.inl h.1, fun x hx => ?_⟩
      obtain hold | rfl := hx
      · exact h.2 x hold
      · exact not_lt.mp hle

/-- Any list of offers. -/
theorem IsHighest.foldl_put (h : IsHighest version P r) (as : List α) :
    IsHighest version (fun x => P x ∨ x ∈ as) (as.foldl (Lww.put version) r) := by
  induction as generalizing r P with
  | nil => exact h.congr fun x => by simp
  | cons a as ih =>
    refine (ih (h.put a)).congr fun x => ?_
    rw [List.mem_cons, or_assoc]

theorem isHighest_foldl_put (version : α → ι) (r : Option α) (as : List α) :
    IsHighest version (fun x => r = some x ∨ x ∈ as) (as.foldl (put version) r) :=
  (isHighest_self version r).foldl_put as

/-! ### Two registers -/

section

variable {β : Type} {offer offer' : β → α} {start start' r' : Option α} {P : β → Prop}

/-- What a register can hold that held `start` and was then offered the values of `P`: the
    old value if none of them was newer, and otherwise the newest of them. -/
def HeldAfter (version : α → ι) (offer : β → α) (start : Option α) (P : β → Prop)
    (r : Option α) : Prop :=
  (r = start ∧ ∀ b, P b → Reached version start (version (offer b))) ∨
    ∃ b, P b ∧ r = some (offer b) ∧ ¬ Reached version start (version (offer b)) ∧
      ∀ c, P c → version (offer c) ≤ version (offer b)

theorem heldAfter_start (version : α → ι) (offer : β → α) (start : Option α) :
    HeldAfter version offer start (fun _ => False) start :=
  .inl ⟨rfl, fun _ h => h.elim⟩

theorem HeldAfter.put (h : HeldAfter version offer start P r) (b : β) :
    HeldAfter version offer start (fun c => P c ∨ c = b) (put version r (offer b)) := by
  obtain ⟨rfl, hreached⟩ | ⟨b₀, hb₀, rfl, hnew, hmax⟩ := h
  · by_cases hb : Reached version r (version (offer b))
    · refine .inl ⟨hb.put_eq, fun c hc => ?_⟩
      obtain hold | rfl := hc
      · exact hreached c hold
      · exact hb
    · refine .inr ⟨b, .inr rfl, put_of_not_reached hb, hb, fun c hc => ?_⟩
      obtain hold | rfl := hc
      · exact le_of_lt ((hreached c hold).lt hb)
      · exact le_refl _
  · by_cases hb : Reached version (some (offer b₀)) (version (offer b))
    · refine .inr ⟨b₀, .inl hb₀, hb.put_eq, hnew, fun c hc => ?_⟩
      obtain hold | rfl := hc
      · exact hmax c hold
      · obtain ⟨a, ha, hle⟩ := hb
        rwa [Option.some.inj ha]
    · have hlt : version (offer b₀) < version (offer b) := Reached.lt ⟨_, rfl, le_refl _⟩ hb
      refine .inr ⟨b, .inr rfl, put_of_not_reached hb, ?_, fun c hc => ?_⟩
      · exact fun hreached => hnew (hreached.mono (le_of_lt hlt))
      · obtain hold | rfl := hc
        · exact le_trans (hmax c hold) (le_of_lt hlt)
        · exact le_refl _

theorem HeldAfter.congr {Q : β → Prop} (h : HeldAfter version offer start P r)
    (hPQ : ∀ b, P b ↔ Q b) : HeldAfter version offer start Q r := by
  rwa [← funext fun b => propext (hPQ b)]

/-- Two registers that had reached the same versions and were offered the same values both
    still hold what they held, or hold values of one version. -/
theorem HeldAfter.agree (h : HeldAfter version offer start P r)
    (h' : HeldAfter version offer' start' P r')
    (hstart : ∀ v, Reached version start v ↔ Reached version start' v)
    (hoffer : ∀ b, version (offer b) = version (offer' b)) :
    (r = start ∧ r' = start') ∨
      ∃ b c, P b ∧ P c ∧ version (offer b) = version (offer c) ∧ r = some (offer b) ∧
        r' = some (offer' c) := by
  obtain ⟨hr, hreached⟩ | ⟨b, hb, hr, hnew, hmax⟩ := h
  · obtain ⟨hr', -⟩ | ⟨c, hc, -, hnew', -⟩ := h'
    · exact .inl ⟨hr, hr'⟩
    · exact absurd ((hstart _).mp (hoffer c ▸ hreached c hc)) hnew'
  · obtain ⟨-, hreached'⟩ | ⟨c, hc, hr', -, hmax'⟩ := h'
    · exact absurd ((hstart _).mpr (hoffer b ▸ hreached' b hb)) hnew
    · have hle := hmax' b hb
      rw [← hoffer, ← hoffer] at hle
      exact .inr ⟨b, c, hb, hc, le_antisymm hle (hmax c hc), hr, hr'⟩

end

/-! ### Registers that take ties -/

section

variable {as : List α}

/-- Offer a value to a register that refuses only lower versions. -/
def replace (version : α → ι) (r : Option α) (a : α) : Option α :=
  match r with
  | none => some a
  | some b => if version a < version b then some b else some a

/-- The version is at least that of the held value. -/
def NotBelow (version : α → ι) (r : Option α) (v : ι) : Prop := ∀ b, r = some b → version b ≤ v

theorem replace_of_notBelow (h : NotBelow version r (version a)) :
    replace version r a = some a := by
  cases r with
  | none => rfl
  | some b => simp only [replace, if_neg (not_lt.mpr (h b rfl))]

theorem replace_of_not_notBelow (h : ¬NotBelow version r (version a)) :
    replace version r a = r := by
  cases r with
  | none => exact absurd (fun b hb => nomatch hb) h
  | some b =>
    have hlt : version a < version b := by
      rw [← not_le]
      intro hle
      apply h
      intro c hc
      rwa [← Option.some.inj hc]
    simp only [replace, if_pos hlt]

/-- What the register holds after some offers: the old value if all of them were below it,
    and otherwise one of highest version among them. -/
theorem foldl_replace_cases (version : α → ι) (r : Option α) (as : List α) :
    (as.foldl (replace version) r = r ∧ ∀ a ∈ as, ¬NotBelow version r (version a)) ∨
      ∃ a ∈ as, as.foldl (replace version) r = some a ∧ (∀ b ∈ as, version b ≤ version a) ∧
        NotBelow version r (version a) := by
  induction as generalizing r with
  | nil => exact .inl ⟨rfl, fun a ha => nomatch ha⟩
  | cons a as ih =>
    simp only [List.foldl_cons]
    by_cases ha : NotBelow version r (version a)
    · rw [replace_of_notBelow ha]
      -- From here on the register holds `a`, and what is above `a` is above the old value too.
      obtain ⟨hkept, hbelow⟩ | ⟨b, hb, hheld, hmax, hge⟩ := ih (some a)
      · refine .inr ⟨a, List.mem_cons_self, hkept, fun b hb => ?_, ha⟩
        obtain rfl | hb := List.mem_cons.mp hb
        · exact le_refl _
        · apply le_of_lt
          rw [← not_le]
          intro hle
          apply hbelow b hb
          intro c hc
          rwa [← Option.some.inj hc]
      · have hab : version a ≤ version b := hge a rfl
        refine .inr ⟨b, List.mem_cons_of_mem _ hb, hheld, fun c hc => ?_,
          fun c hc => le_trans (ha c hc) hab⟩
        obtain rfl | hc := List.mem_cons.mp hc
        · exact hab
        · exact hmax c hc
    · rw [replace_of_not_notBelow ha]
      obtain ⟨hkept, hbelow⟩ | ⟨b, hb, hheld, hmax, hge⟩ := ih r
      · refine .inl ⟨hkept, fun b hb => ?_⟩
        obtain rfl | hb := List.mem_cons.mp hb
        · exact ha
        · exact hbelow b hb
      · refine .inr ⟨b, List.mem_cons_of_mem _ hb, hheld, fun c hc => ?_, hge⟩
        obtain rfl | hc := List.mem_cons.mp hc
        · rw [← not_lt]
          exact fun hlt => ha fun d hd => le_trans (hge d hd) (le_of_lt hlt)
        · exact hmax c hc

/-- The offer is not below the old value nor below any other offer. -/
def Leads (version : α → ι) (r : Option α) (as : List α) (a : α) : Prop :=
  (∀ b ∈ as, version b ≤ version a) ∧ NotBelow version r (version a)

/-- A leading offer that comes last wins. -/
theorem foldl_replace_snoc (h : Leads version r as a) :
    (as ++ [a]).foldl (replace version) r = some a := by
  rw [List.foldl_append, List.foldl_cons, List.foldl_nil]
  apply replace_of_notBelow
  obtain ⟨hkept, -⟩ | ⟨b, hb, hheld, -⟩ := foldl_replace_cases version r as
  · rw [hkept]
    exact h.2
  · rw [hheld]
    intro c hc
    rw [← Option.some.inj hc]
    exact h.1 b hb

/-- The leading offers agree. -/
def Settled (version : α → ι) (r : Option α) (as : List α) : Prop :=
  ∀ a ∈ as, ∀ b ∈ as, version a = version b → Leads version r as a → a = b

/-- If the leading offers agree, the order of the offers and their repetitions do not
    matter. -/
theorem Settled.foldl_replace_eq {bs cs : List α} (h : Settled version r as)
    (hbs : ∀ a, a ∈ bs ↔ a ∈ as) (hcs : ∀ a, a ∈ cs ↔ a ∈ as) :
    bs.foldl (replace version) r = cs.foldl (replace version) r := by
  obtain ⟨hkept, hbelow⟩ | ⟨b, hb, hheld, hmax, hge⟩ := foldl_replace_cases version r bs
  · obtain ⟨hkept', -⟩ | ⟨c, hc, -, -, hge'⟩ := foldl_replace_cases version r cs
    · rw [hkept, hkept']
    · exact absurd hge' (hbelow c ((hbs c).mpr ((hcs c).mp hc)))
  · obtain ⟨-, hbelow'⟩ | ⟨c, hc, hheld', hmax', -⟩ := foldl_replace_cases version r cs
    · exact absurd hge (hbelow' b ((hcs b).mpr ((hbs b).mp hb)))
    · have hbc : version b = version c :=
        le_antisymm (hmax' b ((hcs b).mpr ((hbs b).mp hb))) (hmax c ((hbs c).mpr ((hcs c).mp hc)))
      have hlead : Leads version r as b := ⟨fun x hx => hmax x ((hbs x).mpr hx), hge⟩
      rw [hheld, hheld', h b ((hbs b).mp hb) c ((hcs c).mp hc) hbc hlead]

end

end Lww
