import GridKV.Model.SendRetry

/-!
# Did a reported send happen?

`SendWithTimeout` gives every connection back as it should.  But the error of a failed `Send`
is declared in the `if` that tests it, and what is returned after that test is the error of
`Get`, which is nil: when the second attempt gets a connection and cannot send on it, the
call reports success.  `Request` next to it returns the error of `Send`.
-/

namespace GridKV

open Go List

/-- The call gives a connection of the attempt back. -/
def ConnUse.givesBack (attempt : Nat) : ConnUse → Bool
  | .get _ _ => false
  | .put i _ | .remove i _ => i = attempt

/-- The attempt the call belongs to. -/
def ConnUse.attempt : ConnUse → Nat
  | .get i _ | .put i _ | .remove i _ => i

variable {attempts : Nat → SendAttempt} {attempt left conn : Nat}

/-! ### Every connection is given back -/

/-- Each connection obtained is given back once, by `Put` if its `Send` succeeded and by
    `Remove` otherwise. -/
def GivenBack (attempts : Nat → SendAttempt) (calls : List ConnUse) : Prop :=
  ∀ attempt conn, .get attempt conn ∈ calls →
    calls.filter (·.givesBack attempt) =
      [if (attempts attempt).sent = none then .put attempt conn else .remove attempt conn]

theorem le_attempt_of_mem_sendAttempts {call : ConnUse}
    (h : call ∈ (sendAttempts attempts attempt left).2) : attempt ≤ call.attempt := by
  induction left generalizing attempt with
  | zero => cases h
  | succ left ih =>
    simp only [sendAttempts] at h
    split at h
    · split at h
      · exact Nat.le_of_succ_le (ih h)
      · cases h
    · split at h
      · simp only [mem_cons, not_mem_nil, or_false] at h
        obtain rfl | rfl := h <;> exact Nat.le_refl _
      · split at h
        · simp only [mem_cons] at h
          obtain rfl | rfl | h := h
          · exact Nat.le_refl _
          · exact Nat.le_refl _
          · exact Nat.le_of_succ_le (ih h)
        · simp only [mem_cons, not_mem_nil, or_false] at h
          obtain rfl | rfl := h <;> exact Nat.le_refl _

/-- An attempt that ends the loop. -/
theorem givenBack_of_last {back : ConnUse}
    (hback : back = if (attempts attempt).sent = none then .put attempt conn
      else .remove attempt conn) : GivenBack attempts [.get attempt conn, back] := by
  intro i c hmem
  have hgives : back.givesBack attempt := by
    rw [hback]
    split <;> simp [ConnUse.givesBack]
  have hget : ConnUse.get i c = .get attempt conn := by
    simp only [mem_cons, not_mem_nil, or_false] at hmem
    obtain hget | hother := hmem
    · exact hget
    · rw [hback] at hother
      split at hother <;> cases hother
  cases hget
  rw [← hback, filter_cons_of_neg (by simp [ConnUse.givesBack]),
    filter_cons_of_pos hgives, filter_nil]

/-- An attempt whose `Send` failed, before the ones that follow it. -/
theorem GivenBack.cons {calls : List ConnUse} (h : GivenBack attempts calls)
    (hlater : ∀ call ∈ calls, attempt < call.attempt) (hsent : (attempts attempt).sent ≠ none) :
    GivenBack attempts (.get attempt conn :: .remove attempt conn :: calls) := by
  intro i c hmem
  have hnone : calls.filter (·.givesBack attempt) = [] := by
    rw [filter_eq_nil_iff]
    intro call hcall hgives
    have hlt := hlater call hcall
    cases call <;> simp [ConnUse.givesBack, ConnUse.attempt] at hgives hlt <;> omega
  rw [filter_cons_of_neg (by simp [ConnUse.givesBack])]
  simp only [mem_cons, ConnUse.get.injEq, reduceCtorEq, false_or] at hmem
  obtain ⟨rfl, rfl⟩ | hmem := hmem
  · rw [filter_cons_of_pos (by simp [ConnUse.givesBack]), hnone, if_neg hsent]
  · have hlt : attempt < i := hlater _ hmem
    rw [filter_cons_of_neg (by simp [ConnUse.givesBack]; omega)]
    exact h i c hmem

theorem givenBack_sendAttempts (attempts : Nat → SendAttempt) (attempt left : Nat) :
    GivenBack attempts (sendAttempts attempts attempt left).2 := by
  induction left generalizing attempt with
  | zero => exact fun i c h => nomatch h
  | succ left ih =>
    simp only [sendAttempts]
    split
    · split
      · exact ih (attempt + 1)
      · intro i c h
        cases h
    · rename_i conn hgot
      by_cases hsent : (attempts attempt).sent = none
      · rw [if_pos hsent]
        exact givenBack_of_last (if_pos hsent).symm
      · rw [if_neg hsent]
        split
        · exact (ih (attempt + 1)).cons (fun call => le_attempt_of_mem_sendAttempts) hsent
        · exact givenBack_of_last (if_neg hsent).symm

/-! ### What is reported -/

/-- A connection in the calls is one that its attempt got. -/
theorem got_of_mem_sendAttempts {i : Nat}
    (h : .get i conn ∈ (sendAttempts attempts attempt left).2) :
    i < attempt + left ∧ (attempts i).got = .ok conn := by
  induction left generalizing attempt with
  | zero => cases h
  | succ left ih =>
    have hlater : .get i conn ∈ (sendAttempts attempts (attempt + 1) left).2 →
        i < attempt + (left + 1) ∧ (attempts i).got = .ok conn := by
      intro hmem
      obtain ⟨hlt, hgot⟩ := ih hmem
      exact ⟨by omega, hgot⟩
    simp only [sendAttempts] at h
    split at h
    · split at h
      · exact hlater h
      · cases h
    · rename_i got hgot
      have hown : .get i conn = ConnUse.get attempt got →
          i < attempt + (left + 1) ∧ (attempts i).got = .ok conn := by
        intro heq
        cases heq
        exact ⟨by omega, hgot⟩
      split at h
      · simp only [mem_cons, reduceCtorEq, not_mem_nil, or_false] at h
        exact hown h
      · split at h
        · simp only [mem_cons, reduceCtorEq, false_or] at h
          exact h.elim hown hlater
        · simp only [mem_cons, reduceCtorEq, not_mem_nil, or_false] at h
          exact hown h

/-- The result is nil only if a `Send` succeeded. -/
def Reported (attempts : Nat → SendAttempt) : Prop :=
  (sendWithTimeout attempts).1 = none →
    ∃ attempt conn, .get attempt conn ∈ (sendWithTimeout attempts).2 ∧
      (attempts attempt).sent = none

/-- The first attempt fails in a way that is tried again. -/
def Retried (attempts : Nat → SendAttempt) : Prop :=
  match (attempts 0).got with
  | .error err => ¬ isConnectionRefused (some err)
  | .ok _ => (attempts 0).sent ≠ none

/-- The second attempt gets a connection and cannot send on it. -/
def SecondSendFails (attempts : Nat → SendAttempt) : Prop :=
  Retried attempts ∧ (∃ conn, (attempts 1).got = .ok conn) ∧ (attempts 1).sent ≠ none

/-- The result of a call that is tried again is that of the second attempt. -/
theorem sendWithTimeout_of_retried (h : Retried attempts) :
    (sendWithTimeout attempts).1 = (sendAttempts attempts 1 1).1 ∧
      ∀ call ∈ (sendAttempts attempts 1 1).2, call ∈ (sendWithTimeout attempts).2 := by
  unfold Retried at h
  unfold sendWithTimeout
  rw [sendAttempts]
  split at h <;> rename_i hgot
  · simp only [hgot]
    rw [if_pos ⟨trivial, h⟩]
    exact ⟨rfl, fun _ hcall => hcall⟩
  · simp only [hgot]
    rw [if_neg h, if_pos ⟨trivial, Bool.false_ne_true⟩]
    exact ⟨rfl, fun call hcall => mem_cons_of_mem _ (mem_cons_of_mem _ hcall)⟩

/-- A call that is not tried again reports what happened. -/
theorem reported_of_not_retried (h : ¬ Retried attempts) : Reported attempts := by
  intro hnil
  unfold Retried at h
  unfold sendWithTimeout at hnil ⊢
  rw [sendAttempts] at hnil ⊢
  split at h <;> rename_i err hgot
  · simp only [hgot] at hnil
    rw [if_neg fun hagain => h hagain.2] at hnil
    cases hnil
  · have hsent : (attempts 0).sent = none := not_not.mp h
    simp only [hgot, if_pos hsent]
    exact ⟨0, _, mem_cons_self, hsent⟩

/-- Both attempts fail to send, and the result is nil. -/
theorem not_reported_of_secondSendFails (h : SecondSendFails attempts) : ¬ Reported attempts := by
  intro hreported
  obtain ⟨hretried, ⟨conn, hgot⟩, hsent⟩ := h
  have hnil : (sendWithTimeout attempts).1 = none := by
    rw [(sendWithTimeout_of_retried hretried).1, sendAttempts]
    simp only [hgot, if_neg hsent, one_ne_zero, false_and, if_false]
  obtain ⟨i, c, hmem, hnone⟩ := hreported hnil
  obtain ⟨hlt, hgot⟩ := got_of_mem_sendAttempts hmem
  obtain rfl | rfl : i = 0 ∨ i = 1 := by omega
  · simp only [Retried, hgot] at hretried
    exact hretried hnone
  · exact hsent hnone

/-- A second attempt that gets no connection returns the error of the pool. -/
theorem reported_of_retried (hretried : Retried attempts) (h : ¬ SecondSendFails attempts) :
    Reported attempts := by
  intro hnil
  obtain ⟨hresult, hcalls⟩ := sendWithTimeout_of_retried hretried
  rw [hresult] at hnil
  rw [sendAttempts] at hnil hcalls
  cases hgot : (attempts 1).got with
  | error err =>
    simp only [hgot, one_ne_zero, false_and, if_false] at hnil
    cases hnil
  | ok conn =>
    have hsent : (attempts 1).sent = none := by
      by_contra hfails
      exact h ⟨hretried, ⟨conn, hgot⟩, hfails⟩
    simp only [hgot, if_pos hsent] at hcalls
    exact ⟨1, conn, hcalls _ mem_cons_self, hsent⟩

/-- **Reported sends.**  Connections are always given back; nil means that a `Send` succeeded
    unless the second attempt gets a connection on which `Send` fails. -/
theorem reported_and_givenBack_iff (attempts : Nat → SendAttempt) :
    Reported attempts ∧ GivenBack attempts (sendWithTimeout attempts).2 ↔
      ¬ SecondSendFails attempts := by
  constructor
  · rintro ⟨hreported, -⟩ hfails
    exact not_reported_of_secondSendFails hfails hreported
  · intro h
    refine ⟨?_, givenBack_sendAttempts attempts 0 2⟩
    by_cases hretried : Retried attempts
    · exact reported_of_retried hretried h
    · exact reported_of_not_retried hretried

/-- Two connections, on which nothing can be sent. -/
def deadPeer (attempt : Nat) : SendAttempt where
  got := .ok attempt
  sent := some (ascii "broken pipe")

theorem not_reported_deadPeer :
    sendWithTimeout deadPeer = (none, [.get 0 0, .remove 0 0, .get 1 1, .remove 1 1]) ∧
      ¬ (Reported deadPeer ∧ GivenBack deadPeer (sendWithTimeout deadPeer).2) := by
  have hfails : SecondSendFails deadPeer := ⟨Option.some_ne_none _, ⟨1, rfl⟩, Option.some_ne_none _⟩
  exact ⟨by decide, fun h => not_reported_of_secondSendFails hfails h.1⟩

end GridKV
