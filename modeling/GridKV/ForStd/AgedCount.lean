import Mathlib

/-!
# Counts that age

Hits are counted and every now and then the count is halved, rounding down.  The aged count
of a set of things counts the hits of its members.  It grows with the set, whatever the
rounding does, and never exceeds the number of events.
-/

namespace AgedCount

variable {α : Type}

/-- What happens to the counts. -/
inductive Event (α : Type) where
  | hit (a : α)
  | halve
  deriving DecidableEq, Repr

/-- The count after an event. -/
def tick (p : α → Prop) [DecidablePred p] (n : Nat) : Event α → Nat
  | .hit a => if p a then n + 1 else n
  | .halve => n / 2

/-- The aged count of the things with `p`. -/
def aged (p : α → Prop) [DecidablePred p] (events : List (Event α)) : Nat :=
  events.foldl (tick p) 0

variable {p q : α → Prop} [DecidablePred p] [DecidablePred q]

theorem aged_concat (events : List (Event α)) (e : Event α) :
    aged p (events ++ [e]) = tick p (aged p events) e :=
  List.foldl_concat ..

theorem tick_mono {m n : Nat} (h : ∀ a, p a → q a) (hle : m ≤ n) (e : Event α) :
    tick p m e ≤ tick q n e := by
  cases e with
  | hit a =>
    unfold tick
    by_cases hp : p a
    · simp only [hp, h a hp, if_true]
      omega
    · simp only [hp, if_false]
      split <;> omega
  | halve => exact Nat.div_le_div_right hle

theorem aged_mono (h : ∀ a, p a → q a) (events : List (Event α)) :
    aged p events ≤ aged q events := by
  induction events using List.reverseRecOn with
  | nil => exact Nat.le_refl 0
  | append_singleton events e ih =>
    rw [aged_concat, aged_concat]
    exact tick_mono h ih e

theorem tick_le_succ (n : Nat) (e : Event α) : tick p n e ≤ n + 1 := by
  cases e with
  | hit a =>
    simp only [tick]
    split <;> omega
  | halve =>
    simp only [tick]
    omega

theorem aged_le_length (events : List (Event α)) : aged p events ≤ events.length := by
  induction events using List.reverseRecOn with
  | nil => exact Nat.le_refl 0
  | append_singleton events e ih =>
    rw [aged_concat, List.length_append, List.length_singleton]
    exact Nat.le_trans (tick_le_succ _ e) (Nat.succ_le_succ ih)

end AgedCount
