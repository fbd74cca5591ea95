import Mathlib

/-!
# Happened-before in a log of events

Processes append events to one log: events of their own and events that receive the
message of an earlier event.  `HappensBefore` is the usual causal order, taken from the
positions in the log and the sources of the messages only.

Each event carries a stamp.  A log is `Consistent` with the readings the processes have now
if stamps go up along each process, strictly at its own events, and a receive has at least
the stamp of its source.  Then a stamp is at least every stamp that happened before, and
above them at an event of its own (`Consistent.stamp_lt`); appending an event keeps a log
consistent under a condition on that event alone (`Consistent.append`).
-/

namespace Causal

/-- An event of a process: `source` is the position of the event whose message it receives,
    if it does receive one. -/
structure Event (ι α : Type) where
  process : ι
  source : Option Nat
  stamp : α
  deriving DecidableEq, Repr

variable {ι α : Type}

/-- The causal order of the events in a log. -/
inductive HappensBefore (log : List (Event ι α)) : Nat → Nat → Prop
  | program {a b : Nat} {e f : Event ι α} (hlt : a < b) (ha : log[a]? = some e)
      (hb : log[b]? = some f) (hsame : e.process = f.process) : HappensBefore log a b
  | message {a b : Nat} {f : Event ι α} (hb : log[b]? = some f) (hsource : f.source = some a) :
      HappensBefore log a b
  | trans {a b c : Nat} (hab : HappensBefore log a b) (hbc : HappensBefore log b c) :
      HappensBefore log a c

variable [Preorder α]

/-- The log fits the readings the processes have at its end. -/
structure Consistent (log : List (Event ι α)) (now : ι → α) : Prop where
  behind : ∀ {a : Nat} {e : Event ι α}, log[a]? = some e → e.stamp ≤ now e.process
  sorted : ∀ {a b : Nat} {e f : Event ι α}, a < b → log[a]? = some e → log[b]? = some f →
    e.process = f.process → e.stamp ≤ f.stamp ∧ (f.source = none → e.stamp < f.stamp)
  received : ∀ {a b : Nat} {f : Event ι α}, log[b]? = some f → f.source = some a →
    ∃ e, log[a]? = some e ∧ e.stamp ≤ f.stamp

variable {log : List (Event ι α)} {now : ι → α}

theorem consistent_nil (now : ι → α) : Consistent [] now where
  behind h := nomatch h
  sorted _ h := nomatch h
  received h := nomatch h

variable {β : Type} {l : List β} {b a : Nat} {y : β} {e : Event ι α}

/-- An index into a list with one more element. -/
theorem getElem?_snoc {x : β} (h : (l ++ [x])[a]? = some y) :
    l[a]? = some y ∨ a = l.length ∧ y = x := by
  by_cases ha : a < l.length
  · rw [List.getElem?_append_left ha] at h
    exact .inl h
  · rw [List.getElem?_append_right (Nat.le_of_not_lt ha)] at h
    obtain ⟨hzero, hx⟩ := List.getElem?_eq_some_iff.mp h
    have hlen : a - l.length = 0 := by simpa using hzero
    refine .inr ⟨by omega, ?_⟩
    simp only [hlen] at hx
    exact hx.symm

theorem getElem?_append_of_some (x : β) (h : l[a]? = some y) : (l ++ [x])[a]? = some y := by
  rw [List.getElem?_append_left (List.getElem?_eq_some_iff.mp h).1]
  exact h

/-- One more event: it is at least at the reading of its process, above it if it is an event
    of its own, and at least at the stamp it receives. -/
theorem Consistent.append [DecidableEq ι] (h : Consistent log now) (hle : now e.process ≤ e.stamp)
    (hlt : e.source = none → now e.process < e.stamp)
    (hreceived : ∀ a, e.source = some a → ∃ f, log[a]? = some f ∧ f.stamp ≤ e.stamp) :
    Consistent (log ++ [e]) (Function.update now e.process e.stamp) where
  behind := by
    intro a f ha
    obtain hold | ⟨-, rfl⟩ := getElem?_snoc ha
    · -- The reading of the process has moved up, if it is the one of the event.
      by_cases hsame : f.process = e.process
      · rw [hsame, Function.update_self]
        exact le_trans (hsame ▸ h.behind hold) hle
      · rw [Function.update_of_ne hsame]
        exact h.behind hold
    · rw [Function.update_self]
  sorted := by
    intro a b f g hab ha hb hsame
    obtain hold | ⟨rfl, rfl⟩ := getElem?_snoc hb
    · -- Both were there before.
      obtain hfirst | ⟨rfl, -⟩ := getElem?_snoc ha
      · exact h.sorted hab hfirst hold hsame
      · have hlen := (List.getElem?_eq_some_iff.mp hold).1
        omega
    · -- The later one is new: the earlier is behind the reading it was taken at.
      obtain hfirst | ⟨rfl, -⟩ := getElem?_snoc ha
      · have hbehind := h.behind hfirst
        rw [hsame] at hbehind
        exact ⟨le_trans hbehind hle, fun hown => lt_of_le_of_lt hbehind (hlt hown)⟩
      · exact absurd hab (lt_irrefl _)
  received := by
    intro a b f hb hsource
    obtain hold | ⟨-, rfl⟩ := getElem?_snoc hb
    · obtain ⟨g, hg, hstamp⟩ := h.received hold hsource
      exact ⟨g, getElem?_append_of_some e hg, hstamp⟩
    · obtain ⟨g, hg, hstamp⟩ := hreceived a hsource
      exact ⟨g, getElem?_append_of_some f hg, hstamp⟩

/-- Stamps respect the causal order. -/
theorem Consistent.stamp_of_happensBefore (h : Consistent log now) (hab : HappensBefore log a b) :
    ∃ e f, log[a]? = some e ∧ log[b]? = some f ∧ e.stamp ≤ f.stamp ∧
      (f.source = none → e.stamp < f.stamp) := by
  induction hab with
  | program hlt ha hb hsame =>
    obtain ⟨hle, hown⟩ := h.sorted hlt ha hb hsame
    exact ⟨_, _, ha, hb, hle, hown⟩
  | message hb hsource =>
    obtain ⟨e, ha, hle⟩ := h.received hb hsource
    -- A receipt is no event of its own, so there is nothing strict to show.
    refine ⟨e, _, ha, hb, hle, fun hown => ?_⟩
    rw [hsource] at hown
    exact nomatch hown
  | trans _ _ ihab ihbc =>
    obtain ⟨e, f, ha, hb, hle, -⟩ := ihab
    obtain ⟨f', g, hb', hc, hle', hown⟩ := ihbc
    cases hb.symm.trans hb'
    exact ⟨e, g, ha, hc, le_trans hle hle', fun hc => lt_of_le_of_lt hle (hown hc)⟩

/-- An event of its own is stamped above everything that happened before. -/
theorem Consistent.stamp_lt (h : Consistent log now) (hab : HappensBefore log a b) {f : Event ι α}
    (ha : log[a]? = some e) (hb : log[b]? = some f) (hown : f.source = none) :
    e.stamp < f.stamp := by
  obtain ⟨e', f', ha', hb', -, hlt⟩ := h.stamp_of_happensBefore hab
  cases ha.symm.trans ha'
  cases hb.symm.trans hb'
  exact hlt hown

end Causal
