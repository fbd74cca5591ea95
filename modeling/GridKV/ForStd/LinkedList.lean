import Mathlib.Data.List.Nodup
import Mathlib.Logic.Function.Basic

/-!
# Doubly linked lists in a heap

Nodes are named by addresses of any type; `next` and `prev` are the links of all nodes of
the heap, whether or not they are in the list between `head` and `tail`.  `Represents l ps`
says that the list has the nodes `ps`, in this order and each once, with every link in
place.  The two operations of an intrusive list, putting a node in front and taking one
out, are the ones on `ps`, and neither touches a node outside the list.
-/

/-- The links of a heap and the ends of one list in it. -/
@[ext] structure LinkedList (ι : Type) where
  next : ι → Option ι
  prev : ι → Option ι
  head : Option ι
  tail : Option ι

namespace LinkedList

open List Function

variable {ι : Type} [DecidableEq ι] {l l' : LinkedList ι} {ps us vs : List ι} {e p q : ι}

/-- Set the link of a node, if there is one. -/
def setAt (f : ι → Option ι) (p v : Option ι) : ι → Option ι :=
  match p with
  | none => f
  | some p => update f p v

theorem setAt_of_ne (f : ι → Option ι) {p v : Option ι} (h : p ≠ some q) : setAt f p v q = f q := by
  cases p with
  | none => rfl
  | some p => exact update_of_ne (fun heq => h (congrArg some heq.symm)) ..

theorem setAt_self (f : ι → Option ι) (v : Option ι) : setAt f (some q) v q = v :=
  update_self ..

/-- Put a node in front. -/
def pushFront (l : LinkedList ι) (e : ι) : LinkedList ι where
  next := update l.next e l.head
  prev := setAt (update l.prev e none) l.head (some e)
  head := some e
  tail := l.tail.or (some e)

/-- Take a node out; its own links stay as they are. -/
def unlink (l : LinkedList ι) (e : ι) : LinkedList ι where
  next := setAt l.next (l.prev e) (l.next e)
  prev := setAt l.prev (l.next e) (l.prev e)
  head := if l.prev e = none then l.next e else l.head
  tail := if l.next e = none then l.prev e else l.tail

theorem next_pushFront (l : LinkedList ι) (e q : ι) :
    (l.pushFront e).next q = update l.next e l.head q := rfl

theorem prev_pushFront (l : LinkedList ι) (e q : ι) :
    (l.pushFront e).prev q = setAt (update l.prev e none) l.head (some e) q := rfl

theorem next_unlink (l : LinkedList ι) (e q : ι) :
    (l.unlink e).next q = setAt l.next (l.prev e) (l.next e) q := rfl

theorem prev_unlink (l : LinkedList ι) (e q : ι) :
    (l.unlink e).prev q = setAt l.prev (l.next e) (l.prev e) q := rfl

/-- The list from `head` to `tail` has the nodes `ps`. -/
structure Represents (l : LinkedList ι) (ps : List ι) : Prop where
  nodup : ps.Nodup
  head_eq : l.head = ps.head?
  tail_eq : l.tail = ps.getLast?
  prev_eq : ∀ us p vs, ps = us ++ p :: vs → l.prev p = us.getLast?
  next_eq : ∀ us p vs, ps = us ++ p :: vs → l.next p = vs.head?

omit [DecidableEq ι] in
theorem represents_nil (hhead : l.head = none) (htail : l.tail = none) : Represents l [] where
  nodup := .nil
  head_eq := hhead
  tail_eq := htail
  prev_eq _ _ _ h := by simp at h
  next_eq _ _ _ h := by simp at h

namespace Represents

omit [DecidableEq ι] in
/-- Only the ends and the links of the nodes matter. -/
theorem congr (h : Represents l ps) (hhead : l'.head = l.head) (htail : l'.tail = l.tail)
    (hnext : ∀ p ∈ ps, l'.next p = l.next p) (hprev : ∀ p ∈ ps, l'.prev p = l.prev p) :
    Represents l' ps where
  nodup := h.nodup
  head_eq := hhead.trans h.head_eq
  tail_eq := htail.trans h.tail_eq
  prev_eq us p vs hps := (hprev p (by simp [hps])).trans (h.prev_eq us p vs hps)
  next_eq us p vs hps := (hnext p (by simp [hps])).trans (h.next_eq us p vs hps)

omit [DecidableEq ι] in
/-- The links are inverse to each other. -/
theorem next_eq_some_iff (h : Represents l ps) (hp : p ∈ ps) (hq : q ∈ ps) :
    l.next p = some q ↔ l.prev q = some p := by
  constructor
  · intro hnext
    obtain ⟨us, vs, rfl⟩ := append_of_mem hp
    rw [h.next_eq us p vs rfl] at hnext
    obtain ⟨vs', rfl⟩ := head?_eq_some_iff.mp hnext
    rw [h.prev_eq (us ++ [p]) q vs' (by simp), getLast?_concat]
  · intro hprev
    obtain ⟨us, vs, rfl⟩ := append_of_mem hq
    rw [h.prev_eq us q vs rfl] at hprev
    obtain ⟨us', rfl⟩ := getLast?_eq_some_iff.mp hprev
    rw [h.next_eq us' p (q :: vs) (by simp), head?_cons]

omit [DecidableEq ι] in
theorem prev_mem (h : Represents l ps) (hp : p ∈ ps) (hq : l.prev p = some q) : q ∈ ps := by
  obtain ⟨us, vs, rfl⟩ := append_of_mem hp
  rw [h.prev_eq us p vs rfl] at hq
  exact mem_append_left _ (mem_of_getLast? hq)

omit [DecidableEq ι] in
theorem next_mem (h : Represents l ps) (hp : p ∈ ps) (hq : l.next p = some q) : q ∈ ps := by
  obtain ⟨us, vs, rfl⟩ := append_of_mem hp
  rw [h.next_eq us p vs rfl] at hq
  exact mem_append_right _ (mem_cons_of_mem _ (mem_of_head? hq))

omit [DecidableEq ι] in
theorem head_mem (h : Represents l ps) (hp : l.head = some p) : p ∈ ps :=
  mem_of_head? (h.head_eq.symm.trans hp)

omit [DecidableEq ι] in
theorem tail_mem (h : Represents l ps) (hp : l.tail = some p) : p ∈ ps :=
  mem_of_getLast? (h.tail_eq.symm.trans hp)

omit [DecidableEq ι] in
theorem prev_ne_self (h : Represents l ps) (hp : p ∈ ps) : l.prev p ≠ some p := by
  obtain ⟨us, vs, rfl⟩ := append_of_mem hp
  rw [h.prev_eq us p vs rfl]
  intro hlast
  exact (nodup_append.mp h.nodup).2.2 p (mem_of_getLast? hlast) p (by simp) rfl

/-! ### Putting a node in front -/

theorem pushFront (h : Represents l ps) (he : e ∉ ps) : Represents (l.pushFront e) (e :: ps) where
  nodup := nodup_cons.mpr ⟨he, h.nodup⟩
  head_eq := rfl
  tail_eq := by
    cases ps with
    | nil => simp [LinkedList.pushFront, h.tail_eq]
    | cons p ps =>
      rw [LinkedList.pushFront, h.tail_eq, getLast?_cons_cons]
      cases hlast : (p :: ps).getLast? with
      | none => simp at hlast
      | some last => rfl
  prev_eq us p vs hps := by
    cases us with
    | nil =>
      cases hps
      have hhead : l.head ≠ some e := fun h' => he (h.head_mem h')
      rw [prev_pushFront, setAt_of_ne _ hhead, update_self, getLast?_nil]
    | cons u us =>
      cases hps
      have hpe : p ≠ e := fun h' => he (by simp [h'])
      cases us with
      | nil =>
        -- The old head.
        have hhead : l.head = some p := h.head_eq
        rw [prev_pushFront, hhead, setAt_self]
        rfl
      | cons u us =>
        have hhead : l.head ≠ some p := by
          rw [h.head_eq]
          rintro ⟨⟩
          simpa using h.nodup
        rw [prev_pushFront, setAt_of_ne _ hhead, update_of_ne hpe,
          h.prev_eq (u :: us) p vs rfl, getLast?_cons_cons]
  next_eq us p vs hps := by
    cases us with
    | nil =>
      cases hps
      rw [next_pushFront, update_self, h.head_eq]
    | cons u us =>
      cases hps
      have hpe : p ≠ e := fun h' => he (by simp [h'])
      rw [next_pushFront, update_of_ne hpe, h.next_eq us p vs rfl]

theorem next_pushFront_of_not_mem (hq : q ∉ e :: ps) : (l.pushFront e).next q = l.next q :=
  update_of_ne (fun h' => hq (by simp [h'])) ..

theorem prev_pushFront_of_not_mem (h : Represents l ps) (hq : q ∉ e :: ps) :
    (l.pushFront e).prev q = l.prev q := by
  have hhead : l.head ≠ some q := fun h' => hq (mem_cons_of_mem _ (h.head_mem h'))
  have hqe : q ≠ e := fun h' => hq (by simp [h'])
  rw [prev_pushFront, setAt_of_ne _ hhead, update_of_ne hqe]

/-! ### Taking a node out -/

omit [DecidableEq ι] in
/-- The two parts of a list around a node, with one node of them singled out. -/
theorem append_eq_cases {xs ys : List ι} (h : us ++ vs = xs ++ p :: ys) :
    (∃ zs, us = xs ++ p :: zs ∧ ys = zs ++ vs) ∨ ∃ zs, xs = us ++ zs ∧ vs = zs ++ p :: ys := by
  obtain ⟨zs, hxs, hvs⟩ | ⟨zs, hus, hys⟩ := append_eq_append_iff.mp h
  · exact .inr ⟨zs, hxs, hvs⟩
  · cases zs with
    | nil => exact .inr ⟨[], by simpa using hus.symm, by simpa using hys.symm⟩
    | cons z zs =>
      cases hys
      exact .inl ⟨zs, hus, rfl⟩

theorem unlink_append (h : Represents l (us ++ e :: vs)) : Represents (l.unlink e) (us ++ vs) where
  nodup := by
    refine h.nodup.sublist (List.Sublist.append_left ?_ us)
    exact sublist_cons_self e vs
  head_eq := by
    rw [LinkedList.unlink, h.prev_eq us e vs rfl, h.next_eq us e vs rfl, h.head_eq]
    cases us <;> simp
  tail_eq := by
    rw [LinkedList.unlink, h.prev_eq us e vs rfl, h.next_eq us e vs rfl, h.tail_eq]
    cases vs with
    | nil => simp
    | cons v vs => simp
  prev_eq xs p ys hps := by
    have hdisjoint : ∀ q ∈ us, vs.head? ≠ some q := by
      intro q hq hhead
      have hnodup := (nodup_append.mp h.nodup).2.2 q hq q
      exact hnodup (mem_cons_of_mem _ (mem_of_head? hhead)) rfl
    rw [prev_unlink, h.prev_eq us e vs rfl, h.next_eq us e vs rfl]
    obtain ⟨zs, rfl, rfl⟩ | ⟨zs, rfl, rfl⟩ := append_eq_cases hps
    · rw [setAt_of_ne _ (hdisjoint p (by simp))]
      exact h.prev_eq xs p (zs ++ e :: vs) (by simp)
    · cases zs with
      | nil => rw [nil_append, head?_cons, setAt_self, append_nil]
      | cons z zs =>
        have hzp : some z ≠ some p := by
          rintro ⟨⟩
          have hnodup := h.nodup
          simp [nodup_append] at hnodup
        rw [cons_append, head?_cons, setAt_of_ne _ hzp,
          h.prev_eq (us ++ e :: z :: zs) p ys (by simp)]
        simp [getLast?_append]
  next_eq xs p ys hps := by
    have hdisjoint : ∀ q ∈ vs, us.getLast? ≠ some q := by
      intro q hq hlast
      have hnodup := (nodup_append.mp h.nodup).2.2 q (mem_of_getLast? hlast) q
      exact hnodup (mem_cons_of_mem _ hq) rfl
    rw [next_unlink, h.prev_eq us e vs rfl, h.next_eq us e vs rfl]
    obtain ⟨zs, rfl, rfl⟩ | ⟨zs, rfl, rfl⟩ := append_eq_cases hps
    · cases zs with
      | nil => rw [getLast?_concat, setAt_self, nil_append]
      | cons z zs =>
        have hlast : (xs ++ p :: z :: zs).getLast? ≠ some p := by
          intro hlast
          rw [append_cons, getLast?_append_of_ne_nil _ (cons_ne_nil z zs)] at hlast
          have hmem : p ∈ z :: zs := mem_of_getLast? hlast
          have hnodup := h.nodup
          simp only [append_assoc, cons_append, nodup_append, nodup_cons,
            mem_cons, mem_append] at hnodup hmem
          tauto
        rw [setAt_of_ne _ hlast, h.next_eq xs p (z :: zs ++ e :: vs) (by simp)]
        rfl
    · rw [setAt_of_ne _ (hdisjoint p (by simp))]
      exact h.next_eq (us ++ e :: zs) p ys (by simp)

theorem unlink (h : Represents l ps) (he : e ∈ ps) : Represents (l.unlink e) (ps.erase e) := by
  obtain ⟨us, vs, rfl⟩ := append_of_mem he
  have hus : e ∉ us := fun hmem => (nodup_append.mp h.nodup).2.2 e hmem e (by simp) rfl
  rw [erase_append_right _ hus, erase_cons_head]
  exact h.unlink_append

theorem next_unlink_of_not_mem (h : Represents l ps) (he : e ∈ ps) (hq : q ∉ ps) :
    (l.unlink e).next q = l.next q :=
  setAt_of_ne _ fun h' => hq (h.prev_mem he h')

theorem prev_unlink_of_not_mem (h : Represents l ps) (he : e ∈ ps) (hq : q ∉ ps) :
    (l.unlink e).prev q = l.prev q :=
  setAt_of_ne _ fun h' => hq (h.next_mem he h')

end Represents

end LinkedList
