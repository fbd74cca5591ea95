import GridKV.ForStd.MapWeight
import GridKV.ForStd.Run

/-!
# Interleaved threads

Threads share a state and each is in a phase of its own; a step of the system is one
atomic step of one thread.  To show something about every interleaving, say what holds of
the shared state, what holds of each thread in its phase, and what a step of one thread
may do to the shared state; if every thread keeps its own part and its part survives the
steps of the others, everything is kept by every step (`satisfies_step`).  Quantities the
threads contribute to are added up over their phases (`tally`).
-/

namespace Interleave

/-- The shared state and the phase of each thread. -/
structure System (ι σ τ : Type) where
  shared : σ
  phase : ι → τ

variable {ι σ τ : Type} [DecidableEq ι]

/-- Thread `i` takes its next atomic step; `act` says which, if it has one. -/
def step (act : ι → σ → τ → Option (σ × τ)) (s : System ι σ τ) (i : ι) : Option (System ι σ τ) :=
  (act i s.shared (s.phase i)).map fun out => ⟨out.1, Function.update s.phase i out.2⟩

variable {act : ι → σ → τ → Option (σ × τ)} {s t : System ι σ τ} {i : ι}

theorem step_eq_some (h : step act s i = some t) :
    ∃ q, act i s.shared (s.phase i) = some (t.shared, q) ∧
      t.phase = Function.update s.phase i q := by
  obtain ⟨⟨shared, q⟩, hact, rfl⟩ := Option.map_eq_some_iff.mp h
  exact ⟨q, hact, rfl⟩

/-- When one thread moves, what holds of each thread in its phase is to be shown of that one
    only. -/
theorem forall_phase_update {J : ι → τ → Prop} {p p' : ι → τ} {q : τ}
    (hphase : p' = Function.update p i q) (h : ∀ j, J j (p j)) (hq : J i q) (j : ι) :
    J j (p' j) := by
  rw [hphase]
  by_cases hj : j = i
  · subst hj
    rwa [Function.update_self]
  · rw [Function.update_of_ne hj]
    exact h j

/-- A thread that is alone. -/
theorem step_alone {act : Unit → σ → τ → Option (σ × τ)} {x y : σ} {p q : τ}
    (h : act () x p = some (y, q)) : step act ⟨x, fun _ => p⟩ () = some ⟨y, fun _ => q⟩ := by
  have hupdate : Function.update (fun _ : Unit => p) () q = fun _ => q := by
    funext u
    exact Function.update_self ..
  rw [step, h, Option.map_some, hupdate]

/-- What a thread does by itself, one step after the other. -/
abbrev Alone (act : σ → τ → Option (σ × τ)) : σ × τ → σ × τ → Prop :=
  Relation.ReflTransGen fun x y => act x.1 x.2 = some y

theorem Alone.cons {act : σ → τ → Option (σ × τ)} {x : σ} {p : τ} {y z : σ × τ}
    (h : act x p = some y) (hrest : Alone act y z) : Alone act (x, p) z :=
  .head h hrest

theorem exists_runs_of_alone {act : σ → τ → Option (σ × τ)} {x y : σ × τ} (h : Alone act x y) :
    ∃ is, Run.Runs (step fun _ : Unit => act) ⟨x.1, fun _ => x.2⟩ is ⟨y.1, fun _ => y.2⟩ := by
  induction h using Relation.ReflTransGen.head_induction_on with
  | refl => exact ⟨[], .nil _⟩
  | head hstep _ ih =>
    obtain ⟨is, hrun⟩ := ih
    exact ⟨() :: is, .cons trivial (step_alone hstep) hrun⟩

/-- `I` holds of the shared state and `J` of every thread in its phase. -/
def Satisfies (I : σ → Prop) (J : ι → σ → τ → Prop) (s : System ι σ τ) : Prop :=
  I s.shared ∧ ∀ i, J i s.shared (s.phase i)

/-- The invariant rule for one step: the thread that moves keeps the shared part and its
    own part and changes the shared state only as `G` allows, and whatever holds of another
    thread survives such changes. -/
theorem satisfies_step {I : σ → Prop} {J : ι → σ → τ → Prop} {G : σ → σ → Prop}
    (hact : ∀ y q, act i s.shared (s.phase i) = some (y, q) → I y ∧ J i y q ∧ G s.shared y)
    (hstable : ∀ j x p y, J j x p → G x y → J j y p)
    (h : Satisfies I J s) (hstep : step act s i = some t) : Satisfies I J t := by
  obtain ⟨q, hmove, hphase⟩ := step_eq_some hstep
  obtain ⟨hI, hJ, hG⟩ := hact _ q hmove
  exact ⟨hI, forall_phase_update hphase (fun j => hstable j _ _ _ (h.2 j) hG) hJ⟩

/-! ### Tallies -/

section

variable [Fintype ι]

/-- A quantity added up over the phases of the threads. -/
def tally (f : τ → Nat) (phase : ι → τ) : Nat := ∑ i, f (phase i)

omit [DecidableEq ι] in
theorem tally_const {f : τ → Nat} {phase : ι → τ} {n : Nat} (h : ∀ i, f (phase i) = n) :
    tally f phase = Fintype.card ι * n := by
  simp [tally, h]

/-- When one thread changes its phase, a sum over the threads changes by its share. -/
theorem sum_update {M : Type} [AddCommMonoid M] (f : ι → τ → M) (phase : ι → τ) (i : ι) (q : τ) :
    ∑ j, f j (Function.update phase i q j) + f i (phase i) = ∑ j, f j (phase j) + f i q := by
  have hsum : ∑ j, f j (Function.update phase i q j) + f i (phase i) =
      ∑ j, f j (phase j) + f i (Function.update phase i q i) := by
    apply Finset.sum_add_of_eq_off (Finset.mem_univ i)
    intro j hj
    rw [Function.update_of_ne hj]
  rwa [Function.update_self] at hsum

theorem tally_update (f : τ → Nat) (phase : ι → τ) (i : ι) (q : τ) :
    tally f (Function.update phase i q) + f (phase i) = tally f phase + f q :=
  sum_update (fun _ => f) phase i q

theorem tally_step (f : τ → Nat) {q : τ} (hphase : t.phase = Function.update s.phase i q) :
    tally f t.phase + f (s.phase i) = tally f s.phase + f q := by
  rw [hphase]
  exact tally_update f s.phase i q

/-- The same for a list of threads. -/
theorem sum_map_set {α : Type} (f : α → Nat) {l : List α} {j : Nat} {a b : α}
    (h : l[j]? = some a) : ((l.set j b).map f).sum + f a = (l.map f).sum + f b := by
  induction l generalizing j with
  | nil => cases h
  | cons x l ih =>
    cases j with
    | zero =>
      cases h
      simp only [List.set_cons_zero, List.map_cons, List.sum_cons]
      omega
    | succ j =>
      have hrest := ih h
      simp only [List.set_cons_succ, List.map_cons, List.sum_cons]
      omega

omit [DecidableEq ι] in
theorem le_tally (f : τ → Nat) (phase : ι → τ) (i : ι) : f (phase i) ≤ tally f phase :=
  Finset.single_le_sum (f := fun i => f (phase i)) (fun _ _ => Nat.zero_le _) (Finset.mem_univ i)

end

end Interleave
