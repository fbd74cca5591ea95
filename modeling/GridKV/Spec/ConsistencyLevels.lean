import GridKV.ForStd.Lww
import GridKV.Model.Reader
import GridKV.Spec.StoreEntries

/-!
# Reads with a consistency level

The loop of `GetWithConsistency` is to collect the first live answers to arrive until there
are as many as the level asks for, and the highest version among them is to be returned.  But
the number of rounds is the length of `aliveTargets`, and the targets are appended to the
slice `aliveTargetsPtr` points to instead: the loop ends before the first round, and whatever
the replicas answer, no item is returned.
-/

namespace GridKV

open Go List

namespace ReadEnv

/-- The item of an answer that counts. -/
def live : Option (Option StoredItem) → Option StoredItem
  | some (some item) => if ¬ item.isTombstone ∧ item.value.length > 0 then some item else none
  | _ => none

/-- The replicas of the key that are alive. -/
def replicas (env : ReadEnv) (key : GoString) : List GoString :=
  (env.cfg.ring.getN key env.cfg.replicaCount).filter fun target =>
    env.alive target ∨ target = env.cfg.nodeID

/-- The live answers, in the order they arrive in. -/
def responses (env : ReadEnv) (key : GoString) : List StoredItem :=
  ((env.order (submitted env.accepts (env.replicas key))).map (env.answer key)).filterMap live

/-- How many answers a level asks for, of `n` replicas. -/
def needed (n : Nat) : ConsistencyLevel → Nat
  | .one => 1
  | .quorum => n / 2 + 1
  | .all => n
  | .other => 1

/-- Enough of the replicas answer with an item. -/
def Answered (env : ReadEnv) (key : GoString) (level : ConsistencyLevel) : Prop :=
  needed (env.replicas key).length level ≤ (env.responses key).length

instance decidableAnswered (env : ReadEnv) (key : GoString) (level : ConsistencyLevel) :
    Decidable (env.Answered key level) :=
  Nat.decLe _ _

/-- An item is returned, of the highest version among the answers collected; at level all,
    among all that the replicas hold. -/
def Delivers (env : ReadEnv) (key : GoString) (level : ConsistencyLevel) : Prop :=
  let collected := (env.responses key).take (needed (env.replicas key).length level)
  ∃ best, (env.getWithConsistency key level).result = .ok (some best) ∧
    best ∈ collected ∧ (∀ item ∈ collected, item.version ≤ best.version) ∧
    (level = .all → ∀ target ∈ env.replicas key, ∀ item,
      live (env.answer key target) = some item → item.version ≤ best.version)

variable {env : ReadEnv} {key : GoString} {level : ConsistencyLevel}

/-- Without a hit in the cache, no item is returned. -/
theorem result_ne_some (hmiss : level = .one → env.cached = none) (best : StoredItem) :
    (env.getWithConsistency key level).result ≠ .ok (some best) := by
  unfold getWithConsistency
  split
  · -- the empty key, for which `store.Get` has only an error
    dsimp only
    cases (env.store.get env.cfg.store env.now key).2 with
    | ok | error => exact fun h => nomatch h
  · split
    · rename_i hhit
      obtain ⟨hone, -, hsome⟩ := hhit
      rw [hmiss hone] at hsome
      exact nomatch hsome
    · dsimp only
      split
      · -- an empty ring
        exact fun h => nomatch h
      · split
        · -- no replica alive
          exact fun h => nomatch h
        · -- The loop makes no round, so nothing is collected and nothing is highest.
          show (if _ then _ else _ : ReadOutcome).result ≠ _
          split <;> exact fun h => nomatch h

/-- **Consistency levels.**  For every key, level and cluster, whatever the replicas hold
    and in whatever order they answer, the promise of a read that finds nothing in the hot
    cache is kept only where enough answers are missing. -/
theorem promise_kept_iff (hmiss : level = .one → env.cached = none) :
    (env.Answered key level → env.Delivers key level) ↔ ¬env.Answered key level := by
  constructor
  · intro hpromise hanswered
    obtain ⟨best, hresult, -⟩ := hpromise hanswered
    exact result_ne_some hmiss best hresult
  · exact fun hnot hanswered => absurd hanswered hnot

/-- Three replicas with three versions of the key, read from a fourth node. -/
def threeReplicas : ReadEnv where
  cfg :=
    { nodeID := ascii "n0"
      store := oneShard
      ring :=
        { hashHi := fun _ => 0
          nodes := [⟨1, ascii "n1"⟩, ⟨2, ascii "n2"⟩, ⟨3, ascii "n3"⟩]
          sorted := by simp } }
  now := 0
  store := .empty
  alive _ := true
  fetch target :=
    if target = ascii "n1" then some (some (plainItem 1 "a"))
    else if target = ascii "n2" then some (some (plainItem 2 "b"))
    else some (some (plainItem 3 "c"))
  accepts _ := true
  order targets := targets
  order_subperm _ := .refl _

/-- All of them answer, but a read at level all does not keep its promise. -/
theorem promise_broken_all :
    threeReplicas.Answered (ascii "k") .all ∧ ¬threeReplicas.Delivers (ascii "k") .all := by
  have hanswered : threeReplicas.Answered (ascii "k") .all := by decide
  have hmiss : ConsistencyLevel.all = .one → threeReplicas.cached = none := fun _ => rfl
  exact ⟨hanswered, fun h => (promise_kept_iff hmiss).mp (fun _ => h) hanswered⟩

/-- The three answers arrive, and a quorum read returns no item. -/
theorem quorum_read_returns_nothing :
    (threeReplicas.responses (ascii "k")).map (·.version) = [1, 2, 3] ∧
      threeReplicas.Answered (ascii "k") .quorum ∧
      (threeReplicas.getWithConsistency (ascii "k") .quorum).result = .ok none ∧
      ¬threeReplicas.Delivers (ascii "k") .quorum := by
  have hresult : (threeReplicas.getWithConsistency (ascii "k") .quorum).result = .ok none := rfl
  refine ⟨by decide, by decide, hresult, fun h => ?_⟩
  obtain ⟨best, hbest, -⟩ := h
  rw [hresult] at hbest
  exact nomatch hbest

end ReadEnv

end GridKV
