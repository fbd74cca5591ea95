import GridKV.ForStd.Channel
import GridKV.Model.Reader

/-!
# A speculative read, step by step

`GetSpeculative` of `internal/cluster/reader.go` once more, as a machine (`Reader` has it as
one function): the loop that submits a task for each live target, the tasks, which finish in
any order and at any time, and the loop that receives their results.  The context is never
cancelled before the call returns, so the only way out of the second loop is its count.
-/

namespace GridKV

open Go

inductive SpecPhase where
  | submitting
  | waiting
  | returned
  deriving DecidableEq, Repr

/-- The variables of a call and its tasks. -/
structure SpecRead where
  /-- The targets the first loop has not come to. -/
  pending : List GoString
  /-- How many tasks have been accepted, and the targets of those that have not sent their
      result. -/
  accepted : Nat := 0
  running : List GoString := []
  results : Chan (Option (Option StoredItem))
  count : Nat := 0
  items : List StoredItem := []
  best : Option StoredItem := none
  phase : SpecPhase := .submitting

inductive SpecAction where
  | submit
  | finish (target : GoString)
  | receive
  | leave
  deriving DecidableEq, Repr

namespace SpecRead

/-- What the second loop does with a result. -/
def keep (s : SpecRead) (res : Option (Option StoredItem)) : SpecRead :=
  match res with
  | some (some item) =>
    if ¬ item.isTombstone ∧ item.value.length > 0 then
      { s with items := s.items ++ [item], best := ReadEnv.better s.best item }
    else s
  | _ => s

/-- One step of a call with the given live targets. -/
def step (env : ReadEnv) (key : GoString) (targets : List GoString) (s : SpecRead) :
    SpecAction → Option SpecRead
  | .submit =>
    if s.phase = .submitting then
      match s.pending with
      | [] => some { s with phase := .waiting }
      | target :: pending =>
        if env.accepts s.accepted then
          some { s with
            pending
            accepted := s.accepted + 1
            running := s.running ++ [target] }
        else some { s with phase := .waiting }
    else none
  | .finish target =>
    if target ∈ s.running then
      match s.results.send (env.answer key target) with
      | .sent results => some { s with running := s.running.erase target, results }
      | .blocked | .panicked => none
    else none
  | .receive =>
    if s.phase = .waiting ∧ s.count < targets.length then
      match s.results.recv with
      | .received res results => some ({ s with results, count := s.count + 1 }.keep res)
      | .closed | .blocked => none
    else none
  | .leave =>
    if s.phase = .waiting ∧ ¬ s.count < targets.length then some { s with phase := .returned }
    else none

/-- A call with the given live targets at its first loop. -/
def start (targets : List GoString) : SpecRead where
  pending := targets
  results := { cap := targets.length }

/-- A call that has returned before its first loop. -/
def ended : SpecRead where
  pending := []
  results := { cap := 0 }
  phase := .returned

end SpecRead

namespace ReadEnv

/-- `*aliveTargetsPtr` in `GetSpeculative` -/
def aliveTargets (env : ReadEnv) (key : GoString) (n : Int) : List GoString :=
  (env.cfg.ring.getN key (if n ≤ 0 then 3 else n)).filter fun target =>
    env.alive target ∨ target = env.cfg.nodeID

/-- `GetSpeculative` up to its first loop. -/
def launch (env : ReadEnv) (key : GoString) (n : Int) : SpecRead :=
  if key = [] then .ended
  else if env.cfg.ring.getN key (if n ≤ 0 then 3 else n) = [] then .ended
  else if env.aliveTargets key n = [] then .ended
  else .start (env.aliveTargets key n)

end ReadEnv

end GridKV
