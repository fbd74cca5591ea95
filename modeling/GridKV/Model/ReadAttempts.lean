import GridKV.Model.Reader

/-!
# The remote reads of `Get`, step by step

The loop of `reader.Get` in `internal/cluster/reader.go` over the live replicas once more, as
a machine (`Reader` has it as one function): for each target a goroutine calls `getFunc` and
leaves the outcome in the variables `item` and `err`, which all attempts share with the loop,
unless the context is done by then.  The loop waits for the goroutine or for the context.
The context may be done at any time, and a call of `getFunc` may take forever.

The two assignments of a goroutine are one step, and so is what the loop does with them.
-/

namespace GridKV

open Go

/-- The errors `Get` meets: those of a store, and everything else. -/
inductive ReadError where
  | store (err : StoreError)
  | network (text : GoString)
  deriving DecidableEq, Repr

/-- What `getFunc` returns. -/
structure FetchOutcome where
  item : Option StoredItem
  err : Option ReadError

/-- Where the goroutine of a target stands: not started, at the first look at the context, in
    `getFunc`, at the second look, about to close `done`, or past that.  `kept` tells whether
    it has assigned what `getFunc` returned. -/
inductive AttemptPhase where
  | idle
  | started
  | calling
  | returned
  | closing (kept : Bool)
  | closed (kept : Bool)
  deriving DecidableEq, Repr

/-- Where the loop stands: about to start the goroutine of a target, waiting for it, or past
    its end. -/
inductive LoopPhase where
  | launching (i : Nat)
  | waiting (i : Nat)
  | returned (result : Except ReadError (Option StoredItem))
  deriving DecidableEq

/-- The variables of a `Get` and its goroutines. -/
structure ReadAttempts where
  /-- `readCtx` is done. -/
  ctxDone : Bool := false
  item : Option StoredItem := none
  err : Option ReadError
  hasSuccessfulResponse : Bool := false
  lastNetworkErr : Option ReadError := none
  phase : LoopPhase
  attempts : Nat → AttemptPhase := fun _ => .idle

/-- The cases of the `select` in the loop. -/
inductive WaitCase where
  | done
  | ctx
  deriving DecidableEq, Repr

inductive AttemptAction where
  | expire
  | loop (choice : WaitCase)
  | attempt (i : Nat)
  deriving DecidableEq, Repr

namespace ReadAttempts

/-- The end of a round that did not return. -/
def next (s : ReadAttempts) (i : Nat) : ReadAttempts := { s with phase := .launching (i + 1) }

/-- The texts of the error for a read that takes too long. -/
def timeoutError (key target : GoString) : ReadError :=
  .network (ascii "remote read timeout for key " ++ key ++ ascii " on node " ++ target)

/-- `lastNetworkErr` keeps the first error. -/
def failed (s : ReadAttempts) (err : Option ReadError) : ReadAttempts :=
  { s with lastNetworkErr := if s.lastNetworkErr = none then err else s.lastNetworkErr }

/-- What the loop makes of the shared variables when `done` is closed. -/
def evaluate (s : ReadAttempts) (i : Nat) : ReadAttempts :=
  match s.err, s.item with
  | none, some item =>
    if item.isTombstone then { s with hasSuccessfulResponse := true }.next i
    else if item.value.length = 0 then { s with hasSuccessfulResponse := true }.next i
    else { s with phase := .returned (.ok (some item)) }
  | none, none => { s with hasSuccessfulResponse := true }.next i
  | some err, _ =>
    if err = .store .notFound ∨ err = .store .expired then
      { s with hasSuccessfulResponse := true }.next i
    else (s.failed (some err)).next i

/-- The loop, for the live targets in their order. -/
def loop (key : GoString) (targets : List GoString) (s : ReadAttempts) (choice : WaitCase) :
    Option ReadAttempts :=
  match s.phase with
  | .launching i =>
    if i < targets.length then
      some { s with phase := .waiting i, attempts := Function.update s.attempts i .started }
    else if s.hasSuccessfulResponse ∨ s.lastNetworkErr = none then
      some { s with phase := .returned (.ok none) }
    -- The branch for a read that failed everywhere returns the same.
    else some { s with phase := .returned (.ok none) }
  | .waiting i =>
    match choice with
    | .done =>
      match s.attempts i with
      | .closed _ => some (s.evaluate i)
      | _ => none
    | .ctx =>
      if s.ctxDone then some ((s.failed (targets[i]?.map (timeoutError key))).next i) else none
  | .returned _ => none

/-- The goroutine of a target, for what `getFunc` returns. -/
def attempt (outcome : FetchOutcome) (s : ReadAttempts) (i : Nat) : Option ReadAttempts :=
  let move (s : ReadAttempts) (phase : AttemptPhase) : ReadAttempts :=
    { s with attempts := Function.update s.attempts i phase }
  match s.attempts i with
  | .idle | .closed _ => none
  | .started => some (move s (if s.ctxDone then .closing false else .calling))
  | .calling => some (move s .returned)
  | .returned =>
    some (if s.ctxDone then move s (.closing false)
      else move { s with item := outcome.item, err := outcome.err } (.closing true))
  | .closing kept => some (move s (.closed kept))

/-- One step, when `getFunc` returns these outcomes for the targets. -/
def step (key : GoString) (targets : List GoString) (outcomes : GoString → FetchOutcome)
    (s : ReadAttempts) : AttemptAction → Option ReadAttempts
  | .expire => some { s with ctxDone := true }
  | .loop choice => s.loop key targets choice
  | .attempt i => targets[i]?.bind fun target => s.attempt (outcomes target) i

end ReadAttempts

namespace Reader

/-- `*aliveTargetsPtr` in `Get` -/
def remoteTargets (cfg : ReaderConfig) (alive : GoString → Bool) (key : GoString) :
    List GoString :=
  (cfg.ring.getN key cfg.replicaCount).filter fun target => target ≠ cfg.nodeID ∧ alive target

/-- `Get` up to its loop, with nothing in the hot cache. -/
def launchGet (cfg : ReaderConfig) (now : Time) (s : MemStorage) (alive : GoString → Bool)
    (key : GoString) : ReadAttempts :=
  match (s.get cfg.store now key).2 with
  | .ok item => { item := some item, err := none, phase := .returned (.ok (some item)) }
  | .error err =>
    if err ≠ .notFound ∧ err ≠ .expired then
      { err := some (.store err), phase := .returned (.error (.store err)) }
    else if remoteTargets cfg alive key = [] then
      { err := some (.store err), phase := .returned (.ok none) }
    else { err := some (.store err), phase := .launching 0 }

end Reader

end GridKV
