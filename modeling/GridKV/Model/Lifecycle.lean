import GridKV.ForStd.Go

/-!
# The lifecycle manager

Translation of `internal/utils/lifecycle`.  A component is known by its name;
`findComponent` returns the first one of a name, and `resolveOrder` has each name once, so
no other component of that name is ever started.

`StartWithTimeout` runs the `Start` of every component in a goroutine of its own.  These
goroutines, the loop that launches them and the wait for them are interleaved step by step.
-/

namespace GridKV

open Go

/-- The errors of the manager; an error of a component comes with its name. -/
inductive LifecycleError where
  | circularDependency (name : GoString)
  | componentNotFound (name dep : GoString)
  | alreadyStarted
  | startTimeout
  | component (name : GoString)
  deriving DecidableEq, Repr

/-- `LifecycleManager` -/
structure LifecycleManager where
  components : List GoString := []
  dependencies : GoMap (List GoString) := ∅
  started : Bool := false

/-- The variables of `resolveOrder`: two sets of names and the order so far. -/
structure Resolution where
  visited : List GoString := []
  temp : List GoString := []
  result : List GoString := []
  deriving DecidableEq, Repr

namespace LifecycleManager

variable (lm : LifecycleManager)

/-- `Register` -/
def register (name : GoString) (deps : List GoString) : LifecycleManager :=
  { lm with
    components := lm.components ++ [name]
    dependencies :=
      if deps.length > 0 then lm.dependencies.insert name deps else lm.dependencies }

/-- `findComponent` -/
def findComponent (name : GoString) : Option GoString :=
  lm.components.find? fun component => component = name

/-- `lm.dependencies[name]` -/
def deps (name : GoString) : List GoString := (lm.dependencies.lookup name).getD []

/-! ### The order -/

/-- The loop of `visit` over the dependencies of a component. -/
def visitDeps (visit : Resolution → GoString → Option (Except LifecycleError Resolution))
    (name : GoString) : Resolution → List GoString → Option (Except LifecycleError Resolution)
  | r, [] => some (.ok r)
  | r, dep :: deps =>
    if lm.findComponent dep = none then some (.error (.componentNotFound name dep))
    else
      match visit r dep with
      | some (.ok r) => visitDeps visit name r deps
      | stopped => stopped

/-- `visit`, called at most `depth` deep; `none` if that is not enough. -/
def visit : Nat → Resolution → GoString → Option (Except LifecycleError Resolution)
  | 0, _, _ => none
  | depth + 1, r, name =>
    if name ∈ r.temp then some (.error (.circularDependency name))
    else if name ∈ r.visited then some (.ok r)
    else
      match lm.visitDeps (visit depth) name { r with temp := name :: r.temp } (lm.deps name) with
      | some (.ok r) => some (.ok
          { visited := name :: r.visited
            temp := r.temp.erase name
            result := r.result ++ [name] })
      | stopped => stopped

/-- The loop of `resolveOrder` over the components. -/
def visitAll (depth : Nat) : Resolution → List GoString →
    Option (Except LifecycleError Resolution)
  | r, [] => some (.ok r)
  | r, name :: names =>
    match lm.visit depth r name with
    | some (.ok r) => visitAll depth r names
    | stopped => stopped

/-- `resolveOrder`.  A call of `visit` for each component that is being visited, and one that
    finds a cycle, is as deep as it gets. -/
def resolveOrder : Option (Except LifecycleError (List GoString)) :=
  (lm.visitAll (lm.components.length + 1) {} lm.components).map fun out => out.map Resolution.result

/-! ### Starting -/

/-- Where the goroutine of a component is. -/
inductive StartPhase where
  | idle
  | launched
  | starting
  | returned (ok : Bool)
  deriving DecidableEq, Repr

/-- A call of `StartWithTimeout` that has the order: what is left of the loop, the
    goroutines, and what the call has returned. -/
structure Starting where
  rest : List GoString
  phase : GoString → StartPhase := fun _ => .idle
  firstErr : Option LifecycleError := none
  returned : Option (Option LifecycleError) := none

/-- `StartWithTimeout` up to the loop. -/
def startWithTimeout : Option (Except LifecycleError Starting) :=
  if lm.started then some (.error .alreadyStarted)
  else lm.resolveOrder.map fun out => out.map fun order => { rest := order }

inductive StartAction where
  /-- One round of the loop. -/
  | launch
  /-- The goroutine of a component calls `Start`. -/
  | start (name : GoString)
  /-- `Start` of a component returns. -/
  | finish (name : GoString) (ok : Bool)
  /-- `wg.Wait` has returned. -/
  | join
  /-- The context has expired. -/
  | timeout

/-- `wg.Wait` returns when every goroutine that was launched has ended. -/
def allReturned (s : Starting) : Prop :=
  ∀ name ∈ lm.components, s.phase name = .idle ∨ ∃ ok ∈ [true, false], s.phase name = .returned ok

instance decidableAllReturned (s : Starting) : Decidable (lm.allReturned s) := by
  unfold allReturned
  infer_instance

def startStep (s : Starting) : StartAction → Option Starting
  | .launch =>
    match s.rest with
    | [] => none
    | name :: rest =>
      -- The loop goes on to the next component and does not wait for this one.
      match lm.findComponent name with
      | none => some { s with rest }
      | some name => some { s with rest, phase := Function.update s.phase name .launched }
  | .start name =>
    if s.phase name = .launched then
      some { s with phase := Function.update s.phase name .starting }
    else none
  | .finish name ok =>
    if s.phase name = .starting then
      some { s with
        phase := Function.update s.phase name (.returned ok)
        firstErr := if ok then s.firstErr else s.firstErr.or (some (.component name)) }
    else none
  | .join =>
    if s.rest = [] ∧ s.returned = none ∧ lm.allReturned s then
      some { s with returned := some s.firstErr }
    else none
  | .timeout =>
    if s.rest = [] ∧ s.returned = none then some { s with returned := some (some .startTimeout) }
    else none

/-- The manager after the call: `started` is set when it returns nil. -/
def afterStart (s : Starting) : LifecycleManager :=
  if s.returned = some none then { lm with started := true } else lm

/-! ### Closing -/

/-- The loop of `CloseWithTimeout`, over the order from its end: the components that are
    closed, and the first error; `closes` has what `Close` of each component returns. -/
def closeAll (closes : GoString → Bool) (order : List GoString) :
    List GoString × Option LifecycleError :=
  let closed := order.reverse.filterMap lm.findComponent
  (closed, (closed.find? fun name => ! closes name).map .component)

/-- `CloseWithTimeout`, with the components it closes. -/
def closeWithTimeout (closes : GoString → Bool) :
    Option (List GoString × Option LifecycleError) :=
  if lm.started then
    lm.resolveOrder.map fun out =>
      match out with
      | .ok order => lm.closeAll closes order
      | .error err => ([], some err)
  else some ([], none)

end LifecycleManager

end GridKV
