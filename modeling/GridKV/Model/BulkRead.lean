import GridKV.Model.Reader

/-!
# Bulk reads

Translation of `reader.BatchGet` in `internal/cluster/reader.go`.  The tasks that the
executor accepts run at the same time; each looks into the store once, and the order of
these lookups is an input, like the order in which their results come out of the channel.
As for `Reader.get` the hot cache holds none of the keys; what a task puts into it is what
`Get` returns to a later task for the same key.
-/

namespace GridKV

open Go

/-- What a call of `BatchGet` meets. -/
structure BatchEnv where
  cfg : ReaderConfig
  now : Time
  alive : GoString → Bool
  /-- `getFunc` for each key, as for `Reader.get`. -/
  fetch : GoString → GoString → Option (Option StoredItem)
  /-- The answers of the executor to `Do`. -/
  accepts : Nat → Bool
  order : List GoString → List GoString
  order_perm : ∀ keys, (order keys).Perm keys
  arrive : List (GoString × StoredItem) → List (GoString × StoredItem)
  arrive_perm : ∀ results, (arrive results).Perm results

namespace BatchEnv

/-- `Get` of one key. -/
def get (env : BatchEnv) (s : MemStorage) (key : GoString) :
    MemStorage × Except StoreError (Option StoredItem) :=
  Reader.get env.cfg env.now s env.alive (env.fetch key) key

/-- The tasks for the keys, in this order: the store they leave and the results they send. -/
def runTasks (env : BatchEnv) (s : MemStorage) :
    List GoString → MemStorage × List (GoString × StoredItem)
  | [] => (s, [])
  | key :: keys =>
    let (s, res) := env.get s key
    let (s, results) := env.runTasks s keys
    match res with
    | .ok (some item) => (s, (key, item) :: results)
    | _ => (s, results)

/-- `BatchGet` -/
def batchGet (env : BatchEnv) (s : MemStorage) (keys : List GoString) :
    MemStorage × Except StoreError (GoMap StoredItem) :=
  if keys = [] then (s, .ok ∅)
  else
    -- The loop ends at the first key whose task is refused; the error is dropped.
    let submitted := ReadEnv.submitted env.accepts keys
    let (s, results) := env.runTasks s (env.order submitted)
    (s, .ok ((env.arrive results).foldl (fun result res => result.insert res.1 res.2) ∅))

end BatchEnv

end GridKV
