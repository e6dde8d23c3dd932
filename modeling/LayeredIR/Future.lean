import LayeredIR.Value

/-! Futures. A future holds the outcome of a task once it is known. Until then the tasks that wait
for it are asleep, and settling wakes them all; a future settles once. -/
namespace LayeredIR

abbrev Outcome := Except ErrorValue Value

structure Future where
  task : Nat
  outcome : Option Outcome
  sleepers : List Identity

namespace Future

def pending (task : Nat) : Future := ⟨task, none, []⟩

def settle (future : Future) (outcome : Outcome) : Bool × Future :=
  match future.outcome with
  | none => (true, { future with outcome := some outcome, sleepers := [] })
  | some _ => (false, future)

def resolve (future : Future) (value : Value) : Bool × Future := future.settle (.ok value)

def reject (future : Future) (error : ErrorValue) : Bool × Future := future.settle (.error error)

def wait (future : Future) (who : Identity) : Option Outcome × Future :=
  match future.outcome with
  | some outcome => (some outcome, future)
  | none =>
    if future.sleepers.contains who then (none, future)
    else (none, { future with sleepers := who :: future.sleepers })

def statusOf : Option Outcome → String
  | none => "pending"
  | some (.ok _) => "resolved"
  | some (.error _) => "rejected"

def debugStatusOf : Option Outcome → String
  | none => "Pending"
  | some (.ok _) => "Resolved"
  | some (.error _) => "Rejected"

def debug (future : Future) : String :=
  "FutureCell \x7b status: " ++ debugStatusOf future.outcome ++ " \x7d"

end Future

structure Futures where
  entries : List (Identity × Future)

namespace Futures

def empty : Futures := ⟨[]⟩

def get? (futures : Futures) (id : Identity) : Option Future := futures.entries.lookup id

def outcome? (futures : Futures) (id : Identity) : Option Outcome :=
  (futures.get? id).bind Future.outcome

def add (futures : Futures) (id : Identity) (future : Future) : Futures :=
  ⟨(id, future) :: futures.entries⟩

def update (futures : Futures) (id : Identity) (change : Future → Future) : Futures :=
  ⟨futures.entries.map fun (other, future) =>
    (other, if other = id then change future else future)⟩

end Futures

/-- The type that a value determines, given the types of futures. Closures carry no parameter
types, and a pending future has no result yet. -/
def Value.typeWith (futureType : Identity → Option Ty) : Value → Option Ty
  | .int _ => some .int
  | .float _ => some .float
  | .bool _ => some .bool
  | .string _ => some .string
  | .void => some .void
  | .list of _ => some (.list of)
  | .set of _ => some (.set of)
  | .error _ => some .error
  | .closure _ => none
  | .future id => futureType id

namespace Futures

def typeWithin (futures : Futures) : Nat → Identity → Option Ty
  | 0, _ => none
  | fuel + 1, id =>
    match futures.outcome? id with
    | none => none
    | some (.ok value) => (value.typeWith (typeWithin futures fuel)).map .future
    | some (.error _) => some (.future .error)

/-- The type that a value determines. Futures that are each other's results are distinct, so there
are no more of them in a row than there are futures. -/
def typeOf (futures : Futures) (value : Value) : Option Ty :=
  value.typeWith (futures.typeWithin futures.entries.length)

end Futures
end LayeredIR
