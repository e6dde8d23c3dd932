import LayeredIR.Value

/-! Nested scopes on a heap. A scope holds its own bindings and points to the scope around it,
which is older; `chain` lists the scopes from one outwards, and every operation goes by the nearest
binding of a name on this chain. -/
namespace LayeredIR

inductive Mutability
  | mutable
  | immutable
  deriving DecidableEq, Inhabited

structure Binding where
  value : Value
  mutability : Mutability

abbrev Bindings := List (String × Binding)

namespace Bindings

def find? (name : String) (bindings : Bindings) : Option Binding := List.lookup name bindings

def set (name : String) (binding : Binding) : Bindings → Bindings
  | [] => [(name, binding)]
  | entry :: rest =>
    if entry.1 = name then (name, binding) :: rest else entry :: set name binding rest

def merge (near far : Bindings) : Bindings :=
  near ++ far.filter fun entry => (near.find? entry.1).isNone

def values (bindings : Bindings) : List (String × Value) :=
  bindings.map fun (name, binding) => (name, binding.value)

def ofValues (mutability : Mutability) (values : List (String × Value)) : Bindings :=
  values.map fun (name, value) => (name, ⟨value, mutability⟩)

end Bindings

structure Scope where
  bindings : Bindings
  parent : Option ScopeId

inductive AssignFailure
  | immutable
  | undefined
  deriving DecidableEq

structure Heap where
  scopes : Array Scope

namespace Heap

def empty : Heap := ⟨#[]⟩

def size (heap : Heap) : Nat := heap.scopes.size

def get? (heap : Heap) (id : ScopeId) : Option Scope := heap.scopes[id]?

def add (heap : Heap) (bindings : Bindings) (parent : Option ScopeId) : ScopeId × Heap :=
  (heap.scopes.size, ⟨heap.scopes.push ⟨bindings, parent⟩⟩)

def chainWithin (heap : Heap) : Nat → ScopeId → List ScopeId
  | 0, _ => []
  | fuel + 1, id =>
    match heap.get? id with
    | none => []
    | some scope =>
      match scope.parent with
      | none => [id]
      | some parent => id :: heap.chainWithin fuel parent

/-- The places of a scope and of those around it. A scope is younger than the one around it, so a
chain is no longer than the place of its first scope. -/
def chain (heap : Heap) (id : ScopeId) : List ScopeId := heap.chainWithin (id + 1) id

def depth (heap : Heap) (id : ScopeId) : Nat := (heap.chain id).length

def isRoot (heap : Heap) (id : ScopeId) : Bool :=
  match heap.get? id with
  | some scope => scope.parent.isNone
  | none => true

def localsOf (heap : Heap) (id : ScopeId) : Bindings :=
  match heap.get? id with
  | some scope => scope.bindings
  | none => []

def findWithin (heap : Heap) (name : String) : Nat → ScopeId → Option (ScopeId × Binding)
  | 0, _ => none
  | fuel + 1, id =>
    match heap.get? id with
    | none => none
    | some scope =>
      match scope.bindings.find? name with
      | some binding => some (id, binding)
      | none =>
        match scope.parent with
        | none => none
        | some parent => heap.findWithin name fuel parent

def find? (heap : Heap) (id : ScopeId) (name : String) : Option (ScopeId × Binding) :=
  heap.findWithin name (id + 1) id

def lookup (heap : Heap) (id : ScopeId) (name : String) : Option Value :=
  (heap.find? id name).map fun (_, binding) => binding.value

def define (heap : Heap) (id : ScopeId) (name : String) (binding : Binding) : Heap :=
  ⟨heap.scopes.modify id fun scope => { scope with bindings := scope.bindings.set name binding }⟩

def assign (heap : Heap) (id : ScopeId) (name : String) (value : Value) :
    Except AssignFailure Unit × Heap :=
  match heap.find? id name with
  | none => (.error .undefined, heap)
  | some (_, ⟨_, .immutable⟩) => (.error .immutable, heap)
  | some (place, ⟨_, .mutable⟩) => (.ok (), heap.define place name ⟨value, .mutable⟩)

def child (heap : Heap) (id : ScopeId) : ScopeId × Heap := heap.add [] (some id)

def flatten (heap : Heap) (id : ScopeId) : Bindings :=
  (heap.chain id).foldl (fun near place => near.merge (heap.localsOf place)) []

def snapshot (heap : Heap) (id : ScopeId) : ScopeId × Heap := heap.add (heap.flatten id) none

def frozen (heap : Heap) (id : ScopeId) : ScopeId × Heap :=
  heap.add (.ofValues .immutable (heap.flatten id).values) none

def captured (heap : Heap) : Captured → ScopeId × Heap
  | .shared id => (id, heap)
  | .frozen values => heap.add (.ofValues .immutable values) none

def debug (heap : Heap) (id : ScopeId) : String :=
  "Environment \x7b depth: " ++ toString (heap.depth id) ++ ", locals: " ++
    toString (heap.localsOf id).length ++ " \x7d"

end Heap
end LayeredIR
