import LayeredIR.Expr

/-! Runtime values. Closures and futures have an identity: each is made once, by one task, and is
equal only to itself. -/
namespace LayeredIR

/-- The identity of a task, a closure or a future: the number its maker gave it, in front of the
identity of the maker. The identities that a task gives do not depend on what other tasks do. -/
abbrev Identity := List Nat

abbrev ScopeId := Nat

structure ErrorValue where
  code : String
  message : Option String
  deriving DecidableEq, Inhabited

def ErrorValue.text (e : ErrorValue) : String :=
  match e.message with
  | some message => e.code ++ ": " ++ message
  | none => e.code

mutual

inductive Value
  | int (value : Int64)
  | float (value : Binary64)
  | bool (value : Bool)
  | string (value : String)
  | void
  | list (of : Ty) (items : List Value)
  | set (of : Ty) (items : List Value)
  | closure (closure : Closure)
  | future (id : Identity)
  | error (error : ErrorValue)

/-- A function with the scope it was made in. A fixpoint keeps the function that generates it:
a call applies the generator to the fixpoint itself and passes the arguments to what comes back. -/
structure Closure where
  id : Identity
  params : List String
  body : Arg
  captured : Captured
  isFix : Bool

inductive Captured
  | shared (scope : ScopeId)
  | frozen (bindings : List (String × Value))

end

instance : Inhabited Value := ⟨.void⟩

namespace Closure

def fixpointOf (id : Identity) (generator : Closure) : Closure :=
  { generator with id := id, isFix := true }

def generator (c : Closure) : Closure := { c with isFix := false }

/-- The parameters that a closure shows. A fixpoint shows those of the function that its generator
returns, where this function is written in place, and none otherwise. -/
def shownParams (c : Closure) : List String :=
  if c.isFix then
    match c.body with
    | .inline (.lambda params _) => params
    | _ => []
  else c.params

end Closure

namespace Value

def kind : Value → String
  | .int _ => "int"
  | .float _ => "float"
  | .bool _ => "bool"
  | .string _ => "string"
  | .void => "void"
  | .list _ _ => "list"
  | .set _ _ => "set"
  | .closure _ => "closure"
  | .future _ => "future"
  | .error _ => "error"

def asError? : Value → Option ErrorValue
  | .error e => some e
  | _ => none

def isError (v : Value) : Bool := v.asError?.isSome

def items? : Value → Option (List Value)
  | .list _ items | .set _ items => some items
  | _ => none

def elementTy? : Value → Option Ty
  | .list of _ | .set of _ => some of
  | _ => none

/-- Whether a value may stand where a type is declared. Of collections the declared element types
are compared, not the items; closures and futures carry no type to compare. -/
def conformsTo : Value → Ty → Bool
  | .int _, .int | .float _, .float | .bool _, .bool | .string _, .string | .void, .void
  | .closure _, .fn _ _ | .future _, .future _ | .error _, .error => true
  | .list of _, .list ty | .set of _, .set ty => of = ty
  | _, _ => false

end Value
end LayeredIR
