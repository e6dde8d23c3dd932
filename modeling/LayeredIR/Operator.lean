/-! The operators that every document may call without a domain. -/
namespace LayeredIR

inductive Operator
  | add | sub | mul | div | mod | neg
  | eq | neq | lt | gt | le | ge
  | and | or | not
  | length | nth | concat
  deriving DecidableEq, Inhabited, Repr

namespace Operator

def namespaceName : String := "core"

def all : List Operator :=
  [.add, .sub, .mul, .div, .mod, .neg, .eq, .neq, .lt, .gt, .le, .ge, .and, .or, .not,
    .length, .nth, .concat]

def name : Operator → String
  | .add => "add"
  | .sub => "sub"
  | .mul => "mul"
  | .div => "div"
  | .mod => "mod"
  | .neg => "neg"
  | .eq => "eq"
  | .neq => "neq"
  | .lt => "lt"
  | .gt => "gt"
  | .le => "le"
  | .ge => "ge"
  | .and => "and"
  | .or => "or"
  | .not => "not"
  | .length => "length"
  | .nth => "nth"
  | .concat => "concat"

def ofName? (name : String) : Option Operator := all.find? fun op => op.name = name

def arity : Operator → Nat
  | .neg | .not | .length => 1
  | _ => 2

def isShortCircuit (op : Operator) : Bool := op = .and || op = .or

def isCoreNamespace : Option String → Bool
  | none => true
  | some ns => ns = namespaceName

end Operator
end LayeredIR
