import LayeredIR.Operator.Evaluation

/-! Domains: namespaces of operations over one kind of collection. A domain says how its values are
built and how they are gone through; the operations `of`, `fromList`, `toList`, `eq`, `contains` and
`size` follow from that, and a domain may have more of its own. -/
namespace LayeredIR

structure Domain where
  name : String
  construct : Ty → List Value → Value
  iterate : Value → Except Cause (List Value)
  equals : Value → Value → Bool := Value.equals
  contains : Value → Value → Except Cause Bool := fun value item =>
    (iterate value).map fun items => items.any fun other => other.equals item
  extra : String → List Value → Option (Except Cause Value) := fun _ _ => none

namespace Domain

def wrongArity (domain op : String) (expected : Nat) (args : List Value) : Cause :=
  .arityMismatch (domain ++ ":" ++ op) expected args.length

def operand (domain op : String) (args : List Value) : Except Cause Value :=
  match args with
  | [a] => .ok a
  | _ => .error (wrongArity domain op 1 args)

def operandPair (domain op : String) (args : List Value) : Except Cause (Value × Value) :=
  match args with
  | [a, b] => .ok (a, b)
  | _ => .error (wrongArity domain op 2 args)

/-- An operation on evaluated operands. Only `of` asks for the type of a value, and so only `of` can
tell a settled future from a pending one. -/
def call (domain : Domain) (typeOf : Value → Option Ty) (op : String) (args : List Value) :
    Except Cause Value :=
  match op with
  | "of" => .ok (domain.construct ((args.head?.bind typeOf).getD .void) args)
  | "fromList" => do
    match ← operand domain.name op args with
    | .list of items => .ok (domain.construct of items)
    | other => .error (.typeMismatch "list" other.kind)
  | "toList" => do
    let source ← operand domain.name op args
    return .list (source.elementTy?.getD .void) (← domain.iterate source)
  | "eq" => do
    let (a, b) ← operandPair domain.name op args
    let _ ← domain.iterate a
    let _ ← domain.iterate b
    return .bool (domain.equals a b)
  | "contains" => do
    let (value, item) ← operandPair domain.name op args
    return .bool (← domain.contains value item)
  | "size" => do
    let items ← domain.iterate (← operand domain.name op args)
    match CheckedInt.ofInt? items.length with
    | some n => .ok (.int n)
    | none => .error (.integerOverflow "size")
  | _ => (domain.extra op args).getD (.error (.unknownOperator domain.name op))

end Domain

structure Domains where
  domains : List Domain

namespace Domains

def empty : Domains := ⟨[]⟩

def register (registry : Domains) (domain : Domain) : Domains :=
  ⟨registry.domains.filter (fun other => other.name ≠ domain.name) ++ [domain]⟩

def find? (registry : Domains) (name : String) : Option Domain :=
  registry.domains.find? fun domain => domain.name = name

def contains (registry : Domains) (name : String) : Bool := (registry.find? name).isSome

def get (registry : Domains) (name : String) : Except Cause Domain :=
  match registry.find? name with
  | some domain => .ok domain
  | none => .error (.domainNotFound name)

end Domains
end LayeredIR
