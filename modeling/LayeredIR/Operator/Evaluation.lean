import LayeredIR.Binary64.Rounding
import LayeredIR.CheckedInt
import LayeredIR.Operator
import LayeredIR.Fault
import LayeredIR.Value.Equality

/-! The core operators on evaluated operands. An operand that is an error value is raised before
anything is computed. -/
namespace LayeredIR.Operator

def mismatch {α : Type} (expected got : String) : Except Cause α :=
  .error (.typeMismatch expected got)

def exactInt (result : Option Int64) (operation : String) : Except Cause Value :=
  match result with
  | some n => .ok (.int n)
  | none => .error (.integerOverflow operation)

def lengthValue (length : Nat) : Except Cause Value :=
  exactInt (CheckedInt.ofInt? length) "length"

def intArith (op : Operator) (a b : Int64) : Except Cause Value :=
  match op with
  | .add => exactInt (CheckedInt.add? a b) "addition"
  | .sub => exactInt (CheckedInt.sub? a b) "subtraction"
  | .mul => exactInt (CheckedInt.mul? a b) "multiplication"
  | .div => if b = 0 then .error .divisionByZero else exactInt (CheckedInt.div? a b) "division"
  | .mod => if b = 0 then .error .divisionByZero else exactInt (CheckedInt.rem? a b) "remainder"
  | _ => mismatch "arithmetic operator" op.name

def floatArith (op : Operator) (a b : Binary64) : Except Cause Value :=
  match op with
  | .add => .ok (.float (a.add b))
  | .sub => .ok (.float (a.sub b))
  | .mul => .ok (.float (a.mul b))
  | .div => if b.isZero then .error .divisionByZero else .ok (.float (a.div b))
  | .mod => if b.isZero then .error .divisionByZero else .ok (.float (a.rem b))
  | _ => mismatch "arithmetic operator" op.name

def arith (op : Operator) (left right : Value) : Except Cause Value :=
  match left, right with
  | .int a, .int b => intArith op a b
  | .float a, .float b => floatArith op a b
  | .int _, _ | .float _, _ => mismatch left.kind right.kind
  | _, _ => mismatch "int or float" left.kind

def equality (left right : Value) : Except Cause Bool :=
  if left.kind ≠ right.kind then mismatch left.kind right.kind
  else match left with
    | .closure _ | .future _ => mismatch "comparable value" left.kind
    | _ => .ok (left.equals right)

def ordering (left right : Value) : Except Cause (Option Ordering) :=
  match left, right with
  | .int a, .int b => .ok (some (compare a.toInt b.toInt))
  | .float a, .float b => .ok (a.compare? b)
  | .string a, .string b => .ok (some (compare a b))
  | _, _ =>
    if left.kind ≠ right.kind then mismatch left.kind right.kind
    else mismatch "int, float or string" left.kind

def accepts (op : Operator) : Option Ordering → Bool
  | some .lt => op = .lt || op = .le
  | some .eq => op = .le || op = .ge
  | some .gt => op = .gt || op = .ge
  | none => false

def itemAt (list index : Value) : Except Cause Value :=
  match list, index with
  | .list _ items, .int i =>
    match (CheckedInt.toIndex? i).bind fun place => items[place]? with
    | some item => .ok item
    | none => .error (.indexOutOfBounds i items.length)
  | .list _ _, _ => mismatch "int" index.kind
  | _, _ => mismatch "list" list.kind

def concatenation (left right : Value) : Except Cause Value :=
  match left, right with
  | .list of xs, .list of' ys =>
    if of = of' then .ok (.list of (xs ++ ys))
    else mismatch (Ty.list of).text (Ty.list of').text
  | .string a, .string b => .ok (.string (a ++ b))
  | .list _ _, _ | .string _, _ => mismatch left.kind right.kind
  | _, _ => mismatch "list" left.kind

def unary (op : Operator) (operand : Value) : Except Cause Value :=
  match op, operand with
  | .neg, .int n => exactInt (CheckedInt.neg? n) "negation"
  | .neg, .float x => .ok (.float x.negate)
  | .neg, other => mismatch "int or float" other.kind
  | .not, .bool b => .ok (.bool !b)
  | .not, other => mismatch "bool" other.kind
  | .length, .list _ items | .length, .set _ items => lengthValue items.length
  | .length, .string s => lengthValue s.length
  | .length, other => mismatch "list" other.kind
  | _, _ => .error (.arityMismatch op.name op.arity 1)

def binary (op : Operator) (left right : Value) : Except Cause Value :=
  match op with
  | .add | .sub | .mul | .div | .mod => arith op left right
  | .eq => (equality left right).map .bool
  | .neq => (equality left right).map fun same => .bool !same
  | .lt | .gt | .le | .ge => (ordering left right).map fun order => .bool (accepts op order)
  | .and | .or =>
    match left, right with
    | .bool a, .bool b => .ok (.bool (if op = .and then a && b else a || b))
    | .bool _, other => mismatch "bool" other.kind
    | other, _ => mismatch "bool" other.kind
  | .nth => itemAt left right
  | .concat => concatenation left right
  | .neg | .not | .length => .error (.arityMismatch op.name op.arity 2)

def firstError? (args : List Value) : Option ErrorValue := args.findSome? Value.asError?

def check (op : Operator) (args : List Value) : Except Cause Unit :=
  if args.length ≠ op.arity then .error (.arityMismatch op.name op.arity args.length)
  else match firstError? args with
    | some error => .error (.raised error)
    | none => .ok ()

def compute (op : Operator) (args : List Value) : Except Cause Value :=
  match args with
  | [operand] => unary op operand
  | [left, right] => binary op left right
  | _ => .error (.arityMismatch op.name op.arity args.length)

def evaluate (op : Operator) (args : List Value) : Except Cause Value := do
  check op args
  compute op args

end LayeredIR.Operator
