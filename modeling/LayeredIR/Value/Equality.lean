import LayeredIR.Value

/-! Two equalities of values. Both compare lists item by item and sets regardless of order, errors
by code, closures and futures by identity; values of different kinds are never equal. They differ
on floats alone: `equals` compares them as numbers, `sameElement` by their bits, so that a set can
hold a NaN once. -/
namespace LayeredIR.Value

mutual

def equalBy (floatEq : Binary64 → Binary64 → Bool) : Value → Value → Bool
  | .int a, .int b => a == b
  | .float a, .float b => floatEq a b
  | .bool a, .bool b => a == b
  | .string a, .string b => a == b
  | .void, .void => true
  | .list _ xs, .list _ ys => xs.length == ys.length && pairwiseEqualBy floatEq xs ys
  | .set _ xs, .set _ ys => xs.length == ys.length && eachFoundBy floatEq xs ys
  | .closure a, .closure b => a.id == b.id
  | .future a, .future b => a == b
  | .error a, .error b => a.code == b.code
  | _, _ => false
termination_by structural x => x

def pairwiseEqualBy (floatEq : Binary64 → Binary64 → Bool) : List Value → List Value → Bool
  | x :: xs, y :: ys => x.equalBy floatEq y && pairwiseEqualBy floatEq xs ys
  | _, _ => true
termination_by structural x => x

def eachFoundBy (floatEq : Binary64 → Binary64 → Bool) : List Value → List Value → Bool
  | [], _ => true
  | x :: xs, ys => (ys.any fun y => x.equalBy floatEq y) && eachFoundBy floatEq xs ys
termination_by structural x => x

end

def equals : Value → Value → Bool := equalBy Binary64.ieeeEq

def sameElement : Value → Value → Bool := equalBy (· == ·)

def addElement (kept : List Value) (item : Value) : List Value :=
  if kept.any fun other => other.sameElement item then kept else kept ++ [item]

def distinct (items : List Value) : List Value := items.foldl addElement []

def setOf (of : Ty) (items : List Value) : Value := .set of (distinct items)

mutual

def ofLiteral : Literal → Value
  | .int value => .int value
  | .float value => .float value
  | .bool value => .bool value
  | .string value => .string value
  | .void => .void
  | .list of items => .list of (ofLiterals items)
  | .set of items => setOf of (ofLiterals items)
  | .error code message => .error ⟨code, message⟩

def ofLiterals : List Literal → List Value
  | [] => []
  | item :: rest => ofLiteral item :: ofLiterals rest

end

end LayeredIR.Value
