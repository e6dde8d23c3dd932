import LayeredIR.Domain

/-! The domain of sets: each element once, in the order of first insertion. Operations on two sets
want one declared element type. -/
namespace LayeredIR.Domain

def setItems : Value → Except Cause (Ty × List Value)
  | .set of items => .ok (of, items)
  | other => .error (.typeMismatch "set" other.kind)

def isMember (items : List Value) (item : Value) : Bool :=
  items.any fun other => other.sameElement item

def setPair (op : String) (args : List Value) : Except Cause (Ty × List Value × List Value) := do
  let (a, b) ← operandPair "set" op args
  let (of, xs) ← setItems a
  let (of', ys) ← setItems b
  if of = of' then .ok (of, xs, ys)
  else .error (.typeMismatch (Ty.set of).text (Ty.set of').text)

def setInsert (args : List Value) : Except Cause Value := do
  let (source, item) ← operandPair "set" "insert" args
  let (of, items) ← setItems source
  if item.conformsTo of then .ok (.setOf of (items ++ [item]))
  else .error (.typeMismatch of.text item.kind)

def setUnion (args : List Value) : Except Cause Value := do
  let (of, xs, ys) ← setPair "union" args
  return .setOf of (xs ++ ys)

def setIntersect (args : List Value) : Except Cause Value := do
  let (of, xs, ys) ← setPair "intersect" args
  return .setOf of (xs.filter (isMember ys))

def setDifference (args : List Value) : Except Cause Value := do
  let (of, xs, ys) ← setPair "difference" args
  return .setOf of (xs.filter fun x => !isMember ys x)

def set : Domain where
  name := "set"
  construct := .setOf
  iterate value := (setItems value).map Prod.snd
  contains value item := (setItems value).map fun (_, items) => isMember items item
  extra op args :=
    match op with
    | "insert" => some (setInsert args)
    | "union" => some (setUnion args)
    | "intersect" => some (setIntersect args)
    | "difference" => some (setDifference args)
    | _ => none

end LayeredIR.Domain
