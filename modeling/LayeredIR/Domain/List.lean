import LayeredIR.Domain

/-! The domain of lists: ordered, and an item may occur again. -/
namespace LayeredIR.Domain

def listItems : Value → Except Cause (Ty × List Value)
  | .list of items => .ok (of, items)
  | other => .error (.typeMismatch "list" other.kind)

def listAppend (args : List Value) : Except Cause Value := do
  let (source, item) ← operandPair "list" "append" args
  let (of, items) ← listItems source
  if item.conformsTo of then .ok (.list of (items ++ [item]))
  else .error (.typeMismatch of.text item.kind)

def listReverse (args : List Value) : Except Cause Value := do
  let (of, items) ← listItems (← operand "list" "reverse" args)
  return .list of items.reverse

def list : Domain where
  name := "list"
  construct := .list
  iterate value := (listItems value).map Prod.snd
  extra op args :=
    match op with
    | "append" => some (listAppend args)
    | "reverse" => some (listReverse args)
    | _ => none

end LayeredIR.Domain
