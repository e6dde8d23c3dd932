import LayeredIR.Codec.Ty
import LayeredIR.Literal

/-! Literals as tagged records. The items of a collection default to none, the message of an error
to absence. -/
namespace LayeredIR.Literal

mutual

def toJson : Literal → Json
  | .int value => Json.tagged "int" [("value", .int value.toInt)]
  | .float value => Json.tagged "float" [("value", .ofBinary64 value)]
  | .bool value => Json.tagged "bool" [("value", .bool value)]
  | .string value => Json.tagged "string" [("value", .str value)]
  | .void => Json.tagged "void" []
  | .list of items => Json.tagged "list" [("of", of.toJson), ("value", .arr (toJsons items))]
  | .set of items => Json.tagged "set" [("of", of.toJson), ("value", .arr (toJsons items))]
  | .error code message =>
    Json.tagged "error" (("code", .str code) :: Json.memberIf "message" .str message)

def toJsons : List Literal → List Json
  | [] => []
  | item :: rest => item.toJson :: toJsons rest

end

def schema : Json.Schema :=
  [("int", ["value"]), ("float", ["value"]), ("bool", ["value"]), ("string", ["value"]),
    ("void", []), ("list", ["of", "value"]), ("set", ["of", "value"]),
    ("error", ["code", "message"])]

def decode? (nested : Bool) (tree : Json) : Option Literal := do
  let (tag, record) ← tree.tagged? schema nested
  let members := record.members
  match tag with
  | "int" => return .int (← (← members.get? "value").int64?)
  | "float" => return .float (← (← members.get? "value").binary64?)
  | "bool" => return .bool (← (← members.get? "value").bool?)
  | "string" => return .string (← members.str? "value")
  | "void" => some .void
  | "list" => do
    let of ← Ty.decode? true (← members.get? "of")
    let items ← (← record.itemsOr? "value").mapM fun ⟨item, _⟩ => decode? true item
    return .list of items
  | "set" => do
    let of ← Ty.decode? true (← members.get? "of")
    let items ← (← record.itemsOr? "value").mapM fun ⟨item, _⟩ => decode? true item
    return .set of items
  | "error" => return .error (← members.str? "code") (← members.optional? "message" Json.str?)
  | _ => none
termination_by sizeOf tree

def ofJson? (tree : Json) : Option Literal := decode? false tree

end LayeredIR.Literal
