import LayeredIR.Json.Record
import LayeredIR.Ty

/-! Type descriptors as tagged records. -/
namespace LayeredIR.Ty

mutual

def toJson : Ty → Json
  | .list of => Json.tagged "list" [("of", of.toJson)]
  | .set of => Json.tagged "set" [("of", of.toJson)]
  | .future of => Json.tagged "future" [("of", of.toJson)]
  | .fn params returns =>
    Json.tagged "fn" [("params", .arr (toJsons params)), ("returns", returns.toJson)]
  | .int => Json.tagged "int" []
  | .float => Json.tagged "float" []
  | .bool => Json.tagged "bool" []
  | .string => Json.tagged "string" []
  | .void => Json.tagged "void" []
  | .error => Json.tagged "error" []

def toJsons : List Ty → List Json
  | [] => []
  | ty :: rest => ty.toJson :: toJsons rest

end

def schema : Json.Schema :=
  [("int", []), ("float", []), ("bool", []), ("string", []), ("void", []), ("list", ["of"]),
    ("set", ["of"]), ("fn", ["params", "returns"]), ("future", ["of"]), ("error", [])]

def decode? (nested : Bool) (tree : Json) : Option Ty := do
  let (tag, record) ← tree.tagged? schema nested
  match tag with
  | "int" => some .int
  | "float" => some .float
  | "bool" => some .bool
  | "string" => some .string
  | "void" => some .void
  | "error" => some .error
  | "list" => do
    let ⟨of, _⟩ ← record.part? "of"
    return .list (← decode? true of)
  | "set" => do
    let ⟨of, _⟩ ← record.part? "of"
    return .set (← decode? true of)
  | "future" => do
    let ⟨of, _⟩ ← record.part? "of"
    return .future (← decode? true of)
  | "fn" => do
    let params ← (← record.items? "params").mapM fun ⟨param, _⟩ => decode? true param
    let ⟨returns, _⟩ ← record.part? "returns"
    return .fn params (← decode? true returns)
  | _ => none
termination_by sizeOf tree

def ofJson? (tree : Json) : Option Ty := decode? false tree

end LayeredIR.Ty
