import LayeredIR.Codec.Expr
import LayeredIR.Document

/-! Documents of the upper three layers as JSON. Members with a default are written out, optional
ones that are absent are left out. -/
namespace LayeredIR

/-- A layer is written as its name, or as an object whose only member has that name and is null. -/
def Layer.ofJson? : Json → Option Layer
  | .str name | .obj [(name, .null)] => Layer.ofName? name
  | _ => none

def Layer.toJson (layer : Layer) : Json := .str layer.name

namespace Node

def toJson (node : Node) : Json := .obj [("id", .str node.id), ("expr", node.expr.toJson)]

def ofJson? (tree : Json) : Option Node := do
  let ⟨members, _⟩ ← tree.record? ["id", "expr"]
  return ⟨← members.str? "id", ← Expr.ofJson? (← members.get? "expr")⟩

end Node

namespace Definition

def toJson (d : Definition) : Json :=
  .obj ([("ns", .str d.ns), ("name", .str d.name), ("params", Json.ofStrings d.params),
    ("body", d.body.toJson)] ++ Json.memberIf "result" Ty.toJson d.result)

def ofJson? (tree : Json) : Option Definition := do
  let ⟨members, _⟩ ← tree.record? ["ns", "name", "params", "body", "result"]
  let params ← members.getOr? "params" [] Json.strings?
  let body ← Arg.ofJson? (← members.get? "body")
  let result ← members.optional? "result" Ty.ofJson?
  return ⟨← members.str? "ns", ← members.str? "name", params, body, result⟩

def listOfJson? (tree : Json) : Option (List Definition) := do
  (← tree.arr?).mapM ofJson?

end Definition

namespace Document

def toJson (doc : Document) : Json :=
  .obj ([("version", .str doc.version)] ++ Json.memberIf "layer" Layer.toJson doc.layer ++
    [("airDefs", .arr (doc.definitions.map Definition.toJson)),
      ("nodes", .arr (doc.nodes.map Node.toJson)), ("result", doc.result.toJson)])

def ofJson? (tree : Json) : Option Document := do
  let ⟨members, _⟩ ← tree.record? ["version", "layer", "airDefs", "nodes", "result"]
  let version ← members.getOr? "version" "" Json.str?
  let layer ← members.optional? "layer" Layer.ofJson?
  let definitions ← members.getOr? "airDefs" [] Definition.listOfJson?
  let nodes ← members.getOr? "nodes" [] fun nodes => do (← nodes.arr?).mapM Node.ofJson?
  return ⟨version, layer, definitions, nodes, ← Arg.ofJson? (← members.get? "result")⟩

end Document
end LayeredIR
