import LayeredIR.Codec.Literal
import LayeredIR.Expr

/-! Operands and expressions as JSON: an id is a string, every form a tagged record. -/
namespace LayeredIR

mutual

def Arg.toJson : Arg → Json
  | .id name => .str name
  | .inline expr => expr.toJson

def Expr.toJson : Expr → Json
  | .lit value => Json.tagged "lit" [("value", value.toJson)]
  | .ref id => Json.tagged "ref" [("id", .str id)]
  | .var name => Json.tagged "var" [("name", .str name)]
  | .input name => Json.tagged "input" [("name", .str name)]
  | .call ns name args =>
    Json.tagged "call"
      (Json.memberIf "ns" .str ns ++ [("name", .str name), ("args", .arr (argsToJson args))])
  | .ifThenElse cond thenArg elseArg =>
    Json.tagged "if" [("cond", cond.toJson), ("then", thenArg.toJson), ("else", elseArg.toJson)]
  | .letIn name value body =>
    Json.tagged "let" [("name", .str name), ("value", value.toJson), ("body", body.toJson)]
  | .airRef ns name args =>
    Json.tagged "airRef" [("ns", .str ns), ("name", .str name), ("args", .arr (argsToJson args))]
  | .list of items => Json.tagged "list" [("of", of.toJson), ("items", .arr (argsToJson items))]
  | .lambda params body =>
    Json.tagged "lambda" [("params", Json.ofStrings params), ("body", body.toJson)]
  | .apply callee args =>
    Json.tagged "apply" [("fn", callee.toJson), ("args", .arr (argsToJson args))]
  | .fix generator => Json.tagged "fix" [("fn", generator.toJson)]
  | .seq body => Json.tagged "seq" [("body", .arr (argsToJson body))]
  | .declare name value => Json.tagged "declare" [("name", .str name), ("value", value.toJson)]
  | .assign name value => Json.tagged "assign" [("name", .str name), ("value", value.toJson)]
  | .whileDo cond body => Json.tagged "while" [("cond", cond.toJson), ("body", body.toJson)]
  | .effect op args => Json.tagged "effect" [("op", .str op), ("args", .arr (argsToJson args))]

def argsToJson : List Arg → List Json
  | [] => []
  | arg :: rest => arg.toJson :: argsToJson rest

end

def Expr.schema : Json.Schema :=
  [("lit", ["value"]), ("ref", ["id"]), ("var", ["name"]), ("input", ["name"]),
    ("call", ["ns", "name", "args"]), ("if", ["cond", "then", "else"]),
    ("let", ["name", "value", "body"]), ("airRef", ["ns", "name", "args"]),
    ("list", ["of", "items"]), ("lambda", ["params", "body"]), ("apply", ["fn", "args"]),
    ("fix", ["fn"]), ("seq", ["body"]), ("declare", ["name", "value"]),
    ("assign", ["name", "value"]), ("while", ["cond", "body"]), ("effect", ["op", "args"])]

mutual

/-- A string is an id, anything else an expression. Operands always count as nested. -/
def Arg.ofJson? (tree : Json) : Option Arg :=
  match tree with
  | .str name => some (.id name)
  | other => (Expr.decode? true other).map .inline
termination_by (sizeOf tree, 1)

def Expr.decode? (nested : Bool) (tree : Json) : Option Expr := do
  let (tag, record) ← tree.tagged? Expr.schema nested
  let members := record.members
  match tag with
  | "lit" => return .lit (← Literal.decode? true (← members.get? "value"))
  | "ref" => return .ref (← members.str? "id")
  | "var" => return .var (← members.str? "name")
  | "input" => return .input (← members.str? "name")
  | "call" => do
    let args ← (← record.itemsOr? "args").mapM fun ⟨arg, _⟩ => Arg.ofJson? arg
    return .call (← members.optional? "ns" Json.str?) (← members.str? "name") args
  | "if" => do
    let ⟨cond, _⟩ ← record.part? "cond"
    let ⟨thenArg, _⟩ ← record.part? "then"
    let ⟨elseArg, _⟩ ← record.part? "else"
    return .ifThenElse (← Arg.ofJson? cond) (← Arg.ofJson? thenArg) (← Arg.ofJson? elseArg)
  | "let" => do
    let ⟨value, _⟩ ← record.part? "value"
    let ⟨body, _⟩ ← record.part? "body"
    return .letIn (← members.str? "name") (← Arg.ofJson? value) (← Arg.ofJson? body)
  | "airRef" => do
    let args ← (← record.itemsOr? "args").mapM fun ⟨arg, _⟩ => Arg.ofJson? arg
    return .airRef (← members.str? "ns") (← members.str? "name") args
  | "list" => do
    let of ← Ty.decode? true (← members.get? "of")
    let items ← (← record.itemsOr? "items").mapM fun ⟨item, _⟩ => Arg.ofJson? item
    return .list of items
  | "lambda" => do
    let ⟨body, _⟩ ← record.part? "body"
    return .lambda (← members.getOr? "params" [] Json.strings?) (← Arg.ofJson? body)
  | "apply" => do
    let ⟨callee, _⟩ ← record.part? "fn"
    let args ← (← record.itemsOr? "args").mapM fun ⟨arg, _⟩ => Arg.ofJson? arg
    return .apply (← Arg.ofJson? callee) args
  | "fix" => do
    let ⟨generator, _⟩ ← record.part? "fn"
    return .fix (← Arg.ofJson? generator)
  | "seq" => do
    let body ← (← record.itemsOr? "body").mapM fun ⟨arg, _⟩ => Arg.ofJson? arg
    return .seq body
  | "declare" => do
    let ⟨value, _⟩ ← record.part? "value"
    return .declare (← members.str? "name") (← Arg.ofJson? value)
  | "assign" => do
    let ⟨value, _⟩ ← record.part? "value"
    return .assign (← members.str? "name") (← Arg.ofJson? value)
  | "while" => do
    let ⟨cond, _⟩ ← record.part? "cond"
    let ⟨body, _⟩ ← record.part? "body"
    return .whileDo (← Arg.ofJson? cond) (← Arg.ofJson? body)
  | "effect" => do
    let args ← (← record.itemsOr? "args").mapM fun ⟨arg, _⟩ => Arg.ofJson? arg
    return .effect (← members.str? "op") args
  | _ => none
termination_by (sizeOf tree, 0)

end

def Expr.ofJson? (tree : Json) : Option Expr := Expr.decode? false tree

end LayeredIR
