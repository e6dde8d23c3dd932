import LayeredIR.Codec.Document
import LayeredIR.Flow

/-! Control-flow documents as JSON. -/
namespace LayeredIR

namespace Instruction

def toJson : Instruction → Json
  | .assign target value => Json.tagged "assign" [("target", .str target), ("value", value.toJson)]
  | .op target ns name args =>
    Json.tagged "op" (("target", .str target) :: Json.memberIf "ns" .str ns ++
      [("name", .str name), ("args", Json.ofStrings args)])
  | .call target callee args =>
    Json.tagged "call"
      [("target", .str target), ("callee", .str callee), ("args", Json.ofStrings args)]
  | .effect target name args =>
    Json.tagged "effect" (Json.memberIf "target" .str target ++
      [("op", .str name), ("args", Json.ofStrings args)])

def schema : Json.Schema :=
  [("assign", ["target", "value"]), ("op", ["target", "ns", "name", "args"]),
    ("call", ["target", "callee", "args"]), ("effect", ["target", "op", "args"])]

def ofJson? (tree : Json) : Option Instruction := do
  let (tag, ⟨members, _⟩) ← tree.tagged? schema false
  let args := members.getOr? "args" [] Json.strings?
  match tag with
  | "assign" =>
    return .assign (← members.str? "target") (← Arg.ofJson? (← members.get? "value"))
  | "op" =>
    return .op (← members.str? "target") (← members.optional? "ns" Json.str?)
      (← members.str? "name") (← args)
  | "call" => return .call (← members.str? "target") (← members.str? "callee") (← args)
  | "effect" =>
    return .effect (← members.optional? "target" Json.str?) (← members.str? "op") (← args)
  | _ => none

end Instruction

namespace Terminator

def toJson : Terminator → Json
  | .jump label => Json.tagged "jump" [("to", .str label)]
  | .branch cond thenLabel elseLabel =>
    Json.tagged "branch"
      [("cond", .str cond), ("then", .str thenLabel), ("else", .str elseLabel)]
  | .ret value => Json.tagged "return" (Json.memberIf "value" .str value)
  | .fork body continuation future =>
    Json.tagged "fork"
      [("body", .str body), ("continuation", .str continuation), ("future", .str future)]
  | .join future target label =>
    Json.tagged "join"
      (("future", .str future) :: Json.memberIf "target" .str target ++ [("to", .str label)])

def schema : Json.Schema :=
  [("jump", ["to"]), ("branch", ["cond", "then", "else"]), ("return", ["value"]),
    ("fork", ["body", "continuation", "future"]), ("join", ["future", "target", "to"])]

def ofJson? (tree : Json) : Option Terminator := do
  let (tag, ⟨members, _⟩) ← tree.tagged? schema false
  match tag with
  | "jump" => return .jump (← members.str? "to")
  | "branch" =>
    return .branch (← members.str? "cond") (← members.str? "then") (← members.str? "else")
  | "return" => return .ret (← members.optional? "value" Json.str?)
  | "fork" =>
    return .fork (← members.str? "body") (← members.str? "continuation")
      (← members.str? "future")
  | "join" =>
    return .join (← members.str? "future") (← members.optional? "target" Json.str?)
      (← members.str? "to")
  | _ => none

end Terminator

namespace Block

def toJson (block : Block) : Json :=
  .obj [("id", .str block.id), ("instructions", .arr (block.instructions.map Instruction.toJson)),
    ("terminator", block.terminator.toJson)]

def ofJson? (tree : Json) : Option Block := do
  let ⟨members, _⟩ ← tree.record? ["id", "instructions", "terminator"]
  let instructions ← members.getOr? "instructions" [] fun instructions => do
    (← instructions.arr?).mapM Instruction.ofJson?
  return ⟨← members.str? "id", instructions,
    ← Terminator.ofJson? (← members.get? "terminator")⟩

end Block

namespace FlowDocument

def toJson (doc : FlowDocument) : Json :=
  .obj [("version", .str doc.version), ("entry", .str doc.entry),
    ("airDefs", .arr (doc.definitions.map Definition.toJson)),
    ("blocks", .arr (doc.blocks.map Block.toJson))]

def ofJson? (tree : Json) : Option FlowDocument := do
  let ⟨members, _⟩ ← tree.record? ["version", "entry", "airDefs", "blocks"]
  let version ← members.getOr? "version" "" Json.str?
  let definitions ← members.getOr? "airDefs" [] Definition.listOfJson?
  let blocks ← (← (← members.get? "blocks").arr?).mapM Block.ofJson?
  return ⟨version, ← members.str? "entry", definitions, blocks⟩

end FlowDocument
end LayeredIR
