import LayeredIR.Expr

/-! Documents of the upper three layers: named nodes, definitions, and a result. -/
namespace LayeredIR

structure Node where
  id : String
  expr : Expr

structure Definition where
  ns : String
  name : String
  params : List String
  body : Arg
  result : Option Ty

/-- The text under which definitions are kept and tracked. -/
def definitionKey (ns name : String) : String := ns ++ ":" ++ name

def Definition.key (d : Definition) : String := definitionKey d.ns d.name

structure Document where
  version : String
  layer : Option Layer
  definitions : List Definition
  nodes : List Node
  result : Arg

inductive StructureError
  | duplicateNode (id : String)
  | duplicateBlock (id : String)
  | missingEntry (id : String)
  | unknownLabel (block label : String)
  deriving DecidableEq

def StructureError.message : StructureError → String
  | .duplicateNode id => "duplicate node id `" ++ id ++ "`"
  | .duplicateBlock id => "duplicate block label `" ++ id ++ "`"
  | .missingEntry id => "entry block `" ++ id ++ "` does not exist"
  | .unknownLabel block label => "block `" ++ block ++ "` targets unknown label `" ++ label ++ "`"

def firstRepeat (seen : List String) : List String → Option String
  | [] => none
  | id :: rest => if id ∈ seen then some id else firstRepeat (id :: seen) rest

structure Nodes where
  nodes : List Node

namespace Nodes

def empty : Nodes := ⟨[]⟩

def get? (table : Nodes) (id : String) : Option Expr :=
  (table.nodes.find? fun node => node.id = id).map Node.expr

def contains (table : Nodes) (id : String) : Bool := (table.get? id).isSome

def size (table : Nodes) : Nat := table.nodes.length

def ofNodes (nodes : List Node) : Except StructureError Nodes :=
  match firstRepeat [] (nodes.map Node.id) with
  | some id => .error (.duplicateNode id)
  | none => .ok ⟨nodes⟩

end Nodes

namespace Document

def nodeTable (doc : Document) : Except StructureError Nodes := Nodes.ofNodes doc.nodes

theorem nodeTable_eq_ok {doc : Document} {table : Nodes} (ok : doc.nodeTable = .ok table) :
    table = ⟨doc.nodes⟩ := by
  unfold nodeTable Nodes.ofNodes at ok
  split at ok
  · cases ok
  · cases ok
    rfl

theorem mem_nodeTable {doc : Document} {table : Nodes} (ok : doc.nodeTable = .ok table)
    {id : String} {expr : Expr} (found : table.get? id = some expr) :
    ∃ node ∈ doc.nodes, node.expr = expr := by
  obtain rfl := nodeTable_eq_ok ok
  obtain ⟨node, held, rfl⟩ := Option.map_eq_some_iff.mp found
  exact ⟨node, List.mem_of_find?_eq_some held, rfl⟩

def firstAbove (doc : Document) (layer : Layer) : Option (String × String) :=
  (doc.nodes.findSome? fun node =>
    (node.expr.firstAbove layer).map fun form => (node.id, form)) <|>
  ((doc.definitions.findSome? fun d =>
    (d.body.firstAbove layer).map fun form => (d.key, form)) <|>
  (doc.result.firstAbove layer).map fun form => ("result", form))

end Document
end LayeredIR
