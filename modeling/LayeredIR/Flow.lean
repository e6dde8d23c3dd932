import LayeredIR.Document

/-! Control-flow documents: blocks of instructions over named registers, each ended by a
terminator, and the graph of a document whose labels all resolve. -/
namespace LayeredIR

inductive Instruction
  | assign (target : String) (value : Arg)
  | op (target : String) (ns : Option String) (name : String) (args : List String)
  | call (target callee : String) (args : List String)
  | effect (target : Option String) (op : String) (args : List String)

/-- What ends a block. `fork` starts a task at `body` and goes on at `continuation` with the
task's future in a register; `join` waits for one. -/
inductive Terminator
  | jump (label : String)
  | branch (cond thenLabel elseLabel : String)
  | ret (value : Option String)
  | fork (body continuation future : String)
  | join (future : String) (target : Option String) (label : String)

namespace Terminator

def name : Terminator → String
  | .jump _ => "jump"
  | .branch _ _ _ => "branch"
  | .ret _ => "return"
  | .fork _ _ _ => "fork"
  | .join _ _ _ => "join"

def isConcurrent : Terminator → Bool
  | .fork _ _ _ | .join _ _ _ => true
  | _ => false

def successors : Terminator → List String
  | .jump label | .join _ _ label => [label]
  | .branch _ thenLabel elseLabel => [thenLabel, elseLabel]
  | .ret _ => []
  | .fork body continuation _ => [body, continuation]

end Terminator

structure Block where
  id : String
  instructions : List Instruction
  terminator : Terminator

structure FlowDocument where
  version : String
  entry : String
  definitions : List Definition
  blocks : List Block

structure FlowGraph where
  entry : Block
  blocks : List Block

namespace FlowGraph

def block? (graph : FlowGraph) (label : String) : Option Block :=
  graph.blocks.find? fun block => block.id = label

def size (graph : FlowGraph) : Nat := graph.blocks.length

end FlowGraph

namespace FlowDocument

def concurrentBlock? (doc : FlowDocument) : Option Block :=
  doc.blocks.find? fun block => block.terminator.isConcurrent

def hasFork (doc : FlowDocument) : Bool := doc.concurrentBlock?.isSome

def labels (doc : FlowDocument) : List String := doc.blocks.map Block.id

def danglingLabel? (doc : FlowDocument) : Option (String × String) :=
  doc.blocks.findSome? fun block =>
    (block.terminator.successors.find? fun label => label ∉ doc.labels).map fun label =>
      (block.id, label)

def graph (doc : FlowDocument) : Except StructureError FlowGraph :=
  match firstRepeat [] doc.labels, doc.danglingLabel?,
      doc.blocks.find? fun block => block.id = doc.entry with
  | some id, _, _ => .error (.duplicateBlock id)
  | none, some (block, label), _ => .error (.unknownLabel block label)
  | none, none, none => .error (.missingEntry doc.entry)
  | none, none, some entry => .ok ⟨entry, doc.blocks⟩

end FlowDocument
end LayeredIR
