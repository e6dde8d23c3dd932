import LayeredIR.World

/-! The evaluators of documents. Each checks the structure of a document before anything runs, and
gives the outcome with the state in which it leaves the host; there is none where `fuel` steps do
not suffice. `folded` is the form for callers who want a value in every case. -/
namespace LayeredIR

variable {σ : Type}

abbrev Evaluation (σ : Type) := Option (Except Fault Value × σ)

def foldOutcome : Except Fault Value → Value
  | .ok value => value
  | .error fault => fault.toValue

def folded {ρ : Type} (evaluate : Setting σ → Option (Except Fault Value × ρ)) (s : Setting σ) :
    Option (Value × ρ) :=
  (evaluate { s with config := {} }).map fun (outcome, rest) => (foldOutcome outcome, rest)

namespace Document

def checkLayer (doc : Document) (layer top : Layer) : Except Cause Unit :=
  let declared := doc.layer.filter fun declared => decide (top < declared)
  match declared, doc.firstAbove layer with
  | some declared, _ => .error (.layerViolation top declared.name "layer")
  | none, some (place, form) => .error (.layerViolation layer form place)
  | none, none => .ok ()

/-- The setting in which a document runs whose layer is checked. Its definitions win over those of
the caller. There are no blocks. -/
def setting (doc : Document) (s : Setting σ) (layer : Layer) : Except Cause (Setting σ) :=
  match doc.nodeTable with
  | .error e => .error e.cause
  | .ok nodes =>
    .ok { s with
      nodes := nodes
      definitions := s.definitions.layered doc.definitions
      layer := layer
      blocks := [] }

theorem setting_eq_ok {doc : Document} {s prepared : Setting σ} {layer : Layer}
    (ok : doc.setting s layer = .ok prepared) :
    ∃ nodes, doc.nodeTable = .ok nodes ∧ prepared = { s with
      nodes := nodes
      definitions := s.definitions.layered doc.definitions
      layer := layer
      blocks := [] } := by
  unfold setting at ok
  split at ok
  · cases ok
  · next nodes table =>
    cases ok
    exact ⟨nodes, table, rfl⟩

/-- The result of a document in the root scope, with what the run leaves. A document that is refused
leaves what it would have begun with. -/
def finish (doc : Document) (s : Setting σ) (fuel : Nat) (layer top : Layer) (host : σ) :
    Option (Except Fault Value × Shared σ × Memory) :=
  let checked := do
    doc.checkLayer layer top
    doc.setting s layer
  let shared : Shared σ := ⟨.empty, 0, host⟩
  let memory := Memory.initial entryTask s.config.maxCallDepth
  match checked with
  | .error cause => some (.error (.ofCause cause), shared, memory)
  | .ok s => Task.run s fuel shared (.start (.operand doc.result rootScope) memory)

def evaluate (doc : Document) (s : Setting σ) (fuel : Nat) (layer top : Layer) (host : σ) :
    Evaluation σ :=
  (doc.finish s fuel layer top host).map fun (outcome, shared, _) => (outcome, shared.host)

/-- Which of the first two layers a document is in: the second, unless it declares the first. -/
def airCirLayer (doc : Document) : Layer := if doc.layer = some .air then .air else .cir

theorem airCirLayer_cases (doc : Document) : doc.airCirLayer = .air ∨ doc.airCirLayer = .cir := by
  unfold airCirLayer
  split
  · exact .inl rfl
  · exact .inr rfl

def finishAirCir (doc : Document) (s : Setting σ) (fuel : Nat) (host : σ) :
    Option (Except Fault Value × Shared σ × Memory) :=
  doc.finish { s with effects := none } fuel doc.airCirLayer .cir host

def evaluateAirCir (doc : Document) (s : Setting σ) (fuel : Nat) (host : σ) : Evaluation σ :=
  (doc.finishAirCir s fuel host).map fun (outcome, shared, _) => (outcome, shared.host)

def evaluateEir (doc : Document) (s : Setting σ) (fuel : Nat) (host : σ) : Evaluation σ :=
  doc.evaluate s fuel .eir .eir host

end Document

namespace FlowDocument

/-- The setting in which a control-flow document runs. There are no nodes, so every id is a
register. -/
def setting (doc : FlowDocument) (s : Setting σ) (graph : FlowGraph) : Setting σ :=
  { s with
    nodes := .empty
    definitions := s.definitions.layered doc.definitions
    layer := .lir
    blocks := graph.blocks }

def needsConcurrency (doc : FlowDocument) : Option Cause :=
  doc.concurrentBlock?.map fun block =>
    .invalidControlFlow ("`" ++ block.terminator.name ++ "` in block `" ++ block.id ++
      "` requires the concurrent evaluator")

def evaluate (doc : FlowDocument) (s : Setting σ) (fuel : Nat) (host : σ) : Evaluation σ :=
  match doc.needsConcurrency, doc.graph with
  | some cause, _ => some (.error (.ofCause cause), host)
  | none, .error e => some (.error (.ofCause e.cause), host)
  | none, .ok graph =>
    let s := doc.setting s graph
    let task := Task.atBlock s entryTask graph.entry.id s.inputRegisters
    (Task.run s fuel ⟨.empty, 0, host⟩ task).map fun (outcome, shared, _) => (outcome, shared.host)

def start (doc : FlowDocument) (s : Setting σ) (graph : FlowGraph) (host : σ) : World σ :=
  World.start (doc.setting s graph) graph.entry.id s.inputRegisters host

def evaluateConcurrent (doc : FlowDocument) (s : Setting σ) (fuel : Nat) (host : σ) :
    Option (Except Fault Value × Futures × σ) :=
  match doc.graph with
  | .error e => some (.error (.ofCause e.cause), .empty, host)
  | .ok graph =>
    let w := (doc.start s graph host).run (doc.setting s graph) fuel
    w.result?.map fun outcome => (outcome, w.shared.futures, w.shared.host)

end FlowDocument
end LayeredIR
