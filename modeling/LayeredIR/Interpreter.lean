import LayeredIR.Task

/-! An interpreter keeps the state of one task between evaluations: its scopes, its node cache and
the futures it knows. -/
namespace LayeredIR

structure Interpreter (σ : Type) where
  setting : Setting σ
  memory : Memory
  shared : Shared σ

namespace Interpreter

variable {σ : Type}

def new (setting : Setting σ) (host : σ) : Interpreter σ :=
  { setting := setting
    memory := .initial entryTask setting.config.maxCallDepth
    shared := ⟨.empty, 0, host⟩ }

def run (i : Interpreter σ) (fuel : Nat) (job : Job) :
    Option (Except Fault Value × Interpreter σ) :=
  let ⟨setting, memory, shared⟩ := i
  (Task.run setting fuel shared (.start job memory)).map fun (outcome, shared, memory) =>
    (outcome, ⟨setting, memory, shared⟩)

def runAll (i : Interpreter σ) (fuel : Nat) (scope : ScopeId) :
    List Arg → Option (Except Fault (List Value) × Interpreter σ)
  | [] => some (.ok [], i)
  | arg :: rest => do
    let (outcome, i) ← i.run fuel (.operand arg scope)
    match outcome with
    | .error fault => return (.error fault, i)
    | .ok value =>
      let (outcome, i) ← i.runAll fuel scope rest
      return (outcome.map (value :: ·), i)

def depth (i : Interpreter σ) : Nat := i.memory.stack.depth

def withHeap {α : Type} (i : Interpreter σ) (change : Heap → α × Heap) : α × Interpreter σ :=
  let (answer, memory) := i.memory.withHeap change
  (answer, { i with memory := memory })

def withFutures (i : Interpreter σ) (change : Futures → Futures) : Interpreter σ :=
  { i with shared := { i.shared with futures := change i.shared.futures } }

def newFuture (i : Interpreter σ) (task : Nat) : Value × Interpreter σ :=
  let (id, memory) := i.memory.freshIdentity
  let i := { i with memory := memory }
  (.future id, i.withFutures fun futures => futures.add id (.pending task))

end Interpreter
end LayeredIR
