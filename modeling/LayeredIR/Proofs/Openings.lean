import LayeredIR.Evaluate
import LayeredIR.Proofs.Bodies

/-! What the evaluation of a document begins with: a task in a setting, unless the document is
refused. The evaluators that run one task all run the task that their document opens with, so what
holds of that task in its setting holds of the evaluation. -/
namespace LayeredIR

def Progress.result? {σ : Type} : Progress σ → Option (Except Fault Value × Shared σ × Memory)
  | .ended outcome shared memory => some (outcome, shared, memory)
  | _ => none

theorem Task.run_eq_after {σ : Type} {s : Setting σ} (fuel : Nat) (shared : Shared σ)
    (task : Task) :
    task.run s fuel shared = (task.after s (fun _ shared => shared) fuel shared).result? := by
  induction fuel generalizing shared task with
  | zero => rfl
  | succ fuel ih =>
    simp only [run, after]
    cases task.step s shared with
    | running shared' task' => exact ih shared' task'
    | ended | waiting => rfl

structure Opening (σ : Type) where
  setting : Setting σ
  task : Task

namespace Opening

variable {σ : Type}

def fresh (host : σ) : Shared σ := ⟨.empty, 0, host⟩

def evaluate (opening : Except Cause (Opening σ)) (fuel : Nat) (host : σ) : Evaluation σ :=
  match opening with
  | .error cause => some (.error (.ofCause cause), host)
  | .ok o => (Task.run o.setting fuel (fresh host) o.task).map fun (outcome, shared, _) =>
    (outcome, shared.host)

/-- The effects performed within `fuel` steps, each with its arguments, in the order in which they
are performed. -/
def calls (opening : Except Cause (Opening σ)) (fuel : Nat) (host : σ) :
    List (String × List Value) :=
  match opening with
  | .error _ => []
  | .ok o => o.task.performed o.setting (fun _ shared => shared) fuel (fresh host)

end Opening

namespace Document

variable {σ : Type} (doc : Document) (s : Setting σ)

def opening (layer top : Layer) : Except Cause (Opening σ) := do
  doc.checkLayer layer top
  let s ← doc.setting s layer
  return ⟨s, .start (.operand doc.result rootScope) (.initial entryTask s.config.maxCallDepth)⟩

def openingAirCir : Except Cause (Opening σ) :=
  doc.opening { s with effects := none } doc.airCirLayer .cir

def openingEir : Except Cause (Opening σ) := doc.opening s .eir .eir

def purely (nodes : Nodes) (layer : Layer) : Setting σ :=
  { s with
    nodes := nodes
    definitions := s.definitions.layered doc.definitions
    layer := layer
    effects := none
    blocks := [] }

variable {doc s}

theorem opening_eq_ok {layer top : Layer} {o : Opening σ}
    (opens : doc.opening s layer top = .ok o) :
    doc.setting s layer = .ok o.setting ∧
      o.task = .start (.operand doc.result rootScope)
        (.initial entryTask o.setting.config.maxCallDepth) := by
  unfold opening at opens
  cases checked : doc.checkLayer layer top with
  | error cause =>
    rw [checked] at opens
    cases opens
  | ok _ =>
    cases prepared : doc.setting s layer with
    | error cause =>
      rw [checked, prepared] at opens
      cases opens
    | ok t =>
      rw [checked, prepared] at opens
      cases opens
      exact ⟨rfl, rfl⟩

variable (doc s) (fuel : Nat) (host : σ)

theorem evaluate_eq (layer top : Layer) :
    doc.evaluate s fuel layer top host = Opening.evaluate (doc.opening s layer top) fuel host := by
  unfold evaluate finish opening
  cases doc.checkLayer layer top with
  | error cause => rfl
  | ok _ =>
    cases prepared : doc.setting s layer with
    | error cause => rfl
    | ok t =>
      obtain ⟨_, _, rfl⟩ := setting_eq_ok prepared
      rfl

theorem evaluateAirCir_eq :
    doc.evaluateAirCir s fuel host = Opening.evaluate (doc.openingAirCir s) fuel host :=
  doc.evaluate_eq { s with effects := none } fuel host doc.airCirLayer .cir

theorem evaluateEir_eq :
    doc.evaluateEir s fuel host = Opening.evaluate (doc.openingEir s) fuel host :=
  doc.evaluate_eq s fuel host .eir .eir

theorem finishAirCir_eq {nodes : Nodes} (checked : doc.checkLayer doc.airCirLayer .cir = .ok ())
    (table : doc.nodeTable = .ok nodes) :
    doc.finishAirCir s fuel host = Task.run (doc.purely s nodes doc.airCirLayer) fuel
      (Opening.fresh host)
      (.start (.operand doc.result rootScope) (.initial entryTask s.config.maxCallDepth)) := by
  unfold finishAirCir finish setting
  rw [checked, table]
  rfl

end Document

namespace FlowDocument

variable {σ : Type} (doc : FlowDocument) (s : Setting σ)

def opening : Except Cause (Opening σ) :=
  match doc.needsConcurrency, doc.graph with
  | some cause, _ => .error cause
  | none, .error e => .error e.cause
  | none, .ok graph =>
    .ok ⟨doc.setting s graph,
      .atBlock (doc.setting s graph) entryTask graph.entry.id s.inputRegisters⟩

theorem evaluate_eq (fuel : Nat) (host : σ) :
    doc.evaluate s fuel host = Opening.evaluate (doc.opening s) fuel host := by
  unfold evaluate opening
  cases doc.needsConcurrency with
  | some cause => rfl
  | none => cases doc.graph <;> rfl

variable {doc s}

theorem opening_eq_ok {o : Opening σ} (opens : doc.opening s = .ok o) :
    ∃ graph, doc.graph = .ok graph ∧ o.setting = doc.setting s graph ∧
      o.task = .atBlock (doc.setting s graph) entryTask graph.entry.id s.inputRegisters := by
  unfold opening at opens
  split at opens
  · cases opens
  · cases opens
  · next graph _ structured =>
    cases opens
    exact ⟨graph, structured, rfl, rfl⟩

end FlowDocument
end LayeredIR
