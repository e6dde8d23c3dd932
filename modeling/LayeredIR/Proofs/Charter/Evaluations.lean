import LayeredIR.Proofs.Charter.Tasks

/-! The evaluation of one job above what waits for it, from where it begins to where it comes to its
result. What tasks share may be changed by others between any two steps. -/
namespace LayeredIR

inductive Setting.Evaluation {σ : Type} (s : Setting σ) (bottom : List Frame) (job : Job)
    (memory : Memory) : List Job → Task → Prop
  | start : Evaluation s bottom job memory [job] ⟨s.plan job, bottom, memory⟩
  | step {begun task shared' task'} (shared) (before : Evaluation s bottom job memory begun task)
    (goes : ∀ outcome, task.control = Plan.ending outcome → task.frames ≠ bottom)
    (stepped : task.step s shared = .running shared' task') :
    Evaluation s bottom job memory (task.begun?.toList ++ begun) task'

namespace Charter

variable {σ : Type} {s : Setting σ} {C : Charter s}

structure Indifferent (C : Charter s) : Prop where
  shares : ∀ futures host, C.Shares futures host
  heard : ∀ shared task, C.Heard shared task

/-- What the changes of a charter keep true of a heap holds throughout an evaluation that begins as
the charter says. -/
theorem evaluation (laws : C.Laws) (indifferent : C.Indifferent) {P : Heap → Prop}
    (changed : ∀ {heap later}, C.base ≤ heap.size → P heap → C.Change heap later → P later)
    {bottom : List Frame} {job : Job} {memory : Memory} (begins : (s.plan job).Upholds C C.Nexts)
    (keeps : C.Keeps memory) (first : P memory.heap) {begun : List Job} {task : Task}
    (evaluation : s.Evaluation bottom job memory begun task)
    (admits : ∀ job ∈ begun, C.Jobs job → C.Admits job) :
    C.Runs bottom task ∧ P task.memory.heap := by
  induction evaluation with
  | start => exact ⟨⟨begins, .bottom, keeps⟩, first⟩
  | @step begun task shared' task' shared _ goes stepped ih =>
    obtain ⟨runs, holds⟩ := ih fun job member => admits job (List.mem_append_right _ member)
    have allowed (job : Job) (here : task.begun? = some job) : C.Admits job := by
      refine admits job (List.mem_append_left _ ?_) (runs.begun here)
      rw [here]
      exact List.mem_singleton_self job
    cases runs.step (indifferent.shares _ _) laws allowed (indifferent.heard shared task) with
    | finished surfaced ending _ => exact absurd surfaced (goes _ ending)
    | running stepped' _ runs' change =>
      cases stepped.symm.trans stepped'
      exact ⟨runs', changed runs.memory.grown holds change⟩
    | waiting stepped' => cases stepped.symm.trans stepped'

end Charter
end LayeredIR
