import LayeredIR.Proofs.Likeness.Blocks
import LayeredIR.Task

/-! Tasks that go in step. Where memories that stand for each other answer like queries alike, like
tasks take like steps, and so go on alike for as long as they run. -/
namespace LayeredIR
namespace Likeness

variable {κ : Type} [Preorder κ] (L : Likeness κ) {σ σ' : Type} (s : Setting σ) (s' : Setting σ')

structure Memories where
  alike : κ → Nat → Shared σ → Memory → Shared σ' → Memory → Prop
  later : κ → κ → Prop
  le_of_later : ∀ {w w'}, later w w' → w ≤ w'
  later_self : ∀ w, later w w
  serve : ∀ {w n shared memory shared' memory' q q'}, alike w n shared memory shared' memory' →
    L.Queries w q q' →
    ∃ w', later w w' ∧
      alike w' n (s.serve q shared memory).2.1 (s.serve q shared memory).2.2
        (s'.serve q' shared' memory').2.1 (s'.serve q' shared' memory').2.2 ∧
      L.Answers w' q q' (s.serve q shared memory).1 (s'.serve q' shared' memory').1
  full : ∀ {w n shared memory shared' memory'}, alike w n shared memory shared' memory' →
    memory.stack.isFull = memory'.stack.isFull ∧ memory.stack.limit = memory'.stack.limit
  enter : ∀ {w n shared memory shared' memory'} site, alike w n shared memory shared' memory' →
    alike w (n + 1) shared (memory.enter site) shared' (memory'.enter site)
  leave : ∀ {w n shared memory shared' memory'} isDefinition,
    alike w (n + 1) shared memory shared' memory' →
    alike w n shared (memory.leave isDefinition) shared' (memory'.leave isDefinition)
  attach : ∀ {w n shared memory shared' memory' fault fault'},
    alike w n shared memory shared' memory' → L.fault w fault fault' →
    L.fault w (memory.stack.attach fault) (memory'.stack.attach fault')

inductive Frames (w : κ) : List Frame → List Frame → Prop
  | nil : Frames w [] []
  | resume {next next' rest rest'}
    (further : ∀ w' v v', w ≤ w' → L.value w' v v' → L.Plans L.Nexts w' (next v) (next' v'))
    (frames : Frames w rest rest') : Frames w (.resume next :: rest) (.resume next' :: rest')
  | leave {isDefinition rest rest'} (frames : Frames w rest rest') :
    Frames w (.leave isDefinition :: rest) (.leave isDefinition :: rest')

theorem Frames.mono {L : Likeness κ} {w w' : κ} (le : w ≤ w') {frames frames' : List Frame}
    (alike : L.Frames w frames frames') : L.Frames w' frames frames' := by
  induction alike with
  | nil => exact .nil
  | resume next _ ih => exact .resume (fun w'' v v' le' => next w'' v v' (le.trans le')) ih
  | leave _ ih => exact .leave ih

def callsAround : List Frame → Nat
  | [] => 0
  | .resume _ :: rest => callsAround rest
  | .leave _ :: rest => callsAround rest + 1

variable {L s s'} (M : L.Memories s s')

structure Tasks (w : κ) (shared : Shared σ) (task : Task) (shared' : Shared σ') (task' : Task) :
    Prop where
  control : L.Plans L.Nexts w task.control task'.control
  frames : L.Frames w task.frames task'.frames
  memory : M.alike w (callsAround task.frames) shared task.memory shared' task'.memory

inductive Steps (w : κ) : Progress σ → Progress σ' → Prop
  | running {w' shared task shared' task'} (later : M.later w w')
    (tasks : Tasks M w' shared task shared' task') :
    Steps w (.running shared task) (.running shared' task')
  | ended {outcome outcome' shared memory shared' memory'}
    (outcomes : ResultsAlike (L.fault w) (L.value w) outcome outcome')
    (memories : M.alike w 0 shared memory shared' memory') :
    Steps w (.ended outcome shared memory) (.ended outcome' shared' memory')
  | waiting {shared task shared' task'} (flow : L.flow)
    (tasks : Tasks M w shared task shared' task') :
    Steps w (.waiting shared task) (.waiting shared' task')

theorem deliver_alike {w : κ} {v v' : Value} {frames frames' : List Frame} {shared : Shared σ}
    {memory : Memory} {shared' : Shared σ'} {memory' : Memory} (values : L.value w v v')
    (alike : L.Frames w frames frames')
    (memories : M.alike w (callsAround frames) shared memory shared' memory') :
    Steps M w (Task.deliver v frames shared memory) (Task.deliver v' frames' shared' memory') := by
  cases alike with
  | nil => exact .ended values memories
  | resume next rest => exact .running (M.later_self w) ⟨next w v v' le_rfl values, rest, memories⟩
  | leave rest => exact .running (M.later_self w) ⟨.done (.value values), rest, M.leave _ memories⟩

theorem unwind_alike {w : κ} {fault fault' : Fault} {frames frames' : List Frame}
    {shared : Shared σ} {memory : Memory} {shared' : Shared σ'} {memory' : Memory}
    (faults : L.fault w fault fault') (alike : L.Frames w frames frames')
    (memories : M.alike w (callsAround frames) shared memory shared' memory') :
    Steps M w (Task.unwind fault frames shared memory)
      (Task.unwind fault' frames' shared' memory') := by
  cases alike with
  | nil => exact .ended faults memories
  | resume next rest => exact .running (M.later_self w) ⟨.fail faults, rest, memories⟩
  | leave rest =>
    exact .running (M.later_self w) ⟨.fail (M.attach memories faults), rest, M.leave _ memories⟩

theorem step_alike (like : L.Settings s s') (steady : ∀ w, L.inside w = w)
    (single : ∀ id expr, L.memo → ¬ L.node id expr)
    {w : κ} {shared : Shared σ} {task : Task} {shared' : Shared σ'} {task' : Task}
    (level : ∀ b next, task'.control = .ask (.flatten b) next → ¬ L.copying)
    (tasks : Tasks M w shared task shared' task') :
    Steps M w (task.step s shared) (task'.step s' shared') := by
  obtain ⟨control, frames, memory⟩ := task
  obtain ⟨control', frames', memory'⟩ := task'
  obtain ⟨plans, waiting, memories⟩ := tasks
  simp only at plans waiting memories
  cases plans with
  | done related =>
    cases related with
    | value values => exact deliver_alike M values waiting memories
    | job jobs => exact .running (M.later_self w) ⟨L.plan_alike like jobs, waiting, memories⟩
  | fail faults => exact unwind_alike M faults waiting memories
  | eval jobs rest =>
    exact .running (M.later_self w) ⟨L.plan_alike like jobs, .resume rest waiting, memories⟩
  | @call _ site job job' next next' jobs rest =>
    obtain ⟨full, limit⟩ := M.full memories
    rw [steady, ite_self] at jobs
    simp only [Task.step, full, limit]
    split
    · exact .running (M.later_self w) ⟨.fail (L.fault_self w _), waiting, memories⟩
    · exact .running (M.later_self w)
        ⟨L.plan_alike like jobs, .leave (.resume rest waiting), M.enter site memories⟩
  | ask queries rest =>
    obtain ⟨w', later, memories', answers⟩ := M.serve memories queries
    have le := M.le_of_later later
    exact .running later ⟨rest w' _ _ le answers, waiting.mono le, memories'⟩
  | fork flow entries rest => exact .waiting flow ⟨.fork flow entries rest, waiting, memories⟩
  | await flow futures rest => exact .waiting flow ⟨.await flow futures rest, waiting, memories⟩
  | memo memo node _ _ _ => exact absurd node (single _ _ memo)
  | copy copying _ _ => exact absurd copying (level _ _ rfl)

end Likeness
end LayeredIR
