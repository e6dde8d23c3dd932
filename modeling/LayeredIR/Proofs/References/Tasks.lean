import LayeredIR.Proofs.Instructions
import LayeredIR.Proofs.References.Memories

/-! Tasks that run respelled code. For each step of the one the other takes a step, and a quiet one
more where it looks at an operand that has become a reference. So they end alike, having performed
the same effects on like values. -/
namespace LayeredIR

section Relations

variable (nodes : Nodes) (layer : Layer)

inductive Frame.Respelled : List Frame → List Frame → Prop
  | nil : Respelled [] []
  | resume {next next' rest rest'}
    (further : ∀ v v', Value.Respelled nodes layer v v' →
      (next v).Respelled nodes layer (Next.Respelled nodes layer) (next' v'))
    (frames : Respelled rest rest') : Respelled (.resume next :: rest) (.resume next' :: rest')
  | leave {isDefinition rest rest'} (frames : Respelled rest rest') :
    Respelled (.leave isDefinition :: rest) (.leave isDefinition :: rest')

structure Task.Respelled (task task' : Task) : Prop where
  control : task.control.Respelled nodes layer (Next.Respelled nodes layer) task'.control
  frames : Frame.Respelled nodes layer task.frames task'.frames
  memory : task.memory.Recoded (Arg.Respelled nodes layer) task'.memory

def Effect.Respelled (call call' : String × List Value) : Prop :=
  call.1 = call'.1 ∧ List.Forall₂ (Value.Respelled nodes layer) call.2 call'.2

variable {σ : Type} (hosts : σ → σ → Prop)

structure Task.EndsAlike (final final' : Except Fault Value × Shared σ × Memory) : Prop where
  outcome : ResultsAlike Eq (Value.Respelled nodes layer) final.1 final'.1
  shared : final.2.1.Respelled hosts final'.2.1
  memory : final.2.2.Recoded (Arg.Respelled nodes layer) final'.2.2

/-- What two tasks have come to after a step each, the second being some quiet steps behind. -/
inductive Progress.Respelled (s' : Setting σ) : Progress σ → Progress σ → Prop
  | running {shared task shared' task' later'} (settles : Task.Settles s' task' later')
    (shares : shared.Respelled hosts shared') (tasks : task.Respelled nodes layer later') :
    Respelled s' (.running shared task) (.running shared' task')
  | ended {outcome outcome' shared shared' memory memory'}
    (alike : Task.EndsAlike nodes layer hosts (outcome, shared, memory)
      (outcome', shared', memory')) :
    Respelled s' (.ended outcome shared memory) (.ended outcome' shared' memory')

end Relations

section Steps

variable {σ : Type} {hosts : σ → σ → Prop} {s s' : Setting σ} {nodes : Nodes} {layer : Layer}
  {definitions : Definitions} {shared shared' : Shared σ} {memory memory' : Memory}
  {frames frames' : List Frame}

theorem Memory.Recoded.enter {code : Arg → Arg → Prop} (memories : memory.Recoded code memory')
    (site : CallSite) : (memory.enter site).Recoded code (memory'.enter site) := by
  obtain ⟨owner, heap, serial, stack, active, kept⟩ := memories
  exact ⟨owner, heap, serial, by simp only [Memory.enter, stack],
    by simp only [Memory.enter, active], kept⟩

theorem Memory.Recoded.leave {code : Arg → Arg → Prop} (memories : memory.Recoded code memory')
    (isDefinition : Bool) :
    (memory.leave isDefinition).Recoded code (memory'.leave isDefinition) := by
  obtain ⟨owner, heap, serial, stack, active, kept⟩ := memories
  exact ⟨owner, heap, serial, by simp only [Memory.leave, stack],
    by simp only [Memory.leave, active], kept⟩

theorem Plan.Reaches.progress {p p' : Plan Next} (reaches : Plan.Reaches s' nodes layer p p')
    (shares : shared.Respelled hosts shared')
    (waiting : Frame.Respelled nodes layer frames frames')
    (memories : memory.Recoded (Arg.Respelled nodes layer) memory') :
    Progress.Respelled nodes layer hosts s' (.running shared ⟨p, frames, memory⟩)
      (.running shared' ⟨p', frames', memory'⟩) := by
  cases reaches with
  | here plans => exact .running (.refl _) shares ⟨plans, waiting, memories⟩
  | onward looked plans =>
    subst looked
    exact .running (.step ⟨fun _ => rfl, rfl⟩ (.refl _)) shares ⟨plans, waiting, memories⟩

theorem Task.deliver_respelled {v v' : Value} (values : v.Respelled nodes layer v')
    (shares : shared.Respelled hosts shared')
    (waiting : Frame.Respelled nodes layer frames frames')
    (memories : memory.Recoded (Arg.Respelled nodes layer) memory') :
    Progress.Respelled nodes layer hosts s' (deliver v frames shared memory)
      (deliver v' frames' shared' memory') := by
  cases waiting with
  | nil => exact .ended ⟨values, shares, memories⟩
  | resume further rest => exact .running (.refl _) shares ⟨further v v' values, rest, memories⟩
  | leave rest =>
    exact .running (.refl _) shares ⟨.done (.value values), rest, memories.leave _⟩

theorem Task.unwind_respelled (fault : Fault) (shares : shared.Respelled hosts shared')
    (waiting : Frame.Respelled nodes layer frames frames')
    (memories : memory.Recoded (Arg.Respelled nodes layer) memory') :
    Progress.Respelled nodes layer hosts s' (unwind fault frames shared memory)
      (unwind fault frames' shared' memory') := by
  cases waiting with
  | nil => exact .ended ⟨rfl, shares, memories⟩
  | resume _ rest => exact .running (.refl _) shares ⟨.fail _, rest, memories⟩
  | leave rest =>
    simp only [unwind, memories.stack]
    exact .running (.refl _) shares ⟨.fail _, rest, memories.leave _⟩

variable (same : s.Respelled nodes definitions)
  (handlers : ∀ name handler, s.handler? name = some handler →
    handler.Respects (Value.Respelled s.nodes s.layer) hosts)
include same handlers

/-- One step of a task, and what the other task does for it. -/
theorem Task.step_respelled {task task' : Task} (shares : shared.Respelled hosts shared')
    (tasks : task.Respelled s.nodes s.layer task') :
    Progress.Respelled s.nodes s.layer hosts (s.withCode nodes definitions) (task.step s shared)
      (task'.step (s.withCode nodes definitions) shared') := by
  obtain ⟨control, frames, memory⟩ := task
  obtain ⟨control', frames', memory'⟩ := task'
  obtain ⟨plans, waiting, memories⟩ := tasks
  cases plans with
  | done related =>
    cases related with
    | value values => exact deliver_respelled values shares waiting memories
    | job jobs => exact (Setting.plan_respelled same jobs).progress shares waiting memories
  | fail fault => exact unwind_respelled fault shares waiting memories
  | eval jobs rest =>
    exact (Setting.plan_respelled same jobs).progress shares (.resume rest waiting) memories
  | @call site _ _ _ _ jobs rest =>
    have stack : memory.stack = memory'.stack := memories.stack
    simp only [step, ← stack]
    split
    · exact .running (.refl _) shares ⟨.fail _, waiting, memories⟩
    · exact (Setting.plan_respelled same jobs).progress shares (.leave (.resume rest waiting))
        (memories.enter site)
  | ask queries rest =>
    obtain ⟨answer, shares, memories⟩ :=
      Setting.serve_respelled handlers shares memories queries
    exact .running (.refl _) shares ⟨rest _ _ answer, waiting, memories⟩
  | @enter c c' _ _ captures rest =>
    have served : s.Served hosts Eq (s.serve (.enter c) shared memory)
        ((s.withCode nodes definitions).serve (.enter c') shared' memory') :=
      Setting.serve_enter_respelled shares memories captures
    obtain ⟨scope, shares, memories⟩ := served
    exact .running (.refl _) shares ⟨rest _ _ scope, waiting, memories⟩

omit same handlers in
theorem Task.Respelled.effect?_respelled {task task' : Task}
    (tasks : task.Respelled nodes layer task') :
    List.Forall₂ (Effect.Respelled nodes layer) task.effect?.toList task'.effect?.toList := by
  obtain ⟨control, frames, memory⟩ := task
  obtain ⟨control', frames', memory'⟩ := task'
  cases tasks.control with
  | ask queries _ =>
    cases queries with
    | perform _ operands => exact .cons ⟨rfl, operands⟩ .nil
    | _ => exact .nil
  | _ => exact .nil

/-- A run of respelled code takes some more steps and ends alike, or does not end either. At every
time the two have performed the same effects. -/
theorem Task.run_respelled (fuel : Nat) {task task' : Task}
    (shares : shared.Respelled hosts shared') (tasks : task.Respelled s.nodes s.layer task') :
    ∃ fuel' ≥ fuel,
      Option.Rel (Task.EndsAlike s.nodes s.layer hosts) (Task.run s fuel shared task)
        (Task.run (s.withCode nodes definitions) fuel' shared' task') ∧
      List.Forall₂ (Effect.Respelled s.nodes s.layer) (task.performedAlone s fuel shared)
        (task'.performedAlone (s.withCode nodes definitions) fuel' shared') := by
  induction fuel generalizing shared shared' task task' with
  | zero => exact ⟨0, le_rfl, .none, .nil⟩
  | succ fuel ih =>
    have stepped := step_respelled same handlers shares tasks
    have effects := tasks.effect?_respelled
    generalize advance : task.step s shared = progress at stepped
    generalize advance' : task'.step (s.withCode nodes definitions) shared' = progress' at stepped
    cases stepped with
    | @running shared₁ task₁ shared₁' task₁' later' settles shares tasks =>
      obtain ⟨fuel', more, ended, performs⟩ := ih shares tasks
      obtain ⟨n, quietly⟩ := settles.run
      obtain ⟨run, silent⟩ := quietly fuel' shared₁'
      -- the quiet steps that the second task is behind come on top of the step
      refine ⟨fuel' + n + 1, by omega, ?_, ?_⟩
      · simpa only [Task.run, advance, advance', run] using ended
      · simp only [performedAlone, performed, advance, advance'] at silent performs ⊢
        rw [silent]
        exact List.rel_append effects performs
    | ended alike =>
      refine ⟨fuel + 1, le_rfl, ?_, ?_⟩
      · simpa only [Task.run, advance, advance'] using Option.Rel.some alike
      · simpa only [performedAlone, performed, advance, advance'] using effects

end Steps
end LayeredIR
