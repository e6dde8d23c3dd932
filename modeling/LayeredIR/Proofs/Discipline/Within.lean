import LayeredIR.Proofs.Discipline.Tasks

/-! A part of a plan, as a task runs it. What goes on after the part is left alone until the part
has come to a value or failed, and meanwhile the heap changes only as the discipline of the part
says. -/
namespace LayeredIR
namespace Discipline

variable {σ : Type} {s : Setting σ} (D : Discipline s) (P : Heap → Prop)

inductive Within (rest : Value → Plan Next) (frames : List Frame) : Task → Prop
  | top {w c part memory} (heeds : part.Heeds D c D.value w) (stands : D.Stands w c memory)
    (holds : P memory.heap) : Within rest frames ⟨part >>= rest, frames, memory⟩
  | below {w c c' task} (left : Value → Plan Value)
    (later : ∀ w' v, w <+: w' → D.value w' v → (left v).Heeds D c D.value w')
    (runs : D.Runs (.resume (fun v => left v >>= rest) :: frames) c w c' task)
    (holds : P task.memory.heap) : Within rest frames task

inductive WithinStep (rest : Value → Plan Next) (frames : List Frame) (shared : Shared σ)
    (task : Task) : Prop
  | value {v} (control : task.control = rest v) (surfaced : task.frames = frames)
    (holds : P task.memory.heap)
  | fault {fault} (control : task.control = .fail fault) (surfaced : task.frames = frames)
    (holds : P task.memory.heap)
  | running {shared' task'} (stepped : task.step s shared = .running shared' task')
    (within : D.Within P rest frames task')

variable {D P} {rest : Value → Plan Next} {frames : List Frame} {shared : Shared σ}

theorem Within.holds {task : Task} (within : D.Within P rest frames task) :
    P task.memory.heap := by
  cases within with
  | top _ _ holds | below _ _ _ holds => exact holds

variable (laws : D.Laws) (noFlow : ¬ D.flow)
  (changed : ∀ w heap heap', heap.Shaped D.base w → P heap → D.Change w heap heap' → P heap')
  (shares : ∀ w, D.Shares w shared.futures shared.host)
include laws noFlow changed shares

theorem top_step {w : Shape} {c : List CallSite} {part : Plan Value} {memory : Memory}
    (heeds : part.Heeds D c D.value w) (stands : D.Stands w c memory) (holds : P memory.heap) :
    D.WithinStep P rest frames shared ⟨part >>= rest, frames, memory⟩ := by
  cases heeds with
  | done _ => exact .value rfl rfl holds
  | fail _ => exact .fault rfl rfl holds
  | eval jobs later =>
    exact .running rfl (.below _ (.resumed later) ⟨s.plan_heeds laws jobs, .bottom, stands⟩ holds)
  | @call _ site job next permitted later =>
    obtain ⟨⟨arg, code⟩, jobs⟩ := permitted
    cases full : memory.stack.isFull with
    | true =>
      have refused : Task.step s shared ⟨.call site job next >>= rest, frames, memory⟩ =
          .running shared ⟨.fail (.ofCause (.recursionLimitExceeded memory.stack.limit)) >>= rest,
            frames, memory⟩ := Task.step_full full
      exact .running refused (.top (.fail (laws.full stands.calls code full)) stands holds)
    | false =>
      exact .running (Task.step_free full) (.below next (.resumed later)
        ⟨s.plan_heeds laws jobs, .leave .bottom, stands.enter laws site full⟩ holds)
  | ask queries later =>
    obtain ⟨w', answers, -, served, change⟩ := stands.serve laws (shares w) queries
    exact .running rfl (.top (later w' _ answers) served
      (changed w _ _ stands.shape holds change))
  | fork permitted _ => exact absurd permitted.1 noFlow
  | await flow _ => exact absurd flow noFlow

theorem Within.step {task : Task} (within : D.Within P rest frames task) :
    D.WithinStep P rest frames shared task := by
  cases within with
  | top heeds stands holds => exact top_step laws noFlow changed shares heeds stands holds
  | @below w c c' _ left later runs holds =>
    cases runs.step (shares w) laws with
    | finished surfaced results stands =>
      obtain ⟨control, own, memory⟩ := task
      cases surfaced
      -- the job that the part waited for has ended; its result goes to what is left of the part
      cases results with
      | value held =>
        exact .running rfl (.top (later w _ (List.prefix_refl w) held) stands holds)
      | fault allowed =>
        have failed : (Plan.fail _ : Plan Value).Heeds D c D.value w := .fail allowed
        exact .running rfl (.top failed stands holds)
    | running stepped le _ runs' change =>
      exact .running stepped (.below left (fun w'' v le' => later w'' v (le.trans le')) runs'
        (changed w _ _ runs.memory.shape holds change))
    | waiting flow _ => exact absurd flow noFlow

end Discipline
end LayeredIR
