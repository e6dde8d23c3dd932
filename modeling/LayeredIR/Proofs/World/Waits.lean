import LayeredIR.Proofs.Graph
import LayeredIR.Proofs.Lookups
import LayeredIR.Proofs.World.Forks
import LayeredIR.Proofs.World.Serial

/-! Documents that join each task where they fork it. Until that task is done, the one that forked
it does nothing but come to wait for it. -/
namespace LayeredIR

/-- Each fork goes on at a block that only joins the task of that fork. -/
def FlowDocument.JoinsAtOnce (doc : FlowDocument) : Prop :=
  ∀ block ∈ doc.blocks, ∀ body continuation future,
    block.terminator = .fork body continuation future →
    ∀ rest ∈ doc.blocks, rest.id = continuation →
      rest.instructions = [] ∧ ∃ target label, rest.terminator = .join future target label

section Documents

variable {σ : Type} {doc : FlowDocument} {graph : FlowGraph}

def Setting.JoinsAtOnce (s : Setting σ) : Prop :=
  ∀ block ∈ s.blocks, ∀ body continuation future,
    block.terminator = .fork body continuation future →
    ∀ rest, s.block? continuation = some rest →
      rest.instructions = [] ∧ ∃ target label, rest.terminator = .join future target label ∧
        (s.block? label).isSome

theorem FlowDocument.JoinsAtOnce.setting (joins : doc.JoinsAtOnce) (ok : doc.graph = .ok graph)
    (s : Setting σ) : (doc.setting s graph).JoinsAtOnce := by
  obtain ⟨formed, -, blocks⟩ := graph_eq_ok_iff.mp ok
  have same : (doc.setting s graph).blocks = doc.blocks := blocks
  intro block member body continuation future forks rest found
  rw [same] at member
  have among : rest ∈ doc.blocks := same ▸ Setting.block_mem found
  have named : rest.id = continuation := by simpa using List.find?_some found
  obtain ⟨empty, target, label, ends⟩ :=
    joins block member body continuation future forks rest among named
  refine ⟨empty, target, label, ends, ?_⟩
  have listed := formed.leads rest among label (by simp [ends, Terminator.successors])
  obtain ⟨there, member, rfl⟩ := List.mem_map.mp listed
  rw [Setting.block?, same, List.find?_isSome]
  exact ⟨there, member, by simp⟩

end Documents

/-- What is defined in a scope is found in it. -/
theorem Heap.lookup_define_self {heap : Heap} {id : ScopeId} (within : id < heap.size)
    (name : String) (binding : Binding) :
    (heap.define id name binding).lookup id name = some binding.value := by
  obtain ⟨scope, found⟩ : ∃ scope, heap.get? id = some scope :=
    ⟨heap.scopes[id], Array.getElem?_eq_getElem within⟩
  have held : (heap.define id name binding).get? id =
      some { scope with bindings := scope.bindings.set name binding } := by
    rw [heap.get?_define, if_pos rfl, found]
    rfl
  simp only [lookup, find?, findWithin, held, Bindings.find?_set, if_true, Option.map_some]

section Waiting

variable {σ : Type} (s : Setting σ)

/-- A task has its registers in every state that it comes to. -/
theorem Setting.Reaches.hasRegisters {s : Setting σ} (layer : s.layer = .lir) {task : Task}
    (reaches : s.Reaches task) : registerScope < task.memory.heap.size := by
  induction reaches with
  | result other => exact absurd layer other
  | block _ => exact Nat.lt_succ_self 1
  | step _ stepped ih => exact Nat.lt_of_lt_of_le ih (Task.step_follows stepped).heap
  | answered _ _ ih | refused _ ih | forked _ ih => exact ih

/-- The way of a task on its own, whatever else goes on, in so many steps. It calls no handler. -/
inductive Task.Silently : Task → Task → Nat → Prop
  | here {task} : Silently task task 0
  | step {task task' task'' n} (quiet : task.called? s = none)
    (stepped : ∀ shared, task.step s shared = .running shared task')
    (rest : Silently task' task'' n) : Silently task task'' (n + 1)

def Task.Awaits (id : Identity) (task : Task) : Prop :=
  ∃ next frames memory n, task.Silently s ⟨.await id next, frames, memory⟩ n

def Plan.afterJoin (target : Option String) (label : String) : Outcome → Plan Next
  | .ok value => do
    Plan.writeTarget target value
    return .job (.block label)
  | .error e => Plan.raise (.raised e)

variable {s} {continuation future label : String} {target : Option String} {block : Block}

/-- The plan of a block that only joins. -/
theorem Setting.block_join (found : s.block? continuation = some block)
    (empty : block.instructions = []) (ends : block.terminator = .join future target label)
    (there : (s.block? label).isSome) :
    s.block continuation = .ask (.lookup registerScope future) fun
      | some (.future id) => .await id (Plan.afterJoin target label)
      | some (.error e) => Plan.raise (.raised e)
      | some other => Plan.raise (.typeMismatch "future" other.kind)
      | none => Plan.raise (.unboundName future) := by
  obtain ⟨next, resolved⟩ := Option.isSome_iff_exists.mp there
  have goes : s.target label = .done (.block label) := by
    rw [Setting.target, resolved]
    rfl
  simp only [Setting.block, found, empty, ends, Setting.instructions, Setting.terminator, goes]
  refine congrArg (Plan.ask (.lookup registerScope future)) (funext fun v => ?_)
  cases v with
  | none => rfl
  | some v =>
    cases v with
    | future id =>
      refine congrArg (Plan.await id) (funext fun outcome => ?_)
      cases outcome <;> rfl
    | _ => rfl

def Memory.keepFuture (memory : Memory) (future : String) (id : Identity) : Memory :=
  { memory with heap := memory.heap.define registerScope future ⟨.future id, .mutable⟩ }

variable {body : String} {next : Option Identity → Plan Next} {memory : Memory}

/-- After a fork that is joined at once there are three steps to the wait. -/
theorem Setting.IsFork.silently (forks : s.IsFork body next) (joins : s.JoinsAtOnce)
    (registers : registerScope < memory.heap.size) (id : Identity) (frames : List Frame) :
    ∃ future target label, Task.Silently s ⟨next (some id), frames, memory⟩
      ⟨.await id (Plan.afterJoin target label), frames, memory.keepFuture future id⟩ 3 := by
  obtain ⟨block, member, continuation, future, forked, there, rfl⟩ := forks
  obtain ⟨rest, found⟩ := Option.isSome_iff_exists.mp there
  obtain ⟨empty, target, label, ends, resolved⟩ :=
    joins block member body continuation future forked rest found
  have kept := Heap.lookup_define_self registers future ⟨.future id, .mutable⟩
  refine ⟨future, target, label, .step rfl (fun _ => rfl) (.step rfl (fun _ => rfl) ?_)⟩
  refine .step ?_ (fun shared => ?_) .here
  · rw [Setting.plan, Setting.block_join found empty ends resolved]
    rfl
  · rw [Setting.plan, Setting.block_join found empty ends resolved]
    simp only [Task.step, Setting.serve, kept]
    rfl

end Waiting
end LayeredIR
