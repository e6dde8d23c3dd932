import LayeredIR.Proofs.Bodies
import LayeredIR.Proofs.Charter.Forms
import LayeredIR.Proofs.Discipline.Tasks

/-! Tasks that uphold a charter. A memory that holds permitted values only answers the queries of a
plan that upholds the charter as the plan expects, and a task that waits for such plans goes on to
uphold it with every step, as long as what it declares may be declared where it stands. Steps are
followed from any point of a task on; what waits below that point is left alone until the run comes
back to it. -/
namespace LayeredIR

def Task.begun? (task : Task) : Option Job :=
  match task.control with
  | .done (.job job) | .eval job _ => some job
  | .call _ job _ => if task.memory.stack.isFull then none else some job
  | _ => none

namespace Charter

variable {σ : Type} {s : Setting σ} (C : Charter s)

inductive Change (heap : Heap) : Heap → Prop
  | same : Change heap heap
  | child (a) : Change heap (heap.child a).2
  | enter (captured) :
    Change heap ((heap.captured captured).2.child (heap.captured captured).1).2
  | define {a name} (v) {mutability}
    (binds : C.base ≤ a ∨ mutability = .mutable ∧ C.declared a name) :
    Change heap (heap.define a name ⟨v, mutability⟩)
  | assign (a name v) (mutation : s.layer.hasMutation) : Change heap (heap.assign a name v).2

structure Keeps (memory : Memory) : Prop where
  grown : C.base ≤ memory.heap.size
  holds : memory.Holds C.value

variable {C}

theorem Results.ok {v : Value} (held : C.value v) : C.Results Fault.cause (.ok v) := by
  refine ⟨fun _ same => ?_, nofun⟩
  cases same
  exact held

theorem Results.error {fault : Fault} (allowed : C.cause fault.cause) :
    C.Results Fault.cause (.error fault) := by
  refine ⟨nofun, fun _ same => ?_⟩
  cases same
  exact allowed

namespace Keeps

variable {memory : Memory} (keeps : C.Keeps memory)
include keeps

theorem add {bindings : Bindings} (held : bindings.All C.value) (parent : Option ScopeId) :
    C.Keeps { memory with heap := (memory.heap.add bindings parent).2 } where
  grown := Nat.le_trans keeps.grown (Nat.le_of_lt (Heap.size_lt_add _ _ _))
  holds := ⟨keeps.holds.heap.add held parent, keeps.holds.kept⟩

theorem captured {c : Captured} (held : c.All C.value) :
    C.Keeps { memory with heap := (memory.heap.captured c).2 } := by
  cases c with
  | shared a => exact keeps
  | frozen entries => exact keeps.add (.ofValues .immutable held) none

/-- A memory answers the queries of a plan as the plan expects, and goes on to be kept. -/
theorem serve (laws : C.Laws) {shared : Shared σ} (shares : C.Shares shared.futures shared.host)
    {q : Query} (queries : C.Queries q) (hears : C.Hears shared q) :
    C.Answers q (s.serve q shared memory).1 ∧
      C.Shares (s.serve q shared memory).2.1.futures (s.serve q shared memory).2.1.host ∧
      C.Keeps (s.serve q shared memory).2.2 ∧
      C.Change memory.heap (s.serve q shared memory).2.2.heap := by
  obtain ⟨grown, holds⟩ := keeps
  cases q with
  | lookup a name => exact ⟨fun v found => holds.heap.lookup found, shares, ⟨grown, holds⟩, .same⟩
  | define a name v mutability =>
    have same := (memory.heap.size_define a name ⟨v, mutability⟩).symm
    exact ⟨trivial, shares, ⟨same ▸ grown, holds.heap.define a name queries.1, holds.kept⟩,
      .define v queries.2⟩
  | assign a name v =>
    have same := (memory.heap.size_assign a name v).symm
    exact ⟨trivial, shares, ⟨same ▸ grown, holds.heap.assign a name queries.1, holds.kept⟩,
      .assign a name v queries.2⟩
  | child a => exact ⟨grown, shares, Keeps.add ⟨grown, holds⟩ .nil _, .child a⟩
  | enter captured =>
    have copied := Keeps.captured ⟨grown, holds⟩ queries
    exact ⟨copied.grown, shares, copied.add .nil _, .enter captured⟩
  | flatten a => exact ⟨holds.heap.flatten a, shares, ⟨grown, holds⟩, .same⟩
  | fresh => exact ⟨trivial, shares, ⟨grown, holds.heap, holds.kept⟩, .same⟩
  | isActive key => exact ⟨trivial, shares, ⟨grown, holds⟩, .same⟩
  | innermost => exact ⟨trivial, shares, ⟨grown, holds⟩, .same⟩
  | recollect id =>
    refine ⟨fun v found => ?_, shares, ⟨grown, holds⟩, .same⟩
    obtain ⟨before, after, split, -⟩ := List.lookup_eq_some_iff.mp found
    exact holds.kept (id, v) (by simp [split])
  | remember id v =>
    have kept : ∀ entry ∈ (id, v) :: memory.kept, C.value entry.2 :=
      List.forall_mem_cons.mpr ⟨queries, holds.kept⟩
    exact ⟨trivial, shares, ⟨grown, holds.heap, kept⟩, .same⟩
  | compute op args =>
    refine ⟨⟨fun v => laws.compute queries, fun cause failed => laws.cause_own ?_⟩, shares,
      ⟨grown, holds⟩, .same⟩
    exact ((op.compute_operational args).of_error failed).ne_flow
  | dispatch d op args =>
    exact ⟨hears queries.1 queries.2, shares, ⟨grown, holds⟩, .same⟩
  | perform effect args =>
    unfold Setting.serve
    dsimp only
    cases found : s.handler? effect with
    | none =>
      refine ⟨⟨nofun, fun fault failed => ?_⟩, shares, ⟨grown, holds⟩, .same⟩
      cases failed
      exact laws.cause_own nofun
    | some handler =>
      have answer := hears handler found queries
      exact ⟨answer.1, ⟨shares.settled, answer.2⟩, ⟨grown, holds⟩, .same⟩

theorem enter (site : CallSite) : C.Keeps (memory.enter site) :=
  ⟨keeps.grown, keeps.holds.enter site⟩

theorem leave (isDefinition : Bool) : C.Keeps (memory.leave isDefinition) :=
  ⟨keeps.grown, keeps.holds.leave isDefinition⟩

end Keeps

variable (C)

inductive Waits (bottom : List Frame) : List Frame → Prop
  | bottom : Waits bottom bottom
  | resume {next frames} (rest : ∀ v, C.value v → (next v).Upholds C C.Nexts)
    (later : Waits bottom frames) : Waits bottom (.resume next :: frames)
  | leave {isDefinition frames} (later : Waits bottom frames) :
    Waits bottom (.leave isDefinition :: frames)

structure Runs (bottom : List Frame) (task : Task) : Prop where
  control : task.control.Upholds C C.Nexts
  frames : C.Waits bottom task.frames
  memory : C.Keeps task.memory

inductive Steps (bottom : List Frame) (shared : Shared σ) (task : Task) : Prop
  | finished {outcome} (surfaced : task.frames = bottom)
    (ending : task.control = Plan.ending outcome) (results : C.Results Fault.cause outcome)
  | running {shared' task'} (stepped : task.step s shared = .running shared' task')
    (shares : C.Shares shared'.futures shared'.host) (runs : C.Runs bottom task')
    (change : C.Change task.memory.heap task'.memory.heap)
  | waiting (stepped : task.step s shared = .waiting shared task)

variable {C}

section Steps

variable {bottom : List Frame} {shared : Shared σ}
  (shares : C.Shares shared.futures shared.host)
include shares

theorem deliver_steps {v : Value} {frames : List Frame} {memory : Memory} (held : C.value v)
    (waits : C.Waits bottom frames) (keeps : C.Keeps memory) :
    C.Steps bottom shared ⟨.done (.value v), frames, memory⟩ := by
  cases waits with
  | bottom => exact .finished rfl rfl (.ok held)
  | resume rest later => exact .running rfl shares ⟨rest v held, later, keeps⟩ .same
  | leave later => exact .running rfl shares ⟨.done (.value held), later, keeps.leave _⟩ .same

theorem unwind_steps {fault : Fault} {frames : List Frame} {memory : Memory}
    (allowed : C.cause fault.cause) (waits : C.Waits bottom frames) (keeps : C.Keeps memory) :
    C.Steps bottom shared ⟨.fail fault, frames, memory⟩ := by
  cases waits with
  | bottom => exact .finished rfl rfl (.error allowed)
  | resume rest later => exact .running rfl shares ⟨.fail allowed, later, keeps⟩ .same
  | leave later =>
    have attached : C.cause (memory.stack.attach fault).cause := by
      rw [CallStack.attach_cause]
      exact allowed
    exact .running rfl shares ⟨.fail attached, later, keeps.leave _⟩ .same

theorem Runs.step (laws : C.Laws) {task : Task} (runs : C.Runs bottom task)
    (admits : ∀ job, task.begun? = some job → C.Admits job) (heard : C.Heard shared task) :
    C.Steps bottom shared task := by
  obtain ⟨control, frames, memory⟩ := task
  obtain ⟨upholds, waits, keeps⟩ := runs
  simp only at upholds waits keeps
  cases upholds with
  | done wanted =>
    cases wanted with
    | value held => exact deliver_steps shares held waits keeps
    | job jobs =>
      exact .running rfl shares ⟨s.plan_upholds laws jobs (admits _ rfl), waits, keeps⟩ .same
  | fail allowed => exact unwind_steps shares allowed waits keeps
  | eval jobs rest =>
    exact .running rfl shares
      ⟨s.plan_upholds laws jobs (admits _ rfl), .resume (.resumed rest) waits, keeps⟩ .same
  | call jobs rest =>
    cases full : memory.stack.isFull with
    | true =>
      exact .running (Task.step_full full) shares ⟨.fail (laws.cause_own nofun), waits, keeps⟩ .same
    | false =>
      have begun := s.plan_upholds laws jobs (admits _ (by simp [Task.begun?, full]))
      exact .running (Task.step_free full) shares
        ⟨begun, .leave (.resume (.resumed rest) waits), keeps.enter _⟩ .same
  | ask queries rest =>
    obtain ⟨answers, after, served, change⟩ := keeps.serve laws shares queries (heard _ _ rfl)
    exact .running rfl after ⟨rest () _ answers, waits, served⟩ change
  | fork | await => exact .waiting rfl

end Steps

/-- The jobs that a task begins are permitted. -/
theorem Runs.begun {bottom : List Frame} {task : Task} (runs : C.Runs bottom task) {job : Job}
    (begun : task.begun? = some job) : C.Jobs job := by
  obtain ⟨control, frames, memory⟩ := task
  have upholds := runs.control
  cases upholds with
  | done wanted =>
    cases wanted with
    | value _ => cases begun
    | job jobs =>
      cases begun
      exact jobs
  | eval jobs _ =>
    cases begun
    exact jobs
  | call jobs _ =>
    simp only [Task.begun?, Option.ite_none_left_eq_some, Option.some.injEq] at begun
    exact begun.2 ▸ jobs
  | _ => cases begun

theorem Steps.ended {shared : Shared σ} {task : Task} {outcome : Except Fault Value}
    (surfaced : task.frames = []) (ending : task.control = Plan.ending outcome) :
    task.step s shared = .ended outcome shared task.memory := by
  obtain ⟨control, frames, memory⟩ := task
  subst surfaced ending
  cases outcome <;> rfl

variable (C) in
inductive Reached : Progress σ → Prop
  | running {shared task} (shares : C.Shares shared.futures shared.host) (runs : C.Runs [] task) :
    Reached (.running shared task)
  | ended {outcome shared memory} (results : C.Results Fault.cause outcome)
    (shares : C.Shares shared.futures shared.host) (keeps : C.Keeps memory) :
    Reached (.ended outcome shared memory)
  | waiting {shared task} (shares : C.Shares shared.futures shared.host)
    (runs : C.Runs [] task) : Reached (.waiting shared task)

section Runs

variable (laws : C.Laws) (admits : ∀ job, C.Admits job)
include laws admits

theorem Runs.reached {shared : Shared σ} (shares : C.Shares shared.futures shared.host)
    {task : Task} (runs : C.Runs [] task) (heard : C.Heard shared task) :
    C.Reached (task.step s shared) := by
  cases runs.step shares laws (fun job _ => admits job) heard with
  | finished surfaced ending results =>
    rw [Steps.ended surfaced ending]
    exact .ended results shares runs.memory
  | running stepped shares' runs' => exact stepped ▸ .running shares' runs'
  | waiting stepped => exact stepped ▸ .waiting shares runs

/-- A task alone upholds a charter for as many steps as the host is heard in. -/
theorem Runs.after {shared : Shared σ} (shares : C.Shares shared.futures shared.host) {task : Task}
    (runs : C.Runs [] task) (n : Nat)
    (heard : ∀ m shared' task', m < n →
      task.after s (fun _ shared => shared) m shared = .running shared' task' →
      C.Heard shared' task') :
    C.Reached (task.after s (fun _ shared => shared) n shared) := by
  induction n generalizing shared task with
  | zero => exact .running shares runs
  | succ n ih =>
    have reached := runs.reached laws admits shares (heard 0 _ _ (Nat.succ_pos n) rfl)
    have later := fun m => heard (m + 1)
    simp only [Task.after] at later ⊢
    generalize task.step s shared = progress at reached later
    cases reached with
    | running shares' runs' =>
      exact ih shares' runs' fun m _ _ le => later m _ _ (Nat.succ_lt_succ le)
    | ended results shares' keeps => exact .ended results shares' keeps
    | waiting shares' runs' => exact .waiting shares' runs'

end Runs

theorem Shares.empty {host : σ} (safe : C.host host) : C.Shares .empty host :=
  ⟨fun _ _ => nofun, safe⟩

/-- The task that a document without blocks opens with. -/
theorem runs_start (base : C.base ≤ 1) (scope : C.scope rootScope) (owner : Identity)
    (maxCallDepth : Nat) (arg : Arg) :
    C.Runs [] (.start (.operand arg rootScope) (.initial owner maxCallDepth)) where
  control := .done (.job (.operand scope))
  frames := .bottom
  memory := ⟨base, .initial owner maxCallDepth⟩

/-- A task that begins at a block. -/
theorem runs_atBlock (base : C.base ≤ 2) {label : String} (known : C.label label) (who : Identity)
    {registers : Bindings} (held : registers.All C.value) :
    C.Runs [] (.atBlock s who label registers) where
  control := .done (.job (.block known))
  frames := .bottom
  memory := ⟨base, .withRegisters who s.config.maxCallDepth held⟩

end Charter
end LayeredIR
