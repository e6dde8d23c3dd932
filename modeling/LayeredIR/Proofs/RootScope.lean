import LayeredIR.Evaluate
import LayeredIR.Proofs.Likeness.Tasks
import LayeredIR.Proofs.Value.Alike
import LayeredIR.Proofs.World.Moves

/-! What the root scope binds. Only a declaration that is evaluated in the root scope itself binds a
name there, so in all layers but one nothing ever does. -/
namespace LayeredIR

def Memory.RootEmpty (memory : Memory) : Prop :=
  memory.heap.get? rootScope = some ⟨[], none⟩

namespace Setting

variable {σ : Type} (s : Setting σ)

inductive Reaches : Task → Prop
  | result {arg maxCallDepth} (layer : s.layer ≠ .lir) :
    Reaches (.start (.operand arg rootScope) (.initial entryTask maxCallDepth))
  | block {who label registers} (layer : s.layer = .lir) :
    Reaches (.atBlock s who label registers)
  | step {task shared shared' task'} (before : Reaches task)
    (stepped : task.step s shared = .running shared' task') : Reaches task'
  | answered {id next frames memory} (before : Reaches ⟨.await id next, frames, memory⟩)
    (outcome : Outcome) : Reaches ⟨next outcome, frames, memory⟩
  | refused {label registers next frames memory}
    (before : Reaches ⟨.fork label registers next, frames, memory⟩) :
    Reaches ⟨next none, frames, memory⟩
  | forked {label registers next frames memory}
    (before : Reaches ⟨.fork label registers next, frames, memory⟩) :
    Reaches ⟨next (some memory.freshIdentity.1), frames, memory.freshIdentity.2⟩

def Rooted (memory : Memory) : Prop :=
  ∃ bindings, memory.heap.get? rootScope = some ⟨bindings, none⟩ ∧ (s.layer ≠ .eir → bindings = [])

end Setting

/-- A run compared with itself. Names are bound in scopes other than the root scope, except in the
layer in which statements are evaluated there. -/
def Likeness.rooted (layer : Layer) : Likeness Unit where
  toResemblance := .same Unit
  captured _ := Eq
  identity _ := Eq
  mutability := Eq
  scope _ a b := a = b ∧ (layer = .lir → a ≠ rootScope)
  outer _ := Eq
  writable _ a b := a = b ∧ (layer ≠ .eir → a ≠ rootScope)
  inside w := w
  fault _ := Eq
  place _ := Eq
  operator _ := True
  operation _ := True
  allowed _ := True
  reads _ := True
  domain _ := True
  applicable := True
  flow := layer = .lir
  mutation := layer.hasMutation
  effects := True
  snapshots := True
  memo := False
  copying := False
  node _ _ := True
  value_mono _ same := same
  captured_mono _ same := same
  scope_mono _ same := same
  inside_mono le := le
  scope_root _ same := by rw [same.1]
  writable_of_scope := by
    intro _ a _ mutation parts
    obtain ⟨rfl, inner⟩ := parts
    refine ⟨rfl, fun other => inner ?_⟩
    cases layer with
    | lir => rfl
    | eir => exact absurd rfl other
    | air | cir => cases mutation
  outer_root _ := rfl
  outer_of_scope same := same.1
  mutability_self _ := rfl
  allowed_operand _ _ := trivial
  allowed_call {ns name _} _ := .all ns name
  allowed_var _ := trivial
  fault_self _ _ := rfl
  fault_place same _ _ := by rw [same]
  value_closure := by
    intro _ _ _ _ _ _ _ _ equal equal' _
    cases equal
    cases equal'
    rfl
  closure_parts := by
    intro _ c _ _ same
    cases same
    exact ⟨rfl, rfl, rfl, rfl, rfl, trivial⟩

namespace Setting.Rooted

variable {σ : Type} {s : Setting σ} {memory : Memory} (rooted : s.Rooted memory)
include rooted

theorem size : rootScope < memory.heap.size := by
  obtain ⟨_, found, -⟩ := rooted
  exact Heap.lt_size_of_get? found

theorem add (bindings : Bindings) (parent : Option ScopeId) :
    s.Rooted { memory with heap := (memory.heap.add bindings parent).2 } := by
  have old := Nat.ne_of_lt rooted.size
  obtain ⟨held, found, empty⟩ := rooted
  refine ⟨held, ?_, empty⟩
  rw [Heap.get?_add, if_neg old, found]

theorem define {place : ScopeId} (allowed : s.layer ≠ .eir → place ≠ rootScope) (name : String)
    (binding : Binding) :
    s.Rooted { memory with heap := memory.heap.define place name binding } := by
  obtain ⟨held, found, empty⟩ := rooted
  by_cases here : place = rootScope
  · refine ⟨held.set name binding, ?_, fun other => absurd here (allowed other)⟩
    rw [Heap.get?_define, if_pos here, found]
    rfl
  · refine ⟨held, ?_, empty⟩
    rw [Heap.get?_define, if_neg here, found]

theorem assign (id : ScopeId) (name : String) (v : Value) :
    s.Rooted { memory with heap := (memory.heap.assign id name v).2 } := by
  have unchanged : s.Rooted { memory with heap := memory.heap } := rooted
  cases found : memory.heap.find? id name with
  | none => simpa only [Heap.assign, found] using unchanged
  | some held =>
    obtain ⟨place, u, mutability⟩ := held
    have allowed (other : s.layer ≠ .eir) : place ≠ rootScope := by
      intro equal
      cases equal
      obtain ⟨scope, here, bound⟩ := Heap.find?_eq_some found
      obtain ⟨held, root, empty⟩ := rooted
      cases root.symm.trans here
      rw [empty other] at bound
      cases bound
    cases mutability with
    | immutable => simpa only [Heap.assign, found] using unchanged
    | mutable => simpa only [Heap.assign, found] using rooted.define allowed name ⟨v, .mutable⟩

end Setting.Rooted

section Reaching

variable {σ : Type} (s : Setting σ)

theorem rel_self {α : Type} (a : Option α) : Option.Rel Eq a a := by
  cases a with
  | none => exact .none
  | some a => exact .some rfl

theorem Likeness.rooted_settings {layer : Layer}
    (mutation : s.layer.hasMutation → layer.hasMutation) (flow : layer = .lir → s.layer = .lir) :
    (Likeness.rooted layer).Settings s s := by
  have code : (Likeness.rooted layer).Allows s :=
    .of_callsOnly (fun _ _ => trivial) (fun _ _ _ => trivial) (fun _ => trivial)
      (.of_forall Permitted.all)
  refine .self (fun memo => memo) (fun copying => copying) (fun _ => trivial)
    (fun _ _ => rel_self _) code (fun _ _ _ => trivial) mutation (fun _ => trivial)
    (fun _ => trivial) (fun _ => trivial) flow
    (fun _ _ _ _ same => congrArg Captured.shared same.1) fun _ bindings bindings' entries => ?_
  have same := entries.values.imp fun entry entry' pair => Prod.ext pair.1 pair.2
  rw [List.forall₂_eq_eq_eq] at same
  exact congrArg Captured.frozen same

theorem Likeness.rooted_queries {layer : Layer} {w : Unit} {q q' : Query}
    (queries : (Likeness.rooted layer).Queries w q q') : q = q' := by
  have equal {vs vs' : List Value} (same : List.Forall₂ Eq vs vs') : vs = vs' := by
    rwa [List.forall₂_eq_eq_eq] at same
  cases queries with
  | lookup _ scope | flatten _ _ scope =>
    cases scope.1
    rfl
  | define writable mutabilities values =>
    cases writable.1
    cases mutabilities
    cases values
    rfl
  | assign _ scope values =>
    cases scope.1
    cases values
    rfl
  | child same | enter _ same =>
    cases same
    rfl
  | remember _ _ values =>
    cases values
    rfl
  | compute _ operands | dispatch _ _ operands | perform _ operands =>
    cases equal operands
    rfl
  | _ => rfl

def Likeness.rootedMemories : (Likeness.rooted s.layer).Memories s s where
  alike _ _ shared memory shared' memory' := shared = shared' ∧ memory = memory' ∧ s.Rooted memory
  later _ _ := True
  le_of_later _ := le_rfl
  later_self _ := trivial
  serve := by
    intro w n shared memory _ _ q q' parts queries
    obtain ⟨rfl, rfl, rooted⟩ := parts
    cases Likeness.rooted_queries queries
    refine ⟨w, trivial, ?_⟩
    have made {place : ScopeId} (new : place ≠ rootScope) :
        (Likeness.rooted s.layer).Made w place place :=
      ⟨⟨rfl, fun _ => new⟩, ⟨rfl, fun _ => new⟩, ⟨rfl, fun _ => new⟩⟩
    have new : memory.heap.size ≠ rootScope := Nat.ne_of_gt rooted.size
    cases queries with
    | define writable _ values => exact ⟨⟨rfl, rfl, rooted.define writable.2 _ _⟩, writable⟩
    | assign => exact ⟨⟨rfl, rfl, rooted.assign _ _ _⟩, rfl⟩
    | child => exact ⟨⟨rfl, rfl, rooted.add _ _⟩, made new⟩
    | @enter c _ _ _ =>
      cases c with
      | shared a => exact ⟨⟨rfl, rfl, rooted.add _ _⟩, made new⟩
      | frozen entries =>
        have copied := rooted.add (.ofValues .immutable entries) none
        exact ⟨⟨rfl, rfl, copied.add _ _⟩, made (Nat.ne_of_gt copied.size)⟩
    | flatten =>
      exact ⟨⟨rfl, rfl, rooted⟩, List.forall₂_same.mpr fun _ _ => ⟨rfl, rfl, rfl⟩⟩
    | @perform effect args _ _ _ =>
      refine ⟨⟨rfl, rfl, ?_⟩, ResultsAlike.of_eq rfl⟩
      simp only [Setting.serve]
      cases s.handler? effect <;> exact rooted
    | compute | dispatch => exact ⟨⟨rfl, rfl, rooted⟩, ResultsAlike.of_eq rfl⟩
    | lookup | recollect => exact ⟨⟨rfl, rfl, rooted⟩, rel_self _⟩
    | fresh | isActive | innermost => exact ⟨⟨rfl, rfl, rooted⟩, rfl⟩
    | remember => exact ⟨⟨rfl, rfl, rooted⟩, trivial⟩
  full := by
    intro _ _ _ _ _ _ parts
    obtain ⟨rfl, rfl, -⟩ := parts
    exact ⟨rfl, rfl⟩
  enter := by
    intro _ _ _ _ _ _ _ parts
    obtain ⟨rfl, rfl, rooted⟩ := parts
    exact ⟨rfl, rfl, rooted⟩
  leave := by
    intro _ _ _ _ _ _ _ parts
    obtain ⟨rfl, rfl, rooted⟩ := parts
    exact ⟨rfl, rfl, rooted⟩
  attach := by
    intro _ _ _ _ _ _ _ _ parts equal
    obtain ⟨rfl, rfl, -⟩ := parts
    cases equal
    rfl

variable {s}

structure Task.KeepsRoot (s : Setting σ) (task : Task) : Prop where
  control : (Likeness.rooted s.layer).Plans (Likeness.rooted s.layer).Nexts () task.control
    task.control
  frames : (Likeness.rooted s.layer).Frames () task.frames task.frames
  rooted : s.Rooted task.memory

theorem Task.KeepsRoot.step {task task' : Task} {shared shared' : Shared σ}
    (keeps : task.KeepsRoot s) (stepped : task.step s shared = .running shared' task') :
    task'.KeepsRoot s := by
  have steps := Likeness.step_alike (Likeness.rootedMemories s) (Likeness.rooted_settings s id id)
    (fun _ => rfl) (fun _ _ memo => memo.elim) (fun _ _ _ copying => copying)
    ⟨keeps.control, keeps.frames, (⟨rfl, rfl, keeps.rooted⟩ : shared = shared ∧ _)⟩
  rw [stepped] at steps
  cases steps with
  | running _ tasks => exact ⟨tasks.control, tasks.frames, tasks.memory.2.2⟩

/-- In every state that a run may come to, the root scope has no scope around it, and binds names in
the layer with statements only. -/
theorem Setting.Reaches.keepsRoot {task : Task} (reaches : s.Reaches task) :
    task.KeepsRoot s := by
  induction reaches with
  | @result arg maxCallDepth layer =>
    refine ⟨.done (.job (.operand trivial ⟨rfl, fun lir => absurd lir layer⟩)), .nil, ?_⟩
    exact ⟨[], rfl, fun _ => rfl⟩
  | @block who label registers layer =>
    exact ⟨.done (.job (.block layer ⟨rfl, fun _ => nofun⟩)), .nil, [], rfl, fun _ => rfl⟩
  | step _ stepped ih => exact ih.step stepped
  | answered _ outcome ih =>
    refine ⟨?_, ih.frames, ih.rooted⟩
    cases ih.control with
    | await _ _ rest => exact rest () outcome outcome le_rfl (ResultsAlike.of_eq rfl)
  | refused _ ih =>
    refine ⟨?_, ih.frames, ih.rooted⟩
    cases ih.control with
    | fork _ _ rest => exact rest () none none le_rfl .none
  | forked _ ih =>
    refine ⟨?_, ih.frames, ih.rooted⟩
    cases ih.control with
    | fork _ _ rest => exact rest () _ _ le_rfl (.some rfl)

end Reaching

namespace World

variable {σ : Type} {s : Setting σ}

def TasksReached (s : Setting σ) (w : World σ) : Prop :=
  ∀ who phase task, (who, phase) ∈ w.tasks → phase.task? = some task → s.Reaches task

theorem TasksReached.step (layer : s.layer = .lir) {w : World σ} (reached : w.TasksReached s)
    {who : Identity} (awake : w.canStep who) : (w.step s who).TasksReached s := by
  obtain ⟨before, phase, after, change, split, -, -, move, whole⟩ := exists_move awake
  rw [whole]
  have own (task : Task) (runs : phase.task? = some task) : s.Reaches task :=
    reached who phase task (by simp [split]) runs
  intro id other task member runs
  rcases List.mem_append.mp member with member | later
  · rcases List.mem_append.mp member with earlier | new
    · exact reached id other task (by simp [split, earlier]) runs
    · cases move with
      | claim | sleep =>
        cases List.mem_singleton.mp new
        exact own task runs
      | refuse =>
        cases List.mem_singleton.mp new
        cases runs
        exact .refused (own _ rfl)
      | @answer _ _ _ _ outcome =>
        cases List.mem_singleton.mp new
        cases runs
        exact .answered (own _ rfl) outcome
      | go stepped =>
        cases List.mem_singleton.mp new
        cases runs
        exact .step (own _ rfl) stepped
      | spawn =>
        rcases List.mem_cons.mp new with new | new
        · cases new
          cases runs
          exact .block layer
        · cases List.mem_singleton.mp new
          cases runs
          exact .forked (own _ rfl)
      | stop | release =>
        cases List.mem_singleton.mp new
        cases runs
      | finish | settle => cases new
  · exact reached id other task (by simp [split, later]) runs

theorem TasksReached.path {doc : FlowDocument} {graph : FlowGraph} {host : σ}
    {schedule : List Identity} {w : World σ}
    (path : Path (doc.setting s graph) schedule (doc.start s graph host) w) :
    w.TasksReached (doc.setting s graph) := by
  refine path.invariant ?_ fun who w reached awake => reached.step rfl awake
  intro who phase task member runs
  cases List.mem_singleton.mp member
  cases runs
  exact .block rfl

end World

end LayeredIR
