import LayeredIR.CallStack
import LayeredIR.Semantics.Block

/-! One task as a machine. It runs a plan, keeps what the plan's parts wait for on a list of frames,
and owns a memory that no other task sees. Each step serves one request, so steps of several tasks
can be interleaved; forking and waiting are left to whoever runs the tasks. -/
namespace LayeredIR

def entryTask : Identity := []

structure Memory where
  owner : Identity
  heap : Heap
  serial : Nat
  stack : CallStack
  active : List String
  kept : List (String × Value)

namespace Memory

def initial (owner : Identity) (maxCallDepth : Nat) : Memory :=
  { owner := owner
    heap := ⟨#[⟨[], none⟩]⟩
    serial := 0
    stack := .empty maxCallDepth
    active := []
    kept := [] }

def withRegisters (owner : Identity) (maxCallDepth : Nat) (registers : Bindings) : Memory :=
  { initial owner maxCallDepth with heap := ⟨#[⟨[], none⟩, ⟨registers, none⟩]⟩ }

def enter (memory : Memory) (site : CallSite) : Memory :=
  { memory with
    stack := memory.stack.grow site.name
    active := if site.isDefinition then site.name :: memory.active else memory.active }

def leave (memory : Memory) (isDefinition : Bool) : Memory :=
  { memory with
    stack := memory.stack.pop
    active := if isDefinition then memory.active.tail else memory.active }

def withHeap {α : Type} (memory : Memory) (change : Heap → α × Heap) : α × Memory :=
  let ⟨owner, heap, serial, stack, active, kept⟩ := memory
  let (answer, heap) := change heap
  (answer, ⟨owner, heap, serial, stack, active, kept⟩)

/-- A new identity: the next number of this task, in front of the identity of the task. -/
def freshIdentity (memory : Memory) : Identity × Memory :=
  ((memory.serial + 1) :: memory.owner, { memory with serial := memory.serial + 1 })

end Memory

structure Shared (σ : Type) where
  futures : Futures
  live : Nat
  host : σ

inductive Frame
  | resume (next : Value → Plan Next)
  | leave (isDefinition : Bool)

structure Task where
  control : Plan Next
  frames : List Frame
  memory : Memory

inductive Progress (σ : Type)
  | running (shared : Shared σ) (task : Task)
  | ended (outcome : Except Fault Value) (shared : Shared σ) (memory : Memory)
  | waiting (shared : Shared σ) (task : Task)

variable {σ : Type}

def Setting.serve (s : Setting σ) (q : Query) (shared : Shared σ) (memory : Memory) :
    q.Answer × Shared σ × Memory :=
  match q with
  | .lookup scope name => (memory.heap.lookup scope name, shared, memory)
  | .define scope name value mutability =>
    let ((), memory) :=
      memory.withHeap fun heap => ((), heap.define scope name ⟨value, mutability⟩)
    ((), shared, memory)
  | .assign scope name value =>
    let (result, memory) := memory.withHeap fun heap => heap.assign scope name value
    (result, shared, memory)
  | .child scope =>
    let (inner, memory) := memory.withHeap fun heap => heap.child scope
    (inner, shared, memory)
  | .enter captured =>
    let (inner, memory) := memory.withHeap fun heap =>
      let (outer, heap) := heap.captured captured
      heap.child outer
    (inner, shared, memory)
  | .flatten scope => (memory.heap.flatten scope, shared, memory)
  | .fresh =>
    let (id, memory) := memory.freshIdentity
    (id, shared, memory)
  | .isActive key => (memory.active.contains key, shared, memory)
  | .innermost => (memory.stack.top?, shared, memory)
  | .recollect node => (memory.kept.lookup node, shared, memory)
  | .remember node value =>
    ((), shared, { memory with kept := (node, value) :: memory.kept })
  | .compute op args => (op.compute args, shared, memory)
  | .dispatch domain op args => (domain.call shared.futures.typeOf op args, shared, memory)
  | .perform effect args =>
    match s.handler? effect with
    | some handler =>
      let (result, host) := handler shared.futures args shared.host
      (result, { shared with host := host }, memory)
    | none => (.error (.ofCause (.unknownEffect effect)), shared, memory)

namespace Task

def start (job : Job) (memory : Memory) : Task := ⟨.done (.job job), [], memory⟩

def atBlock (s : Setting σ) (who : Identity) (label : String) (registers : Bindings) : Task :=
  start (.block label) (.withRegisters who s.config.maxCallDepth registers)

def deliver (v : Value) (frames : List Frame) (shared : Shared σ) (memory : Memory) : Progress σ :=
  match frames with
  | [] => .ended (.ok v) shared memory
  | .resume next :: rest => .running shared ⟨next v, rest, memory⟩
  | .leave isDefinition :: rest =>
    .running shared ⟨.done (.value v), rest, memory.leave isDefinition⟩

/-- A failure drops the innermost frame; leaving a call, it takes the live calls along. -/
def unwind (fault : Fault) (frames : List Frame) (shared : Shared σ) (memory : Memory) :
    Progress σ :=
  match frames with
  | [] => .ended (.error fault) shared memory
  | .resume _ :: rest => .running shared ⟨.fail fault, rest, memory⟩
  | .leave isDefinition :: rest =>
    .running shared ⟨.fail (memory.stack.attach fault), rest, memory.leave isDefinition⟩

def step (s : Setting σ) (shared : Shared σ) (task : Task) : Progress σ :=
  let ⟨control, frames, memory⟩ := task
  match control with
  | .done (.job job) => .running shared ⟨s.plan job, frames, memory⟩
  | .done (.value v) => deliver v frames shared memory
  | .fail fault => unwind fault frames shared memory
  | .eval job next => .running shared ⟨s.plan job, .resume next :: frames, memory⟩
  | .call site job next =>
    if memory.stack.isFull then
      let cause := Cause.recursionLimitExceeded memory.stack.limit
      .running shared ⟨.fail (.ofCause cause), frames, memory⟩
    else
      .running shared
        ⟨s.plan job, .leave site.isDefinition :: .resume next :: frames, memory.enter site⟩
  | .ask q next =>
    let (answer, shared, memory) := s.serve q shared memory
    .running shared ⟨next answer, frames, memory⟩
  | .fork label registers next => .waiting shared ⟨.fork label registers next, frames, memory⟩
  | .await future next => .waiting shared ⟨.await future next, frames, memory⟩

def run (s : Setting σ) : Nat → Shared σ → Task →
    Option (Except Fault Value × Shared σ × Memory)
  | 0, _, _ => none
  | fuel + 1, shared, task =>
    match task.step s shared with
    | .running shared task => run s fuel shared task
    | .ended outcome shared memory => some (outcome, shared, memory)
    | .waiting _ _ => none

end Task
end LayeredIR
