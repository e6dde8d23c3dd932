import LayeredIR.Task

/-! The tasks of a run, interleaved step by step. A fork takes a slot and starts a task on a copy of
the registers; a task that ends gives its slot back before it settles its future; who waits for a
pending future sleeps until it is settled. The run is over once every task has ended. -/
namespace LayeredIR

inductive Phase
  | running (task : Task)
  | starting (label : String) (registers : Bindings) (next : Option Identity → Plan Next)
    (frames : List Frame) (memory : Memory)
  | releasing (outcome : Except Fault Value)
  | settling (outcome : Except Fault Value)

structure World (σ : Type) where
  shared : Shared σ
  /-- The unfinished tasks, a forked one in front of the task that forked it. -/
  tasks : List (Identity × Phase)
  forked : Nat
  outcome : Option (Except Fault Value)

/-- How the future of a task settles. A task that returns an error value rejects it as one that
fails does. -/
def settlement : Except Fault Value → Outcome
  | .ok (.error e) => .error e
  | .ok value => .ok value
  | .error fault => .error fault.cause.toErrorValue

namespace World

variable {σ : Type}

def isAsleep (futures : Futures) (who : Identity) : Phase → Bool
  | .running ⟨.await id _, _, _⟩ =>
    match futures.get? id with
    | some future => future.sleepers.contains who
    | none => true
  | _ => false

def canStep (w : World σ) (who : Identity) : Bool :=
  match w.tasks.lookup who with
  | some phase => !isAsleep w.shared.futures who phase
  | none => false

/-- One task after a step: what the tasks share, the tasks that take its place, whether it has
forked one, and how it ended if it is the entry task. -/
structure Change (σ : Type) where
  shared : Shared σ
  tasks : List (Identity × Phase)
  forked : Nat := 0
  outcome : Option (Except Fault Value) := none

def stepRunning (s : Setting σ) (who : Identity) (shared : Shared σ) (task : Task) : Change σ :=
  let ⟨control, frames, memory⟩ := task
  match control with
  | .fork label registers next =>
    if shared.live < s.config.maxTasks then
      { shared := { shared with live := shared.live + 1 }
        tasks := [(who, .starting label registers next frames memory)] }
    else { shared := shared, tasks := [(who, .running ⟨next none, frames, memory⟩)] }
  | .await id next =>
    match shared.futures.outcome? id with
    | some outcome =>
      { shared := shared, tasks := [(who, .running ⟨next outcome, frames, memory⟩)] }
    | none =>
      let futures := shared.futures.update id fun future => (future.wait who).2
      { shared := { shared with futures := futures }
        tasks := [(who, .running ⟨.await id next, frames, memory⟩)] }
  | control =>
    match Task.step s shared ⟨control, frames, memory⟩ with
    | .running shared task | .waiting shared task =>
      { shared := shared, tasks := [(who, .running task)] }
    | .ended outcome shared _ =>
      if who = entryTask then { shared := shared, tasks := [], outcome := some outcome }
      else { shared := shared, tasks := [(who, .releasing outcome)] }

def stepPhase (s : Setting σ) (who : Identity) (number : Nat) (shared : Shared σ)
    (phase : Phase) : Change σ :=
  match phase with
  | .running task => stepRunning s who shared task
  | .starting label registers next frames memory =>
    let (child, memory) := memory.freshIdentity
    let start := Task.atBlock s child label registers
    { shared := { shared with futures := shared.futures.add child (.pending number) }
      tasks := [(child, .running start), (who, .running ⟨next (some child), frames, memory⟩)]
      forked := 1 }
  | .releasing outcome =>
    { shared := { shared with live := shared.live - 1 }, tasks := [(who, .settling outcome)] }
  | .settling outcome =>
    let futures := shared.futures.update who fun future => (future.settle (settlement outcome)).2
    { shared := { shared with futures := futures }, tasks := [] }

def stepAmong (s : Setting σ) (who : Identity) (number : Nat) (shared : Shared σ) :
    List (Identity × Phase) → Change σ
  | [] => { shared := shared, tasks := [] }
  | (id, phase) :: rest =>
    if id = who then
      let change := stepPhase s who number shared phase
      { change with tasks := change.tasks ++ rest }
    else
      let change := stepAmong s who number shared rest
      { change with tasks := (id, phase) :: change.tasks }

def step (s : Setting σ) (who : Identity) (w : World σ) : World σ :=
  let ⟨shared, tasks, forked, outcome⟩ := w
  let change := stepAmong s who (forked + 1) shared tasks
  ⟨change.shared, change.tasks, forked + change.forked, change.outcome <|> outcome⟩

def start (s : Setting σ) (entry : String) (registers : Bindings) (host : σ) : World σ :=
  { shared := ⟨.empty, 0, host⟩
    tasks := [(entryTask, .running (.atBlock s entryTask entry registers))]
    forked := 0
    outcome := none }

/-- The first task in the list that is awake. Taking it at every step runs a forked task before the
one that forked it. -/
def firstAwake (w : World σ) : Option Identity :=
  (w.tasks.find? fun (who, phase) => !isAsleep w.shared.futures who phase).map Prod.fst

def run (s : Setting σ) : Nat → World σ → World σ
  | 0, w => w
  | fuel + 1, w =>
    match w.firstAwake with
    | none => w
    | some who => run s fuel (w.step s who)

def result? (w : World σ) : Option (Except Fault Value) :=
  if w.tasks.isEmpty then w.outcome else none

end World
end LayeredIR
