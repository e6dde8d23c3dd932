import LayeredIR.Interpreter
import LayeredIR.Proofs.Calls
import LayeredIR.Proofs.Sets

/-! The tasks that runs come to: those of documents in every layer, forked ones among them, and
those of interpreters that evaluate one job after another. Whatever other tasks and the host do,
their live calls are accounted for. -/
namespace LayeredIR

variable {σ : Type}

/-- The states of an interpreter. It evaluates jobs, and between them its scopes and what it shares
may be changed. -/
inductive Interpreter.Reached (s : Setting σ) : Interpreter σ → Prop
  | new (host : σ) : Reached s (.new s host)
  | run {i fuel job outcome i'} (before : Reached s i)
    (ran : i.run fuel job = some (outcome, i')) : Reached s i'
  | withHeap {i} {α : Type} (before : Reached s i) (change : Heap → α × Heap) :
    Reached s (i.withHeap change).2
  | withFutures {i} (before : Reached s i) (change : Futures → Futures) :
    Reached s (i.withFutures change)
  | newFuture {i} (before : Reached s i) (number : Nat) : Reached s (i.newFuture number).2

namespace Interpreter

variable {s : Setting σ} {i i' : Interpreter σ} {fuel : Nat}

/-- Whatever an interpreter evaluates, it leaves its calls as they were. -/
theorem run_calls {job : Job} {outcome : Except Fault Value}
    (ran : i.run fuel job = some (outcome, i')) :
    i'.setting = i.setting ∧ i'.memory.stack = i.memory.stack ∧
      i'.memory.active = i.memory.active := by
  obtain ⟨⟨_, _, memory⟩, ended, same⟩ := Option.map_eq_some_iff.mp ran
  cases same
  exact ⟨rfl, (Setting.Yields.of_run_alone ended).calls⟩

theorem runAll_calls {a : ScopeId} {args : List Arg} {outcome : Except Fault (List Value)}
    (ran : i.runAll fuel a args = some (outcome, i')) :
    i'.memory.stack = i.memory.stack ∧ i'.memory.active = i.memory.active := by
  induction args generalizing i outcome with
  | nil =>
    cases ran
    exact ⟨rfl, rfl⟩
  | cons arg rest ih =>
    obtain ⟨⟨first, i₁⟩, evaluated, further⟩ := Option.bind_eq_some_iff.mp ran
    obtain ⟨-, stack, active⟩ := run_calls evaluated
    cases first with
    | error fault =>
      cases further
      exact ⟨stack, active⟩
    | ok v =>
      obtain ⟨⟨others, i₂⟩, remaining, same⟩ := Option.bind_eq_some_iff.mp further
      cases same
      obtain ⟨stack', active'⟩ := ih remaining
      exact ⟨stack'.trans stack, active'.trans active⟩

theorem Reached.idle (reached : Reached s i) : i.setting = s ∧
    i.memory.stack = .empty s.config.maxCallDepth ∧ i.memory.active = [] := by
  induction reached with
  | new => exact ⟨rfl, rfl, rfl⟩
  | run _ ran ih =>
    obtain ⟨setting, stack, active⟩ := run_calls ran
    exact ⟨setting.trans ih.1, stack.trans ih.2.1, active.trans ih.2.2⟩
  | withHeap _ _ ih | withFutures _ _ ih | newFuture _ _ ih => exact ih

end Interpreter

namespace Setting

variable (s : Setting σ)

/-- The tasks that arise in a setting: a job that an interpreter begins with, a block that a task is
started at, and what these come to, whatever is shared in the meantime. -/
inductive Arises : Task → Prop
  | called {i} (reached : Interpreter.Reached s i) (job : Job) : Arises (.start job i.memory)
  | block (who : Identity) (label : String) (registers : Bindings) :
    Arises (.atBlock s who label registers)
  | step {task shared shared' task'} (before : Arises task)
    (stepped : task.step s shared = .running shared' task') : Arises task'
  | answered {id next frames memory} (before : Arises ⟨.await id next, frames, memory⟩)
    (outcome : Outcome) : Arises ⟨next outcome, frames, memory⟩
  | refused {label registers next frames memory}
    (before : Arises ⟨.fork label registers next, frames, memory⟩) :
    Arises ⟨next none, frames, memory⟩
  | forked {label registers next frames memory}
    (before : Arises ⟨.fork label registers next, frames, memory⟩) :
    Arises ⟨next (some memory.freshIdentity.1), frames, memory.freshIdentity.2⟩

variable {s}

theorem Arises.accounts {task : Task} (arises : s.Arises task) :
    ∃ c, task.Accounts s [] [] c := by
  induction arises with
  | called reached job =>
    obtain ⟨-, stack, active⟩ := reached.idle
    exact ⟨[], ⟨[], .done trivial, nofun⟩, .bottom, stack, active⟩
  | block who label registers => exact ⟨[], ⟨[], .done trivial, nofun⟩, .bottom, rfl, rfl⟩
  | @step task shared _ _ _ stepped ih =>
    obtain ⟨c, accounts⟩ := ih
    refine accounts.step (fun outcome ends surfaced => ?_) stepped
    obtain ⟨control, frames, memory⟩ := task
    cases ends
    cases surfaced
    cases outcome <;> cases stepped
  | answered _ outcome ih =>
    obtain ⟨c, ⟨idle, guarded, off⟩, frames, stack, active⟩ := ih
    cases guarded with
    | await _ rest =>
      have resumed := rest outcome fun _ _ => trivial
      exact ⟨c, ⟨idle, resumed, off⟩, frames, stack, active⟩
  | refused _ ih | forked _ ih =>
    obtain ⟨c, ⟨idle, guarded, off⟩, frames, stack, active⟩ := ih
    cases guarded with
    | fork _ rest => exact ⟨c, ⟨idle, rest _, off⟩, frames, stack, active⟩

def arising (s : Setting σ) : Regime σ where
  task := s.Arises
  shares _ _ := True
  result _ := True

theorem arising_kept : s.arising.Kept s where
  go arises _ _ stepped := ⟨arises.step stepped, trivial⟩
  ended _ _ _ _ := ⟨trivial, trivial⟩
  refused := .refused
  forked arises := ⟨.block .., arises.forked⟩
  answered arises _ _ := arises.answered _
  waited _ _ _ := trivial
  added _ _ _ := trivial
  settled _ _ _ := trivial

def ArisesIn (s : Setting σ) (w : World σ) : Prop :=
  ∀ who phase task, (who, phase) ∈ w.tasks → phase.task? = some task → s.Arises task

theorem ArisesIn.path {schedule : List Identity} {first w : World σ}
    (path : World.Path s schedule first w) (ruled : World.Ruled s.arising first) :
    s.ArisesIn w :=
  (path.ruled_of_shares arising_kept ruled fun _ _ _ => trivial).tasks

end Setting

/-- The first task of a document arises in the setting of the document. -/
theorem Document.opening_arises {doc : Document} {s : Setting σ} {layer top : Layer} {o : Opening σ}
    (opens : doc.opening s layer top = .ok o) (host : σ) : o.setting.Arises o.task := by
  obtain ⟨-, starts⟩ := opening_eq_ok opens
  rw [starts]
  exact .called (.new host) _

theorem FlowDocument.opening_arises {doc : FlowDocument} {s : Setting σ} {o : Opening σ}
    (opens : doc.opening s = .ok o) : o.setting.Arises o.task := by
  obtain ⟨graph, -, setting, starts⟩ := opening_eq_ok opens
  rw [starts, setting]
  exact .block ..

theorem Opening.world_arises {o : Opening σ} (arises : o.setting.Arises o.task) (host : σ)
    (n : Nat) : o.setting.ArisesIn (o.world host n) := by
  obtain ⟨k, path⟩ := World.path_after (s := o.setting) n (fresh host) o.task
  exact .path path (.single arises trivial)

/-- In whatever order the tasks of a document take their steps, each of them arises. -/
theorem FlowDocument.Reaches.arises {doc : FlowDocument} {s : Setting σ} {host : σ} {w : World σ}
    (reaches : doc.Reaches s host w) :
    ∃ graph, doc.graph = .ok graph ∧ (doc.setting s graph).ArisesIn w := by
  obtain ⟨graph, schedule, structured, path⟩ := reaches
  exact ⟨graph, structured, .path path (.start (.block ..) trivial)⟩

end LayeredIR
