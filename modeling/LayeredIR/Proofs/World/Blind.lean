import LayeredIR.Proofs.Keeping
import LayeredIR.Proofs.World.Moves

/-! Tasks that cannot tell how far the others have come. Only the operation `of` asks whether a
future is settled, and only handlers see the state of the host; without the one, and with handlers
that look at their arguments alone, a step of a task is the same whatever it is taken beside. -/
namespace LayeredIR

def Handler.Oblivious {σ : Type} (handler : Handler σ) : Prop :=
  ∀ futures futures' args host host',
    (handler futures args host).1 = (handler futures' args host').1

theorem Domain.call_of_ne {domain : Domain} (typeOf typeOf' : Value → Option Ty) {op : String}
    (different : op ≠ "of") (args : List Value) :
    domain.call typeOf op args = domain.call typeOf' op args := by
  unfold Domain.call
  split
  · exact absurd rfl different
  all_goals rfl

inductive Outlook
  | running (task : Task)
  | ended (outcome : Except Fault Value)
  | waiting (task : Task)

def Progress.outlook {σ : Type} : Progress σ → Outlook
  | .running _ task => .running task
  | .ended outcome _ _ => .ended outcome
  | .waiting _ task => .waiting task

abbrev withoutOf : String → Prop := fun op => op ≠ "of"

namespace Task

variable {σ : Type} {s : Setting σ}

theorem outlook_deliver (v : Value) (frames : List Frame) (shared shared' : Shared σ)
    (memory : Memory) :
    (deliver v frames shared memory).outlook = (deliver v frames shared' memory).outlook := by
  match frames with
  | [] | .resume _ :: _ | .leave _ :: _ => rfl

theorem outlook_unwind (fault : Fault) (frames : List Frame) (shared shared' : Shared σ)
    (memory : Memory) :
    (unwind fault frames shared memory).outlook = (unwind fault frames shared' memory).outlook := by
  match frames with
  | [] | .resume _ :: _ | .leave _ :: _ => rfl

variable (oblivious : ∀ name handler, s.handler? name = some handler → handler.Oblivious)
include oblivious

theorem serve_blind {w : Knowledge} {q : Query}
    (permitted : (Likeness.keeping withoutOf).Queries w q q) (shared shared' : Shared σ)
    (memory : Memory) :
    (s.serve q shared memory).1 = (s.serve q shared' memory).1 ∧
      (s.serve q shared memory).2.2 = (s.serve q shared' memory).2.2 := by
  cases permitted with
  | dispatch known permitted operands => exact ⟨Domain.call_of_ne _ _ permitted _, rfl⟩
  | @perform effect args _ operands =>
    simp only [Setting.serve]
    cases found : s.handler? effect with
    | none => exact ⟨rfl, rfl⟩
    | some handler => exact ⟨oblivious effect handler found _ _ args _ _, rfl⟩
  | _ => exact ⟨rfl, rfl⟩

theorem step_blind {w : Knowledge} {task : Task} (keeps : task.Keeps withoutOf w)
    (shared shared' : Shared σ) :
    (task.step s shared).outlook = (task.step s shared').outlook := by
  obtain ⟨control, frames, memory⟩ := task
  cases control with
  | done next =>
    cases next with
    | value v => exact outlook_deliver v frames shared shared' memory
    | job j => rfl
  | fail fault => exact outlook_unwind fault frames shared shared' memory
  | call site job next =>
    simp only [step]
    split <;> rfl
  | ask q next =>
    obtain ⟨plans, -, -⟩ := keeps
    cases plans with
    | ask queries _ =>
      obtain ⟨answers, memories⟩ := serve_blind oblivious queries shared shared' memory
      simp only [step, Progress.outlook, answers, memories]
  | eval job next => rfl
  | fork label registers next => rfl
  | await id next => rfl

end Task
end LayeredIR
