import LayeredIR.Task

/-! What a plan comes to when one task runs it to its end, in terms of what its parts come to. This
agrees with running the task step by step, so a task is deterministic, and calls leave the call
stack as they found it. -/
namespace LayeredIR

variable {σ : Type}

/-- A plan run to its end beside what is shared: how it ends, and what it leaves. -/
inductive Setting.Yields (s : Setting σ) :
    Shared σ → Memory → Plan Next → Except Fault Value → Shared σ → Memory → Prop
  | value {shared memory v} : Yields s shared memory (.done (.value v)) (.ok v) shared memory
  | job {shared memory job outcome shared' memory'}
    (rest : Yields s shared memory (s.plan job) outcome shared' memory') :
    Yields s shared memory (.done (.job job)) outcome shared' memory'
  | fail {shared memory fault} : Yields s shared memory (.fail fault) (.error fault) shared memory
  | eval {shared memory job next v shared₁ memory₁ outcome shared' memory'}
    (first : Yields s shared memory (s.plan job) (.ok v) shared₁ memory₁)
    (rest : Yields s shared₁ memory₁ (next v) outcome shared' memory') :
    Yields s shared memory (.eval job next) outcome shared' memory'
  | evalFail {shared memory job next fault shared' memory'}
    (first : Yields s shared memory (s.plan job) (.error fault) shared' memory') :
    Yields s shared memory (.eval job next) (.error fault) shared' memory'
  | full {shared memory site job next} (full : memory.stack.isFull) :
    Yields s shared memory (.call site job next)
      (.error (.ofCause (.recursionLimitExceeded memory.stack.limit))) shared memory
  | call {shared memory site job next v shared₁ memory₁ outcome shared' memory'}
    (free : memory.stack.isFull = false)
    (first : Yields s shared (memory.enter site) (s.plan job) (.ok v) shared₁ memory₁)
    (rest : Yields s shared₁ (memory₁.leave site.isDefinition) (next v) outcome shared' memory') :
    Yields s shared memory (.call site job next) outcome shared' memory'
  | callFail {shared memory site job next fault shared' memory'}
    (free : memory.stack.isFull = false)
    (first : Yields s shared (memory.enter site) (s.plan job) (.error fault) shared' memory') :
    Yields s shared memory (.call site job next) (.error (memory'.stack.attach fault)) shared'
      (memory'.leave site.isDefinition)
  | ask {shared memory q next outcome shared' memory'}
    (rest : Yields s (s.serve q shared memory).2.1 (s.serve q shared memory).2.2
      (next (s.serve q shared memory).1) outcome shared' memory') :
    Yields s shared memory (.ask q next) outcome shared' memory'

def Plan.ending : Except Fault Value → Plan Next
  | .ok v => .done (.value v)
  | .error fault => .fail fault

namespace Task

variable {s : Setting σ} {shared shared₁ shared₂ : Shared σ} {task task₁ task₂ : Task}

section Calls

variable {site : CallSite} {job : Job} {next : Value → Plan Next} {frames : List Frame}
  {memory : Memory}

/-- A call is refused where there is no room for it. -/
theorem step_full (full : memory.stack.isFull = true) :
    step s shared ⟨.call site job next, frames, memory⟩ = .running shared
      ⟨.fail (.ofCause (.recursionLimitExceeded memory.stack.limit)), frames, memory⟩ := by
  simp only [step, full, if_true]

theorem step_free (free : memory.stack.isFull = false) :
    step s shared ⟨.call site job next, frames, memory⟩ = .running shared
      ⟨s.plan job, .leave site.isDefinition :: .resume next :: frames, memory.enter site⟩ := by
  simp only [step, free, Bool.false_eq_true, if_false]

end Calls

variable (s) in
def Leads (shared : Shared σ) (task : Task) (shared' : Shared σ) (task' : Task) : Prop :=
  ∃ n, ∀ fuel, Task.run s (fuel + n) shared task = Task.run s fuel shared' task'

theorem Leads.refl (shared : Shared σ) (task : Task) : Leads s shared task shared task :=
  ⟨0, fun _ => rfl⟩

theorem Leads.step (stepped : task.step s shared = .running shared₁ task₁)
    (rest : Leads s shared₁ task₁ shared₂ task₂) : Leads s shared task shared₂ task₂ := by
  obtain ⟨n, runs⟩ := rest
  refine ⟨n + 1, fun fuel => ?_⟩
  rw [← runs fuel, ← Nat.add_assoc, Task.run, stepped]

theorem Leads.trans (first : Leads s shared task shared₁ task₁)
    (rest : Leads s shared₁ task₁ shared₂ task₂) : Leads s shared task shared₂ task₂ := by
  obtain ⟨n, runs⟩ := first
  obtain ⟨m, further⟩ := rest
  refine ⟨m + n, fun fuel => ?_⟩
  rw [← Nat.add_assoc, runs, further]

end Task

namespace Setting.Yields

variable {s : Setting σ} {shared shared' : Shared σ} {memory memory' : Memory} {plan : Plan Next}
  {outcome : Except Fault Value}

/-- A task runs a plan to what it yields, whatever waits for it. -/
theorem leads (yields : s.Yields shared memory plan outcome shared' memory')
    (frames : List Frame) :
    Task.Leads s shared ⟨plan, frames, memory⟩ shared' ⟨.ending outcome, frames, memory'⟩ := by
  induction yields generalizing frames with
  | value | fail => exact .refl _ _
  | job _ ih => exact .step rfl (ih frames)
  | eval _ _ first rest => exact .step rfl ((first _).trans (.step rfl (rest frames)))
  | evalFail _ first => exact .step rfl ((first _).trans (.step rfl (.refl _ _)))
  | full full =>
    refine .step ?_ (.refl _ _)
    simp only [Task.step, full, if_true, Plan.ending]
  | @call shared memory site job next _ _ _ _ _ _ free _ _ first rest =>
    have called : Task.step s shared ⟨.call site job next, frames, memory⟩ =
        .running shared ⟨s.plan job, .leave site.isDefinition :: .resume next :: frames,
          memory.enter site⟩ := by
      simp only [Task.step, free, Bool.false_eq_true, if_false]
    exact .step called ((first _).trans (.step rfl (.step rfl (rest frames))))
  | @callFail shared memory site job next _ _ _ free _ first =>
    have called : Task.step s shared ⟨.call site job next, frames, memory⟩ =
        .running shared ⟨s.plan job, .leave site.isDefinition :: .resume next :: frames,
          memory.enter site⟩ := by
      simp only [Task.step, free, Bool.false_eq_true, if_false]
    exact .step called ((first _).trans (.step rfl (.step rfl (.refl _ _))))
  | ask _ ih => exact .step rfl (ih frames)

/-- A task that is done has run the plan to what it yields, and then what waited for it. -/
theorem of_run {fuel : Nat} {frames : List Frame}
    {final : Except Fault Value × Shared σ × Memory}
    (ran : Task.run s fuel shared ⟨plan, frames, memory⟩ = some final) :
    ∃ outcome shared' memory' rest, rest ≤ fuel ∧
      s.Yields shared memory plan outcome shared' memory' ∧
      Task.run s rest shared' ⟨.ending outcome, frames, memory'⟩ = some final := by
  induction fuel using Nat.strongRecOn generalizing shared plan frames memory with
  | _ fuel ih =>
    cases fuel with
    | zero => cases ran
    | succ fuel =>
      cases plan with
      | done next =>
        cases next with
        | value v => exact ⟨_, _, _, _, Nat.le_refl _, .value, ran⟩
        | job job =>
          obtain ⟨_, _, _, rest, le, yields, further⟩ := ih fuel (Nat.lt_succ_self _) ran
          exact ⟨_, _, _, rest, Nat.le_succ_of_le le, .job yields, further⟩
      | fail fault => exact ⟨_, _, _, _, Nat.le_refl _, .fail, ran⟩
      | eval job next =>
        obtain ⟨first, shared₁, memory₁, rest, le, yields, further⟩ :=
          ih fuel (Nat.lt_succ_self _) ran
        cases rest with
        | zero => cases further
        | succ rest =>
          cases first with
          | error fault =>
            exact ⟨_, _, _, rest, by omega, .evalFail yields, further⟩
          | ok v =>
            obtain ⟨_, _, _, rest', le', yields', last⟩ := ih rest (by omega) further
            exact ⟨_, _, _, rest', by omega, .eval yields yields', last⟩
      | call site job next =>
        cases free : memory.stack.isFull with
        | true =>
          simp only [Task.run, Task.step, free, if_true] at ran
          exact ⟨_, _, _, fuel, Nat.le_succ _, .full free, ran⟩
        | false =>
          simp only [Task.run, Task.step, free, Bool.false_eq_true, if_false] at ran
          obtain ⟨first, shared₁, memory₁, rest, le, yields, further⟩ :=
            ih fuel (Nat.lt_succ_self _) ran
          match rest, first, further with
          | 0, _, further => cases further
          | 1, .ok _, further | 1, .error _, further => cases further
          | rest + 2, .error fault, further =>
            exact ⟨_, _, _, rest, by omega, .callFail free yields, further⟩
          | rest + 2, .ok v, further =>
            obtain ⟨_, _, _, rest', le', yields', last⟩ := ih rest (by omega) further
            exact ⟨_, _, _, rest', by omega, .call free yields yields', last⟩
      | ask q next =>
        obtain ⟨_, _, _, rest, le, yields, further⟩ := ih fuel (Nat.lt_succ_self _) ran
        exact ⟨_, _, _, rest, Nat.le_succ_of_le le, .ask yields, further⟩
      | fork label registers next => cases ran
      | await id next => cases ran

theorem unique {outcome₂ : Except Fault Value} {shared₂ : Shared σ} {memory₂ : Memory}
    (first : s.Yields shared memory plan outcome shared' memory')
    (second : s.Yields shared memory plan outcome₂ shared₂ memory₂) :
    outcome = outcome₂ ∧ shared' = shared₂ ∧ memory' = memory₂ := by
  have ends (outcome : Except Fault Value) (shared : Shared σ) (memory : Memory) (fuel : Nat) :
      Task.run s (fuel + 1) shared ⟨.ending outcome, [], memory⟩ =
        some (outcome, shared, memory) := by
    cases outcome <;> rfl
  obtain ⟨n, runs⟩ := first.leads []
  obtain ⟨m, runs'⟩ := second.leads []
  have once := runs (m + 1)
  have twice := runs' (n + 1)
  rw [ends] at once twice
  have same : m + 1 + n = n + 1 + m := by omega
  rw [same, twice] at once
  cases once
  exact ⟨rfl, rfl, rfl⟩

/-- A run comes to what its plan yields. -/
theorem exists_run (yields : s.Yields shared memory plan outcome shared' memory') :
    ∃ fuel, Task.run s fuel shared ⟨plan, [], memory⟩ = some (outcome, shared', memory') := by
  obtain ⟨n, runs⟩ := yields.leads []
  refine ⟨1 + n, (runs 1).trans ?_⟩
  cases outcome <;> rfl

theorem of_run_alone {fuel : Nat}
    (ran : Task.run s fuel shared ⟨plan, [], memory⟩ = some (outcome, shared', memory')) :
    s.Yields shared memory plan outcome shared' memory' := by
  obtain ⟨first, _, _, rest, -, yields, further⟩ := of_run ran
  match rest, first, further with
  | 0, _, further => cases further
  | _ + 1, .ok v, further | _ + 1, .error fault, further =>
    cases further
    exact yields

theorem serve_calls (s : Setting σ) (q : Query) (shared : Shared σ) (memory : Memory) :
    (s.serve q shared memory).2.2.stack = memory.stack ∧
      (s.serve q shared memory).2.2.active = memory.active := by
  cases q with
  | perform effect args =>
    simp only [Setting.serve]
    split <;> exact ⟨rfl, rfl⟩
  | _ => exact ⟨rfl, rfl⟩

theorem shared_eq (handlers : ∀ name, s.handler? name = none)
    (yields : s.Yields shared memory plan outcome shared' memory') : shared' = shared := by
  induction yields with
  | value | fail | full => rfl
  | job _ ih | evalFail _ ih | callFail _ _ ih => exact ih
  | eval _ _ first rest | call _ _ _ first rest => exact rest.trans first
  | @ask shared memory q _ _ _ _ _ ih =>
    refine ih.trans ?_
    cases q with
    | perform effect args => simp only [Setting.serve, handlers]
    | _ => rfl

theorem leave_enter (site : CallSite) (later : Memory)
    (stack : later.stack = (memory.enter site).stack)
    (active : later.active = (memory.enter site).active) :
    (later.leave site.isDefinition).stack = memory.stack ∧
      (later.leave site.isDefinition).active = memory.active := by
  obtain ⟨name, isDefinition⟩ := site
  simp only [Memory.leave, Memory.enter, stack, active, CallStack.grow, CallStack.pop,
    Array.pop_push] at stack active ⊢
  cases isDefinition <;> simp

theorem calls (yields : s.Yields shared memory plan outcome shared' memory') :
    memory'.stack = memory.stack ∧ memory'.active = memory.active := by
  induction yields with
  | value | fail | full => exact ⟨rfl, rfl⟩
  | job _ ih => exact ih
  | eval _ _ first rest => exact ⟨rest.1.trans first.1, rest.2.trans first.2⟩
  | evalFail _ first => exact first
  | call _ _ _ first rest =>
    obtain ⟨stack, active⟩ := leave_enter _ _ first.1 first.2
    exact ⟨rest.1.trans stack, rest.2.trans active⟩
  | callFail _ _ first => exact leave_enter _ _ first.1 first.2
  | @ask shared memory q _ _ _ _ _ ih =>
    obtain ⟨stack, active⟩ := serve_calls s q shared memory
    exact ⟨ih.1.trans stack, ih.2.trans active⟩

end Setting.Yields
end LayeredIR
