import LayeredIR.Proofs.World.InPlace
import LayeredIR.Proofs.World.Trace

/-! Runs in place, call by call. Who waits for a future changes nothing for the task that runs, so a
task takes the same steps and makes the same calls beside others that only wait as it does alone. -/
namespace LayeredIR

def Future.awake (future : Future) : Future := { future with sleepers := [] }

theorem Future.awake_wait (future : Future) (who : Identity) :
    (future.wait who).2.awake = future.awake := by
  unfold Future.wait
  split
  · rfl
  · split <;> rfl

theorem Future.awake_settle (future : Future) (outcome : Outcome) :
    (future.settle outcome).2.awake = (future.awake.settle outcome).2 := by
  obtain ⟨task, known, sleepers⟩ := future
  cases known <;> rfl

namespace Futures

def awake (futures : Futures) : Futures :=
  ⟨futures.entries.map fun (id, future) => (id, future.awake)⟩

variable (futures : Futures) (id : Identity)

theorem get?_awake : futures.awake.get? id = (futures.get? id).map Future.awake := by
  obtain ⟨entries⟩ := futures
  simp only [awake, get?]
  induction entries with
  | nil => rfl
  | cons entry rest ih =>
    obtain ⟨key, future⟩ := entry
    simp only [List.map_cons, List.lookup_cons]
    split
    · rfl
    · exact ih

theorem outcome?_awake : futures.awake.outcome? id = futures.outcome? id := by
  rw [outcome?, outcome?, get?_awake]
  cases futures.get? id <;> rfl

theorem length_awake : futures.awake.entries.length = futures.entries.length := by
  rw [awake, List.length_map]

theorem typeOf_awake : futures.awake.typeOf = futures.typeOf := by
  have within (fuel : Nat) : futures.awake.typeWithin fuel = futures.typeWithin fuel := by
    induction fuel with
    | zero => rfl
    | succ fuel ih =>
      funext id
      rw [typeWithin, typeWithin, outcome?_awake, ih]
  funext value
  rw [typeOf, typeOf, within, length_awake]

theorem awake_add (future : Future) :
    (futures.add id future).awake = futures.awake.add id future.awake := rfl

theorem awake_update (change change' : Future → Future)
    (same : ∀ future, (change future).awake = change' future.awake) :
    (futures.update id change).awake = futures.awake.update id change' := by
  simp only [awake, update, List.map_map]
  congr 1
  refine List.map_congr_left fun entry _ => ?_
  simp only [Function.comp]
  split
  · rw [same]
  · rfl

theorem awake_wait (who : Identity) :
    (futures.update id fun future => (future.wait who).2).awake = futures.awake := by
  rw [awake_update futures id _ (fun future => future) fun future => future.awake_wait who]
  simp [update]

end Futures

section Agreement

variable {σ : Type}

def Handler.Discreet (handler : Handler σ) : Prop :=
  ∀ futures args host, handler futures args host = handler futures.awake args host

/-- States that only differ in who waits for the futures, and in the number of slots in use. -/
structure Shared.Agrees (shared shared' : Shared σ) : Prop where
  host : shared.host = shared'.host
  futures : shared.futures.awake = shared'.futures.awake

namespace Shared.Agrees

variable {shared shared' : Shared σ} (agrees : shared.Agrees shared')
include agrees

theorem outcome? (id : Identity) : shared.futures.outcome? id = shared'.futures.outcome? id := by
  rw [← Futures.outcome?_awake, agrees.futures, Futures.outcome?_awake]

theorem typeOf : shared.futures.typeOf = shared'.futures.typeOf := by
  rw [← Futures.typeOf_awake, agrees.futures, Futures.typeOf_awake]

theorem fork (child : Identity) (number : Nat) :
    ({ shared with futures := shared.futures.add child (.pending number) } : Shared σ).Agrees
      { shared' with futures := shared'.futures.add child (.pending number) } where
  host := agrees.host
  futures := by
    simp only [Futures.awake_add, agrees.futures]

theorem settle (id : Identity) (outcome : Outcome) :
    ({ shared with futures := shared.futures.update id fun future =>
        (future.settle outcome).2 } : Shared σ).Agrees
      { shared' with futures := shared'.futures.update id fun future =>
        (future.settle outcome).2 } where
  host := agrees.host
  futures := by
    have commutes (futures : Futures) := futures.awake_update id _
      (fun future => (future.settle outcome).2) fun future => future.awake_settle outcome
    rw [commutes, commutes, agrees.futures]

theorem wait (id who : Identity) :
    ({ shared with futures := shared.futures.update id fun future =>
        (future.wait who).2 } : Shared σ).Agrees shared' where
  host := agrees.host
  futures := (Futures.awake_wait _ _ _).trans agrees.futures

end Shared.Agrees

namespace Task

variable {s : Setting σ} {shared shared' : Shared σ}
  (discreet : ∀ name handler, s.handler? name = some handler → handler.Discreet)
include discreet

theorem serve_agrees (agrees : shared.Agrees shared') (q : Query) (memory : Memory) :
    (s.serve q shared memory).1 = (s.serve q shared' memory).1 ∧
      (s.serve q shared memory).2.2 = (s.serve q shared' memory).2.2 ∧
      (s.serve q shared memory).2.1.Agrees (s.serve q shared' memory).2.1 := by
  cases q with
  | dispatch domain op args => exact ⟨by simp only [Setting.serve, agrees.typeOf], rfl, agrees⟩
  | perform effect args =>
    simp only [Setting.serve]
    cases found : s.handler? effect with
    | none => exact ⟨rfl, rfl, agrees⟩
    | some handler =>
      dsimp only
      have same : handler shared.futures args shared.host =
          handler shared'.futures args shared'.host := by
        rw [discreet effect handler found, agrees.futures, agrees.host,
          ← discreet effect handler found]
      exact ⟨congrArg Prod.fst same, rfl, congrArg Prod.snd same, agrees.futures⟩
  | _ => exact ⟨rfl, rfl, agrees⟩

/-- A task takes the same step in states that agree, and they agree after it. -/
theorem step_agrees (agrees : shared.Agrees shared') (task : Task) :
    (task.step s shared).outlook = (task.step s shared').outlook ∧
      (task.step s shared).shared.Agrees (task.step s shared').shared := by
  obtain ⟨control, frames, memory⟩ := task
  cases control with
  | done next =>
    cases next with
    | value v =>
      refine ⟨outlook_deliver v frames shared shared' memory, ?_⟩
      rwa [step, step, deliver_shared, deliver_shared]
    | job j => exact ⟨rfl, agrees⟩
  | fail fault =>
    refine ⟨outlook_unwind fault frames shared shared' memory, ?_⟩
    rwa [step, step, unwind_shared, unwind_shared]
  | call site job next =>
    simp only [step]
    split <;> exact ⟨rfl, agrees⟩
  | ask q next =>
    obtain ⟨answers, memories, agrees'⟩ := serve_agrees discreet agrees q memory
    exact ⟨by simp only [step, Progress.outlook, answers, memories], agrees'⟩
  | eval job next | fork label registers next | await id next => exact ⟨rfl, agrees⟩

theorem running_agrees (agrees : shared.Agrees shared') {task task' : Task} {after : Shared σ}
    (stepped : task.step s shared = .running after task') :
    ∃ after', task.step s shared' = .running after' task' ∧ after.Agrees after' := by
  obtain ⟨outlooks, agrees'⟩ := step_agrees discreet agrees task
  rw [stepped] at outlooks agrees'
  cases stepped' : task.step s shared' with
  | running after' task'' =>
    rw [stepped'] at outlooks agrees'
    cases outlooks
    exact ⟨after', rfl, agrees'⟩
  | ended outcome after' memory | waiting after' task'' =>
    rw [stepped'] at outlooks
    cases outlooks

theorem ended_agrees (agrees : shared.Agrees shared') {task : Task} {after : Shared σ}
    {outcome : Except Fault Value} {memory : Memory}
    (stepped : task.step s shared = .ended outcome after memory) :
    ∃ after' memory', task.step s shared' = .ended outcome after' memory' ∧
      after.Agrees after' := by
  obtain ⟨outlooks, agrees'⟩ := step_agrees discreet agrees task
  rw [stepped] at outlooks agrees'
  cases stepped' : task.step s shared' with
  | ended outcome' after' memory' =>
    rw [stepped'] at outlooks agrees'
    cases outlooks
    exact ⟨after', memory', rfl, agrees'⟩
  | running after' task'' | waiting after' task'' =>
    rw [stepped'] at outlooks
    cases outlooks

end Task
end Agreement

section Calls

variable {σ : Type} (s : Setting σ)

def Task.called? (task : Task) : Option (String × List Value) :=
  match task.control with
  | .ask (.perform effect args) _ => if s.hasHandler effect then some (effect, args) else none
  | _ => none

def Task.callsInPlace : Nat → Shared σ → Task → List (String × List Value)
  | 0, _, _ => []
  | fuel + 1, shared, task =>
    match task.step s shared with
    | .running shared task' => (task.called? s).toList ++ callsInPlace fuel shared task'
    | .ended _ _ _ => []
    | .waiting shared ⟨.fork label registers next, frames, memory⟩ =>
      let (child, memory) := memory.freshIdentity
      let number := shared.futures.entries.length + 1
      let forked := { shared with futures := shared.futures.add child (.pending number) }
      let calls := callsInPlace fuel forked (.atBlock s child label registers)
      match runInPlace s fuel forked (.atBlock s child label registers) with
      | none => calls
      | some (outcome, shared, _) =>
        let futures := shared.futures.update child fun future =>
          (future.settle (settlement outcome)).2
        calls ++
          callsInPlace fuel { shared with futures := futures } ⟨next (some child), frames, memory⟩
    | .waiting shared ⟨.await id next, frames, memory⟩ =>
      match shared.futures.outcome? id with
      | none => []
      | some outcome => callsInPlace fuel shared ⟨next outcome, frames, memory⟩
    | .waiting _ _ => []

variable {s}

theorem Task.called?_event? (task : Task) (who : Identity) (shared : Shared σ) :
    (task.event? s who shared).bind Event.called? = task.called? s := by
  obtain ⟨control, frames, memory⟩ := task
  cases control with
  | await id next =>
    simp only [event?, called?]
    cases shared.futures.outcome? id <;> rfl
  | ask q next =>
    cases q with
    | perform effect args =>
      simp only [event?, called?]
      split <;> rfl
    | _ => rfl
  | _ =>
    simp only [event?, called?]
    split <;> rfl

theorem Task.called?_of_ended {task : Task} {shared shared' : Shared σ}
    {outcome : Except Fault Value} {memory : Memory}
    (stepped : task.step s shared = .ended outcome shared' memory) : task.called? s = none := by
  obtain ⟨control, frames, memory⟩ := task
  cases control with
  | ask q next => cases stepped
  | _ => rfl

variable (s)

/-- A run in place: how the task ends, what is shared then, the calls that are made, and a bound for
the number of steps that other orders take for it. -/
inductive Task.Serial : Shared σ → Task → Except Fault Value → Shared σ →
    List (String × List Value) → Nat → Prop
  | ended {shared task outcome after memory}
    (stepped : task.step s shared = .ended outcome after memory) :
    Serial shared task outcome after [] 1
  | running {shared task after task' outcome last calls n}
    (stepped : task.step s shared = .running after task')
    (rest : Serial after task' outcome last calls n) :
    Serial shared task outcome last ((task.called? s).toList ++ calls) (n + 1)
  | fork {shared label registers next frames memory child later result after calls n outcome last
      more m}
    (fresh : Memory.freshIdentity memory = (child, later))
    (forked : Serial { shared with
        futures := shared.futures.add child (.pending (shared.futures.entries.length + 1)) }
      (.atBlock s child label registers) result after calls n)
    (rest : Serial { after with
        futures := after.futures.update child fun future => (future.settle (settlement result)).2 }
      ⟨next (some child), frames, later⟩ outcome last more m) :
    Serial shared ⟨.fork label registers next, frames, memory⟩ outcome last (calls ++ more)
      (n + m + 4)
  | await {shared id next frames memory result outcome last calls n}
    (settled : shared.futures.outcome? id = some result)
    (rest : Serial shared ⟨next result, frames, memory⟩ outcome last calls n) :
    Serial shared ⟨.await id next, frames, memory⟩ outcome last calls (n + 1)

variable {s}

theorem Task.runInPlace_serial (fuel : Nat) {shared shared' : Shared σ} {task : Task}
    {outcome : Except Fault Value} {memory' : Memory}
    (ran : runInPlace s fuel shared task = some (outcome, shared', memory')) :
    ∃ n, Task.Serial s shared task outcome shared' (callsInPlace s fuel shared task) n := by
  induction fuel generalizing shared shared' task outcome memory' with
  | zero => cases ran
  | succ fuel ih =>
    obtain ⟨control, frames, memory⟩ := task
    unfold runInPlace at ran
    unfold callsInPlace
    cases stepped : step s shared ⟨control, frames, memory⟩ with
    | running after task' =>
      simp only [stepped] at ran ⊢
      obtain ⟨n, rest⟩ := ih ran
      exact ⟨n + 1, .running stepped rest⟩
    | ended result after memory =>
      simp only [stepped] at ran ⊢
      cases ran
      exact ⟨1, .ended stepped⟩
    | waiting after task' =>
      obtain ⟨rfl, rfl⟩ := eq_of_waiting stepped
      rcases waits_of_step stepped with ⟨label, registers, next, rfl⟩ | ⟨id, next, rfl⟩
      · simp only [stepped] at ran ⊢
        cases inner : runInPlace s fuel { after with
            futures := after.futures.add memory.freshIdentity.1
              (.pending (after.futures.entries.length + 1)) }
            (.atBlock s memory.freshIdentity.1 label registers) with
        | none =>
          simp only [inner] at ran
          cases ran
        | some ended =>
          simp only [inner] at ran ⊢
          obtain ⟨n, forked⟩ := ih inner
          obtain ⟨m, rest⟩ := ih ran
          exact ⟨_, .fork rfl forked rest⟩
      · simp only [stepped] at ran ⊢
        cases settled : after.futures.outcome? id with
        | none =>
          simp only [settled] at ran
          cases ran
        | some result =>
          simp only [settled] at ran ⊢
          obtain ⟨n, rest⟩ := ih ran
          exact ⟨n + 1, .await settled rest⟩

namespace Task.Serial

variable {shared shared' last : Shared σ} {task task' : Task} {outcome result : Except Fault Value}
  {calls : List (String × List Value)} {n : Nat} {memory : Memory}

/-- No future is forgotten. -/
theorem known (serial : task.Serial s shared outcome last calls n) (id : Identity)
    (known : (shared.futures.get? id).isSome) : (last.futures.get? id).isSome := by
  induction serial with
  | @ended shared task _ _ _ stepped =>
    obtain ⟨host, rfl⟩ := shared_of_ended stepped
    exact known
  | @running shared task _ _ _ _ _ _ stepped _ ih =>
    obtain ⟨host, rfl⟩ := shared_of_running stepped
    exact ih known
  | fork _ _ _ first second =>
    refine second ?_
    rw [Futures.get?_update, Option.isSome_map]
    refine first ?_
    rw [Futures.get?_add]
    split
    · rfl
    · exact known
  | await _ _ ih => exact ih known

theorem of_running (serial : task.Serial s shared outcome last calls n)
    (stepped : task.step s shared = .running shared' task') :
    ∃ more m, calls = (task.called? s).toList ++ more ∧ n = m + 1 ∧
      task'.Serial s shared' outcome last more m := by
  cases serial with
  | ended stepped' =>
    rw [stepped] at stepped'
    cases stepped'
  | running stepped' rest =>
    rw [stepped] at stepped'
    cases stepped'
    exact ⟨_, _, rfl, rfl, rest⟩
  | fork fresh forked rest => cases stepped
  | await settled rest => cases stepped

theorem of_ended (serial : task.Serial s shared outcome last calls n)
    (stepped : task.step s shared = .ended result shared' memory) :
    n = 1 ∧ calls = [] ∧ result = outcome ∧ shared' = last := by
  cases serial with
  | ended stepped' =>
    rw [stepped] at stepped'
    cases stepped'
    exact ⟨rfl, rfl, rfl, rfl⟩
  | running stepped' rest =>
    rw [stepped] at stepped'
    cases stepped'
  | fork fresh forked rest => cases stepped
  | await settled rest => cases stepped

theorem of_fork {label : String} {registers : Bindings} {next : Option Identity → Plan Next}
    {frames : List Frame}
    (serial : Serial s shared ⟨.fork label registers next, frames, memory⟩ outcome last calls n) :
    ∃ result after own more k m, calls = own ++ more ∧ n = k + m + 4 ∧
      Serial s
        { shared with
          futures := shared.futures.add memory.freshIdentity.1
            (.pending (shared.futures.entries.length + 1)) }
        (.atBlock s memory.freshIdentity.1 label registers) result after own k ∧
      Serial s
        { after with
          futures := after.futures.update memory.freshIdentity.1 fun future =>
            (future.settle (settlement result)).2 }
        ⟨next (some memory.freshIdentity.1), frames, memory.freshIdentity.2⟩ outcome last more
        m := by
  cases serial with
  | ended stepped | running stepped _ => cases stepped
  | fork fresh forked rest =>
    cases fresh
    exact ⟨_, _, _, _, _, _, rfl, rfl, forked, rest⟩

theorem of_await {id : Identity} {next : Outcome → Plan Next} {frames : List Frame}
    (serial : Serial s shared ⟨.await id next, frames, memory⟩ outcome last calls n) :
    ∃ known m, shared.futures.outcome? id = some known ∧ n = m + 1 ∧
      Serial s shared ⟨next known, frames, memory⟩ outcome last calls m := by
  cases serial with
  | ended stepped | running stepped _ => cases stepped
  | await settled rest => exact ⟨_, _, settled, rfl, rest⟩

end Task.Serial
end Calls
end LayeredIR
