import LayeredIR.Proofs.Openings
import LayeredIR.Proofs.World.Nested
import LayeredIR.Proofs.World.Snapshots

/-! Control-flow documents without forks and joins. Their one task never waits for another, so
whoever runs tasks side by side takes the steps of this task and no others. -/
namespace LayeredIR

variable {σ : Type} {s : Setting σ}

theorem Setting.target_straight (label : String) : (s.target label).Straight := by
  unfold Setting.target
  split <;> trivial

theorem Setting.terminator_straight {t : Terminator} (sequential : t.isConcurrent = false) :
    (s.terminator t).Straight := by
  cases t with
  | jump label => exact (s.target_straight label).bind fun _ => trivial
  | branch cond thenLabel elseLabel =>
    refine (Plan.readRegister_straight cond).bind fun test => ?_
    have tested : (Plan.condition test).Straight := by cases test <;> trivial
    refine tested.bind fun holds => ?_
    cases holds with
    | true => exact (s.target_straight thenLabel).bind fun _ => trivial
    | false => exact (s.target_straight elseLabel).bind fun _ => trivial
  | ret value =>
    cases value with
    | none => trivial
    | some name => exact (Plan.readRegister_straight name).bind fun _ => trivial
  | fork | join => cases sequential

def Setting.Sequential (s : Setting σ) : Prop :=
  ∀ block ∈ s.blocks, block.terminator.isConcurrent = false

theorem Setting.Sequential.plan_straight (sequential : s.Sequential) (layer : s.layer = .lir)
    (job : Job) : (s.plan job).Straight := by
  cases job with
  | operand | expr | apply => exact Setting.plan_straight layer (by simp)
  | block label =>
    simp only [Setting.plan, Setting.block]
    cases found : s.block? label with
    | none => trivial
    | some block =>
      exact (Setting.instructions_straight layer block.instructions).bind
        fun _ => Setting.terminator_straight (sequential block (Setting.block_mem found))

theorem Plan.straight_lasting : Plan.Lasting fun plan => plan.Straight where
  done _ := trivial
  fail _ := trivial
  eval straight := straight
  call straight := straight
  ask straight := straight

section Task

variable {shared : Shared σ} {task : Task}

theorem Task.Lasts.not_waiting (straight : task.Lasts fun plan => plan.Straight)
    (shared' : Shared σ) (task' : Task) : task.step s shared ≠ .waiting shared' task' := by
  intro stepped
  have here := straight.control
  rcases waits_of_step stepped with ⟨label, registers, next, waits⟩ | ⟨id, next, waits⟩
  all_goals
    rw [waits] at here
    exact here

/-- A task alone settles no futures. -/
theorem Task.after_futures (n : Nat) (shared : Shared σ) (task : Task) :
    (task.after s (fun _ shared => shared) n shared).shared.futures = shared.futures := by
  induction n generalizing shared task with
  | zero => rfl
  | succ n ih =>
    obtain ⟨host, kept⟩ := Task.step_shared s shared task
    unfold after
    cases stepped : task.step s shared with
    | running shared' task' =>
      rw [stepped] at kept
      rw [ih, show shared' = _ from kept]
    | ended | waiting =>
      rw [stepped] at kept
      rw [kept]

theorem Task.called?_eq_effect? (task : Task) :
    (task.called? s).toList = task.effect?.toList.filter fun call => s.hasHandler call.1 := by
  obtain ⟨control, frames, memory⟩ := task
  cases control with
  | ask q next =>
    cases q with
    | perform effect args =>
      simp only [called?, effect?]
      cases known : s.hasHandler effect <;> simp [known]
    | _ => rfl
  | _ => rfl

end Task

namespace World

variable {shared : Shared σ} {task : Task} (plans : ∀ job, (s.plan job).Straight)
  (straight : task.Lasts fun plan => plan.Straight)

theorem shared_ofProgress (progress : Progress σ) :
    (ofProgress progress).shared = progress.shared := by
  cases progress <;> rfl

theorem result?_ofProgress (progress : Progress σ) :
    ((ofProgress progress).result?.map fun outcome =>
        (outcome, (ofProgress progress).shared.host)) =
      progress.result?.map fun (outcome, shared, _) => (outcome, shared.host) := by
  cases progress <;> rfl

theorem canStep_ofEnded {outcome : Except Fault Value} {memory : Memory} (who : Identity) :
    ¬ (ofProgress (.ended outcome shared memory)).canStep who := by
  simp [ofProgress, canStep]

theorem eq_entryTask {who : Identity} (awake : (alone shared task).canStep who) :
    who = entryTask := by
  by_contra other
  have differs : (who == entryTask) = false := by simpa using other
  simp [alone, canStep, List.lookup_cons, differs] at awake

include plans straight in
/-- All that the world of a task that never waits can do is to run the task. -/
theorem path_alone {schedule : List Identity} {w : World σ}
    (path : Path s schedule (alone shared task) w) :
    w = ofProgress (task.after s (fun _ shared => shared) schedule.length shared) ∧
      ((alone shared task).trace s schedule).filterMap Event.called? =
        (task.performed s (fun _ shared => shared) schedule.length shared).filter
          fun call => s.hasHandler call.1 := by
  induction schedule generalizing shared task with
  | nil =>
    cases path
    exact ⟨rfl, rfl⟩
  | cons who schedule ih =>
    cases path with
    | cons awake rest =>
      obtain rfl := eq_entryTask awake
      have still (shared' : Shared σ) (task' : Task) :
          task.step s shared ≠ .waiting shared' task' := straight.not_waiting shared' task'
      obtain ⟨-, goes⟩ := alone_step rfl still
      have told : ((alone shared task).event? s entryTask).toList.filterMap Event.called? =
          task.effect?.toList.filter fun call => s.hasHandler call.1 := by
        rw [← Task.called?_eq_effect?, ← Task.called?_event? task entryTask shared]
        change (task.event? s entryTask shared).toList.filterMap Event.called? = _
        cases task.event? s entryTask shared with
        | none => rfl
        | some event => cases called : event.called? <;> simp [called]
      rw [goes] at rest
      simp only [trace, goes, List.length_cons, Task.after, Task.performed, List.filterMap_append,
        told]
      cases stepped : task.step s shared with
      | running shared' task' =>
        rw [stepped] at rest
        obtain ⟨same, calls⟩ := ih (straight.step Plan.straight_lasting plans stepped) rest
        exact ⟨same, by rw [List.filter_append]; exact congrArg _ calls⟩
      | ended outcome shared' memory =>
        rw [stepped] at rest
        cases rest with
        | nil => exact ⟨rfl, by simp [trace]⟩
        | cons awake _ => exact absurd awake (canStep_ofEnded _)
      | waiting shared' task' => exact absurd stepped (straight.not_waiting shared' task')

theorem run_ofEnded (fuel : Nat) (outcome : Except Fault Value) (memory : Memory) :
    (ofProgress (.ended outcome shared memory)).run s fuel =
      ofProgress (.ended outcome shared memory) := by
  cases fuel <;> rfl

include plans straight in
theorem run_alone (fuel : Nat) : (alone shared task).run s fuel =
    ofProgress (task.after s (fun _ shared => shared) fuel shared) := by
  induction fuel generalizing shared task with
  | zero => rfl
  | succ fuel ih =>
    have still (shared' : Shared σ) (task' : Task) : task.step s shared ≠ .waiting shared' task' :=
      straight.not_waiting shared' task'
    obtain ⟨awake, goes⟩ := alone_step rfl still
    have first : (alone shared task).firstAwake = some entryTask := by
      simpa [firstAwake, alone, canStep] using awake
    simp only [run, first, goes, Task.after]
    cases stepped : task.step s shared with
    | running shared' task' => exact ih (straight.step Plan.straight_lasting plans stepped)
    | ended outcome shared' memory => exact run_ofEnded fuel outcome memory
    | waiting shared' task' => exact absurd stepped (straight.not_waiting shared' task')

end World

namespace FlowDocument

variable (doc : FlowDocument) (s : Setting σ)

theorem sequential_setting {doc : FlowDocument} {graph : FlowGraph}
    (structured : doc.graph = .ok graph) (sequential : doc.hasFork = false) :
    (doc.setting s graph).Sequential := by
  intro block member
  have none : doc.concurrentBlock? = none := by simpa [hasFork] using sequential
  have all := List.find?_eq_none.mp none
  have same : (doc.setting s graph).blocks = doc.blocks := (graph_eq_ok_iff.mp structured).2.2
  rw [same] at member
  simpa using all block member

theorem opening_of_sequential {doc : FlowDocument} {graph : FlowGraph}
    (structured : doc.graph = .ok graph) (sequential : doc.hasFork = false) :
    doc.opening s = .ok ⟨doc.setting s graph,
      .atBlock (doc.setting s graph) entryTask graph.entry.id s.inputRegisters⟩ := by
  have none : doc.concurrentBlock? = none := by simpa [hasFork] using sequential
  simp [opening, needsConcurrency, none, structured]

/-- Without forks and joins, whoever runs tasks side by side comes to what the evaluator of one task
comes to, in as many steps and with the same calls of handlers, in whatever order it would take the
steps of several tasks. With one, the evaluator of one task refuses the document, whether or not it
is well formed, and calls no handler. -/
theorem evaluateConcurrent_sequential (host : σ) :
    (doc.hasFork = false →
      (∀ fuel, doc.evaluateConcurrent s fuel host =
        (doc.evaluate s fuel host).map fun (outcome, host) => (outcome, .empty, host)) ∧
      ∀ graph schedule w, doc.graph = .ok graph →
        World.Path (doc.setting s graph) schedule (doc.start s graph host) w →
        (w.result?.map fun outcome => (outcome, w.shared.host)) =
            doc.evaluate s schedule.length host ∧
          ((doc.start s graph host).trace (doc.setting s graph) schedule).filterMap Event.called? =
            (Opening.calls (doc.opening s) schedule.length host).filter
              fun call => s.hasHandler call.1) ∧
    (doc.hasFork = true → ∃ detail, ∀ fuel,
      doc.evaluate s fuel host = some (.error (.ofCause (.invalidControlFlow detail)), host) ∧
        Opening.calls (doc.opening s) fuel host = []) := by
  refine ⟨fun sequential => ?_, fun concurrent => ?_⟩
  · have none : doc.concurrentBlock? = none := by simpa [hasFork] using sequential
    cases structured : doc.graph with
    | error e =>
      refine ⟨fun fuel => ?_, fun _ _ _ ok => nomatch ok⟩
      simp [evaluateConcurrent, evaluate, needsConcurrency, none, structured]
    | ok graph =>
      have plans := (sequential_setting s structured sequential).plan_straight rfl
      let task := Task.atBlock (doc.setting s graph) entryTask graph.entry.id s.inputRegisters
      have straight : task.Lasts fun plan => plan.Straight := ⟨trivial, nofun⟩
      have opens := opening_of_sequential s structured sequential
      let progress (n : Nat) := task.after (doc.setting s graph) (fun _ shared => shared) n
        (Opening.fresh host)
      have ends (n : Nat) : ((World.ofProgress (progress n)).result?.map fun outcome =>
          (outcome, (World.ofProgress (progress n)).shared.host)) = doc.evaluate s n host := by
        rw [World.result?_ofProgress, evaluate_eq, opens]
        exact congrArg (Option.map _) (Task.run_eq_after n (Opening.fresh host) task).symm
      refine ⟨fun fuel => ?_, fun graph' schedule w same path => ?_⟩
      · have ran : (doc.start s graph host).run (doc.setting s graph) fuel =
            World.ofProgress (progress fuel) := World.run_alone plans straight fuel
        have unforked : (World.ofProgress (progress fuel)).shared.futures = .empty := by
          rw [World.shared_ofProgress]
          exact Task.after_futures fuel (Opening.fresh host) task
        unfold evaluateConcurrent
        simp only [structured, ran, ← ends, unforked, Option.map_map]
        rfl
      · cases same
        obtain ⟨rfl, calls⟩ := World.path_alone plans straight path
        refine ⟨ends schedule.length, ?_⟩
        rw [opens]
        exact calls
  · obtain ⟨block, found⟩ := Option.isSome_iff_exists.mp concurrent
    refine ⟨"`" ++ block.terminator.name ++ "` in block `" ++ block.id ++
      "` requires the concurrent evaluator", fun fuel => ?_⟩
    simp [evaluate, opening, needsConcurrency, found, Opening.calls]

def tickTwice : FlowDocument where
  version := "1.0.0"
  entry := "main"
  definitions := []
  blocks :=
    [⟨"main", [.assign "n" (.inline (.lit (.int 0))), .assign "two" (.inline (.lit (.int 2)))],
        .jump "loop"⟩,
      ⟨"loop", [.effect (some "n") "tick" [], .op "more" none "lt" ["n", "two"]],
        .branch "more" "loop" "end"⟩,
      ⟨"end", [], .ret (some "n")⟩]

/-- The only task takes 28 steps and ticks twice, whoever runs it. -/
theorem evaluateConcurrent_sequential_tickTwice :
    tickTwice.evaluate counting 28 0 = some (.ok (.int 2), 2) ∧
      tickTwice.evaluateConcurrent counting 28 0 = some (.ok (.int 2), .empty, 2) ∧
      (∀ graph schedule w, tickTwice.graph = .ok graph → schedule.length = 28 →
        World.Path (tickTwice.setting counting graph) schedule
          (tickTwice.start counting graph 0) w →
        (w.result?.map fun outcome => (outcome, w.shared.host)) = some (.ok (.int 2), 2) ∧
        ((tickTwice.start counting graph 0).trace (tickTwice.setting counting graph)
          schedule).filterMap Event.called? = [("tick", []), ("tick", [])]) ∧
      ∃ detail, ∀ fuel, forkJoin.evaluate counting fuel 0 =
        some (.error (.ofCause (.invalidControlFlow detail)), 0) := by
  obtain ⟨same, any⟩ := (evaluateConcurrent_sequential tickTwice counting 0).1 rfl
  obtain ⟨detail, refused⟩ := (evaluateConcurrent_sequential forkJoin counting 0).2 rfl
  have ran : tickTwice.evaluate counting 28 0 = some (.ok (.int 2), 2) := by rfl
  refine ⟨ran, ?_, fun graph schedule w structured long path => ?_, detail, fun fuel =>
    (refused fuel).1⟩
  · rw [same 28, ran]
    rfl
  · obtain ⟨ends, calls⟩ := any graph schedule w structured path
    rw [long] at ends calls
    exact ⟨ends.trans ran, calls⟩

end FlowDocument
end LayeredIR
