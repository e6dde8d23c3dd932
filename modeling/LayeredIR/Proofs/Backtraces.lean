import LayeredIR.Proofs.Arising
import LayeredIR.Proofs.Backtraces.Worlds
import LayeredIR.Proofs.CallLimit

/-! The backtrace of a failure is the stack at the place where it arose. A run fails as it would if
the names of the enclosing calls were passed down and stamped on each failure where it is created.
So a backtrace is never longer than calls may nest, and that of a call that is refused is exactly
as long. -/
namespace LayeredIR

variable {σ : Type} {s : Setting σ} {shared shared' : Shared σ} {task : Task} {last : Fault}

structure Fault.Refused (fault : Fault) (limit : Nat) : Prop where
  cause : fault.cause = .recursionLimitExceeded limit
  frames : fault.backtrace.map (fun backtrace => backtrace.frames.length) =
    if limit = 0 then none else some limit

theorem Fault.refused_stamped (c : List CallSite) :
    (stamped (.recursionLimitExceeded c.length) c).Refused c.length where
  cause := rfl
  frames := by cases c <;> simp [stamped]

section Unwinding

inductive Task.Unwinds (s : Setting σ) (last : Fault) : Task → Prop
  | ends {task : Task}
    (stepped : ∀ shared, task.step s shared = .ended (.error last) shared task.memory) :
    Unwinds s last task
  | goes {task later : Task} (stepped : ∀ shared, task.step s shared = .running shared later)
    (rest : Unwinds s last later) : Unwinds s last task

/-- A failure that is raised within some calls ends the task with their names as its backtrace. -/
theorem Setting.Live.unwinds {frames : List Frame} {c : List CallSite} {memory : Memory}
    (live : s.Live [] [] frames c) (has : memory.Has s.config.maxCallDepth c) (fault : Fault) :
    Task.Unwinds s (memory.stack.attach fault) ⟨.fail fault, frames, memory⟩ := by
  induction live generalizing memory fault with
  | bottom =>
    refine .ends fun shared => ?_
    rw [has.stack]
    rfl
  | resume _ _ _ ih => exact .goes (fun _ => rfl) (ih has fault)
  | leave _ _ _ ih =>
    refine .goes (fun _ => rfl) ?_
    -- from here on the failure has a backtrace, and the calls further out add nothing to it
    have unwinds := ih has.leave (memory.stack.attach fault)
    rw [has.stack, CallStack.attach_attach] at unwinds
    rwa [has.stack]

namespace Task

/-- A call is refused where as many are live as may be. -/
theorem Overflows.unwinds (overflows : task.Overflows) (accounts : ∃ c, task.Accounts s [] [] c) :
    ∃ last, task.Unwinds s last ∧ last.Refused s.config.maxCallDepth := by
  obtain ⟨control, frames, memory⟩ := task
  obtain ⟨site, job, next, rfl, full⟩ := overflows
  obtain ⟨c, accounts⟩ := accounts
  have full : memory.stack.isFull = true := full
  have has : memory.Has s.config.maxCallDepth c := accounts.has
  have live : s.Live [] [] frames c := accounts.frames
  have filled : c.length = s.config.maxCallDepth := by
    rw [has.stack, CallStack.isFull_ofCalls] at full
    exact Nat.le_antisymm live.sound.room (of_decide_eq_true full)
  refine ⟨_, .goes (fun _ => step_full full) (live.unwinds has _), ?_⟩
  rw [has.stack, CallStack.attach_ofCalls (Fault.ofCause_bare _)]
  exact filled ▸ Fault.refused_stamped c

theorem Unwinds.run {fuel : Nat} {outcome : Except Fault Value} {memory' : Memory}
    (unwinds : task.Unwinds s last)
    (ran : Task.run s fuel shared task = some (outcome, shared', memory')) :
    outcome = .error last := by
  induction unwinds generalizing fuel with
  | ends stepped =>
    cases fuel with
    | zero => cases ran
    | succ fuel =>
      rw [Task.run, stepped] at ran
      cases ran
      rfl
  | goes stepped _ ih =>
    cases fuel with
    | zero => cases ran
    | succ fuel =>
      rw [Task.run, stepped] at ran
      exact ih ran

/-- A run goes on from where it has come to. -/
theorem run_add_of_after {n : Nat} {task' : Task}
    (comes : task.after s (fun _ shared => shared) n shared = .running shared' task') (fuel : Nat) :
    Task.run s (fuel + n) shared task = Task.run s fuel shared' task' := by
  induction n generalizing shared task with
  | zero =>
    cases comes
    rfl
  | succ n ih =>
    simp only [after] at comes
    rw [← Nat.add_assoc, Task.run]
    generalize stepped : task.step s shared = progress at comes
    cases progress with
    | running shared₁ later => exact ih comes
    | ended | waiting => cases comes

end Task

namespace World

inductive Unwinds (s : Setting σ) (last : Fault) (w : World σ) : Prop
  | goes {task : Task} (member : (entryTask, .running task) ∈ w.tasks)
    (unwinds : task.Unwinds s last)
  | ended (outcome : w.outcome = some (.error last))
    (gone : ∀ phase, (entryTask, phase) ∉ w.tasks)

theorem Unwinds.step {w : World σ} {who : Identity} (unwinds : w.Unwinds s last) (tidy : w.Tidy)
    (awake : w.canStep who) : (w.step s who).Unwinds s last := by
  obtain ⟨shared, tasks, forked, outcome⟩ := w
  obtain ⟨before, phase, after, change, rfl, -, -, move, whole⟩ := exists_move (s := s) awake
  rw [whole]
  have here : (who, phase) ∈ before ++ [(who, phase)] ++ after :=
    mem_replace.mpr (.inr (.inl rfl))
  by_cases entry : who = entryTask
  · subst entry
    cases unwinds with
    | ended _ gone => exact absurd here (gone phase)
    | @goes task member unwinds =>
      obtain rfl := tidy.unique here member
      cases unwinds with
      | ends ends =>
        cases move with
        | finish _ stepped =>
          cases (ends shared).symm.trans stepped
          exact .ended rfl fun p => by simpa using tidy.alone p
        | go stepped => cases (ends shared).symm.trans stepped
        | stop forked => exact absurd rfl forked
        | claim | refuse | answer | sleep => cases ends shared
      | goes goes rest =>
        cases move with
        | go stepped =>
          cases (goes shared).symm.trans stepped
          exact .goes (mem_replace.mpr (.inr (.inl rfl))) rest
        | finish _ stepped => cases (goes shared).symm.trans stepped
        | stop forked => exact absurd rfl forked
        | claim | refuse | answer | sleep => cases goes shared
  · obtain ⟨names, none⟩ := move.forked entry
    rw [none]
    cases unwinds with
    | ended outcome gone =>
      refine .ended outcome fun p member => ?_
      rcases List.mem_append.mp member with early | late
      · rcases List.mem_append.mp early with early | own
        · exact gone p (mem_replace.mpr (.inl early))
        · exact names _ own rfl
      · exact gone p (mem_replace.mpr (.inr (.inr late)))
    | goes member unwinds =>
      rcases mem_replace.mp member with early | same | late
      · exact .goes (List.mem_append_left _ (List.mem_append_left _ early)) unwinds
      · exact absurd (congrArg Prod.fst same).symm entry
      · exact .goes (List.mem_append_right _ late) unwinds

theorem Unwinds.path {schedule : List Identity} {w w' : World σ} (unwinds : w.Unwinds s last)
    (tidy : w.Tidy) (path : Path s schedule w w') : w'.Unwinds s last :=
  (path.invariant (P := fun w => w.Tidy ∧ w.Unwinds s last) ⟨tidy, unwinds⟩
    fun who w held awake => ⟨held.1.step who w awake, held.2.step held.1 awake⟩).2

/-- Once no task is left, the run has ended with the failure. -/
theorem Unwinds.result? {w : World σ} (unwinds : w.Unwinds s last) {outcome : Except Fault Value}
    (ended : w.result? = some outcome) : outcome = .error last := by
  unfold World.result? at ended
  split at ended
  · next none =>
    cases unwinds with
    | goes member => simp [List.isEmpty_iff.mp none] at member
    | ended same =>
      rw [same] at ended
      cases ended
      rfl
  · cases ended

end World
end Unwinding

def Opening.stamping (fuel : Nat) (o : Opening σ) : Opening σ :=
  ⟨o.setting, o.task.stamping o.setting fuel⟩

namespace FlowDocument

def startStamping (doc : FlowDocument) (s : Setting σ) (graph : FlowGraph) (fuel : Nat) (host : σ) :
    World σ :=
  let task := Task.atBlock (doc.setting s graph) entryTask graph.entry.id s.inputRegisters
  .alone (Opening.fresh host) (task.stamping (doc.setting s graph) fuel)

def evaluateStamping (doc : FlowDocument) (s : Setting σ) (fuel : Nat) (host : σ) :
    Option (Except Fault Value × Futures × σ) :=
  match doc.graph with
  | .error e => some (.error (.ofCause e.cause), .empty, host)
  | .ok graph =>
    let w := (doc.startStamping s graph fuel host).run (doc.setting s graph) fuel
    w.result?.map fun outcome => (outcome, w.shared.futures, w.shared.host)

end FlowDocument

/-- How the evaluations of a document fail that run one task, as a function of the fuel. -/
structure Evaluation.Backtraced (opening : Except Cause (Opening σ)) (limit : Nat) (host : σ)
    (evaluate : Nat → Evaluation σ) : Prop where
  /-- As if each failure were stamped with the enclosing calls where it is created. -/
  stamped : ∀ fuel, evaluate fuel = Opening.evaluate (opening.map (.stamping fuel)) fuel host
  within : ∀ fuel fault host', evaluate fuel = some (.error fault, host') → fault.Within limit
  refused : ∀ o n shared task, opening = .ok o →
    o.task.after o.setting (fun _ shared => shared) n (Opening.fresh host) =
      .running shared task → task.Overflows →
    ∀ fuel outcome host', evaluate fuel = some (outcome, host') →
      ∃ fault, outcome = .error fault ∧ fault.Refused limit

/-- How the runs of a control-flow document fail, whatever the order of the steps of its tasks. They
fail as the entry task does: the failure of another one is an error value, which a join raises anew
in the task that waits. -/
structure FlowDocument.Backtraced (doc : FlowDocument) (s : Setting σ) (host : σ) : Prop where
  evaluated : ∀ fuel, doc.evaluateConcurrent s fuel host = doc.evaluateStamping s fuel host
  stamped : ∀ graph schedule w, doc.graph = .ok graph →
    World.Path (doc.setting s graph) schedule (doc.start s graph host) w →
    ∃ w', World.Path (doc.setting s graph) schedule
        (doc.startStamping s graph schedule.length host) w' ∧
      w'.outcome = w.outcome ∧ w'.result? = w.result? ∧ w'.shared = w.shared
  within : ∀ w fault, doc.Reaches s host w → w.outcome = some (.error fault) →
    fault.Within s.config.maxCallDepth
  refused : ∀ graph before after w w' task outcome, doc.graph = .ok graph →
    World.Path (doc.setting s graph) before (doc.start s graph host) w →
    (entryTask, .running task) ∈ w.tasks → task.Overflows →
    World.Path (doc.setting s graph) after w w' → w'.result? = some outcome →
      ∃ fault, outcome = .error fault ∧ fault.Refused s.config.maxCallDepth

section Runs

/-- Without calls there is nothing to take from a memory. -/
theorem Memory.Has.callless_eq {memory : Memory} {limit : Nat} (has : memory.Has limit []) :
    memory.callless = memory := by
  obtain ⟨owner, heap, serial, stack, active, kept⟩ := memory
  obtain ⟨rfl, rfl⟩ := has
  rfl

theorem Task.follows_stamping {job : Job} {memory : Memory}
    (has : memory.Has s.config.maxCallDepth []) (fuel : Nat) :
    (Task.start job memory).Follows s fuel ((Task.start job memory).stamping s fuel) := by
  have follows : (Task.start job memory).Follows s fuel
      ⟨s.reference fuel [] (.done (.job job)) >>= Plan.ending, [], memory.callless⟩ :=
    .runs (Nat.le_refl fuel) (.done trivial) .bottom has
  rwa [has.callless_eq] at follows

variable (handlers : ∀ name handler, s.handler? name = some handler → handler.Bare)
include handlers

theorem Task.Follows.run {fuel : Nat} {task' : Task} (follows : task.Follows s fuel task') :
    Option.Rel (fun final final' => final.1 = final'.1 ∧ final.2.1 = final'.2.1 ∧
        ∀ fault, final.1 = .error fault → fault.Within s.config.maxCallDepth)
      (Task.run s fuel shared task) (Task.run s fuel shared task') := by
  induction fuel generalizing shared task task' with
  | zero => exact .none
  | succ fuel ih =>
    have steps := follows.step handlers shared
    simp only [Task.run]
    generalize task.step s shared = progress, task'.step s shared = progress' at steps
    cases steps with
    | running follows => exact ih follows
    | ended within => exact .some ⟨rfl, rfl, within⟩
    | waiting => exact .none

end Runs

section Evaluators

variable {host : σ}

structure Opening.Begins (limit : Nat) (o : Opening σ) : Prop where
  ceiling : o.setting.config.maxCallDepth = limit
  handlers : ∀ name handler, o.setting.handler? name = some handler → handler.Bare
  task : ∃ job memory, o.task = .start job memory ∧ memory.Has o.setting.config.maxCallDepth []
  arises : o.setting.Arises o.task

theorem Opening.backtraced {opening : Except Cause (Opening σ)} {limit : Nat}
    (begins : ∀ o, opening = .ok o → o.Begins limit) :
    Evaluation.Backtraced opening limit host (evaluate opening · host) := by
  cases opening with
  | error cause =>
    refine ⟨fun _ => rfl, fun _ fault _ ran => ?_, nofun⟩
    cases ran
    nofun
  | ok o =>
    obtain ⟨rfl, handlers, ⟨job, memory, starts, has⟩, arises⟩ := begins o rfl
    have follows (fuel : Nat) : o.task.Follows o.setting fuel (o.task.stamping o.setting fuel) := by
      rw [starts]
      exact Task.follows_stamping has fuel
    have runs (fuel : Nat) : Option.Rel _ (Task.run o.setting fuel (fresh host) o.task)
        (Task.run o.setting fuel (fresh host) (o.task.stamping o.setting fuel)) :=
      (follows fuel).run handlers
    constructor
    case stamped =>
      intro fuel
      have same := runs fuel
      simp only [evaluate, Except.map, stamping]
      generalize Task.run o.setting fuel (fresh host) o.task = final,
        Task.run o.setting fuel (fresh host) (o.task.stamping o.setting fuel) = final' at same
      cases same with
      | none => rfl
      | some parts => simp only [Option.map_some, parts.1, parts.2.1]
    case within =>
      intro fuel fault host' ran
      obtain ⟨⟨outcome, shared', memory'⟩, ended, same⟩ := Option.map_eq_some_iff.mp ran
      cases same
      have same := runs fuel
      rw [ended] at same
      generalize Task.run o.setting fuel (fresh host) (o.task.stamping o.setting fuel) = final'
        at same
      cases same with
      | some parts => exact parts.2.2 fault rfl
    case refused =>
      intro o' n shared task same comes overflows fuel outcome host' ran
      cases same
      obtain ⟨⟨outcome, shared', memory'⟩, ended, same⟩ := Option.map_eq_some_iff.mp ran
      cases same
      have arises := Opening.world_arises arises host n
      rw [world, comes] at arises
      obtain ⟨last, unwinds, refused⟩ :=
        overflows.unwinds (arises entryTask _ task (List.mem_singleton_self _) rfl).accounts
      have later := (Task.run_mono ended (Nat.le_add_right fuel n)).1
      rw [Task.run_add_of_after comes] at later
      exact ⟨last, unwinds.run later, refused⟩

variable (handlers : ∀ name handler, s.handler? name = some handler → handler.Bare)
include handlers

theorem Document.opening_begins {doc : Document} {layer top : Layer} {o : Opening σ} (host : σ)
    (opens : doc.opening s layer top = .ok o) : o.Begins s.config.maxCallDepth := by
  obtain ⟨prepared, starts⟩ := opening_eq_ok opens
  obtain ⟨nodes, -, same⟩ := setting_eq_ok prepared
  exact ⟨by rw [same], by rwa [same], ⟨_, _, starts, rfl, rfl⟩, opening_arises opens host⟩

namespace FlowDocument

theorem opening_begins {doc : FlowDocument} {o : Opening σ} (opens : doc.opening s = .ok o) :
    o.Begins s.config.maxCallDepth := by
  obtain ⟨graph, -, same, starts⟩ := opening_eq_ok opens
  refine ⟨by rw [same]; rfl, by rwa [same], ⟨_, _, starts, ?_⟩, opening_arises opens⟩
  rw [same]
  exact ⟨rfl, rfl⟩

omit handlers in
theorem start_follows (doc : FlowDocument) (graph : FlowGraph) (fuel : Nat) :
    (doc.start s graph host).Follows (doc.setting s graph) fuel
      (doc.startStamping s graph fuel host) where
  shared := rfl
  tasks := .cons ⟨rfl, .running (Task.follows_stamping ⟨rfl, rfl⟩ fuel)⟩ .nil
  forked := rfl
  outcome := rfl
  within := nofun

theorem backtraced (doc : FlowDocument) : doc.Backtraced s host := by
  have kept (graph : FlowGraph) : ∀ name handler,
      (doc.setting s graph).handler? name = some handler → handler.Bare := handlers
  have paths {graph : FlowGraph} {schedule : List Identity} {w : World σ}
      (path : World.Path (doc.setting s graph) schedule (doc.start s graph host) w) :=
    (doc.start_follows graph schedule.length).path (kept graph) (k := 0) path
  constructor
  case evaluated =>
    intro fuel
    unfold evaluateConcurrent evaluateStamping
    cases doc.graph with
    | error e => rfl
    | ok graph =>
      have starts : (doc.start s graph host).Follows (doc.setting s graph) fuel
          (doc.startStamping s graph fuel host) := doc.start_follows graph fuel
      have follows := starts.run (kept graph)
      simp only [follows.result?, follows.shared]
  case stamped =>
    intro graph schedule w _ path
    obtain ⟨w', path', follows⟩ := paths path
    exact ⟨w', path', follows.outcome.symm, follows.result?.symm, follows.shared.symm⟩
  case within =>
    rintro w fault ⟨graph, schedule, -, path⟩ failed
    obtain ⟨w', -, follows⟩ := paths path
    exact follows.within fault failed
  case refused =>
    intro graph before after w w' task outcome structured path member overflows rest ended
    have arises : (doc.setting s graph).ArisesIn w := .path path (.start (.block ..) trivial)
    have tidy : w.Tidy := path.invariant (.start ..) fun who w tidy awake => tidy.step who w awake
    obtain ⟨last, unwinds, refused⟩ :=
      overflows.unwinds (arises entryTask _ task member rfl).accounts
    exact ⟨last, ((World.Unwinds.goes member unwinds).path tidy rest).result? ended, refused⟩

end FlowDocument
end Evaluators

/-- The backtrace of a failure is the stack at the place where it arose, in every evaluator, as long
as no handler of an effect gives a failure a backtrace of its own. -/
theorem evaluate_backtraced {σ : Type} (s : Setting σ) (host : σ)
    (handlers : ∀ name handler, s.handler? name = some handler → handler.Bare) :
    (∀ doc : Document, Evaluation.Backtraced (doc.openingAirCir s) s.config.maxCallDepth host
      (doc.evaluateAirCir s · host)) ∧
    (∀ doc : Document, Evaluation.Backtraced (doc.openingEir s) s.config.maxCallDepth host
      (doc.evaluateEir s · host)) ∧
    (∀ doc : FlowDocument, Evaluation.Backtraced (doc.opening s) s.config.maxCallDepth host
      (doc.evaluate s · host)) ∧
    ∀ doc : FlowDocument, doc.Backtraced s host := by
  refine ⟨fun doc => ?_, fun doc => ?_, fun doc => ?_, FlowDocument.backtraced handlers⟩
  · simp only [Document.evaluateAirCir_eq]
    exact Opening.backtraced fun o opens =>
      Document.opening_begins (s := { s with effects := none }) nofun host opens
  · simp only [Document.evaluateEir_eq]
    exact Opening.backtraced fun o opens => Document.opening_begins handlers host opens
  · simp only [FlowDocument.evaluate_eq]
    exact Opening.backtraced fun o opens => FlowDocument.opening_begins handlers opens

def Document.failingWithin : Document where
  version := "1.0.0"
  layer := some .eir
  definitions := []
  nodes := [⟨"outer", .ref "inner"⟩, ⟨"inner", .effect "fail" []⟩]
  result := .id "outer"

def Setting.failing : Setting Unit where
  effects := some (Effects.empty.register "fail" fun _ _ host =>
    (.error (.ofCause .divisionByZero), host))

theorem evaluate_backtraced_failingWithin :
    Document.failingWithin.evaluateEir Setting.failing 40 () =
        some (.error ⟨.divisionByZero, some ⟨["outer", "inner"]⟩⟩, ()) ∧
      Opening.evaluate ((Document.failingWithin.openingEir Setting.failing).map (.stamping 40))
        40 () = some (.error ⟨.divisionByZero, some ⟨["outer", "inner"]⟩⟩, ()) := by
  have handlers : ∀ name handler, Setting.failing.handler? name = some handler → handler.Bare := by
    intro name handler found
    obtain ⟨before, after, split, -⟩ := List.lookup_eq_some_iff.mp found
    have member : (name, handler) ∈ (Effects.empty.register "fail" fun _ _ (host : Unit) =>
      ((.error (.ofCause .divisionByZero) : Except Fault Value), host)).handlers := by simp [split]
    cases List.mem_singleton.mp member
    rintro _ _ _ _ ⟨⟩
    rfl
  have ran : Document.failingWithin.evaluateEir Setting.failing 40 () =
      some (.error ⟨.divisionByZero, some ⟨["outer", "inner"]⟩⟩, ()) := by rfl
  have backtraced := (evaluate_backtraced Setting.failing () handlers).2.1 Document.failingWithin
  exact ⟨ran, (backtraced.stamped 40).symm.trans ran⟩

end LayeredIR
