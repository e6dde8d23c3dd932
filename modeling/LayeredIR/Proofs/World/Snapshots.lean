import LayeredIR.Proofs.Openings
import LayeredIR.Proofs.World.Registers

/-! The state of control-flow documents. A closure takes a read-only copy of what it sees along, so
neither a later write to a register nor another task changes what its names look up; and
instructions write nothing but their target. -/
namespace LayeredIR

def Job.values : Job → List Value
  | .apply callee args => callee :: args
  | _ => []

def Query.values : Query → List Value
  | .define _ _ v _ | .assign _ _ v | .remember _ v => [v]
  | .compute _ args | .dispatch _ _ args | .perform _ args => args
  | _ => []

def Plan.values : Plan Next → List Value
  | .done (.value v) => [v]
  | .done (.job job) | .eval job _ | .call _ job _ => job.values
  | .ask q _ => q.values
  | .fork _ registers _ => registers.map fun entry => entry.2.value
  | .fail _ | .await _ _ => []

/-- The values that are held in a world: bound in a scope of a task, kept for a node, in hand, or
how a task has ended. -/
inductive World.Has {σ : Type} (w : World σ) : Value → Prop
  | bound {who phase task place scope entry} (member : (who, phase) ∈ w.tasks)
    (runs : phase.task? = some task) (found : task.memory.heap.get? place = some scope)
    (binds : entry ∈ scope.bindings) : Has w entry.2.value
  | kept {who phase task entry} (member : (who, phase) ∈ w.tasks)
    (runs : phase.task? = some task) (keeps : entry ∈ task.memory.kept) : Has w entry.2
  | hand {who phase task v} (member : (who, phase) ∈ w.tasks) (runs : phase.task? = some task)
    (given : v ∈ task.control.values) : Has w v
  | ended {who phase v} (member : (who, phase) ∈ w.tasks) (ends : phase.outcome? = some (.ok v)) :
    Has w v
  | settled {id v} (settled : w.shared.futures.outcome? id = some (.ok v)) : Has w v
  | outcome {v} (ends : w.outcome = some (.ok v)) : Has w v

section Values

variable {σ : Type} {s : Setting σ} {D : Discipline s} {c : List CallSite} {w : Shape}

theorem Discipline.Jobs.values {job : Job} (jobs : D.Jobs c w job) :
    ∀ v ∈ job.values, D.value w v := by
  cases jobs with
  | apply _ function held => exact List.forall_mem_cons.mpr ⟨function, held⟩
  | operand | expr | block => exact fun _ => nofun

theorem Discipline.Queries.values {q : Query} (queries : D.Queries w q) :
    ∀ v ∈ q.values, D.value w v := by
  cases q with
  | define | assign => simpa [Query.values] using queries.2
  | remember =>
    intro v member
    cases List.mem_singleton.mp member
    exact queries
  | compute => exact queries
  | dispatch | perform => exact queries.2
  | lookup | child | enter | flatten | fresh | isActive | innermost | recollect =>
    exact fun _ => nofun

theorem Plan.Heeds.values {p : Plan Next} (heeds : p.Heeds D c (D.Nexts c) w) :
    ∀ v ∈ p.values, D.value w v := by
  cases heeds with
  | done wanted =>
    cases wanted with
    | value held => simpa [Plan.values] using held
    | job jobs => exact jobs.values
  | fail | await => exact fun _ => nofun
  | eval jobs => exact Discipline.Jobs.values jobs
  | call permitted => exact Discipline.Jobs.values permitted.2
  | ask queries => exact Discipline.Queries.values queries
  | fork permitted =>
    intro v member
    obtain ⟨entry, among, rfl⟩ := List.mem_map.mp member
    exact permitted.2 entry among

/-- Where tasks, what they share and how they end hold values of a kind only, a world does. -/
theorem World.Ruled.has {G : Regime σ} {P : Value → Prop} {w : World σ} (ruled : World.Ruled G w)
    (memory : ∀ task, G.task task → task.memory.Holds P)
    (hand : ∀ task, G.task task → ∀ v ∈ task.control.values, P v)
    (shares : ∀ futures host, G.shares futures host → futures.All P)
    (result : ∀ v, G.result (.ok v) → P v) {v : Value} (has : w.Has v) : P v := by
  cases has with
  | bound member runs found binds =>
    exact (memory _ (ruled.tasks _ _ _ member runs)).heap _ _ found _ binds
  | kept member runs keeps => exact (memory _ (ruled.tasks _ _ _ member runs)).kept _ keeps
  | hand member runs given => exact hand _ (ruled.tasks _ _ _ member runs) _ given
  | ended member ends => exact result _ (ruled.ended _ _ _ member ends)
  | settled settled => exact shares _ _ ruled.shares _ _ settled
  | outcome ends => exact result _ (ruled.outcome _ ends)

/-- All that is held in an orderly world is permitted. -/
theorem World.Orderly.has {P : Heap → Prop} (governs : D.Governs P) {w : World σ} {v : Value}
    (orderly : World.Orderly D P w) (has : w.Has v) : D.value [] v := by
  refine (World.orderly_iff.mp orderly).has ?_ ?_ ?_ ?_ has
  · rintro task ⟨w, c, heeds, -⟩
    exact ⟨fun place scope found entry binds =>
      governs.value [] (heeds.memory.bindings place scope found entry binds),
      fun entry keeps => governs.value [] (heeds.memory.kept entry keeps)⟩
  · rintro task ⟨w, c, heeds, -⟩ v given
    exact governs.value [] (heeds.control.values v given)
  · exact fun futures host shares => shares.settled
  · exact fun v result => result v rfl

end Values

namespace World

variable {σ : Type} {s : Setting σ} {shared shared' : Shared σ} {task task' : Task}

def alone (shared : Shared σ) (task : Task) : World σ :=
  ⟨shared, [(entryTask, .running task)], 0, none⟩

def ofProgress : Progress σ → World σ
  | .running shared task | .waiting shared task => alone shared task
  | .ended outcome shared _ => ⟨shared, [], 0, some outcome⟩

theorem alone_step {progress : Progress σ} (stepped : task.step s shared = progress)
    (goes : ∀ shared' task', progress ≠ .waiting shared' task') :
    (alone shared task).canStep entryTask ∧
      (alone shared task).step s entryTask = ofProgress progress := by
  subst stepped
  obtain ⟨control, frames, memory⟩ := task
  cases control with
  | fork label registers next => exact absurd rfl (goes shared _)
  | await id next => exact absurd rfl (goes shared _)
  | _ =>
    refine ⟨rfl, ?_⟩
    simp only [alone, step, stepAmong, if_true, stepPhase, stepRunning]
    cases Task.step s shared _ <;> rfl

/-- The states of a task that runs alone are worlds of a run. -/
theorem path_after (n : Nat) (shared : Shared σ) (task : Task) :
    ∃ k, Path s (.replicate k entryTask) (alone shared task)
      (ofProgress (task.after s (fun _ shared => shared) n shared)) := by
  induction n generalizing shared task with
  | zero => exact ⟨0, .nil⟩
  | succ n ih =>
    unfold Task.after
    cases stepped : task.step s shared with
    | running shared' task' =>
      obtain ⟨awake, goes⟩ := alone_step stepped (by rintro _ _ ⟨⟩)
      obtain ⟨k, path⟩ := ih shared' task'
      exact ⟨k + 1, .cons awake (goes ▸ path)⟩
    | ended outcome shared' memory =>
      obtain ⟨awake, ends⟩ := alone_step stepped (by rintro _ _ ⟨⟩)
      exact ⟨1, .cons awake (ends ▸ .nil)⟩
    | waiting shared' task' =>
      obtain ⟨control, frames, memory⟩ := task
      rcases Task.waits_of_step stepped with ⟨_, _, _, rfl⟩ | ⟨_, _, rfl⟩
      all_goals
        cases stepped
        exact ⟨0, .nil⟩

/-- What the state of a control-flow document comes to from a world on. -/
structure Snapshots (s : Setting σ) (w : World σ) : Prop where
  closures : ∀ v, w.Has v → v.Closures Closure.IsSnapshot
  copies : ∀ who phase task place scope, (who, phase) ∈ w.tasks → phase.task? = some task →
    registerScope < place → task.memory.heap.get? place = some scope → scope.parent = none →
    (∀ entry ∈ scope.bindings, entry.2.mutability = .immutable) ∧
      ∀ schedule w' phase' task', Path s schedule w w' → (who, phase') ∈ w'.tasks →
        phase'.task? = some task' → task'.memory.heap.get? place = some scope
  /-- What a closure sees is what was visible where it was made, in whatever memory it is
  called. -/
  captures : ∀ params body a shared frames memory, ∃ c : Closure,
    c.params = params ∧ c.body = body ∧
    Task.Leads s shared ⟨s.plan (.expr (.lambda params body) a), frames, memory⟩ shared
      ⟨.done (.value (.closure c)), frames, memory.freshIdentity.2⟩ ∧
    ∀ shared' memory' name,
      (s.serve (.enter c.captured) shared' memory').2.2.heap.lookup
        (s.serve (.enter c.captured) shared' memory').1 name = memory.heap.lookup a name
  instructions : ∀ who i next frames memory, i.hasOperand = false →
    (who, .running ⟨s.instruction i >>= next, frames, memory⟩) ∈ w.tasks →
    ∀ schedule w', Path s schedule w w' →
      Performs s who i next frames memory.heap schedule w w'

theorem lambda_captures (lir : s.layer = .lir) (params : List String) (body : Arg) (a : ScopeId)
    (shared : Shared σ) (frames : List Frame) (memory : Memory) : ∃ c : Closure,
    c.params = params ∧ c.body = body ∧
    Task.Leads s shared ⟨s.plan (.expr (.lambda params body) a), frames, memory⟩ shared
      ⟨.done (.value (.closure c)), frames, memory.freshIdentity.2⟩ ∧
    ∀ shared' memory' name,
      (s.serve (.enter c.captured) shared' memory').2.2.heap.lookup
        (s.serve (.enter c.captured) shared' memory').1 name = memory.heap.lookup a name := by
  let c : Closure :=
    ⟨memory.freshIdentity.1, params, body, .frozen (memory.heap.flatten a).values, false⟩
  have plan : s.plan (.expr (.lambda params body) a) =
      .ask (.flatten a) fun visible => .ask .fresh fun id =>
        .done (.value (.closure ⟨id, params, body, .frozen visible.values, false⟩)) := by
    have copies : s.layer.copiesCaptures := by rw [lir]; rfl
    have allowed : ¬ s.layer < (Expr.lambda params body).minLayer := by
      rw [lir]
      exact (by decide : ¬ Layer.lir < Layer.cir)
    simp only [Setting.plan, Setting.expression, if_neg allowed, Setting.form, Setting.capture,
      copies, if_true]
    rfl
  refine ⟨c, rfl, rfl, ?_, fun shared' memory' name => memory.heap.lookup_copied _ a name⟩
  rw [plan]
  exact .step rfl (.step rfl (.refl _ _))

section Running

variable {kept : σ → Closure → Prop} (lir : s.layer = .lir) (borrows : s.Borrows kept) {w : World σ}
  (tidy : w.Tidy) (reached : w.TasksReached s)
  (orderly : Orderly (Discipline.snapshots s kept 2 True) Heap.Sealed w)
include lir borrows tidy reached orderly

theorem instruction_performs {who : Identity} {i : Instruction} (reads : i.hasOperand = false)
    {next : Unit → Plan Next} {frames : List Frame} {memory : Memory}
    (member : (who, .running ⟨s.instruction i >>= next, frames, memory⟩) ∈ w.tasks)
    {schedule : List Identity} {w' : World σ} (path : Path s schedule w w') :
    Performs s who i next frames memory.heap schedule w w' := by
  obtain ⟨_, _, runs, sealed_⟩ := orderly.tasks who _ _ member rfl
  obtain ⟨bindings, own⟩ := sealed_.registers
  obtain ⟨rootBindings, root, empty⟩ := (reached who _ _ member rfl).keepsRoot.rooted
  have bare : rootBindings = [] := empty (by rw [lir]; decide)
  subst bare
  let D := Discipline.snapshots s kept memory.heap.size False
  have laws : D.Laws := Discipline.snapshots_laws lir borrows
  obtain ⟨part, same, heeds⟩ :=
    s.instruction_parts (D := D) (c := []) (w := []) laws lir reads
  have stands : D.Stands [] [] memory :=
    ⟨⟨rfl, fun _ _ => nofun⟩, runs.memory.bindings, runs.memory.kept, trivial⟩
  have fenced : memory.heap.Fenced memory.heap.size :=
    ⟨root, fun place scope outer beyond found =>
      absurd (Heap.lt_size_of_get? found) (Nat.not_lt_of_le beyond)⟩
  have grows : memory.heap.Grows memory.heap.size memory.heap :=
    ⟨.refl memory.heap (Nat.le_refl _), fenced⟩
  have within : D.Within (memory.heap.Grows memory.heap.size)
      (fun v => Plan.writeTarget i.target? v >>= next) frames
      ⟨s.instruction i >>= next, frames, memory⟩ := by
    rw [same, bind_assoc]
    exact .top heeds stands grows
  exact path.performs lir borrows own tidy orderly member within

theorem Orderly.snapshots : Snapshots s w where
  closures v has := orderly.has (Discipline.snapshots_governs lir borrows) has
  copies who phase task place scope member runs new found alone := by
    obtain ⟨_, _, _, sealed_⟩ := orderly.tasks who phase task member runs
    refine ⟨sealed_.copies place scope new found alone, ?_⟩
    intro schedule w' phase' task' path member' runs'
    obtain ⟨-, -, since⟩ := path.orderly (Discipline.snapshots_governs lir borrows)
      (Q := Heap.KeepsCopies) tidy orderly Heap.KeepsCopies.refl
      fun _ _ _ _ shaped sealed_ kept change =>
        kept.trans (Discipline.snapshots_advances shaped sealed_ change).2
    exact since.heaps who phase task phase' task' member runs member' runs' place scope new found
      alone
  captures := lambda_captures lir
  instructions _ _ _ _ _ reads member _ _ path :=
    instruction_performs lir borrows tidy reached orderly reads member path

end Running
end World

theorem Setting.borrows_builtin : ({} : Setting Unit).Borrows fun _ _ => False :=
  ⟨by simp, fun _ _ found => Domains.builtin_conserves found, fun _ _ _ _ _ _ => nofun⟩

namespace FlowDocument

variable {σ : Type}

theorem borrows_setting (doc : FlowDocument) (graph : FlowGraph) {s : Setting σ}
    {kept : σ → Closure → Prop} (borrows : s.Borrows kept) : (doc.setting s graph).Borrows kept :=
  borrows.of_same rfl rfl fun _ _ found => found

theorem path_orderly {doc : FlowDocument} {graph : FlowGraph} {s : Setting σ} {host : σ}
    {kept : σ → Closure → Prop} {P : Heap → Prop}
    (governs : (Discipline.snapshots (doc.setting s graph) kept 2 True).Governs P)
    (borrows : s.Borrows kept) (none : ∀ c, ¬ kept host c) {schedule : List Identity} {w : World σ}
    (path : World.Path (doc.setting s graph) schedule (doc.start s graph host) w) :
    w.Tidy ∧ World.Orderly (Discipline.snapshots (doc.setting s graph) kept 2 True) P w := by
  have registers : s.inputRegisters.All fun v => v.Closures Closure.IsSnapshot :=
    .ofValues .mutable borrows.registers
  have first : World.Orderly (Discipline.snapshots (doc.setting s graph) kept 2 True) P
      (doc.start s graph host) := .start governs graph.entry.id registers none
  have tidy := World.Tidy.start (doc.setting s graph) graph.entry.id s.inputRegisters host
  refine ⟨path.invariant tidy fun who w tidy awake => tidy.step who w awake, ?_⟩
  exact path.invariant first fun who w orderly awake => orderly.step governs who w awake

/-- In every world that a control-flow document comes to, whatever order its tasks take their steps
in, closures are over read-only copies that no step changes, and instructions write their targets
only. The states of the evaluator that runs one task are such worlds. -/
theorem path_snapshots (doc : FlowDocument) (graph : FlowGraph) (s : Setting σ) (host : σ)
    (structured : doc.graph = .ok graph) (kept : σ → Closure → Prop) (borrows : s.Borrows kept)
    (none : ∀ c, ¬ kept host c) :
    (∀ schedule w, World.Path (doc.setting s graph) schedule (doc.start s graph host) w →
      World.Snapshots (doc.setting s graph) w) ∧
    ∀ o n, doc.opening s = .ok o → ∃ k,
      World.Path (doc.setting s graph) (.replicate k entryTask) (doc.start s graph host)
        (.ofProgress (o.task.after o.setting (fun _ shared => shared) n (Opening.fresh host))) := by
  constructor
  · intro schedule w path
    have borrows' := doc.borrows_setting graph borrows
    have governs := Discipline.snapshots_governs rfl borrows'
    obtain ⟨tidy, orderly⟩ := path_orderly governs borrows none path
    exact orderly.snapshots rfl borrows' tidy (.path path)
  · intro o n opens
    obtain ⟨graph', structured', same, starts⟩ := opening_eq_ok opens
    cases structured.symm.trans structured'
    obtain ⟨k, path⟩ := World.path_after (s := o.setting) n (Opening.fresh host) o.task
    rw [same, starts] at path
    rw [same, starts]
    exact ⟨k, path⟩

def lateWriteBlock : Block where
  id := "main"
  instructions :=
    [.assign "x" (.inline (.lit (.int 1))), .assign "f" (.inline (.lambda [] (.id "x"))),
      .assign "x" (.inline (.lit (.int 2))), .call "y" "f" []]
  terminator := .ret (some "y")

def lateWrite : FlowDocument := ⟨"1.0.0", "main", [], [lateWriteBlock]⟩

def lateWriteGraph : FlowGraph := ⟨lateWriteBlock, [lateWriteBlock]⟩

def lateWriteSetting : Setting Unit := lateWrite.setting {} lateWriteGraph

def seesOne : Closure := ⟨[1], [], .id "x", .frozen [("x", .int 1)], false⟩

/-- The call begins when the register is overwritten, and goes by the copy. -/
theorem path_snapshots_lateWrite : ∃ (w : World Unit) (memory : Memory) (schedule : List Identity),
    memory.heap.get? registerScope = some
      ⟨[("x", ⟨.int 2, .mutable⟩), ("f", ⟨.closure seesOne, .mutable⟩)], none⟩ ∧
    seesOne.IsSnapshot ∧
    World.Performs lateWriteSetting entryTask (.call "y" "f" [])
      (fun _ => lateWriteSetting.terminator (.ret (some "y"))) [] memory.heap schedule w
      (w.run lateWriteSetting 12) ∧
    (w.run lateWriteSetting 12).result? = some (.ok (.int 1)) := by
  have all := (path_snapshots lateWrite lateWriteGraph ({} : Setting Unit) () (by rfl) _
    Setting.borrows_builtin fun _ => id).1
  have tidy : World.Tidy (lateWrite.start {} lateWriteGraph ()) :=
    .start lateWriteSetting "main" [] ()
  -- after 15 steps the call begins, and 12 more end the run
  obtain ⟨w, same⟩ : ∃ w, w = (lateWrite.start {} lateWriteGraph ()).run lateWriteSetting 15 :=
    ⟨_, rfl⟩
  obtain ⟨memory, tasks, registers⟩ : ∃ memory,
      w.tasks = [(entryTask, .running ⟨lateWriteSetting.instructions [.call "y" "f" []] >>= fun _ =>
        lateWriteSetting.terminator (.ret (some "y")), [], memory⟩)] ∧
      memory.heap.get? registerScope = some
        ⟨[("x", ⟨.int 2, .mutable⟩), ("f", ⟨.closure seesOne, .mutable⟩)], none⟩ := by
    subst same
    exact ⟨_, by rfl, by rfl⟩
  have result : (w.run lateWriteSetting 12).result? = some (.ok (.int 1)) := by
    subst same
    rfl
  obtain ⟨before, path⟩ : ∃ before,
      World.Path lateWriteSetting before (lateWrite.start {} lateWriteGraph ()) w :=
    same ▸ tidy.path_run 15
  have tidy' : w.Tidy := path.invariant tidy fun who w tidy awake => tidy.step who w awake
  obtain ⟨schedule, rest⟩ := tidy'.path_run (s := lateWriteSetting) 12
  have snapshots := all before w path
  refine ⟨w, memory, schedule, registers, ?_, ?_, result⟩
  · have member : (entryTask, _) ∈ w.tasks := tasks ▸ List.mem_singleton.mpr rfl
    have binds : ("f", Binding.mk (.closure seesOne) .mutable) ∈
        [("x", ⟨.int 2, .mutable⟩), ("f", ⟨.closure seesOne, .mutable⟩)] := by simp
    exact (snapshots.closures _ (.bound member rfl registers binds)).self _ rfl
  · refine snapshots.instructions entryTask _ _ _ _ rfl ?_ schedule _ rest
    rw [tasks]
    simp only [Setting.instructions, bind_assoc, List.mem_singleton, pure_bind]
    rfl

end FlowDocument
end LayeredIR
