import LayeredIR.Proofs.Charter.Worlds
import LayeredIR.Proofs.Graph
import LayeredIR.Proofs.Openings

/-! The labels that runs go to. What a graph is checked for is what its blocks go on at, so each
label that a run comes to stands for one block, whatever the run has done before and however its
tasks take turns. An evaluator therefore never finds a label missing: where a run fails for its
flow, the failure is the host's or that of an error value. -/
namespace LayeredIR

theorem Cause.of_flow {cause : Cause} (same : cause.code = "InvalidControlFlow") :
    (∃ e, cause = .raised e) ∨ ∃ detail, cause = .invalidControlFlow detail := by
  cases cause with
  | raised e => exact .inl ⟨e, rfl⟩
  | invalidControlFlow detail => exact .inr ⟨detail, rfl⟩
  | _ => exact absurd same (by simp [Cause.code])

def Job.label? : Job → Option String
  | .block label => some label
  | _ => none

def Task.label? (task : Task) : Option String :=
  match task.control with
  | .fork label _ _ => some label
  | _ => task.begun?.bind Job.label?

/-- The next step of a task fails since a handler answers so, or a domain of the host, which may
fail otherwise than computing does. -/
inductive Task.HostFails {σ : Type} (s : Setting σ) (shared : Shared σ) : Task → Cause → Prop
  | handler {effect args next frames memory handler fault}
    (found : s.handler? effect = some handler)
    (answer : (handler shared.futures args shared.host).1 = .error fault) :
    HostFails s shared ⟨.ask (.perform effect args) next, frames, memory⟩ fault.cause
  | domain {name d op args next frames memory cause} (found : s.domains.find? name = some d)
    (foreign : ¬ d.Operational)
    (answer : d.call shared.futures.typeOf op args = .error cause) :
    HostFails s shared ⟨.ask (.dispatch d op args) next, frames, memory⟩ cause

def World.Fails {σ : Type} (w : World σ) (fault : Fault) : Prop :=
  (∃ who phase task, (who, phase) ∈ w.tasks ∧ phase.task? = some task ∧
      task.control = .fail fault) ∨
    (∃ who phase, (who, phase) ∈ w.tasks ∧ phase.outcome? = some (.error fault)) ∨
    w.outcome = some (.error fault)

namespace Charter

variable {σ : Type} (s : Setting σ) (told : Cause → Prop)

def flow : Charter s where
  value _ := True
  cause cause := (∀ detail, cause ≠ .invalidControlFlow detail) ∨ told cause
  label label := label ∈ s.blocks.map Block.id
  base := 0
  scope _ := True
  declared _ _ := True
  host _ := True

variable {s told}

theorem flow_admits (job : Job) : (flow s told).Admits job := by
  unfold Admits
  split
  · exact fun _ => .inl (Nat.zero_le _)
  · trivial

theorem flow_shares (futures : Futures) (host : σ) : (flow s told).Shares futures host :=
  ⟨fun _ _ _ => trivial, trivial⟩

theorem exists_block {label : String} (known : label ∈ s.blocks.map Block.id) :
    ∃ block, s.block? label = some block := by
  obtain ⟨block, member, same⟩ := List.mem_map.mp known
  exact Option.isSome_iff_exists.mp (List.find?_isSome.mpr ⟨block, member, by simpa using same⟩)

theorem flow_laws (closed : ∀ block ∈ s.blocks, ∀ label ∈ block.terminator.successors,
    label ∈ s.blocks.map Block.id) : (flow s told).Laws where
  literal _ := trivial
  list _ _ _ := trivial
  future _ := trivial
  closure _ := trivial
  captured {c} _ := by
    cases c.captured with
    | shared _ => trivial
    | frozen _ => exact fun _ _ => trivial
  input _ := trivial
  compute _ _ := trivial
  cause_own own := .inl own
  cause_label known missing := by
    obtain ⟨block, found⟩ := exists_block known
    cases found.symm.trans missing
  successor _ found member := closed _ (Setting.block_mem found) _ member
  registers _ := ⟨trivial, fun _ => trivial⟩
  young _ := trivial

/-- Where the failures of the host are told, the host is heard. -/
theorem flow_heard {shared : Shared σ} {task : Task}
    (tells : ∀ cause, task.HostFails s shared cause → told cause) :
    (flow s told).Heard shared task := by
  obtain ⟨control, frames, memory⟩ := task
  rintro q next rfl
  cases q with
  | dispatch d op args =>
    rintro ⟨name, found⟩ -
    refine ⟨fun _ _ => trivial, fun cause failed => ?_⟩
    by_cases operational : d.Operational
    · exact .inl ((operational _ op args).of_error failed).ne_flow
    · exact .inr (tells cause (.domain found operational failed))
  | perform effect args =>
    exact fun handler found _ => ⟨⟨fun _ _ => trivial, fun fault failed =>
      .inr (tells _ (.handler found failed))⟩, trivial⟩
  | _ => trivial

/-- A task is only ever at labels that are known. -/
theorem Runs.label {C : Charter s} {bottom : List Frame} {task : Task} (runs : C.Runs bottom task)
    {label : String} (here : task.label? = some label) : C.label label := by
  unfold Task.label? at here
  split at here
  · next control =>
    cases here
    have upholds := runs.control
    rw [control] at upholds
    cases upholds with
    | fork permitted _ => exact permitted.1
  · obtain ⟨job, begun, same⟩ := Option.bind_eq_some_iff.mp here
    have jobs := runs.begun begun
    cases jobs with
    | block known =>
      cases same
      exact known
    | _ => cases same

/-- No task is in a failure that the charter forbids. -/
theorem Runs.fault {C : Charter s} {bottom : List Frame} {task : Task} (runs : C.Runs bottom task)
    {fault : Fault} (failed : task.control = .fail fault) : C.cause fault.cause := by
  have upholds := runs.control
  rw [failed] at upholds
  cases upholds with
  | fail allowed => exact allowed

theorem Reached.fault {C : Charter s} {progress : Progress σ} (reached : C.Reached progress)
    {fault : Fault} (failed : progress.fault? = some fault) : C.cause fault.cause := by
  cases reached with
  | ended results _ _ =>
    unfold Progress.fault? at failed
    split at failed
    · next same => cases same
    · next same =>
      cases same
      cases failed
      exact results.cause _ rfl
    · cases failed
  | running _ runs =>
    unfold Progress.fault? at failed
    split at failed
    · next same =>
      cases same
      cases failed
      exact runs.fault rfl
    · next same => cases same
    · cases failed
  | waiting _ _ => cases failed

theorem of_flow_cause (told : Cause → Prop) {cause : Cause} (allowed : (flow s told).cause cause)
    (same : cause.code = "InvalidControlFlow") : (∃ e, cause = .raised e) ∨ told cause := by
  rcases Cause.of_flow same with raised | ⟨detail, rfl⟩
  · exact .inl raised
  · exact allowed.imp_left fun own => absurd rfl (own detail)

end Charter

namespace FlowDocument

variable {σ : Type} (doc : FlowDocument)

structure Resolves (s : Setting σ) (label : String) (block : Block) : Prop where
  found : s.block? label = some block
  among : block ∈ doc.blocks
  named : block.id = label
  only : ∀ other ∈ doc.blocks, other.id = label → other = block

def Follows (s : Setting σ) (label : String) : Prop :=
  ∃ block, doc.Resolves s label block ∧
    ∀ next ∈ block.terminator.successors, ∃ other, doc.Resolves s next other

/-- A task alone goes to blocks that there are; where it fails for its flow, an error value says so,
or the host did in an earlier step. -/
structure SoundAlone (o : Opening σ) (host : σ) (n : Nat) : Prop where
  labels : ∀ shared task label,
    o.task.after o.setting (fun _ shared => shared) n (Opening.fresh host) = .running shared task →
    task.label? = some label → doc.Follows o.setting label
  faults : ∀ fault,
    (o.task.after o.setting (fun _ shared => shared) n (Opening.fresh host)).fault? = some fault →
    fault.cause.code = "InvalidControlFlow" →
    (∃ e, fault.cause = .raised e) ∨ ∃ m < n, ∃ shared task,
      o.task.after o.setting (fun _ shared => shared) m (Opening.fresh host) =
        .running shared task ∧ task.HostFails o.setting shared fault.cause

structure SoundTogether (s : Setting σ) (first : World σ) (schedule : List Identity)
    (w : World σ) : Prop where
  labels : ∀ who phase task label, (who, phase) ∈ w.tasks → phase.task? = some task →
    task.label? = some label → doc.Follows s label
  faults : ∀ fault, w.Fails fault → fault.cause.code = "InvalidControlFlow" →
    (∃ e, fault.cause = .raised e) ∨ ∃ before who after w₁ task, schedule = before ++ who :: after ∧
      World.Path s before first w₁ ∧ (who, .running task) ∈ w₁.tasks ∧
      task.HostFails s w₁.shared fault.cause

section Structured

variable {doc} {s : Setting σ} {graph : FlowGraph} (structured : doc.graph = .ok graph)
include structured

theorem setting_blocks : (doc.setting s graph).blocks = doc.blocks :=
  (graph_eq_ok_iff.mp structured).2.2

theorem exists_resolves {label : String} (known : label ∈ doc.labels) :
    ∃ block, doc.Resolves (doc.setting s graph) label block := by
  have blocks := setting_blocks (s := s) structured
  have listed : label ∈ (doc.setting s graph).blocks.map Block.id := by
    rw [blocks]
    exact known
  obtain ⟨block, found⟩ := Charter.exists_block listed
  have member : block ∈ doc.blocks := blocks ▸ Setting.block_mem found
  have named : block.id = label := by simpa using List.find?_some found
  refine ⟨block, found, member, named, fun other among same => ?_⟩
  exact List.inj_on_of_nodup_map (graph_eq_ok_iff.mp structured).1.distinct among member
    (same.trans named.symm)

theorem follows {label : String} (known : label ∈ doc.labels) :
    doc.Follows (doc.setting s graph) label := by
  obtain ⟨block, resolves⟩ := exists_resolves (s := s) structured known
  have leads := (graph_eq_ok_iff.mp structured).1.leads
  exact ⟨block, resolves, fun next successor =>
    exists_resolves structured (leads block resolves.among next successor)⟩

theorem flow_laws (told : Cause → Prop) : (Charter.flow (doc.setting s graph) told).Laws := by
  refine Charter.flow_laws ?_
  rw [setting_blocks structured]
  exact (graph_eq_ok_iff.mp structured).1.leads

theorem flow_start (told : Cause → Prop) (who : Identity) :
    (Charter.flow (doc.setting s graph) told).Runs []
      (.atBlock (doc.setting s graph) who graph.entry.id s.inputRegisters) := by
  obtain ⟨-, found, blocks⟩ := graph_eq_ok_iff.mp structured
  have known : graph.entry.id ∈ (doc.setting s graph).blocks.map Block.id := by
    rw [setting_blocks structured]
    exact List.mem_map_of_mem (List.mem_of_find?_eq_some found)
  exact Charter.runs_atBlock (Nat.zero_le 2) known who fun _ _ => trivial

theorem soundTogether {host : σ} {schedule : List Identity} {w : World σ}
    (path : World.Path (doc.setting s graph) schedule (doc.start s graph host) w) :
    doc.SoundTogether (doc.setting s graph) (doc.start s graph host) schedule w := by
  -- what the host is told to have failed with is what it failed with on the way
  let told (cause : Cause) : Prop := ∃ before who after w₁ task, schedule = before ++ who :: after ∧
    World.Path (doc.setting s graph) before (doc.start s graph host) w₁ ∧
    (who, .running task) ∈ w₁.tasks ∧ task.HostFails (doc.setting s graph) w₁.shared cause
  have laws := flow_laws (s := s) structured told
  have kept := Charter.kept laws Charter.flow_admits (Nat.zero_le 2)
  have started : World.Ruled (Charter.flow (doc.setting s graph) told).regime
      (doc.start s graph host) :=
    .start (flow_start structured told entryTask) (Charter.flow_shares _ _)
  have ruled := path.ruled kept started fun before who after w₁ task split path member =>
    Charter.flow_heard fun cause fails => ⟨before, who, after, w₁, task, split, path, member, fails⟩
  refine ⟨fun who phase task label member runs here => ?_, fun fault fails same => ?_⟩
  · have known := (ruled.tasks who phase task member runs).label here
    refine follows structured ?_
    rw [labels, ← setting_blocks (s := s) structured]
    exact known
  · refine Charter.of_flow_cause (s := doc.setting s graph) told ?_ same
    rcases fails with ⟨who, phase, task, member, runs, failed⟩ | ⟨who, phase, member, ends⟩ | ended
    · exact (ruled.tasks who phase task member runs).fault failed
    · exact (ruled.ended who phase _ member ends).cause fault rfl
    · exact (ruled.outcome _ ended).cause fault rfl

omit structured in
theorem soundAlone {o : Opening σ} (opens : doc.opening s = .ok o) (host : σ) (n : Nat) :
    doc.SoundAlone o host n := by
  obtain ⟨graph, structured, setting, task⟩ := opening_eq_ok opens
  let told (cause : Cause) : Prop := ∃ m < n, ∃ shared task,
    o.task.after o.setting (fun _ shared => shared) m (Opening.fresh host) =
      .running shared task ∧ task.HostFails o.setting shared cause
  have laws : (Charter.flow o.setting told).Laws := setting ▸ flow_laws structured told
  have runs : (Charter.flow o.setting told).Runs [] o.task := by
    rw [task, setting]
    exact flow_start structured told entryTask
  have reached := runs.after laws Charter.flow_admits (Charter.flow_shares _ _) n
    fun m shared task before came =>
      Charter.flow_heard fun cause fails => ⟨m, before, shared, task, came, fails⟩
  refine ⟨fun shared task label came here => ?_, fun fault failed same => ?_⟩
  · rw [came] at reached
    cases reached with
    | running _ runs' =>
      have known := runs'.label here
      rw [setting]
      refine follows structured ?_
      rw [labels, ← setting_blocks (s := s) structured, ← setting]
      exact known
  · exact Charter.of_flow_cause told (reached.fault failed) same

end Structured

/-- The graph of a document is checked exactly, and what is checked suffices: no run of it, of one
task or of several in any order, comes to a label that is no block's. A document that is refused for
its graph has called no handler. -/
theorem labels_resolve (doc : FlowDocument) (s : Setting σ) :
    ((∃ graph, doc.graph = .ok graph) ↔ doc.WellFormed) ∧
      (∀ e, doc.graph = .error e ↔ doc.Reports e) ∧
      (∀ o, doc.opening s = .ok o → ∀ host n, doc.SoundAlone o host n) ∧
      (∀ graph, doc.graph = .ok graph → ∀ host schedule w,
        World.Path (doc.setting s graph) schedule (doc.start s graph host) w →
        doc.SoundTogether (doc.setting s graph) (doc.start s graph host) schedule w) ∧
      (∀ cause, doc.opening s = .error cause → ∀ fuel host,
        doc.evaluate s fuel host = some (.error (.ofCause cause), host) ∧
          Opening.calls (doc.opening s) fuel host = []) ∧
      (∀ e, doc.graph = .error e → ∀ fuel host,
        doc.evaluateConcurrent s fuel host = some (.error (.ofCause e.cause), .empty, host)) ∧
      (s.domains = .builtin → ∀ shared task cause, Task.HostFails s shared task cause →
        ∃ effect args, task.effect? = some (effect, args)) := by
  refine ⟨exists_graph_iff, fun e => graph_eq_error_iff, fun o opens => soundAlone opens,
    fun graph structured host schedule w => soundTogether structured, fun cause refused => ?_,
    fun e refused => ?_, fun builtin shared task cause fails => ?_⟩
  · intro fuel host
    rw [doc.evaluate_eq, refused]
    exact ⟨rfl, rfl⟩
  · intro fuel host
    simp only [evaluateConcurrent, refused]
  · cases fails with
    | handler _ _ => exact ⟨_, _, rfl⟩
    | domain found foreign _ =>
      rw [builtin] at found
      exact absurd (Domains.builtin_operational found) foreign

def forkOnce : FlowDocument where
  version := "1.0"
  entry := "start"
  definitions := []
  blocks := [
    ⟨"start", [], .fork "work" "wait" "f"⟩,
    ⟨"work", [], .ret none⟩,
    ⟨"wait", [], .join "f" none "end"⟩,
    ⟨"end", [], .ret none⟩]

def hopTo (label : String) : FlowDocument where
  version := "1.0"
  entry := "start"
  definitions := []
  blocks := [⟨"start", [], .jump label⟩, ⟨"end", [], .ret none⟩]

/-- Four steps start a second task; a jump to a block that there is succeeds; and a jump to one that
there is not is refused. -/
theorem labels_resolve_examples :
    (∃ graph w, forkOnce.graph = .ok graph ∧
      World.Path (forkOnce.setting ({} : Setting Unit) graph)
        [entryTask, entryTask, entryTask, entryTask] (forkOnce.start {} graph ()) w ∧
      w.tasks.length = 2 ∧
      forkOnce.SoundTogether (forkOnce.setting {} graph) (forkOnce.start {} graph ())
        [entryTask, entryTask, entryTask, entryTask] w) ∧
    (∃ o, (hopTo "end").opening ({} : Setting Unit) = .ok o ∧ (hopTo "end").SoundAlone o () 2) ∧
    (hopTo "nowhere").evaluate ({} : Setting Unit) 1 () =
      some (.error (.ofCause (StructureError.unknownLabel "start" "nowhere").cause), ()) := by
  obtain ⟨-, -, -, together, -⟩ := labels_resolve forkOnce ({} : Setting Unit)
  obtain ⟨-, -, alone, -⟩ := labels_resolve (hopTo "end") ({} : Setting Unit)
  obtain ⟨-, -, -, -, refused, -⟩ := labels_resolve (hopTo "nowhere") ({} : Setting Unit)
  let graph : FlowGraph := ⟨⟨"start", [], .fork "work" "wait" "f"⟩, forkOnce.blocks⟩
  have path : World.Path (forkOnce.setting ({} : Setting Unit) graph)
      [entryTask, entryTask, entryTask, entryTask] (forkOnce.start {} graph ()) _ :=
    .cons rfl (.cons rfl (.cons rfl (.cons rfl .nil)))
  exact ⟨⟨graph, _, rfl, path, rfl, together _ rfl _ _ _ path⟩, ⟨_, rfl, alone _ rfl () 2⟩,
    (refused _ rfl 1 ()).1⟩

end FlowDocument
end LayeredIR
