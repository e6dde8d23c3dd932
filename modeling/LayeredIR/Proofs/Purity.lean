import LayeredIR.Proofs.Fixed

/-! Documents of the first two layers in the third. There a document binds the same names to the
same values, only not for good, and neither rebinds them nor performs an effect. So its run is the
one that it has in its own layer, step by step, up to whether bindings could be rebound. -/
namespace LayeredIR

variable {σ : Type}

def Frame.fixed : Frame → Frame
  | .resume next => .resume fun v => (next v).fixed
  | .leave isDefinition => .leave isDefinition

theorem Memory.fixed_initial (owner : Identity) (maxCallDepth : Nat) :
    (initial owner maxCallDepth).fixed = initial owner maxCallDepth := by
  simp [Memory.fixed, initial, Heap.fixed, Scope.fixed, Bindings.fixed]

def Task.fixed (task : Task) : Task :=
  ⟨task.control.fixed, task.frames.map Frame.fixed, task.memory.fixed⟩

def Progress.fixed : Progress σ → Progress σ
  | .running shared task => .running shared task.fixed
  | .ended outcome shared memory => .ended outcome shared memory.fixed
  | .waiting shared task => .waiting shared task.fixed

namespace Task

theorem deliver_fixed (v : Value) (frames : List Frame) (shared : Shared σ) (memory : Memory) :
    deliver v (frames.map Frame.fixed) shared memory.fixed =
      (deliver v frames shared memory).fixed := by
  match frames with
  | [] | .resume _ :: _ | .leave _ :: _ => rfl

theorem unwind_fixed (fault : Fault) (frames : List Frame) (shared : Shared σ) (memory : Memory) :
    unwind fault (frames.map Frame.fixed) shared memory.fixed =
      (unwind fault frames shared memory).fixed := by
  match frames with
  | [] | .resume _ :: _ | .leave _ :: _ => rfl

end Task

namespace Discipline

variable {s : Setting σ} {w : Shape} {c : List CallSite}

theorem Jobs.fits {job : Job} (jobs : (legal s).Jobs c w job) : job.Fits s.layer := by
  cases jobs with
  | operand | apply => trivial
  | expr code => exact code.here
  | block flow => exact flow.elim

theorem Nexts.fits {job : Job} (nexts : (legal s).Nexts c w (.job job)) : job.Fits s.layer := by
  cases nexts with
  | job jobs => exact jobs.fits

end Discipline

section Steps

variable {s : Setting σ} (lawful : s.Lawful) (uncached : s.config.nodeCache = false)
  (effects : Option (Effects σ)) {w : Shape} {c : List CallSite} {shared : Shared σ}
include lawful

/-- A legal task rebinds nothing, so no answer depends on which bindings are there for good. -/
theorem serve_fixed {q : Query} {next : q.Answer → Plan Next} {frames : List Frame}
    {memory : Memory}
    (heeds : (Plan.ask q next).fixed.Heeds (.legal s) c ((Discipline.legal s).Nexts c) w) :
    (Task.fixed ⟨.ask q next, frames, memory⟩).step s shared =
        (Task.step (s.inEir effects) shared ⟨.ask q next, frames, memory⟩).fixed ∧
      (Task.mk (.ask q next) frames memory).effect? = none := by
  obtain ⟨-, performs, copies⟩ := lawful.pure
  cases q with
  | assign a name v =>
    cases heeds with
    | ask queries _ => exact queries.1.elim
  | perform effect args =>
    cases heeds with
    | ask queries _ => exact absurd queries.1 (by simp [performs])
  | flatten a =>
    cases heeds with
    | ask queries _ => exact absurd (copies.symm.trans queries) Bool.false_ne_true
  | define | lookup | child | enter =>
    refine ⟨?_, rfl⟩
    simp [Task.step, Task.fixed, Plan.fixed, Setting.serve, Memory.withHeap, Memory.fixed,
      Progress.fixed]
  | fresh | isActive | innermost | recollect | remember | compute | dispatch => exact ⟨rfl, rfl⟩

include uncached in
theorem step_fixed {task : Task} (runs : (Discipline.legal s).Runs [] [] w c task.fixed) :
    task.fixed.step s shared = (task.step (s.inEir effects) shared).fixed ∧
      task.effect? = none := by
  obtain ⟨control, frames, memory⟩ := task
  have heeds : control.fixed.Heeds (.legal s) c ((Discipline.legal s).Nexts c) w := runs.control
  have planned {job : Job} (fits : job.Fits s.layer) :=
    Setting.fixed_plan effects uncached lawful.layer fits
  cases control with
  | done next =>
    cases next with
    | value v => exact ⟨Task.deliver_fixed v frames shared memory, rfl⟩
    | job job =>
      cases heeds with
      | done wanted =>
        refine ⟨?_, rfl⟩
        simp only [Task.step, Task.fixed, Plan.fixed, Progress.fixed, planned wanted.fits]
  | fail fault => exact ⟨Task.unwind_fixed fault frames shared memory, rfl⟩
  | eval job next =>
    cases heeds with
    | eval jobs _ =>
      refine ⟨?_, rfl⟩
      have fits := Discipline.Jobs.fits jobs
      simp only [Task.step, Task.fixed, Plan.fixed, Progress.fixed, planned fits]
      rfl
  | call site job next =>
    cases heeds with
    | call permitted _ =>
      refine ⟨?_, rfl⟩
      cases full : memory.stack.isFull with
      | true =>
        have full' : memory.fixed.stack.isFull = true := full
        simp only [Task.fixed, Plan.fixed, Task.step_full full, Task.step_full full']
        rfl
      | false =>
        have full' : memory.fixed.stack.isFull = false := full
        simp only [Task.fixed, Plan.fixed, Task.step_free full, Task.step_free full',
          Progress.fixed, planned permitted.2.fits]
        rfl
  | ask q next => exact serve_fixed lawful effects heeds
  | fork label registers next =>
    cases heeds with
    | fork permitted => exact permitted.1.elim
  | await future next =>
    cases heeds with
    | await flow => exact flow.elim

include uncached in
theorem run_fixed {task : Task} (runs : (Discipline.legal s).Runs [] [] w c task.fixed)
    (shares : (Discipline.legal s).Shares w shared.futures shared.host) (fuel : Nat) :
    Task.run s fuel shared task.fixed = (Task.run (s.inEir effects) fuel shared task).map
        (fun (outcome, shared, memory) => (outcome, shared, memory.fixed)) ∧
      task.performed (s.inEir effects) (fun _ shared => shared) fuel shared = [] := by
  induction fuel generalizing w c shared task with
  | zero => exact ⟨rfl, rfl⟩
  | succ fuel ih =>
    obtain ⟨same, quiet⟩ : task.fixed.step s shared =
        (task.step (s.inEir effects) shared).fixed ∧ task.effect? = none :=
      step_fixed lawful uncached effects runs
    simp only [Task.run, Task.performed, same, quiet]
    cases stepped : task.step (s.inEir effects) shared with
    | ended | waiting => exact ⟨rfl, rfl⟩
    | running shared' later =>
      rw [stepped] at same
      cases runs.step shares (Discipline.legal_laws lawful) with
      | running stepped' _ shares' runs' =>
        cases stepped'.symm.trans same
        exact ih runs' shares'
      | finished surfaced results =>
        generalize task.fixed = last at same surfaced results
        obtain ⟨control, frames, own⟩ := last
        subst surfaced
        cases results <;> cases same
      | waiting flow _ => exact flow.elim

end Steps

namespace Document

variable {doc : Document} {s : Setting σ}

/-- A document of the first two layers comes to the same in the third. It binds the same values,
and no effect is performed. -/
theorem finishAirCir_inEir
    (accepted : ∀ declared, doc.layer = some declared → ¬ Layer.cir < declared)
    (every : doc.Every (Expr.Fits doc.airCirLayer)) (legal : s.Legal doc.airCirLayer)
    (uncached : s.config.nodeCache = false) (fuel : Nat) (host : σ) :
    doc.finishAirCir s fuel host = (doc.finish s fuel .eir .eir host).map
        (fun (outcome, shared, memory) => (outcome, shared, memory.fixed)) ∧
      doc.evaluateAirCir s fuel host = doc.evaluateEir s fuel host ∧
      Opening.calls (doc.openingEir s) fuel host = [] := by
  have below : doc.airCirLayer.rank ≤ Layer.eir.rank := by
    rcases doc.airCirLayer_cases with layer | layer <;> simp [layer, Layer.rank]
  have lower : doc.checkLayer doc.airCirLayer .cir = .ok () := checkLayer_of_every accepted every
  have upper : doc.checkLayer .eir .eir = .ok () := by
    refine checkLayer_of_every (fun declared same above => ?_)
      (every.imp fun expr fits => fits.mono below)
    exact accepted declared same (Nat.lt_trans (by decide) above)
  have finishes : doc.finishAirCir s fuel host = (doc.finish s fuel .eir .eir host).map
        (fun (outcome, shared, memory) => (outcome, shared, memory.fixed)) ∧
      Opening.calls (doc.openingEir s) fuel host = [] := by
    unfold finishAirCir finish openingEir opening setting
    rw [lower, upper]
    cases table : doc.nodeTable with
    | error e =>
      refine ⟨?_, rfl⟩
      change _ = some (_, _, Memory.fixed _)
      rw [Memory.fixed_initial]
      rfl
    | ok nodes =>
      let start := Task.start (.operand doc.result rootScope)
        (.initial entryTask s.config.maxCallDepth)
      have opens : doc.openingAirCir s = .ok ⟨doc.purely s nodes doc.airCirLayer, start⟩ := by
        unfold openingAirCir opening setting
        rw [lower, table]
        rfl
      obtain ⟨lawful, -, -⟩ := lawful_setting every legal opens
      have same : start.fixed = start :=
        congrArg (Task.mk _ _) (Memory.fixed_initial entryTask s.config.maxCallDepth)
      have runs : (Discipline.legal (doc.purely s nodes doc.airCirLayer)).Runs [] [] [] []
          start.fixed := by
        rw [same]
        exact Discipline.runs_start rfl every.result trivial trivial
      have shares : (Discipline.legal (doc.purely s nodes doc.airCirLayer)).Shares []
          (Opening.fresh host).futures (Opening.fresh host).host := .empty fun _ => id
      have ran := run_fixed lawful uncached s.effects runs shares fuel
      rw [same] at ran
      exact ran
  refine ⟨finishes.1, ?_, finishes.2⟩
  unfold evaluateAirCir evaluateEir evaluate
  rw [finishes.1, Option.map_map]
  rfl

def scaled : Document where
  version := "1.0.0"
  layer := some .cir
  definitions := [⟨"m", "twice", ["x"], .inline (.call none "add" [.id "x", .id "x"]), none⟩]
  nodes := [⟨"n", .airRef "m" "twice" [.inline (.input "start")]⟩]
  result := .inline (.letIn "k" (.inline (.lit (.int 5)))
    (.inline (.apply (.inline (.lambda ["x"] (.inline (.call none "mul" [.id "x", .id "k"]))))
      [.id "n"])))

def counted : Setting Nat :=
  { inputs := [("start", .int 3)]
    effects := some (Effects.empty.register "tick" fun _ _ n => (.ok .void, n + 1))
    config := { nodeCache := false } }

theorem finishAirCir_inEir_scaled :
    scaled.evaluateAirCir counted 60 0 = some (.ok (.int 30), 0) ∧
      scaled.evaluateEir counted 60 0 = some (.ok (.int 30), 0) ∧
      Opening.calls (scaled.openingEir counted) 60 0 = [] := by
  have every : scaled.Every (Expr.Fits scaled.airCirLayer) := by
    rw [every_iff]
    simp [scaled, forms, Expr.preorder_eq, Arg.preorder]
    decide
  have legal : counted.Legal scaled.airCirLayer := by
    refine ⟨List.forall_mem_nil _, fun _ c brings => absurd brings
      (Setting.not_brings ?_ (fun _ _ => Domains.builtin_conserves) c)⟩
    exact fun entry member => ⟨.int 3, by rw [List.mem_singleton.mp member]; rfl⟩
  obtain ⟨-, same, quiet⟩ := finishAirCir_inEir (by rintro _ ⟨⟩; decide) every legal rfl 60 0
  have pure : scaled.evaluateAirCir counted 60 0 = some (.ok (.int 30), 0) := by rfl
  exact ⟨pure, same ▸ pure, quiet⟩

/-- A function that a domain makes is held to no layer. With a body of the third layer it is refused
in the second, where the same document comes to a value in the third. -/
theorem finishAirCir_inEir_made :
    applyingMade.layer = none ∧ applyingMade.Every (Expr.Fits applyingMade.airCirLayer) ∧
      withSequencings.definitions.Every (Expr.Fits applyingMade.airCirLayer) ∧
      withSequencings.inputs = [] ∧ withSequencings.config.nodeCache = false ∧
      applyingMade.evaluateAirCir withSequencings 20 () =
        some (.error ⟨.layerViolation .cir "seq" "<closure>", some ⟨["<closure>"]⟩⟩, ()) ∧
      applyingMade.evaluateEir withSequencings 20 () = some (.ok .void, ()) :=
  ⟨rfl, every_iff.mpr fits_applyingMade, List.forall_mem_nil _, rfl, rfl, rfl, rfl⟩

end Document
end LayeredIR
