import LayeredIR.Proofs.NodeCache.Simulation
import LayeredIR.Proofs.Openings

/-! The ceiling on calls. It is read at one place, where a call is made, and nothing catches the
failure that a full stack gives. So runs under two ceilings are the same, step by step, up to the
first call that the lower one refuses; and from there on the lower run only unwinds. -/
namespace LayeredIR

section Raising

variable {σ : Type}

def Setting.withMaxCallDepth (s : Setting σ) (limit : Nat) : Setting σ :=
  { s with config := { s.config with maxCallDepth := limit } }

def Memory.withLimit (memory : Memory) (limit : Nat) : Memory :=
  { memory with stack := { memory.stack with limit := limit } }

def Task.withLimit (task : Task) (limit : Nat) : Task :=
  { task with memory := task.memory.withLimit limit }

def Progress.withLimit (limit : Nat) : Progress σ → Progress σ
  | .running shared task => .running shared (task.withLimit limit)
  | .ended outcome shared memory => .ended outcome shared (memory.withLimit limit)
  | .waiting shared task => .waiting shared (task.withLimit limit)

def Opening.withLimit (limit : Nat) (o : Opening σ) : Opening σ :=
  ⟨o.setting.withMaxCallDepth limit, o.task.withLimit limit⟩

end Raising

section Plans

variable {σ : Type} (s : Setting σ) (limit : Nat)

theorem Setting.statements_withMaxCallDepth (last : Value) (body : List Arg) (scope : ScopeId) :
    (s.withMaxCallDepth limit).statements last body scope = s.statements last body scope := by
  have declares : (s.withMaxCallDepth limit).declaration? = s.declaration? := rfl
  induction body generalizing last scope with
  | nil => rfl
  | cons statement rest ih => simp only [statements, declares, ih]

theorem Setting.instructions_withMaxCallDepth (body : List Instruction) :
    (s.withMaxCallDepth limit).instructions body = s.instructions body := by
  have one : (s.withMaxCallDepth limit).instruction = s.instruction := by
    funext instruction
    cases instruction <;> rfl
  induction body with
  | nil => rfl
  | cons first rest ih => simp only [instructions, one, ih]

theorem Setting.expression_withMaxCallDepth (expr : Expr) (scope : ScopeId) :
    (s.withMaxCallDepth limit).expression expr scope = s.expression expr scope := by
  have form : (s.withMaxCallDepth limit).form expr scope = s.form expr scope := by
    cases expr with
    | seq body => simp only [Setting.form, statements_withMaxCallDepth]
    | _ => rfl
  have layer : (s.withMaxCallDepth limit).layer = s.layer := rfl
  simp only [expression, form, layer]

/-- No plan reads the ceiling. -/
theorem Setting.plan_withMaxCallDepth : (s.withMaxCallDepth limit).plan = s.plan := by
  funext job
  cases job with
  | operand arg scope => rfl
  | expr expr scope => exact s.expression_withMaxCallDepth limit expr scope
  | apply callee args => rfl
  | block label =>
    have known : (s.withMaxCallDepth limit).block? = s.block? := rfl
    have ends : (s.withMaxCallDepth limit).terminator = s.terminator := by
      funext terminator
      cases terminator <;> rfl
    simp only [plan, block, known, ends, instructions_withMaxCallDepth]

theorem Task.step_withMaxCallDepth : Task.step (s.withMaxCallDepth limit) = Task.step s := by
  funext shared task
  have serves : (s.withMaxCallDepth limit).serve = s.serve := rfl
  simp only [step, Setting.plan_withMaxCallDepth, serves]

theorem Task.run_withMaxCallDepth (fuel : Nat) (shared : Shared σ) (task : Task) :
    Task.run (s.withMaxCallDepth limit) fuel shared task = Task.run s fuel shared task := by
  induction fuel generalizing shared task with
  | zero => rfl
  | succ fuel ih => simp only [run, step_withMaxCallDepth, ih]

theorem Task.performed_withMaxCallDepth (others : Nat → Shared σ → Shared σ) (n : Nat)
    (shared : Shared σ) (task : Task) :
    task.performed (s.withMaxCallDepth limit) others n shared =
      task.performed s others n shared := by
  induction n generalizing shared task with
  | zero => rfl
  | succ n ih => simp only [performed, step_withMaxCallDepth, ih]

end Plans

section Steps

variable {σ : Type} {s : Setting σ} {shared : Shared σ} {limit : Nat}

theorem Setting.serve_withLimit (q : Query) (memory : Memory) :
    s.serve q shared (memory.withLimit limit) =
      ((s.serve q shared memory).1, (s.serve q shared memory).2.1,
        (s.serve q shared memory).2.2.withLimit limit) := by
  cases q with
  | perform effect args =>
    simp only [serve]
    cases s.handler? effect <;> rfl
  | _ => rfl

def Task.Overflows (task : Task) : Prop :=
  ∃ site job next, task.control = .call site job next ∧ task.memory.stack.isFull

/-- Apart from a call that the lower ceiling refuses, a step is the same under both ceilings. -/
theorem Task.step_withLimit {task : Task} (le : task.memory.stack.limit ≤ limit) :
    task.Overflows ∨ (task.withLimit limit).step s shared = (task.step s shared).withLimit limit
    := by
  obtain ⟨control, frames, memory⟩ := task
  cases control with
  | done next =>
    refine .inr ?_
    cases next with
    | job job => rfl
    | value v =>
      match frames with
      | [] | .resume _ :: _ | .leave _ :: _ => rfl
  | fail fault =>
    refine .inr ?_
    match frames with
    | [] | .resume _ :: _ | .leave _ :: _ => rfl
  | call site job next =>
    -- the one step that reads the ceiling; where the lower one has room, so has the higher one
    cases full : memory.stack.isFull with
    | true => exact .inl ⟨site, job, next, rfl, full⟩
    | false =>
      have free : memory.stack.frames.size < memory.stack.limit := by
        simpa [CallStack.isFull] using full
      have raised : (memory.withLimit limit).stack.isFull = false :=
        decide_eq_false (Nat.not_le_of_lt (Nat.lt_of_lt_of_le free le))
      refine .inr ?_
      simp only [withLimit, step, raised, full, Bool.false_eq_true, if_false]
      rfl
  | ask q next =>
    refine .inr ?_
    simp only [withLimit, step, Setting.serve_withLimit]
    rfl
  | eval | fork | await => exact .inr rfl

theorem Task.step_limit {task later : Task} {shared' : Shared σ}
    (stepped : task.step s shared = .running shared' later) :
    later.memory.stack.limit = task.memory.stack.limit := by
  obtain ⟨control, frames, memory⟩ := task
  cases control with
  | done next =>
    match next, frames, stepped with
    | .job _, _, rfl | .value _, .resume _ :: _, rfl | .value _, .leave _ :: _, rfl => rfl
  | fail fault =>
    match frames, stepped with
    | .resume _ :: _, rfl | .leave _ :: _, rfl => rfl
  | call site job next =>
    simp only [step] at stepped
    split at stepped <;> cases stepped <;> rfl
  | ask q next =>
    cases stepped
    exact congrArg CallStack.limit (Setting.Yields.serve_calls s q shared memory).1
  | eval =>
    cases stepped
    rfl
  | fork | await => cases stepped

abbrev Task.performedAlone (s : Setting σ) (task : Task) (fuel : Nat) (shared : Shared σ) :
    List (String × List Value) :=
  task.performed s (fun _ shared => shared) fuel shared

/-- A failure goes out through all frames with its cause, and nothing is performed on the way. -/
theorem Task.run_fail {fault : Fault} {frames : List Frame} {memory : Memory} {fuel : Nat}
    {outcome : Except Fault Value} {shared' : Shared σ} {memory' : Memory}
    (ran : Task.run s fuel shared ⟨.fail fault, frames, memory⟩ =
      some (outcome, shared', memory')) :
    (∃ last, outcome = .error last ∧ last.cause = fault.cause) ∧
      (Task.mk (.fail fault) frames memory).performedAlone s fuel shared = [] := by
  induction fuel generalizing frames fault memory with
  | zero => cases ran
  | succ fuel ih =>
    match frames, ran with
    | [], rfl => exact ⟨⟨fault, rfl, rfl⟩, rfl⟩
    | .resume _ :: _, ran => exact ih ran
    | .leave _ :: _, ran =>
      obtain ⟨⟨last, same, cause⟩, none⟩ := ih ran
      exact ⟨⟨last, same, cause.trans (memory.stack.attach_cause fault)⟩, none⟩

theorem Task.Overflows.run {task : Task} (overflows : task.Overflows) {fuel : Nat}
    {outcome : Except Fault Value} {shared' : Shared σ} {memory' : Memory}
    (ran : Task.run s fuel shared task = some (outcome, shared', memory')) :
    ¬ Unlimited outcome ∧ task.performedAlone s fuel shared = [] := by
  obtain ⟨control, frames, memory⟩ := task
  obtain ⟨site, job, next, rfl, full⟩ := overflows
  cases fuel with
  | zero => cases ran
  | succ fuel =>
    have full : memory.stack.isFull = true := full
    simp only [Task.run, step_full full] at ran
    obtain ⟨⟨last, rfl, cause⟩, none⟩ := run_fail ran
    refine ⟨fun unlimited => unlimited last _ rfl cause, ?_⟩
    simp only [performedAlone, performed, step_full full]
    exact none

/-- With more fuel, a run that has ended stays as it is. -/
theorem Task.run_mono {task : Task} {fuel fuel' : Nat}
    {final : Except Fault Value × Shared σ × Memory}
    (ran : Task.run s fuel shared task = some final) (le : fuel ≤ fuel') :
    Task.run s fuel' shared task = some final ∧
      task.performedAlone s fuel' shared = task.performedAlone s fuel shared := by
  induction fuel generalizing fuel' shared task with
  | zero => cases ran
  | succ fuel ih =>
    cases fuel' with
    | zero => exact absurd le (Nat.not_succ_le_zero fuel)
    | succ fuel' =>
      simp only [run, performedAlone, performed] at ran ⊢
      cases stepped : task.step s shared with
      | running shared₁ later =>
        rw [stepped] at ran
        obtain ⟨same, calls⟩ := ih ran (Nat.le_of_succ_le_succ le)
        exact ⟨same, congrArg (task.effect?.toList ++ ·) calls⟩
      | ended =>
        rw [stepped] at ran
        exact ⟨ran, rfl⟩
      | waiting =>
        rw [stepped] at ran
        cases ran

theorem Task.performed_eq_of_run {task : Task} {fuel fuel' : Nat}
    {final final' : Except Fault Value × Shared σ × Memory}
    (ran : Task.run s fuel shared task = some final)
    (ran' : Task.run s fuel' shared task = some final') :
    task.performedAlone s fuel shared = task.performedAlone s fuel' shared := by
  rcases Nat.le_total fuel fuel' with le | le
  · exact (run_mono ran le).2.symm
  · exact (run_mono ran' le).2

/-- A run under a ceiling either is the run under a higher one, or it ends for want of room for a
call and has performed no more than the beginning of what the other performs. -/
theorem Task.run_withLimit {task : Task} {fuel : Nat} {outcome : Except Fault Value}
    {shared' : Shared σ} {memory' : Memory} (le : task.memory.stack.limit ≤ limit)
    (ran : Task.run s fuel shared task = some (outcome, shared', memory')) :
    Task.run s fuel shared (task.withLimit limit) =
        some (outcome, shared', memory'.withLimit limit) ∧
      (task.withLimit limit).performedAlone s fuel shared = task.performedAlone s fuel shared ∨
    ¬ Unlimited outcome ∧ ∀ fuel', (Task.run s fuel' shared (task.withLimit limit)).isSome →
      task.performedAlone s fuel shared <+: (task.withLimit limit).performedAlone s fuel' shared
    := by
  induction fuel generalizing shared task with
  | zero => cases ran
  | succ fuel ih =>
    have either : task.Overflows ∨
        (task.withLimit limit).step s shared = (task.step s shared).withLimit limit :=
      task.step_withLimit le
    rcases either with overflows | raised
    · -- the lower run performs nothing from here on, so any prefix will do
      obtain ⟨exceeds, none⟩ := overflows.run ran
      refine .inr ⟨exceeds, fun fuel' _ => ?_⟩
      rw [none]
      exact List.nil_prefix
    · have effects : (task.withLimit limit).effect? = task.effect? := rfl
      simp only [run] at ran
      cases stepped : task.step s shared with
      | running shared₁ later =>
        rw [stepped] at ran raised
        rcases ih ((step_limit stepped).le.trans le) ran with ⟨same, calls⟩ | ⟨exceeds, before⟩
        · refine .inl ⟨by simpa only [run, raised, Progress.withLimit] using same, ?_⟩
          simp only [performedAlone, performed, raised, stepped, Progress.withLimit, effects]
          exact congrArg (task.effect?.toList ++ ·) calls
        · refine .inr ⟨exceeds, fun fuel' terminates => ?_⟩
          cases fuel' with
          | zero => cases terminates
          | succ fuel' =>
            simp only [run, raised, Progress.withLimit] at terminates
            simp only [performedAlone, performed, raised, stepped, Progress.withLimit, effects]
            exact (List.prefix_append_right_inj _).mpr (before fuel' terminates)
      | ended =>
        rw [stepped] at ran raised
        cases ran
        refine .inl ⟨by simp only [run, raised, Progress.withLimit], ?_⟩
        simp only [performedAlone, performed, raised, stepped, Progress.withLimit, effects]
      | waiting =>
        rw [stepped] at ran
        cases ran

end Steps

/-- How the run under a ceiling goes on under a higher one, as a function of the fuel: the outcomes
and the calls to the host. -/
structure Evaluation.Prolonged {σ : Type} (low high : Nat → Evaluation σ)
    (calls calls' : Nat → List (String × List Value)) : Prop where
  same : ∀ fuel outcome host, low fuel = some (outcome, host) → Unlimited outcome →
    ∀ fuel' ≥ fuel, high fuel' = some (outcome, host) ∧ calls' fuel' = calls fuel
  /-- A run that does has made the first of the calls. -/
  begun : ∀ fuel outcome host, low fuel = some (outcome, host) → ¬ Unlimited outcome →
    ∀ fuel', (high fuel').isSome → calls fuel <+: calls' fuel'

section Evaluators

variable {σ : Type} {s : Setting σ} {host : σ} {limit : Nat}

theorem Opening.prolonged {opening raised : Except Cause (Opening σ)}
    (same : raised = opening.map (Opening.withLimit limit))
    (le : ∀ o, opening = .ok o → o.task.memory.stack.limit ≤ limit) :
    Evaluation.Prolonged (evaluate opening · host) (evaluate raised · host) (calls opening · host)
      (calls raised · host) := by
  subst same
  cases opening with
  | error cause =>
    refine ⟨fun _ _ _ ran _ _ _ => ⟨ran, rfl⟩, fun _ _ _ _ _ _ _ => List.nil_prefix⟩
  | ok o =>
    obtain ⟨s, task⟩ := o
    have fits : task.memory.stack.limit ≤ limit := le _ rfl
    have performs (fuel : Nat) : calls (.ok (withLimit limit ⟨s, task⟩)) fuel host =
        (task.withLimit limit).performedAlone s fuel (fresh host) :=
      Task.performed_withMaxCallDepth s limit _ fuel _ _
    have runs (fuel : Nat) : evaluate (.ok (withLimit limit ⟨s, task⟩)) fuel host =
        evaluate (.ok ⟨s, task.withLimit limit⟩) fuel host := by
      simp only [evaluate, withLimit, Task.run_withMaxCallDepth]
    constructor
    case same =>
      intro fuel outcome host' ran unlimited fuel' more
      obtain ⟨⟨_, shared', memory'⟩, ended, parts⟩ := Option.map_eq_some_iff.mp ran
      cases parts
      rcases Task.run_withLimit fits ended with ⟨same, calls⟩ | ⟨exceeds, -⟩
      · obtain ⟨later, further⟩ := Task.run_mono same more
        refine ⟨(runs fuel').trans ?_, (performs fuel').trans (further.trans calls)⟩
        rw [evaluate, later]
        rfl
      · exact absurd unlimited exceeds
    case begun =>
      intro fuel outcome host' ran exceeds fuel' terminates
      obtain ⟨⟨_, shared', memory'⟩, ended, parts⟩ := Option.map_eq_some_iff.mp ran
      cases parts
      change (evaluate (.ok (withLimit limit ⟨s, task⟩)) fuel' host).isSome at terminates
      change _ <+: calls (.ok (withLimit limit ⟨s, task⟩)) fuel' host
      rw [runs, evaluate, Option.isSome_map] at terminates
      rw [performs]
      rcases Task.run_withLimit fits ended with ⟨same, calls⟩ | ⟨-, before⟩
      · obtain ⟨final, terminates⟩ := Option.isSome_iff_exists.mp terminates
        have equal := Task.performed_eq_of_run same terminates
        rw [← equal]
        exact calls ▸ List.prefix_refl _
      · exact before fuel' terminates

theorem Document.opening_withMaxCallDepth (doc : Document) (s : Setting σ) (layer top : Layer) :
    doc.opening (s.withMaxCallDepth limit) layer top =
      (doc.opening s layer top).map (Opening.withLimit limit) := by
  unfold opening setting
  cases doc.checkLayer layer top with
  | error cause => rfl
  | ok _ => cases doc.nodeTable <;> rfl

theorem FlowDocument.opening_withMaxCallDepth (doc : FlowDocument) (s : Setting σ) :
    doc.opening (s.withMaxCallDepth limit) = (doc.opening s).map (Opening.withLimit limit) := by
  unfold opening
  cases doc.needsConcurrency with
  | some cause => rfl
  | none => cases doc.graph <;> rfl

end Evaluators

/-- The ceiling is monotone: under a higher one a document does what it did under a lower one, to
the end where the lower one was high enough. -/
theorem evaluate_prolonged {σ : Type} (s : Setting σ) (host : σ) {d d' : Nat} (le : d ≤ d') :
    (∀ doc : Document, Evaluation.Prolonged
      (doc.evaluateAirCir (s.withMaxCallDepth d) · host)
      (doc.evaluateAirCir (s.withMaxCallDepth d') · host)
      (Opening.calls (doc.openingAirCir (s.withMaxCallDepth d)) · host)
      (Opening.calls (doc.openingAirCir (s.withMaxCallDepth d')) · host)) ∧
    (∀ doc : Document, Evaluation.Prolonged
      (doc.evaluateEir (s.withMaxCallDepth d) · host)
      (doc.evaluateEir (s.withMaxCallDepth d') · host)
      (Opening.calls (doc.openingEir (s.withMaxCallDepth d)) · host)
      (Opening.calls (doc.openingEir (s.withMaxCallDepth d')) · host)) ∧
    ∀ doc : FlowDocument, Evaluation.Prolonged
      (doc.evaluate (s.withMaxCallDepth d) · host)
      (doc.evaluate (s.withMaxCallDepth d') · host)
      (Opening.calls (doc.opening (s.withMaxCallDepth d)) · host)
      (Opening.calls (doc.opening (s.withMaxCallDepth d')) · host) := by
  have document (doc : Document) (s : Setting σ) (layer top : Layer) (o : Opening σ)
      (opens : doc.opening (s.withMaxCallDepth d) layer top = .ok o) :
      o.task.memory.stack.limit ≤ d' := by
    obtain ⟨prepared, starts⟩ := Document.opening_eq_ok opens
    obtain ⟨_, _, same⟩ := Document.setting_eq_ok prepared
    rw [starts, same]
    exact le
  refine ⟨fun doc => ?_, fun doc => ?_, fun doc => ?_⟩
  · simp only [Document.evaluateAirCir_eq]
    exact Opening.prolonged (doc.opening_withMaxCallDepth
      { s.withMaxCallDepth d with effects := none } doc.airCirLayer .cir)
      (document doc { s with effects := none } doc.airCirLayer .cir)
  · simp only [Document.evaluateEir_eq]
    exact Opening.prolonged (doc.opening_withMaxCallDepth (s.withMaxCallDepth d) .eir .eir)
      (document doc s .eir .eir)
  · simp only [FlowDocument.evaluate_eq]
    refine Opening.prolonged (doc.opening_withMaxCallDepth (s.withMaxCallDepth d)) fun o opens => ?_
    obtain ⟨graph, -, -, starts⟩ := FlowDocument.opening_eq_ok opens
    rw [starts]
    exact le

def Document.twiceTicking : Document where
  version := "1.0.0"
  layer := some .eir
  definitions := []
  nodes := [⟨"again", .effect "tick" []⟩]
  result := .inline (.seq [.inline (.effect "tick" []), .id "again"])

def Setting.counting : Setting Nat :=
  { effects := some (Effects.empty.register "tick" fun _ _ n => (.ok .void, n + 1)) }

theorem evaluate_prolonged_twiceTicking :
    Document.twiceTicking.evaluateEir (Setting.counting.withMaxCallDepth 0) 40 0 =
        some (.error (.ofCause (.recursionLimitExceeded 0)), 1) ∧
      Document.twiceTicking.evaluateEir (Setting.counting.withMaxCallDepth 1) 40 0 =
        some (.ok .void, 2) ∧
      Opening.calls (Document.twiceTicking.openingEir (Setting.counting.withMaxCallDepth 0))
          40 0 <+:
        Opening.calls (Document.twiceTicking.openingEir (Setting.counting.withMaxCallDepth 1))
          40 0 := by
  have low : Document.twiceTicking.evaluateEir (Setting.counting.withMaxCallDepth 0) 40 0 =
      some (.error (.ofCause (.recursionLimitExceeded 0)), 1) := by rfl
  have high : Document.twiceTicking.evaluateEir (Setting.counting.withMaxCallDepth 1) 40 0 =
      some (.ok .void, 2) := by rfl
  have exceeds : ¬ Unlimited (.error (.ofCause (.recursionLimitExceeded 0))) :=
    fun unlimited => unlimited _ 0 rfl rfl
  have monotone := (evaluate_prolonged Setting.counting 0 (Nat.zero_le 1)).2.1
    Document.twiceTicking
  exact ⟨low, high, monotone.begun 40 _ _ low exceeds 40 (high ▸ rfl)⟩

end LayeredIR
