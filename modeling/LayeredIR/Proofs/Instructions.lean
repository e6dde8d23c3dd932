import LayeredIR.Evaluate
import LayeredIR.Proofs.CallLimit
import Mathlib.Logic.Relation

/-! Instructions as abbreviations. An instruction on registers does what the assignment of the
expression does that has those names as operands: the two read the registers in other orders and
leave other things waiting, and meet again before anything else can tell them apart. -/
namespace LayeredIR

variable {σ : Type}

namespace Task

variable (s : Setting σ)

structure Quietly (task later : Task) : Prop where
  step : ∀ shared : Shared σ, task.step s shared = .running shared later
  silent : task.effect? = none

def Settles : Task → Task → Prop := Relation.ReflTransGen (Quietly s)

/-- Two tasks that come to be one. Until then each takes quiet steps of its own, and all their other
requests they make together, in the same memory. -/
inductive Meet : Task → Task → Prop
  | same {task} : Meet task task
  | left {task later task'} (quietly : Quietly s task later) (rest : Meet later task') :
    Meet task task'
  | right {task task' later'} (quietly : Quietly s task' later') (rest : Meet task later') :
    Meet task task'
  | ask {q frames frames' memory} {next next' : q.Answer → Plan Next}
    (rest : ∀ shared : Shared σ,
      Meet ⟨next (s.serve q shared memory).1, frames, (s.serve q shared memory).2.2⟩
        ⟨next' (s.serve q shared memory).1, frames', (s.serve q shared memory).2.2⟩) :
    Meet ⟨.ask q next, frames, memory⟩ ⟨.ask q next', frames', memory⟩

variable {s} {task task₁ task₂ task' : Task}

theorem Settles.refl (task : Task) : Settles s task task := Relation.ReflTransGen.refl

theorem Settles.step (quietly : Quietly s task task₁) (rest : Settles s task₁ task₂) :
    Settles s task task₂ := Relation.ReflTransGen.head quietly rest

theorem Settles.trans (first : Settles s task task₁) (rest : Settles s task₁ task₂) :
    Settles s task task₂ := Relation.ReflTransGen.trans first rest

theorem Meet.symm (meet : Meet s task task') : Meet s task' task := by
  induction meet with
  | same => exact .same
  | left quietly _ ih => exact .right quietly ih
  | right quietly _ ih => exact .left quietly ih
  | ask _ ih => exact .ask ih

theorem Meet.settles (first : Settles s task task₁) (second : Settles s task' task₂)
    (rest : Meet s task₁ task₂) : Meet s task task' := by
  have right : Meet s task₁ task' := by
    induction second using Relation.ReflTransGen.head_induction_on with
    | refl => exact rest
    | head quietly _ ih => exact .right quietly ih
  induction first using Relation.ReflTransGen.head_induction_on with
  | refl => exact right
  | head quietly _ ih => exact .left quietly ih

theorem Quietly.run (quietly : Quietly s task task₁) (fuel : Nat) (shared : Shared σ) :
    Task.run s (fuel + 1) shared task = Task.run s fuel shared task₁ ∧
      task.performedAlone s (fuel + 1) shared = task₁.performedAlone s fuel shared := by
  simp only [Task.run, performedAlone, performed, quietly.step, quietly.silent]
  exact ⟨trivial, rfl⟩

theorem Settles.run (settles : Settles s task task₁) :
    ∃ n, ∀ fuel (shared : Shared σ),
      Task.run s (fuel + n) shared task = Task.run s fuel shared task₁ ∧
      task.performedAlone s (fuel + n) shared = task₁.performedAlone s fuel shared := by
  induction settles using Relation.ReflTransGen.head_induction_on with
  | refl => exact ⟨0, fun _ _ => ⟨rfl, rfl⟩⟩
  | head quietly _ ih =>
    obtain ⟨n, alike⟩ := ih
    refine ⟨n + 1, fun fuel shared => ?_⟩
    obtain ⟨run, performed⟩ := quietly.run (fuel + n) shared
    rw [← Nat.add_assoc, run, performed]
    exact alike fuel shared

/-- From some step of each on, tasks that meet run alike, and they have performed the same. -/
theorem Meet.run (meet : Meet s task task') (shared : Shared σ) :
    ∃ n n', ∀ fuel,
      Task.run s (fuel + n) shared task = Task.run s (fuel + n') shared task' ∧
      task.performedAlone s (fuel + n) shared = task'.performedAlone s (fuel + n') shared := by
  induction meet generalizing shared with
  | same => exact ⟨0, 0, fun _ => ⟨rfl, rfl⟩⟩
  | left quietly _ ih =>
    obtain ⟨n, n', alike⟩ := ih shared
    refine ⟨n + 1, n', fun fuel => ?_⟩
    obtain ⟨run, performed⟩ := quietly.run (fuel + n) shared
    rw [← Nat.add_assoc, run, performed]
    exact alike fuel
  | right quietly _ ih =>
    obtain ⟨n, n', alike⟩ := ih shared
    refine ⟨n, n' + 1, fun fuel => ?_⟩
    obtain ⟨run, performed⟩ := quietly.run (fuel + n') shared
    rw [← Nat.add_assoc, run, performed]
    exact alike fuel
  | @ask q frames frames' memory next next' _ ih =>
    obtain ⟨n, n', alike⟩ := ih shared (s.serve q shared memory).2.1
    refine ⟨n + 1, n' + 1, fun fuel => ?_⟩
    obtain ⟨run, performed⟩ := alike fuel
    have effects : (Task.mk (.ask q next) frames memory).effect? =
        (Task.mk (.ask q next') frames' memory).effect? := by cases q <;> rfl
    rw [← Nat.add_assoc, ← Nat.add_assoc]
    exact ⟨run, congrArg₂ (fun first rest => Option.toList first ++ rest) effects performed⟩

end Task

theorem Operator.isShortCircuit_iff {op : Operator} :
    op.isShortCircuit ↔ op = .and ∨ op = .or := by
  simp [isShortCircuit]

namespace Plan

def ofExcept {α : Type} : Except Fault α → Plan α
  | .ok result => .done result
  | .error fault => .fail fault

/-- The wrong number of operands. -/
theorem operate_of_length_ne {op : Operator} {values : List Value}
    (wrong : values.length ≠ op.arity) :
    operate op values = raise (.arityMismatch op.name op.arity values.length) := by
  rw [operate, Operator.check, if_pos wrong]
  rfl

inductive Asks {α : Type} : Plan α → Prop
  | done {result} : Asks (.done result)
  | fail {fault} : Asks (.fail fault)
  | ask {q next} (rest : ∀ answer, Asks (next answer)) : Asks (.ask q next)

theorem Asks.bind {α β : Type} {p : Plan α} {f : α → Plan β} (first : p.Asks)
    (rest : ∀ a, (f a).Asks) : (p >>= f).Asks := by
  induction first with
  | done => exact rest _
  | fail => exact .fail
  | ask _ ih => exact .ask ih

theorem asks_orRaise {α : Type} (result : Except Cause α) : (orRaise result).Asks := by
  cases result with
  | ok => exact .done
  | error => exact .fail

theorem asks_query (q : Query) : (query q).Asks := .ask fun _ => .done

theorem asks_refuseErrors (values : List Value) : (refuseErrors values).Asks := by
  unfold refuseErrors
  split
  · exact .fail
  · exact .done

theorem asks_operate (op : Operator) (values : List Value) : (operate op values).Asks :=
  (asks_orRaise _).bind fun _ => (asks_query _).bind fun _ => asks_orRaise _

end Plan

section Registers

variable {s : Setting σ} {frames : List Frame} {memory : Memory}

def Memory.register (memory : Memory) (name : String) : Except Fault Value :=
  match memory.heap.lookup registerScope name with
  | some v => .ok v
  | none => .error (.ofCause (.unboundName name))

def Memory.registers (memory : Memory) : List String → Except Fault (List Value)
  | [] => .ok []
  | name :: rest => do
    let v ← memory.register name
    let vs ← memory.registers rest
    return v :: vs

theorem Memory.length_of_registers {names : List String} {values : List Value}
    (read : memory.registers names = .ok values) : values.length = names.length := by
  induction names generalizing values with
  | nil =>
    cases read
    rfl
  | cons name rest ih =>
    simp only [registers] at read
    cases looked : memory.register name with
    | error => simp [looked, Bind.bind, Except.bind] at read
    | ok v =>
      cases further : memory.registers rest with
      | error => simp [looked, further, Bind.bind, Except.bind] at read
      | ok vs =>
        simp only [looked, further] at read
        cases read
        exact congrArg (· + 1) (ih further)

theorem Memory.registers_of_bound {names : List String}
    (bound : ∀ name ∈ names, (memory.heap.lookup registerScope name).isSome) :
    ∃ values, memory.registers names = .ok values := by
  induction names with
  | nil => exact ⟨[], rfl⟩
  | cons name rest ih =>
    obtain ⟨values, read⟩ := ih fun other member => bound other (.tail _ member)
    obtain ⟨v, looked⟩ := Option.isSome_iff_exists.mp (bound name (.head _))
    refine ⟨v :: values, ?_⟩
    simp only [registers, register, looked, read]
    rfl

theorem Task.fail_quietly (fault : Fault) (next : Value → Plan Next) :
    Task.Quietly s ⟨.fail fault, .resume next :: frames, memory⟩ ⟨.fail fault, frames, memory⟩ :=
  ⟨fun _ => rfl, rfl⟩

theorem Plan.readRegister_settles (name : String) (next : Value → Plan Next) :
    Task.Settles s ⟨readRegister name >>= next, frames, memory⟩
      ⟨ofExcept (memory.register name) >>= next, frames, memory⟩ := by
  refine .step ⟨fun shared => ?_, rfl⟩ (.refl _)
  unfold Memory.register
  cases looked : memory.heap.lookup registerScope name <;>
    simp only [Task.step, readRegister, lookupOrRaise, query, Bind.bind, Plan.bind, Setting.serve,
      looked] <;> rfl

theorem Plan.readRegisters_settles (names : List String) (next : List Value → Plan Next) :
    Task.Settles s ⟨readRegisters names >>= next, frames, memory⟩
      ⟨ofExcept (memory.registers names) >>= next, frames, memory⟩ := by
  induction names generalizing next with
  | nil => exact .refl _
  | cons name rest ih =>
    simp only [readRegisters, Memory.registers, bind_assoc, pure_bind]
    refine (readRegister_settles name _).trans ?_
    cases memory.register name with
    | error fault => exact .refl _
    | ok v =>
      refine (ih fun vs => next (v :: vs)).trans ?_
      cases memory.registers rest <;> exact .refl _

section Names

variable (names : ∀ name, s.nodes.get? name = none)
include names

/-- Where there are no nodes, a name in the scope of the registers is a register. -/
theorem Plan.evalIn_settles (name : String) (next : Value → Plan Next) :
    Task.Settles s ⟨evalIn registerScope (.id name) >>= next, frames, memory⟩
      ⟨ofExcept (memory.register name) >>= next, frames, memory⟩ := by
  have begun : Task.Quietly s ⟨evalIn registerScope (.id name) >>= next, frames, memory⟩
      ⟨readRegister name >>= fun v => return .value v, .resume next :: frames, memory⟩ := by
    refine ⟨fun shared => ?_, rfl⟩
    change Progress.running shared (Task.mk (s.operand (.id name) registerScope) _ _) = _
    rw [Setting.operand, names]
    rfl
  refine .step begun ((readRegister_settles name _).trans ?_)
  cases memory.register name with
  | error fault => exact .step (Task.fail_quietly fault next) (.refl _)
  | ok v => exact .step ⟨fun _ => rfl, rfl⟩ (.refl _)

theorem Plan.evalAll_settles (args : List String) (next : List Value → Plan Next) :
    Task.Settles s ⟨evalAll registerScope (args.map .id) >>= next, frames, memory⟩
      ⟨ofExcept (memory.registers args) >>= next, frames, memory⟩ := by
  induction args generalizing next with
  | nil => exact .refl _
  | cons name rest ih =>
    simp only [List.map_cons, evalAll, Memory.registers, bind_assoc, pure_bind]
    refine (evalIn_settles names name _).trans ?_
    cases memory.register name with
    | error fault => exact .refl _
    | ok v =>
      refine (ih fun vs => next (v :: vs)).trans ?_
      cases memory.registers rest <;> exact .refl _

end Names

/-- Requests are served whether what comes next waits for their result or follows them at once. -/
theorem Plan.Asks.meet {p : Plan Value} (asks : p.Asks) (next : Value → Plan Next) :
    Task.Meet s ⟨p >>= fun v => return .value v, .resume next :: frames, memory⟩
      ⟨p >>= next, frames, memory⟩ := by
  induction asks generalizing memory with
  | done => exact .left ⟨fun _ => rfl, rfl⟩ .same
  | fail => exact .left (Task.fail_quietly _ next) .same
  | ask _ ih => exact .ask fun shared => ih _

end Registers

def Plan.performOn (op : String) (values : List Value) : Plan Value := do
  refuseErrors values
  match ← query (.perform op values) with
  | .ok value => return value
  | .error fault => .fail fault

theorem Plan.asks_performOn (op : String) (values : List Value) : (performOn op values).Asks := by
  refine (asks_refuseErrors values).bind fun _ => (asks_query _).bind fun result => ?_
  cases result with
  | ok => exact .done
  | error => exact .fail

def Plan.dispatchOn (domain : Domain) (name : String) (values : List Value) : Plan Value := do
  refuseErrors values
  orRaise (← query (.dispatch domain name values))

theorem Plan.asks_dispatchOn (domain : Domain) (name : String) (values : List Value) :
    (dispatchOn domain name values).Asks :=
  (asks_refuseErrors values).bind fun _ => (asks_query _).bind fun _ => asks_orRaise _

namespace Setting

def operatorOn (s : Setting σ) (ns : Option String) (name : String) (values : List Value) :
    Plan Value :=
  if Operator.isCoreNamespace ns then
    match Operator.ofName? name with
    | none => Plan.raise (.unknownOperator Operator.namespaceName name)
    | some op => Plan.operate op values
  else do
    Plan.dispatchOn (← Plan.orRaise (s.domains.get (ns.getD ""))) name values

theorem operatorInstruction_eq (s : Setting σ) (ns : Option String) (name : String)
    (args : List String) :
    s.operatorInstruction ns name args = Plan.readRegisters args >>= s.operatorOn ns name := rfl

theorem performEffect_eq (s : Setting σ) (op : String) (args : Plan (List Value)) :
    s.performEffect op args =
      if s.hasHandler op then args >>= Plan.performOn op else Plan.raise (.unknownEffect op) := rfl

/-- Two instructions do the same from a memory on. Whatever comes after them and waits for them,
they come to one state, and they are not told apart on the way there. So with enough steps they have
one result, failure included, leave one memory, and have performed the same effects by then. -/
structure Interchangeable (s : Setting σ) (memory : Memory) (i j : Instruction) : Prop where
  meet : ∀ next frames, Task.Meet s ⟨s.instruction i >>= next, frames, memory⟩
    ⟨s.instruction j >>= next, frames, memory⟩
  run : ∀ next frames (shared : Shared σ), ∃ n n', ∀ fuel,
    Task.run s (fuel + n) shared ⟨s.instruction i >>= next, frames, memory⟩ =
      Task.run s (fuel + n') shared ⟨s.instruction j >>= next, frames, memory⟩ ∧
    (Task.mk (s.instruction i >>= next) frames memory).performedAlone s (fuel + n) shared =
      (Task.mk (s.instruction j >>= next) frames memory).performedAlone s (fuel + n') shared

variable {s : Setting σ} {memory : Memory} {target : String}

theorem Interchangeable.of_meet {i j : Instruction}
    (meet : ∀ next frames, Task.Meet s ⟨s.instruction i >>= next, frames, memory⟩
      ⟨s.instruction j >>= next, frames, memory⟩) : s.Interchangeable memory i j :=
  ⟨meet, fun next frames shared => (meet next frames).run shared⟩

def afterWrite (target : String) (next : Unit → Plan Next) (v : Value) : Plan Next :=
  Plan.writeRegister target v >>= next

theorem assign_settles {expr : Expr} (allowed : ¬ s.layer < expr.minLayer)
    (next : Unit → Plan Next) (frames : List Frame) :
    Task.Settles s ⟨s.instruction (.assign target (.inline expr)) >>= next, frames, memory⟩
      ⟨s.form expr registerScope, .resume (afterWrite target next) :: frames, memory⟩ := by
  have entered : s.expression expr registerScope = s.form expr registerScope := if_neg allowed
  rw [← entered]
  exact .step ⟨fun _ => rfl, rfl⟩ (.step ⟨fun _ => rfl, rfl⟩ (.refl _))

section Flow

variable (lir : s.layer = .lir) (names : ∀ name, s.nodes.get? name = none)
include lir names

omit names in
theorem allowed (expr : Expr) : ¬ s.layer < expr.minLayer := by
  rw [lir]
  cases expr <;> simp only [Expr.minLayer] <;> decide

theorem call_interchangeable (callee : String) (args : List String) :
    s.Interchangeable memory (.call target callee args)
      (.assign target (.inline (.apply (.id callee) (args.map .id)))) := by
  refine .of_meet fun next frames => ?_
  have called : Task.Settles s ⟨s.instruction (.call target callee args) >>= next, frames, memory⟩
      ⟨Plan.ofExcept (memory.register callee) >>= fun c => Plan.readRegisters args >>= fun vs =>
        .eval (.apply c vs) (afterWrite target next), frames, memory⟩ := by
    simp only [instruction, bind_assoc]
    exact Plan.readRegister_settles callee _
  have applied : Task.Settles s
      ⟨s.instruction (.assign target (.inline (.apply (.id callee) (args.map .id)))) >>= next,
        frames, memory⟩
      ⟨Plan.ofExcept (memory.register callee) >>= fun c =>
        Plan.evalAll registerScope (args.map .id) >>= fun vs => return .job (.apply c vs),
        .resume (afterWrite target next) :: frames, memory⟩ :=
    (assign_settles (allowed lir _) next frames).trans (Plan.evalIn_settles names callee _)
  refine .settles called applied ?_
  cases memory.register callee with
  | error fault => exact .right (Task.fail_quietly fault _) .same
  | ok c =>
    refine .settles (Plan.readRegisters_settles args _) (Plan.evalAll_settles names args _) ?_
    cases memory.registers args with
    | error fault => exact .right (Task.fail_quietly fault _) .same
    | ok vs => exact .left ⟨fun _ => rfl, rfl⟩ (.right ⟨fun _ => rfl, rfl⟩ .same)

theorem effect_interchangeable (op : String) (args : List String) :
    s.Interchangeable memory (.effect (some target) op args)
      (.assign target (.inline (.effect op (args.map .id)))) := by
  refine .of_meet fun next frames => ?_
  refine .settles (.refl _) (assign_settles (allowed lir _) next frames) ?_
  simp only [instruction, form, performEffect_eq]
  by_cases handled : s.hasHandler op
  · simp only [if_pos handled, bind_assoc]
    refine .settles (Plan.readRegisters_settles args _) (Plan.evalAll_settles names args _) ?_
    cases memory.registers args with
    | error fault => exact .right (Task.fail_quietly fault _) .same
    | ok vs => exact ((Plan.asks_performOn op vs).meet (afterWrite target next)).symm
  · simp only [if_neg handled]
    exact .right (Task.fail_quietly _ _) .same

omit lir names in
/-- A conjunction or a disjunction of two truth values. -/
theorem operate_settles {op : Operator} (decides : op.isShortCircuit) (a b : Bool)
    (next : Value → Plan Next) (frames : List Frame) :
    Task.Settles s ⟨Plan.operate op [.bool a, .bool b] >>= next, frames, memory⟩
      ⟨next (.bool (if op = .and then a && b else a || b)), frames, memory⟩ := by
  obtain rfl | rfl := Operator.isShortCircuit_iff.mp decides
  · exact .step ⟨fun _ => rfl, rfl⟩ (.refl _)
  · exact .step ⟨fun _ => rfl, rfl⟩ (.refl _)

omit lir in
/-- The right operand is left out just where it makes no difference. -/
theorem shortCircuit_settles {op : Operator} (decides : op.isShortCircuit) {left right : String}
    {a b : Bool} (first : memory.register left = .ok (.bool a))
    (second : memory.register right = .ok (.bool b)) (frames : List Frame) :
    Task.Settles s ⟨Plan.shortCircuit op [.id left, .id right] registerScope, frames, memory⟩
      ⟨.done (.value (.bool (if op = .and then a && b else a || b))), frames, memory⟩ := by
  refine (Plan.evalIn_settles names left _).trans ?_
  rw [first]
  have rest : Task.Settles s ⟨(do
        let other ← Plan.evalIn registerScope (.id right)
        return .value (← Plan.operate op [.bool a, other])), frames, memory⟩
      ⟨.done (.value (.bool (if op = .and then a && b else a || b))), frames, memory⟩ := by
    refine (Plan.evalIn_settles names right _).trans ?_
    rw [second]
    exact operate_settles decides a b _ frames
  obtain rfl | rfl := Operator.isShortCircuit_iff.mp decides
  · cases a with
    | false => exact .refl _
    | true => exact rest
  · cases a with
    | true => exact .refl _
    | false => exact rest

omit lir in
theorem shortCircuit_meet {op : Operator} (decides : op.isShortCircuit) {args : List String}
    {vs : List Value} (read : memory.registers args = .ok vs)
    (bools : args.length = 2 → ∀ register ∈ args, ∃ b,
      memory.heap.lookup registerScope register = some (.bool b))
    (next : Value → Plan Next) (frames : List Frame) :
    Task.Meet s ⟨Plan.operate op vs >>= next, frames, memory⟩
      ⟨Plan.shortCircuit op (args.map .id) registerScope, .resume next :: frames, memory⟩ := by
  have arity : op.arity = 2 := by obtain rfl | rfl := Operator.isShortCircuit_iff.mp decides <;> rfl
  by_cases two : args.length = 2
  · obtain ⟨left, right, rfl⟩ := List.length_eq_two.mp two
    obtain ⟨a, first⟩ := bools rfl left (by simp)
    obtain ⟨b, second⟩ := bools rfl right (by simp)
    have first : memory.register left = .ok (.bool a) := by rw [Memory.register, first]
    have second : memory.register right = .ok (.bool b) := by rw [Memory.register, second]
    obtain rfl : [.bool a, .bool b] = vs := by
      simpa [Memory.registers, first, second, Bind.bind, Except.bind, Pure.pure, Except.pure]
        using read
    refine .settles (operate_settles decides a b next frames)
      (shortCircuit_settles names decides first second _) ?_
    exact .right ⟨fun _ => rfl, rfl⟩ .same
  · have length := Memory.length_of_registers read
    have refused : Plan.shortCircuit op (args.map .id) registerScope =
        Plan.raise (.arityMismatch op.name 2 args.length) := by
      unfold Plan.shortCircuit
      split
      · next left right same =>
        have := congrArg List.length same
        simp at this
        omega
      · rw [List.length_map]
    rw [refused, Plan.operate_of_length_ne (by omega), arity, length]
    exact .right (Task.fail_quietly _ _) .same

theorem op_interchangeable {ns : Option String} {name : String} {args : List String}
    (bound : ∀ register ∈ args, (memory.heap.lookup registerScope register).isSome)
    (bools : Operator.isCoreNamespace ns → name = "and" ∨ name = "or" → args.length = 2 →
      ∀ register ∈ args, ∃ b, memory.heap.lookup registerScope register = some (.bool b)) :
    s.Interchangeable memory (.op target ns name args)
      (.assign target (.inline (.call ns name (args.map .id)))) := by
  refine .of_meet fun next frames => ?_
  obtain ⟨vs, read⟩ := Memory.registers_of_bound bound
  have ran : Task.Settles s
      ⟨s.instruction (.op target ns name args) >>= next, frames, memory⟩
      ⟨s.operatorOn ns name vs >>= afterWrite target next, frames, memory⟩ := by
    simp only [instruction, operatorInstruction_eq, bind_assoc]
    refine (Plan.readRegisters_settles args _).trans ?_
    rw [read]
    exact .refl _
  refine .settles ran (assign_settles (allowed lir _) next frames) ?_
  simp only [form, callOperator, operatorOn]
  by_cases core : Operator.isCoreNamespace ns
  · simp only [if_pos core]
    cases known : Operator.ofName? name with
    | none => exact .right (Task.fail_quietly _ _) .same
    | some op =>
      by_cases decides : op.isShortCircuit
      · simp only [if_pos decides]
        have named : op.name = name := by simpa using List.find?_some known
        refine shortCircuit_meet names decides read (fun two => bools core ?_ two) _ frames
        obtain rfl | rfl := Operator.isShortCircuit_iff.mp decides
        · exact .inl named.symm
        · exact .inr named.symm
      · simp only [if_neg decides]
        refine .settles (.refl _) (Plan.evalAll_settles names args _) ?_
        rw [read]
        exact ((Plan.asks_operate op vs).meet (afterWrite target next)).symm
  · simp only [if_neg core]
    cases found : s.domains.get (ns.getD "") with
    | error cause => exact .right (Task.fail_quietly _ _) .same
    | ok domain =>
      refine .settles (.refl _) (Plan.evalAll_settles names args _) ?_
      rw [read]
      have together : Task.Meet s
          ⟨Plan.dispatchOn domain name vs >>= afterWrite target next, frames, memory⟩
          ⟨Plan.dispatchOn domain name vs >>= fun v => return .value v,
            .resume (afterWrite target next) :: frames, memory⟩ :=
        ((Plan.asks_dispatchOn domain name vs).meet _).symm
      simp only [Plan.dispatchOn, bind_assoc] at together ⊢
      exact together

end Flow

end Setting

/-- In the setting of a control-flow document, whatever the registers hold: a call and an effect are
interchangeable with the assignments of the expressions that they abbreviate, and so is an operator
whose registers are bound. Those of a conjunction or a disjunction must be truth values besides, as
the expression does not look at the right operand where the left one decides. -/
theorem FlowDocument.instructions_interchangeable (doc : FlowDocument) (s : Setting σ)
    (graph : FlowGraph) (memory : Memory) (target : String) :
    (∀ callee args, (doc.setting s graph).Interchangeable memory (.call target callee args)
      (.assign target (.inline (.apply (.id callee) (args.map .id))))) ∧
    (∀ op args, (doc.setting s graph).Interchangeable memory (.effect (some target) op args)
      (.assign target (.inline (.effect op (args.map .id))))) ∧
    (∀ ns name args,
      (∀ register ∈ args, (memory.heap.lookup registerScope register).isSome) →
      (Operator.isCoreNamespace ns → name = "and" ∨ name = "or" → args.length = 2 →
        ∀ register ∈ args, ∃ b, memory.heap.lookup registerScope register = some (.bool b)) →
      (doc.setting s graph).Interchangeable memory (.op target ns name args)
        (.assign target (.inline (.call ns name (args.map .id))))) := by
  have lir : (doc.setting s graph).layer = .lir := rfl
  have names : ∀ name, (doc.setting s graph).nodes.get? name = none := fun _ => rfl
  exact ⟨Setting.call_interchangeable lir names, Setting.effect_interchangeable lir names,
    fun _ _ _ => Setting.op_interchangeable lir names⟩

def truthRegisters : Memory :=
  .withRegisters entryTask 0 [("a", ⟨.bool false, .mutable⟩), ("b", ⟨.bool true, .mutable⟩)]

theorem FlowDocument.instructions_interchangeable_and :
    ((FlowDocument.mk "1" "b0" [] []).setting ({} : Setting Unit) ⟨⟨"b0", [], .ret none⟩, []⟩
      ).Interchangeable truthRegisters (.op "c" none "and" ["a", "b"])
        (.assign "c" (.inline (.call none "and" [.id "a", .id "b"]))) := by
  have bools : ∀ register ∈ ["a", "b"], ∃ b,
      truthRegisters.heap.lookup registerScope register = some (.bool b) := by
    simp only [List.mem_cons, List.not_mem_nil, or_false]
    rintro register (rfl | rfl)
    · exact ⟨false, rfl⟩
    · exact ⟨true, rfl⟩
  apply (FlowDocument.instructions_interchangeable _ _ _ truthRegisters "c").2.2 none "and"
    ["a", "b"]
  · intro register member
    obtain ⟨b, bound⟩ := bools register member
    simp [bound]
  · exact fun _ _ _ => bools

end LayeredIR
