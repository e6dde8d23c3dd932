import LayeredIR.Proofs.Arising
import LayeredIR.Proofs.Charter.Evaluations

/-! Error values as operands. An operation is never computed, dispatched or performed on one. Once a
known operation has been given all its operands, and some of them are error values, it fails as the
leftmost one says: operators and effects, in expressions and in instructions, and conjunction and
disjunction where the left operand leaves the result open. -/
namespace LayeredIR

variable {σ : Type}

inductive Plan.Given (p : Plan Next) : List Value → Plan Next → Prop
  | none : Given p [] p
  | evaluated {vs job next} (before : Given p vs (.eval job next)) (v : Value) :
    Given p (vs ++ [v]) (next v)
  | read {vs place name next} (before : Given p vs (.ask (.lookup place name) next)) (v : Value) :
    Given p (vs ++ [v]) (next (some v))

def Plan.Operandless (p : Plan Next) : Prop :=
  (∀ job next, p ≠ .eval job next) ∧ ∀ place name next, p ≠ .ask (.lookup place name) next

/-- A plan that has been given some operands, and is left with at most `n` more. If it is given them
all, it fails as the leftmost error among them says. -/
inductive Plan.Refuses : List Value → Nat → Plan Next → Prop
  | all {vs p} (fails : ∀ e, Operator.firstError? vs = some e → p = Plan.raise (.raised e)) :
    Refuses vs 0 p
  | eval {vs n job next} (rest : ∀ v, Refuses (vs ++ [v]) n (next v)) :
    Refuses vs (n + 1) (.eval job next)
  | read {vs n place name next} (rest : ∀ v, Refuses (vs ++ [v]) n (next (some v))) :
    Refuses vs (n + 1) (.ask (.lookup place name) next)
  | early {vs n p} (ends : p.Operandless) : Refuses vs (n + 1) p

/-- Operands are evaluated one after the other, from the left. -/
theorem Plan.evalAll_cons (a : ScopeId) (arg : Arg) (args : List Arg)
    (f : List Value → Plan Next) :
    evalAll a (arg :: args) >>= f =
      .eval (.operand arg a) fun v => evalAll a args >>= fun ws => f (v :: ws) := by
  change Plan.eval _ (fun v => (evalAll a args >>= fun ws => pure (v :: ws)) >>= f) = _
  simp only [bind_assoc, pure_bind]

namespace Plan.Refuses

theorem given {p q : Plan Next} {n : Nat} {vs : List Value} (refuses : p.Refuses [] n)
    (given : p.Given vs q) (fits : vs.length ≤ n) : q.Refuses vs (n - vs.length) := by
  induction given with
  | none => exact refuses
  | @evaluated vs job next _ v ih =>
    rw [List.length_append, List.length_singleton] at fits ⊢
    obtain ⟨k, more⟩ : ∃ k, n - vs.length = k + 1 := ⟨n - vs.length - 1, by omega⟩
    have before := ih (by omega)
    rw [more] at before
    cases before with
    | eval rest => exact (show k = n - (vs.length + 1) by omega) ▸ rest v
    | early ends => exact absurd rfl (ends.1 job next)
  | @read vs place name next _ v ih =>
    rw [List.length_append, List.length_singleton] at fits ⊢
    obtain ⟨k, more⟩ : ∃ k, n - vs.length = k + 1 := ⟨n - vs.length - 1, by omega⟩
    have before := ih (by omega)
    rw [more] at before
    cases before with
    | read rest => exact (show k = n - (vs.length + 1) by omega) ▸ rest v
    | early ends => exact absurd rfl (ends.2 place name next)

theorem fails {p q : Plan Next} {n : Nat} {vs : List Value} {e : ErrorValue}
    (refuses : p.Refuses [] n) (given : p.Given vs q) (all : vs.length = n)
    (first : Operator.firstError? vs = some e) : q = Plan.raise (.raised e) := by
  have after := refuses.given given all.le
  rw [all, Nat.sub_self] at after
  cases after with
  | all fails => exact fails e first

/-- A plan that takes no operand at all. -/
theorem of_operandless {p : Plan Next} {n : Nat} (ends : p.Operandless) : p.Refuses [] n := by
  cases n with
  | zero => exact .all nofun
  | succ n => exact .early ends

theorem evalAll (a : ScopeId) {f : List Value → Plan Next} {vs : List Value} {args : List Arg}
    (rest : ∀ ws, ws.length = args.length → (f ws).Refuses (vs ++ ws) 0) :
    (Plan.evalAll a args >>= f).Refuses vs args.length := by
  induction args generalizing vs f with
  | nil =>
    have last := rest [] rfl
    rwa [List.append_nil] at last
  | cons arg args ih =>
    rw [evalAll_cons]
    refine .eval fun v => ih fun ws same => ?_
    rw [List.append_assoc]
    exact rest (v :: ws) (congrArg (· + 1) same)

theorem readRegisters {f : List Value → Plan Next} {vs : List Value} {names : List String}
    (rest : ∀ ws, ws.length = names.length → (f ws).Refuses (vs ++ ws) 0) :
    (Plan.readRegisters names >>= f).Refuses vs names.length := by
  induction names generalizing vs f with
  | nil =>
    have last := rest [] rfl
    rwa [List.append_nil] at last
  | cons name names ih =>
    refine .read fun v => ?_
    change ((Plan.readRegisters names >>= fun ws => pure (v :: ws)) >>= f).Refuses _ _
    simp only [bind_assoc, pure_bind]
    refine ih fun ws same => ?_
    rw [List.append_assoc]
    exact rest (v :: ws) (congrArg (· + 1) same)

/-- Operands that have been looked through. -/
theorem refuseErrors (vs : List Value) (f : Unit → Plan Next) :
    (Plan.refuseErrors vs >>= f).Refuses vs 0 := by
  refine .all fun e first => ?_
  unfold Plan.refuseErrors
  rw [first]
  rfl

/-- A core operator on as many operands as it takes. -/
theorem operate {op : Operator} {vs : List Value} (arity : vs.length = op.arity)
    (f : Value → Plan Next) : (Plan.operate op vs >>= f).Refuses vs 0 := by
  refine .all fun e first => ?_
  unfold Plan.operate Operator.check
  rw [if_neg (not_not.mpr arity), first]
  rfl

/-- The right operand of a conjunction or a disjunction is given where the left one is a truth value
that leaves the result open, and then the two are operands of the operator. -/
theorem shortCircuit {op : Operator} (binary : op.arity = 2) (left right : Arg) (a : ScopeId) :
    (Plan.shortCircuit op [left, right] a).Refuses [] 2 := by
  refine .eval fun v => ?_
  cases v with
  | bool b =>
    change Plan.Refuses _ _ (if (b == (op == .or)) = true then _ else _)
    split
    · exact .early ⟨nofun, nofun⟩
    · refine .eval fun u => ?_
      have both : [Value.bool b, u].length = op.arity := binary.symm
      exact operate both _
  | _ => exact .early ⟨nofun, nofun⟩

end Plan.Refuses

namespace Setting

variable (s : Setting σ)

/-- A known operation with the number of its operands: a core operator with as many as it takes, an
operation of a domain, or an effect with a handler; in an expression, or in an instruction and
whatever comes after it. -/
inductive Operation : Plan Next → Nat → Prop
  | core {ns name op args a} (core : Operator.isCoreNamespace ns)
    (known : Operator.ofName? name = some op) (arity : args.length = op.arity) :
    Operation (s.plan (.expr (.call ns name args) a)) args.length
  | domain {ns name d args a} (other : Operator.isCoreNamespace (some ns) = false)
    (known : s.domains.find? ns = some d) :
    Operation (s.plan (.expr (.call (some ns) name args) a)) args.length
  | effect {op args a} (known : s.hasHandler op) :
    Operation (s.plan (.expr (.effect op args) a)) args.length
  | coreInstruction {target ns name op args} (core : Operator.isCoreNamespace ns)
    (known : Operator.ofName? name = some op) (arity : args.length = op.arity)
    (rest : Unit → Plan Next) :
    Operation (s.instruction (.op target ns name args) >>= rest) args.length
  | domainInstruction {target ns name d args} (other : Operator.isCoreNamespace (some ns) = false)
    (known : s.domains.find? ns = some d) (rest : Unit → Plan Next) :
    Operation (s.instruction (.op target (some ns) name args) >>= rest) args.length
  | effectInstruction {target op args} (known : s.hasHandler op) (rest : Unit → Plan Next) :
    Operation (s.instruction (.effect target op args) >>= rest) args.length

variable {s}

/-- A form above the layer takes no operand. -/
theorem expression_refuses {expr : Expr} {a : ScopeId} {n : Nat}
    (form : (s.form expr a).Refuses [] n) : (s.plan (.expr expr a)).Refuses [] n := by
  change Plan.Refuses [] n (if s.layer < expr.minLayer then _ else _)
  split
  · exact .of_operandless ⟨nofun, nofun⟩
  · exact form

theorem performEffect_refuses {op : String} (known : s.hasHandler op) {args : Plan (List Value)}
    {f : Value → Plan Next} {n : Nat}
    (operands : ∀ g : List Value → Plan Next, (∀ ws, (g ws).Refuses ws 0) →
      (args >>= g).Refuses [] n) : (s.performEffect op args >>= f).Refuses [] n := by
  unfold performEffect
  rw [if_pos known, bind_assoc]
  refine operands _ fun ws => ?_
  rw [bind_assoc]
  exact .refuseErrors ws _

theorem Operation.refuses {p : Plan Next} {n : Nat} (operation : s.Operation p n) :
    p.Refuses [] n := by
  cases operation with
  | @core ns name op args a core known arity =>
    refine expression_refuses ?_
    simp only [form, callOperator, core, if_true, known]
    split
    · next short =>
      have binary : op.arity = 2 := by
        revert short
        cases op <;> decide
      rw [binary] at arity
      obtain ⟨left, right, rfl⟩ := List.length_eq_two.mp arity
      exact .shortCircuit binary left right a
    · exact .evalAll a fun ws same => .operate (same.trans arity) _
  | @domain ns name d args a other known =>
    refine expression_refuses ?_
    simp only [form, callOperator, other, Bool.false_eq_true, if_false, Domains.get,
      Option.getD_some, known]
    exact .evalAll a fun ws _ => .refuseErrors ws _
  | @effect op args a known =>
    refine expression_refuses (performEffect_refuses known fun g fails => ?_)
    exact .evalAll a fun ws _ => fails ws
  | coreInstruction core known arity rest =>
    simp only [instruction, operatorInstruction, core, if_true, known, bind_assoc]
    exact .readRegisters fun ws same => .operate (same.trans arity) _
  | domainInstruction other known rest =>
    simp only [instruction, operatorInstruction, other, Bool.false_eq_true, if_false, Domains.get,
      Option.getD_some, known, bind_assoc]
    exact .readRegisters fun ws _ => .refuseErrors ws _
  | effectInstruction known rest =>
    simp only [instruction, bind_assoc]
    exact performEffect_refuses known fun g fails => .readRegisters fun ws _ => fails ws

/-- The states in which a plan, above some frames, has been given operands: each one evaluated in
place to its end or read from a scope, whatever other tasks and the host do in the meantime. -/
inductive Takes (s : Setting σ) (bottom : List Frame) (p : Plan Next) (memory : Memory) :
    List Value → Task → Prop
  | start : Takes s bottom p memory [] ⟨p, bottom, memory⟩
  | evaluated {vs job next memory₁ begun v memory₂}
    (before : Takes s bottom p memory vs ⟨.eval job next, bottom, memory₁⟩)
    (evaluation : s.Evaluation (.resume next :: bottom) job memory₁ begun
      ⟨.done (.value v), .resume next :: bottom, memory₂⟩) :
    Takes s bottom p memory (vs ++ [v]) ⟨next v, bottom, memory₂⟩
  | read {vs place name next memory₁ v}
    (before : Takes s bottom p memory vs ⟨.ask (.lookup place name) next, bottom, memory₁⟩)
    (found : memory₁.heap.lookup place name = some v) :
    Takes s bottom p memory (vs ++ [v]) ⟨next (some v), bottom, memory₁⟩

theorem Takes.given {bottom : List Frame} {p : Plan Next} {memory : Memory} {vs : List Value}
    {task : Task} (takes : s.Takes bottom p memory vs task) :
    p.Given vs task.control ∧ task.frames = bottom := by
  induction takes with
  | start => exact ⟨.none, rfl⟩
  | evaluated _ _ ih => exact ⟨.evaluated ih.1 _, rfl⟩
  | read _ _ ih => exact ⟨.read ih.1 _, rfl⟩

end Setting

def Task.Spares (task : Task) : Prop :=
  ∀ q next, task.control = .ask q next → ∀ v ∈ q.operands, v.isError = false

def World.Spares (w : World σ) : Prop :=
  ∀ who phase task, (who, phase) ∈ w.tasks → phase.task? = some task → task.Spares

theorem Setting.Arises.spares {s : Setting σ} {task : Task} (arises : s.Arises task) :
    task.Spares := by
  obtain ⟨c, ⟨idle, guarded, -⟩, -⟩ := arises.accounts
  intro q next asks
  rw [asks] at guarded
  cases guarded with
  | ask sound _ => exact sound

theorem Setting.ArisesIn.spares {s : Setting σ} {w : World σ} (arises : s.ArisesIn w) : w.Spares :=
  fun who phase task member runs => (arises who phase task member runs).spares

theorem Operator.firstError?_leftmost {before after : List Value} {e : ErrorValue}
    (clear : ∀ v ∈ before, v.isError = false) :
    firstError? (before ++ .error e :: after) = some e := by
  have none : before.findSome? Value.asError? = none := by
    refine List.findSome?_eq_none_iff.mpr fun v member => ?_
    simpa [Value.isError] using clear v member
  rw [firstError?, List.findSome?_append, none]
  rfl

/-- In every run, of documents in each layer, of tasks beside each other, and of interpreters, no
operation is asked for with an error value among its operands. And a known operation that has been
given all its operands, some of them errors, fails with the code and the message of the leftmost. -/
theorem Setting.errors_propagate (s : Setting σ) (host : σ) :
    (∀ (doc : Document) o, doc.openingAirCir s = .ok o ∨ doc.openingEir s = .ok o →
      ∀ n, (o.world host n).Spares) ∧
    (∀ (doc : FlowDocument) o, doc.opening s = .ok o → ∀ n, (o.world host n).Spares) ∧
    (∀ (doc : FlowDocument) w, doc.Reaches s host w → w.Spares) ∧
    (∀ task, s.Arises task → task.Spares) ∧
    (∀ p n, s.Operation p n → ∀ bottom memory before e after task,
      s.Takes bottom p memory (before ++ .error e :: after) task →
      before.length + 1 + after.length = n → (∀ v ∈ before, v.isError = false) →
      ∃ fault, task.control = .fail fault ∧ task.frames = bottom ∧ fault.toValue = .error e) := by
  refine ⟨fun doc o opens n => ?_, fun doc o opens n => ?_, fun doc w reaches => ?_,
    fun task arises => arises.spares, fun p n operation bottom memory before e after task takes
      all clear => ?_⟩
  · rcases opens with opens | opens
    · exact (Opening.world_arises (Document.opening_arises opens host) host n).spares
    · exact (Opening.world_arises (Document.opening_arises opens host) host n).spares
  · exact (Opening.world_arises (FlowDocument.opening_arises opens) host n).spares
  · obtain ⟨graph, -, arises⟩ := reaches.arises
    exact arises.spares
  · obtain ⟨given, frames⟩ := takes.given
    have length : (before ++ .error e :: after).length = n := by
      simp only [List.length_append, List.length_cons]
      omega
    have first : Operator.firstError? (before ++ .error e :: after) = some e :=
      Operator.firstError?_leftmost clear
    exact ⟨_, operation.refuses.fails given length first, frames, rfl⟩

def sumDocument : Document where
  version := "1.0.0"
  layer := some .air
  definitions := []
  nodes := []
  result := .inline (.call none "add" [.inline (.lit (.int 1)), .inline (.lit (.int 2))])

def sumSetting : Setting Unit := {}

def errorSum : Expr :=
  .call none "add" [.inline (.lit (.error "A" (some "left"))), .inline (.lit (.error "B" none))]

/-- The sum is computed on numbers; a sum of two errors fails as the left one says. -/
theorem Setting.errors_propagate_sum :
    (∃ o task, sumDocument.openingAirCir sumSetting = .ok o ∧
      (entryTask, .running task) ∈ (o.world () 8).tasks ∧
      task.control.values = [.int 1, .int 2] ∧ task.Spares) ∧
    ∃ task : Task,
      sumSetting.Takes [] (sumSetting.plan (.expr errorSum rootScope))
        (.initial entryTask 1) [.error ⟨"A", some "left"⟩, .error ⟨"B", none⟩] task ∧
      ∃ fault, task.control = .fail fault ∧ fault.toValue = .error ⟨"A", some "left"⟩ := by
  obtain ⟨documents, -, -, -, operations⟩ := errors_propagate sumSetting ()
  let s := sumSetting
  let alone : Shared Unit := ⟨.empty, 0, ()⟩
  refine ⟨?_, ?_⟩
  · have opens : sumDocument.openingAirCir s = .ok ⟨_, _⟩ := rfl
    refine ⟨_, _, opens, .head _, rfl, ?_⟩
    exact documents sumDocument _ (.inl opens) 8 entryTask _ _ (.head _) rfl
  · have operation : s.Operation (s.plan (.expr errorSum rootScope)) 2 := .core rfl rfl rfl
    have first : s.Takes [] (s.plan (.expr errorSum rootScope)) (.initial entryTask 1)
        [.error ⟨"A", some "left"⟩] _ :=
      .evaluated .start (.step alone .start nofun rfl)
    have second : s.Takes [] (s.plan (.expr errorSum rootScope)) (.initial entryTask 1)
        [.error ⟨"A", some "left"⟩, .error ⟨"B", none⟩] _ :=
      .evaluated first (.step alone .start nofun rfl)
    obtain ⟨fault, fails, -, code⟩ :=
      operations _ 2 operation [] _ [] _ [.error ⟨"B", none⟩] _ second rfl nofun
    exact ⟨_, second, fault, fails, code⟩

end LayeredIR
