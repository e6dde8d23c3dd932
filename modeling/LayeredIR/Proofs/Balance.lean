import LayeredIR.Proofs.Arising

/-! Calls that end. What is evaluated or called somewhere in a run may call definitions, nodes and
functions to any depth, and may fail anywhere. When it is over, the call stack and the definitions
that are running are as they were before; until then no more calls are live than the ceiling allows,
and those of definitions are of different ones. -/
namespace LayeredIR

variable {σ : Type}

inductive Request
  | expression (expr : Expr) (scope : ScopeId)
  | operand (arg : Arg) (scope : ScopeId)
  | operands (args : List Arg) (scope : ScopeId)
  | apply (callee : Value) (args : List Value)
  | fix (generator : Value)
  | definition (ns name : String) (args : List Arg) (scope : ScopeId)

namespace Setting

variable (s : Setting σ)

def planFor : Request → Plan Next
  | .expression expr scope => s.plan (.expr expr scope)
  | .operand arg scope => s.plan (.operand arg scope)
  | .operands args scope => do
    let _ ← Plan.evalAll scope args
    return .value .void
  | .apply callee args => s.plan (.apply callee args)
  | .fix generator => Plan.fixpoint generator
  | .definition ns name args scope => s.callDefinition ns name args scope

theorem planFor_guarded (request : Request) {idle : List String} :
    (s.planFor request).Guarded s idle := by
  have operands (args : List Arg) (scope : ScopeId) : ∀ arg ∈ args, s.guard.Permits scope arg :=
    fun _ _ _ _ => trivial
  cases request with
  | expression expr scope => exact s.plan_guarded (.expr expr scope)
  | operand arg scope => exact s.plan_guarded (.operand arg scope)
  | apply callee args => exact s.plan_guarded (.apply callee args)
  | operands args scope =>
    exact (Plan.evalAll_obeys guard_laws (operands args scope) trivial).bind
      fun _ _ _ _ => .done trivial
  | fix generator =>
    have fixed : (Plan.fixpoint generator).Obeys s.guard (s.guard.Ends (.apply generator []))
        idle :=
      Plan.fixpoint_obeys guard_laws (fun _ _ _ _ _ => trivial) fun _ => nofun
    exact .of_ends fixed
  | definition ns name args scope =>
    have allows := guard_allowsForm (s := s) (.airRef ns name args) scope
    have called : (s.callDefinition ns name args scope).Obeys s.guard
        (s.guard.Ends (.expr (.airRef ns name args) scope)) idle :=
      s.callDefinition_obeys guard_laws (operands args scope) trivial (allows.definition rfl)
        fun _ _ => trivial
    exact .of_ends called

/-- The states of what is requested, from where a task makes the request until it is answered. What
tasks share may be changed by others between any two steps. -/
inductive During (t : Task) (request : Request) : Task → Prop
  | start : During t request ⟨s.planFor request, t.frames, t.memory⟩
  | step {task shared' task'} (shared) (before : During t request task)
    (goes : ∀ outcome, task.control = Plan.ending outcome → task.frames ≠ t.frames)
    (stepped : task.step s shared = .running shared' task') : During t request task'

end Setting

/-- Calls in keeping with each other: the names on the call stack, the frames that leave them, and
the definitions that are said to be running. -/
structure Task.Balanced (s : Setting σ) (task : Task) : Prop where
  room : task.memory.stack.depth ≤ s.config.maxCallDepth
  depth : task.memory.stack.depth = (task.frames.filterMap Frame.leaves?).length
  active : task.memory.active = CallSite.keys task.calls
  nodup : task.memory.active.Nodup
  defined : ∀ key ∈ task.memory.active, s.Defines key

theorem Task.Accounts.balanced {s : Setting σ} {task : Task} {c : List CallSite}
    (accounts : task.Accounts s [] [] c) : task.Balanced s := by
  obtain ⟨-, live, stack, active⟩ := accounts
  have sound := live.sound
  have calls : task.calls = c := by
    simp only [Task.calls, stack, live.leaves, CallStack.ofCalls, List.reverse_reverse]
    rw [List.zipWith_map, List.zipWith_self, List.map_id'']
    exact fun _ => rfl
  constructor
  case room =>
    rw [stack, CallStack.depth_ofCalls]
    exact sound.room
  case depth =>
    rw [stack, CallStack.depth_ofCalls, live.leaves, List.length_map]
  case active =>
    rw [calls, active]
  case nodup =>
    exact active ▸ sound.nodup
  case defined =>
    exact active ▸ sound.defined

theorem Setting.During.accounts {s : Setting σ} {t task : Task} {request : Request}
    {base : List CallSite} (begins : t.Accounts s [] [] base) (during : s.During t request task) :
    ∃ c, task.Accounts s t.frames base c := by
  induction during with
  | start =>
    refine ⟨base, ⟨[], s.planFor_guarded request, nofun⟩, .bottom, ?_, ?_⟩
    · exact begins.stack
    · exact begins.active
  | step _ _ goes stepped ih =>
    obtain ⟨c, accounts⟩ := ih
    exact accounts.step goes stepped

/-- What is requested keeps the calls balanced, and leaves those around it as they were. -/
theorem Setting.During.balanced {s : Setting σ} {t task : Task} {request : Request}
    (during : s.During t request task) (arises : s.Arises t) :
    task.Balanced s ∧ (task.frames = t.frames →
      task.memory.stack = t.memory.stack ∧ task.memory.active = t.memory.active) := by
  obtain ⟨base, begins⟩ := arises.accounts
  obtain ⟨c, control, live, stack, active⟩ := during.accounts begins
  refine ⟨Task.Accounts.balanced ⟨control, begins.frames.trans live, stack, active⟩, fun back => ?_⟩
  obtain rfl := live.back back
  exact ⟨stack.trans begins.stack.symm, active.trans begins.active.symm⟩

/-- Wherever in a run an expression, operands, a function, a fixpoint or a definition are called
for: in every state until the call returns, the number of live calls is within the ceiling, and the
definitions that are running are different ones of the table, those of the live calls, in order; and
when it returns, with a value or a failure, the call stack and the definitions that are running are
as they were. So they are between the evaluations of an interpreter. -/
theorem Setting.calls_balanced (s : Setting σ) :
    (∀ t, s.Arises t → ∀ request task, s.During t request task →
      task.Balanced s ∧ (task.frames = t.frames →
        task.memory.stack = t.memory.stack ∧ task.memory.active = t.memory.active)) ∧
    (∀ i, Interpreter.Reached s i →
      (∀ fuel job outcome i', i.run fuel job = some (outcome, i') →
        i'.memory.stack = i.memory.stack ∧ i'.memory.active = i.memory.active) ∧
      ∀ fuel scope args outcome i', i.runAll fuel scope args = some (outcome, i') →
        i'.memory.stack = i.memory.stack ∧ i'.memory.active = i.memory.active) :=
  ⟨fun _ arises _ _ during => during.balanced arises, fun _ _ =>
    ⟨fun _ _ _ _ ran => (Interpreter.run_calls ran).2,
      fun _ _ _ _ _ ran => Interpreter.runAll_calls ran⟩⟩

def constantSetting : Setting Unit where
  definitions := .ofList [⟨"m", "one", [], .inline (.lit (.int 1)), none⟩]

/-- A call of that definition: its body runs one call deep, and then the call returns. -/
theorem Setting.calls_balanced_constant : ∃ t inside after : Task,
    constantSetting.Arises t ∧ t.memory.active = [] ∧
    constantSetting.During t (.definition "m" "one" [] rootScope) inside ∧
    inside.memory.active = ["m:one"] ∧ inside.Balanced constantSetting ∧
    constantSetting.During t (.definition "m" "one" [] rootScope) after ∧
    after.control = .done (.value (.int 1)) ∧ after.frames = t.frames ∧
    after.memory.active = t.memory.active := by
  let s := constantSetting
  let t : Task := .start (.operand (.inline (.airRef "m" "one" [])) rootScope)
    (Interpreter.new s ()).memory
  let request : Request := .definition "m" "one" [] rootScope
  let alone : Shared Unit := ⟨.empty, 0, ()⟩
  have arises : s.Arises t := .called (.new ()) _
  have balanced := (calls_balanced s).1 t arises request
  have asked : s.During t request _ := .step alone .start nofun rfl
  have opened : s.During t request _ := .step alone asked nofun rfl
  have entered : s.During t request _ := .step alone opened nofun rfl
  have valued : s.During t request _ := .step alone entered nofun rfl
  have left : s.During t request _ := .step alone valued nofun rfl
  have returned : s.During t request _ := .step alone left nofun rfl
  exact ⟨t, _, _, arises, rfl, entered, rfl, (balanced _ entered).1, returned, rfl, rfl,
    ((balanced _ returned).2 rfl).2⟩

end LayeredIR
