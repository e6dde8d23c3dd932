import LayeredIR.Proofs.Heap
import LayeredIR.Proofs.Layers

/-! Bindings for good. The layers that rebind nothing bind all their names for good; the third layer
binds the same names to the same values, but so that they can be rebound. A form of the first two
layers asks for the same in the third layer up to that. -/
namespace LayeredIR

def Bindings.fixed (bindings : Bindings) : Bindings :=
  bindings.map fun (name, binding) => (name, ⟨binding.value, .immutable⟩)

@[simp] theorem Bindings.find?_fixed (name : String) (bindings : Bindings) :
    bindings.fixed.find? name =
      (bindings.find? name).map fun binding => ⟨binding.value, .immutable⟩ := by
  induction bindings with
  | nil => rfl
  | cons entry rest ih =>
    obtain ⟨key, binding⟩ := entry
    simp only [fixed, find?, List.map_cons, List.lookup_cons] at ih ⊢
    cases name == key <;> simp [ih]

@[simp] theorem Bindings.fixed_set (name : String) (binding : Binding) (bindings : Bindings) :
    (bindings.set name binding).fixed = bindings.fixed.set name ⟨binding.value, .immutable⟩ := by
  induction bindings with
  | nil => rfl
  | cons entry rest ih =>
    simp only [fixed, set, List.map_cons] at ih ⊢
    split <;> simp [ih]

@[simp] theorem Bindings.fixed_ofValues (values : List (String × Value)) :
    (ofValues .immutable values).fixed = ofValues .immutable values := by
  simp [fixed, ofValues]

def Scope.fixed (scope : Scope) : Scope := { scope with bindings := scope.bindings.fixed }

namespace Heap

def fixed (heap : Heap) : Heap := ⟨heap.scopes.map Scope.fixed⟩

@[simp] theorem get?_fixed (heap : Heap) (id : ScopeId) :
    heap.fixed.get? id = (heap.get? id).map Scope.fixed := by
  simp [get?, fixed]

@[simp] theorem findWithin_fixed (heap : Heap) (name : String) (fuel : Nat) (id : ScopeId) :
    heap.fixed.findWithin name fuel id = (heap.findWithin name fuel id).map
      fun (holder, binding) => (holder, ⟨binding.value, .immutable⟩) := by
  induction fuel generalizing id with
  | zero => rfl
  | succ fuel ih =>
    simp only [findWithin, get?_fixed]
    cases heap.get? id with
    | none => rfl
    | some scope =>
      simp only [Option.map_some, Scope.fixed, Bindings.find?_fixed]
      cases scope.bindings.find? name with
      | some binding => rfl
      | none =>
        cases scope.parent with
        | none => rfl
        | some parent => exact ih parent

@[simp] theorem lookup_fixed (heap : Heap) (id : ScopeId) (name : String) :
    heap.fixed.lookup id name = heap.lookup id name := by
  simp [lookup, find?, Function.comp_def]

@[simp] theorem fixed_define (heap : Heap) (id : ScopeId) (name : String) (binding : Binding) :
    (heap.define id name binding).fixed =
      heap.fixed.define id name ⟨binding.value, .immutable⟩ := by
  simp only [define, fixed, Heap.mk.injEq]
  apply Array.ext_getElem?
  intro place
  simp only [Array.getElem?_map, Array.getElem?_modify]
  split <;> simp [Scope.fixed, Function.comp_def]

@[simp] theorem fixed_add (heap : Heap) (bindings : Bindings) (parent : Option ScopeId) :
    heap.fixed.add bindings.fixed parent =
      ((heap.add bindings parent).1, (heap.add bindings parent).2.fixed) := by
  simp [add, fixed, Scope.fixed]

@[simp] theorem fixed_child (heap : Heap) (id : ScopeId) :
    heap.fixed.child id = ((heap.child id).1, (heap.child id).2.fixed) :=
  heap.fixed_add [] (some id)

@[simp] theorem fixed_captured (heap : Heap) (captured : Captured) :
    heap.fixed.captured captured =
      ((heap.captured captured).1, (heap.captured captured).2.fixed) := by
  cases captured with
  | shared id => rfl
  | frozen entries =>
    have added := heap.fixed_add (.ofValues .immutable entries) none
    rwa [Bindings.fixed_ofValues] at added

end Heap

def Memory.fixed (memory : Memory) : Memory := { memory with heap := memory.heap.fixed }

namespace Plan

variable {α β : Type}

def fixed : Plan α → Plan α
  | .done result => .done result
  | .fail fault => .fail fault
  | .eval job next => .eval job fun v => (next v).fixed
  | .call site job next => .call site job fun v => (next v).fixed
  | .ask (.define scope name value _) next =>
    .ask (.define scope name value .immutable) fun a => (next a).fixed
  | .ask query next => .ask query fun a => (next a).fixed
  | .fork label registers next => .fork label registers fun id => (next id).fixed
  | .await future next => .await future fun outcome => (next outcome).fixed

@[simp] theorem fixed_bind (p : Plan α) (f : α → Plan β) :
    (p >>= f).fixed = p.fixed >>= fun a => (f a).fixed := by
  induction p with
  | done | fail => rfl
  | eval job next ih => exact congrArg (Plan.eval job) (funext ih)
  | call site job next ih => exact congrArg (Plan.call site job) (funext ih)
  | ask query next ih =>
    cases query with
    | define scope name value mutability =>
      exact congrArg (Plan.ask (.define scope name value .immutable)) (funext ih)
    | _ => exact congrArg (Plan.ask _) (funext ih)
  | fork label registers next ih => exact congrArg (Plan.fork label registers) (funext ih)
  | await future next ih => exact congrArg (Plan.await future) (funext ih)

@[simp] theorem fixed_map (f : α → β) (p : Plan α) : (f <$> p).fixed = f <$> p.fixed := by
  rw [map_eq_pure_bind, fixed_bind, map_eq_pure_bind]
  rfl

@[simp] theorem fixed_pure (a : α) : (pure a : Plan α).fixed = pure a := rfl

@[simp] theorem fixed_raise (cause : Cause) : (raise cause : Plan α).fixed = raise cause := rfl

@[simp] theorem fixed_ite (c : Prop) [Decidable c] (p q : Plan α) :
    (if c then p else q).fixed = if c then p.fixed else q.fixed := by
  split <;> rfl

@[simp] theorem fixed_orRaise (result : Except Cause α) :
    (orRaise result).fixed = orRaise result := by
  cases result <;> rfl

@[simp] theorem fixed_evaluate (job : Job) : (evaluate job).fixed = evaluate job := rfl

@[simp] theorem fixed_within (site : CallSite) (job : Job) :
    (within site job).fixed = within site job := rfl

@[simp] theorem fixed_evalIn (scope : ScopeId) (arg : Arg) :
    (evalIn scope arg).fixed = evalIn scope arg := rfl

@[simp] theorem fixed_evalAll (scope : ScopeId) (args : List Arg) :
    (evalAll scope args).fixed = evalAll scope args := by
  induction args with
  | nil => rfl
  | cons arg rest ih => simp [evalAll, ih]

@[simp] theorem fixed_defineAll (scope : ScopeId) (mutability : Mutability)
    (entries : List (String × Value)) :
    (defineAll scope mutability entries).fixed = defineAll scope .immutable entries := by
  induction entries with
  | nil => rfl
  | cons entry rest ih => exact congrArg (Plan.ask _) (funext fun _ => ih)

@[simp] theorem fixed_operate (op : Operator) (args : List Value) :
    (operate op args).fixed = operate op args := by
  have computed : (query (.compute op args)).fixed = query (.compute op args) := rfl
  simp [operate, computed]

@[simp] theorem fixed_refuseErrors (values : List Value) :
    (refuseErrors values).fixed = refuseErrors values := by
  unfold refuseErrors
  split <;> rfl

@[simp] theorem fixed_condition (test : Value) : (condition test).fixed = condition test := by
  cases test <;> rfl

@[simp] theorem fixed_lookupOrRaise (scope : ScopeId) (name : String) :
    (lookupOrRaise scope name).fixed = lookupOrRaise scope name := by
  refine congrArg (Plan.ask (.lookup scope name)) (funext fun found => ?_)
  cases found <;> rfl

@[simp] theorem fixed_fixpoint (generator : Value) :
    (fixpoint generator).fixed = fixpoint generator := by
  cases generator with
  | closure c => exact (fixed_ite _ _ _).trans rfl
  | _ => rfl

@[simp] theorem fixed_checkResult (result : Option Ty) (value : Value) :
    (checkResult result value).fixed = checkResult result value := by
  cases result with
  | none => rfl
  | some ty => exact (fixed_ite _ _ _).trans rfl

@[simp] theorem fixed_checkItems (of : Ty) (items : List Value) :
    (checkItems of items).fixed = checkItems of items := by
  induction items with
  | nil => rfl
  | cons item rest ih =>
    have refused : (refuseError item).fixed = refuseError item := by cases item <;> rfl
    simp [checkItems, ih, refused]

@[simp] theorem fixed_shortCircuit (op : Operator) (args : List Arg) (scope : ScopeId) :
    (shortCircuit op args scope).fixed = shortCircuit op args scope := by
  unfold shortCircuit
  split <;> simp

end Plan

def Setting.inEir {σ : Type} (s : Setting σ) (effects : Option (Effects σ)) : Setting σ :=
  { s with layer := .eir, effects := effects }

def Job.Fits (layer : Layer) : Job → Prop
  | .expr e _ => e.Fits layer
  | .operand _ _ | .apply _ _ => True
  | .block _ => False

namespace Setting

variable {σ : Type} {s : Setting σ} (effects : Option (Effects σ))
  (uncached : s.config.nodeCache = false)

include uncached in
theorem fixed_node (id : String) (expr : Expr) (scope : ScopeId) :
    ((s.inEir effects).node id expr scope).fixed = s.node id expr scope := by
  simp [node, inEir, uncached]

include uncached in
theorem fixed_operand (arg : Arg) (scope : ScopeId) :
    ((s.inEir effects).operand arg scope).fixed = s.operand arg scope := by
  cases arg with
  | inline expr => rfl
  | id name =>
    have same : (s.inEir effects).nodes = s.nodes := rfl
    simp only [operand, same]
    cases s.nodes.get? name with
    | none => simp
    | some expr => exact fixed_node effects uncached name expr scope

variable (layer : s.layer = .air ∨ s.layer = .cir)
include layer

theorem localMutability_fixed : s.localMutability = .immutable := by
  rcases layer with layer | layer <;> simp [localMutability, layer, Layer.hasMutation]

theorem fixed_apply (callee : Value) (args : List Value) :
    ((s.inEir effects).apply callee args).fixed = s.apply callee args := by
  cases callee with
  | closure c =>
    have entered : (Plan.query (.enter c.captured)).fixed = .query (.enter c.captured) := rfl
    simp [apply, localMutability_fixed layer, entered]
  | _ => rfl

theorem fixed_callDefinition (ns name : String) (args : List Arg) (scope : ScopeId) :
    ((s.inEir effects).callDefinition ns name args scope).fixed =
      s.callDefinition ns name args scope := by
  have same : (s.inEir effects).definitions = s.definitions := rfl
  have asked (key : String) : (Plan.query (.isActive key)).fixed = .query (.isActive key) := rfl
  have opened : (Plan.query (.child rootScope)).fixed = .query (.child rootScope) := rfl
  simp only [callDefinition, same]
  cases s.definitions.get? ns name with
  | none => rfl
  | some d => simp [asked, definitionBody, opened, localMutability_fixed layer]

omit layer in
theorem fixed_callOperator (ns : Option String) (name : String) (args : List Arg)
    (scope : ScopeId) :
    ((s.inEir effects).callOperator ns name args scope).fixed =
      s.callOperator ns name args scope := by
  have same : (s.inEir effects).domains = s.domains := rfl
  have dispatched (d : Domain) (values : List Value) :
      (Plan.query (.dispatch d name values)).fixed = .query (.dispatch d name values) := rfl
  simp only [callOperator, same, Plan.fixed_ite]
  cases Operator.ofName? name <;> simp [dispatched]

theorem fixed_capture (scope : ScopeId) :
    ((s.inEir effects).capture scope).fixed = s.capture scope := by
  have shares : s.layer.copiesCaptures = false := by
    rcases layer with layer | layer <;> simp [layer, Layer.copiesCaptures]
  unfold capture
  rw [shares]
  rfl

include uncached in
theorem fixed_form {expr : Expr} (scope : ScopeId) (fits : expr.Fits .cir) :
    ((s.inEir effects).form expr scope).fixed = s.form expr scope := by
  cases expr with
  | lit value => rfl
  | ref id =>
    have same : (s.inEir effects).nodes = s.nodes := rfl
    simp only [form, same]
    cases s.nodes.get? id with
    | none => rfl
    | some expr => exact fixed_node effects uncached id expr scope
  | var name => simp [form]
  | input name =>
    have same : (s.inEir effects).input? name = s.input? name := rfl
    simp only [form, same]
    cases s.input? name <;> rfl
  | call ns name args => exact fixed_callOperator effects ns name args scope
  | ifThenElse cond thenArg elseArg => simp [form]
  | letIn name value body =>
    have opened : (Plan.query (.child scope)).fixed = .query (.child scope) := rfl
    have bound (inner : ScopeId) (v : Value) (mutability : Mutability) :
        (Plan.query (.define inner name v mutability)).fixed =
          .query (.define inner name v .immutable) := rfl
    unfold form
    rw [localMutability_fixed layer]
    simp [opened, bound]
  | airRef ns name args => exact fixed_callDefinition effects layer ns name args scope
  | list of items => simp [form]
  | lambda params body =>
    have named : (Plan.query .fresh).fixed = .query .fresh := rfl
    simp [form, fixed_capture effects layer, named]
  | apply callee args => simp [form]
  | fix generator => simp [form]
  | seq | declare | assign | whileDo | effect =>
    exact absurd (show Layer.cir < .eir by decide) fits

include uncached in
/-- A form that its layer allows asks for the same in the third layer, up to what it binds for
good. -/
theorem fixed_plan {job : Job} (fits : job.Fits s.layer) :
    ((s.inEir effects).plan job).fixed = s.plan job := by
  cases job with
  | operand arg scope => exact fixed_operand effects uncached arg scope
  | expr expr scope =>
    have fits : expr.Fits s.layer := fits
    have below : s.layer.rank ≤ Layer.cir.rank := by
      rcases layer with layer | layer <;> simp [layer, Layer.rank]
    have pure : expr.Fits .cir := fits.mono below
    have allowed : expr.Fits .eir := pure.mono (by decide)
    have layer' : (s.inEir effects).layer = .eir := rfl
    simp only [plan, expression, layer', if_neg fits, if_neg allowed]
    exact fixed_form effects uncached layer scope pure
  | apply callee args => exact fixed_apply effects layer callee args
  | block label => exact fits.elim

end Setting
end LayeredIR
