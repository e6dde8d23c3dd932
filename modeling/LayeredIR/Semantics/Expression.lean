import LayeredIR.Plan
import LayeredIR.Setting

/-! The plans of operands, expressions and applications: what each form evaluates, in which order,
which of two failures wins, and where its bindings go. -/
namespace LayeredIR

def rootScope : ScopeId := 0

namespace Plan

def evalIn (scope : ScopeId) (arg : Arg) : Plan Value := evaluate (.operand arg scope)

def evalAll (scope : ScopeId) : List Arg → Plan (List Value)
  | [] => return []
  | arg :: rest => do
    let value ← evalIn scope arg
    let values ← evalAll scope rest
    return value :: values

def defineAll (scope : ScopeId) (mutability : Mutability) : List (String × Value) → Plan Unit
  | [] => return ()
  | (name, value) :: rest => do
    query (.define scope name value mutability)
    defineAll scope mutability rest

def operate (op : Operator) (args : List Value) : Plan Value := do
  orRaise (op.check args)
  orRaise (← query (.compute op args))

def refuseError : Value → Plan Unit
  | .error e => raise (.raised e)
  | _ => return ()

def refuseErrors (values : List Value) : Plan Unit :=
  match Operator.firstError? values with
  | some e => raise (.raised e)
  | none => return ()

def condition (test : Value) : Plan Bool :=
  match test with
  | .error e => raise (.raised e)
  | .bool b => return b
  | other => raise (.typeMismatch "bool" other.kind)

def lookupOrRaise (scope : ScopeId) (name : String) : Plan Value := do
  match ← query (.lookup scope name) with
  | some value => return value
  | none => raise (.unboundName name)

def fixpoint (generator : Value) : Plan Next :=
  match generator with
  | .error e => raise (.raised e)
  | .closure c =>
    if c.isFix ∨ c.shownParams.length ≠ 1 then
      raise (.arityMismatch "fix" 1 c.shownParams.length)
    else do
      let id ← query .fresh
      return .job (.apply generator [.closure (c.fixpointOf id)])
  | other => raise (.notCallable other.kind)

/-- A value where a definition declares its result. Errors pass whatever is declared. -/
def checkResult (result : Option Ty) (value : Value) : Plan Next :=
  match result with
  | none => return .value value
  | some ty =>
    if value.isError || value.conformsTo ty then return .value value
    else raise (.typeMismatch ty.text value.kind)

def shortCircuit (op : Operator) (args : List Arg) (scope : ScopeId) : Plan Next :=
  match args with
  | [left, right] => do
    let value ← evalIn scope left
    let decided ← condition value
    if decided == (op == .or) then return .value value
    else
      let other ← evalIn scope right
      return .value (← operate op [value, other])
  | _ => raise (.arityMismatch op.name 2 args.length)

def checkItems (of : Ty) : List Value → Plan Unit
  | [] => return ()
  | item :: rest => do
    if item.conformsTo of then checkItems of rest
    else
      refuseError item
      raise (.typeMismatch of.text item.kind)

end Plan

namespace Setting

variable {σ : Type} (s : Setting σ)

/-- A node, evaluated in the scope of the reference to it. Its value is kept where no mutation can
change it and where the reference stands in the root scope, so that the scope is always the same. -/
def node (id : String) (expr : Expr) (scope : ScopeId) : Plan Next := do
  if s.config.nodeCache && !s.layer.hasMutation && scope == rootScope then
    match ← Plan.query (.recollect id) with
    | some value => return .value value
    | none =>
      let value ← Plan.within ⟨id, false⟩ (.expr expr scope)
      Plan.query (.remember id value)
      return .value value
  else
    return .value (← Plan.within ⟨id, false⟩ (.expr expr scope))

def operand (arg : Arg) (scope : ScopeId) : Plan Next :=
  match arg with
  | .inline expr => return .job (.expr expr scope)
  | .id name =>
    match s.nodes.get? name with
    | some expr => s.node name expr scope
    | none => return .value (← Plan.lookupOrRaise scope name)

/-- A function applied to arguments. Its body sees the arguments in a new scope within the one that
the function captured. -/
def apply (callee : Value) (args : List Value) : Plan Next :=
  match callee with
  | .error e => Plan.raise (.raised e)
  | .closure c =>
    if c.isFix then do
      let unrolled ← Plan.evaluate (.apply (.closure c.generator) [callee])
      return .job (.apply unrolled args)
    else if c.params.length ≠ args.length then
      Plan.raise (.arityMismatch "<closure>" c.params.length args.length)
    else do
      let scope ← Plan.query (.enter c.captured)
      Plan.defineAll scope s.localMutability (c.params.zip args)
      return .value (← Plan.within ⟨"<closure>", false⟩ (.operand c.body scope))
  | other => Plan.raise (.notCallable other.kind)

/-- The body of a definition on the values of its operands. It sees its parameters, and beyond them
only what the root scope binds. -/
def definitionBody (key : String) (d : Definition) (values : List Value) : Plan Value := do
  let inner ← Plan.query (.child rootScope)
  Plan.defineAll inner s.localMutability (d.params.zip values)
  Plan.within ⟨key, true⟩ (.operand d.body inner)

def callDefinition (ns name : String) (args : List Arg) (scope : ScopeId) : Plan Next := do
  let key := definitionKey ns name
  match s.definitions.get? ns name with
  | none => Plan.raise (.unboundName key)
  | some d =>
    if ← Plan.query (.isActive key) then Plan.raise (.recursiveDefinition key)
    else if d.params.length ≠ args.length then
      Plan.raise (.arityMismatch key d.params.length args.length)
    else
      let values ← Plan.evalAll scope args
      let value ← s.definitionBody key d values
      Plan.checkResult d.result value

def callOperator (ns : Option String) (name : String) (args : List Arg) (scope : ScopeId) :
    Plan Next :=
  if Operator.isCoreNamespace ns then
    match Operator.ofName? name with
    | none => Plan.raise (.unknownOperator Operator.namespaceName name)
    | some op =>
      if op.isShortCircuit then Plan.shortCircuit op args scope
      else do
        let values ← Plan.evalAll scope args
        return .value (← Plan.operate op values)
  else do
    let domain ← Plan.orRaise (s.domains.get (ns.getD ""))
    let values ← Plan.evalAll scope args
    Plan.refuseErrors values
    return .value (← Plan.orRaise (← Plan.query (.dispatch domain name values)))

/-- An effect. Its handler is found before any argument is evaluated. -/
def performEffect (op : String) (args : Plan (List Value)) : Plan Value := do
  if s.hasHandler op then
    let values ← args
    Plan.refuseErrors values
    match ← Plan.query (.perform op values) with
    | .ok value => return value
    | .error fault => .fail fault
  else Plan.raise (.unknownEffect op)

def capture (scope : ScopeId) : Plan Captured := do
  if s.layer.copiesCaptures then
    let visible ← Plan.query (.flatten scope)
    return .frozen visible.values
  else return .shared scope

def declaration? (statement : Arg) : Option (String × Arg) :=
  let parts : Expr → Option (String × Arg)
    | .declare name value => some (name, value)
    | _ => none
  match statement with
  | .inline expr => parts expr
  | .id name => (s.nodes.get? name).bind parts

/-- Statements in order, `last` being the value of the one before. A declaration opens a new scope,
so that closures made before it do not see it. -/
def statements (last : Value) : List Arg → ScopeId → Plan Next
  | [], _ => return .value last
  | statement :: rest, scope =>
    match s.declaration? statement with
    | some (name, value) => do
      let value ← Plan.evalIn scope value
      let inner ← Plan.query (.child scope)
      Plan.query (.define inner name value .mutable)
      statements .void rest inner
    | none => do
      let value ← Plan.evalIn scope statement
      statements value rest scope

def form (expr : Expr) (scope : ScopeId) : Plan Next :=
  match expr with
  | .lit value => return .value (.ofLiteral value)
  | .ref id =>
    match s.nodes.get? id with
    | some expr => s.node id expr scope
    | none => Plan.raise (.unboundName id)
  | .var name => return .value (← Plan.lookupOrRaise scope name)
  | .input name =>
    match s.input? name with
    | some value => return .value value
    | none => Plan.raise (.unboundName name)
  | .call ns name args => s.callOperator ns name args scope
  | .ifThenElse cond thenArg elseArg => do
    let test ← Plan.evalIn scope cond
    if ← Plan.condition test then return .job (.operand thenArg scope)
    else return .job (.operand elseArg scope)
  | .letIn name value body => do
    let value ← Plan.evalIn scope value
    let inner ← Plan.query (.child scope)
    Plan.query (.define inner name value s.localMutability)
    return .job (.operand body inner)
  | .airRef ns name args => s.callDefinition ns name args scope
  | .list of items => do
    let values ← Plan.evalAll scope items
    Plan.checkItems of values
    return .value (.list of values)
  | .lambda params body => do
    let captured ← s.capture scope
    let id ← Plan.query .fresh
    return .value (.closure ⟨id, params, body, captured, false⟩)
  | .apply callee args => do
    let callee ← Plan.evalIn scope callee
    let args ← Plan.evalAll scope args
    return .job (.apply callee args)
  | .fix generator => do
    let generator ← Plan.evalIn scope generator
    Plan.fixpoint generator
  | .seq body => do
    let inner ← Plan.query (.child scope)
    s.statements .void body inner
  | .declare name value => do
    let value ← Plan.evalIn scope value
    Plan.query (.define scope name value .mutable)
    return .value .void
  | .assign name value => do
    let value ← Plan.evalIn scope value
    match ← Plan.query (.assign scope name value) with
    | .ok () => return .value .void
    | .error .undefined => Plan.raise (.unboundName name)
    | .error .immutable => Plan.raise (.immutableBinding name)
  | .whileDo cond body => do
    let test ← Plan.evalIn scope cond
    if ← Plan.condition test then
      let _ ← Plan.evalIn scope body
      return .job (.expr expr scope)
    else return .value .void
  | .effect op args => return .value (← s.performEffect op (Plan.evalAll scope args))

def expression (expr : Expr) (scope : ScopeId) : Plan Next := do
  if s.layer < expr.minLayer then
    let place ← Plan.query .innermost
    Plan.raise (.layerViolation s.layer expr.form (place.getD "<expr>"))
  else s.form expr scope

end Setting
end LayeredIR
