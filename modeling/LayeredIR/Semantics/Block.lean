import LayeredIR.Semantics.Expression

/-! The plans of blocks: instructions in order over the registers of the task, then the terminator,
which ends the task or goes on at another block. -/
namespace LayeredIR

def registerScope : ScopeId := 1

namespace Plan

def readRegister (name : String) : Plan Value := lookupOrRaise registerScope name

def readRegisters : List String → Plan (List Value)
  | [] => return []
  | name :: rest => do
    let value ← readRegister name
    let values ← readRegisters rest
    return value :: values

def writeRegister (name : String) (value : Value) : Plan Unit :=
  query (.define registerScope name value .mutable)

def writeTarget (target : Option String) (value : Value) : Plan Unit :=
  match target with
  | some name => writeRegister name value
  | none => return ()

end Plan

namespace Setting

variable {σ : Type} (s : Setting σ)

/-- An operator on registers. All of them are read before the operator is looked up. -/
def operatorInstruction (ns : Option String) (name : String) (args : List String) : Plan Value := do
  let values ← Plan.readRegisters args
  if Operator.isCoreNamespace ns then
    match Operator.ofName? name with
    | none => Plan.raise (.unknownOperator Operator.namespaceName name)
    | some op => Plan.operate op values
  else
    let domain ← Plan.orRaise (s.domains.get (ns.getD ""))
    Plan.refuseErrors values
    Plan.orRaise (← Plan.query (.dispatch domain name values))

def instruction : Instruction → Plan Unit
  | .assign target value => do
    let value ← Plan.evalIn registerScope value
    Plan.writeRegister target value
  | .op target ns name args => do
    let value ← s.operatorInstruction ns name args
    Plan.writeRegister target value
  | .call target callee args => do
    let callee ← Plan.readRegister callee
    let args ← Plan.readRegisters args
    let value ← Plan.evaluate (.apply callee args)
    Plan.writeRegister target value
  | .effect target op args => do
    let value ← s.performEffect op (Plan.readRegisters args)
    Plan.writeTarget target value

def instructions : List Instruction → Plan Unit
  | [] => return ()
  | first :: rest => do
    s.instruction first
    instructions rest

def target (label : String) : Plan Job :=
  match s.block? label with
  | some _ => return .block label
  | none => Plan.raise (.invalidControlFlow ("unknown label `" ++ label ++ "`"))

def terminator : Terminator → Plan Next
  | .jump label => return .job (← s.target label)
  | .branch cond thenLabel elseLabel => do
    let test ← Plan.readRegister cond
    if ← Plan.condition test then return .job (← s.target thenLabel)
    else return .job (← s.target elseLabel)
  | .ret none => return .value .void
  | .ret (some name) => return .value (← Plan.readRegister name)
  | .fork body continuation future => do
    let _ ← s.target body
    let next ← s.target continuation
    let registers ← Plan.query (.flatten registerScope)
    match ← Plan.fork body registers .done with
    | none =>
      Plan.raise (.taskSpawnFailed (toString s.config.maxTasks ++ " forked tasks already running"))
    | some id =>
      Plan.writeRegister future (.future id)
      return .job next
  | .join future result label => do
    let next ← s.target label
    match ← Plan.readRegister future with
    | .future id =>
      match ← Plan.await id .done with
      | .ok value =>
        Plan.writeTarget result value
        return .job next
      | .error e => Plan.raise (.raised e)
    | .error e => Plan.raise (.raised e)
    | other => Plan.raise (.typeMismatch "future" other.kind)

def block (label : String) : Plan Next :=
  match s.block? label with
  | none => Plan.raise (.invalidControlFlow ("unknown label `" ++ label ++ "`"))
  | some block => do
    s.instructions block.instructions
    s.terminator block.terminator

def plan : Job → Plan Next
  | .operand arg scope => s.operand arg scope
  | .expr expr scope => s.expression expr scope
  | .apply callee args => s.apply callee args
  | .block label => s.block label

end Setting
end LayeredIR
