import LayeredIR.Document
import LayeredIR.Value

/-! Failures of evaluation: a cause, whose message and code are functions of it, and the call stack
at the place where it arose. -/
namespace LayeredIR

inductive Cause
  | divisionByZero
  | integerOverflow (operation : String)
  | typeMismatch (expected got : String)
  | unknownOperator (ns name : String)
  | notCallable (kind : String)
  | indexOutOfBounds (index : Int64) (length : Nat)
  | unboundName (name : String)
  | immutableBinding (name : String)
  | arityMismatch (name : String) (expected got : Nat)
  | recursionLimitExceeded (limit : Nat)
  | recursiveDefinition (key : String)
  | unknownEffect (name : String)
  | domainNotFound (name : String)
  | taskSpawnFailed (reason : String)
  | invalidControlFlow (detail : String)
  | layerViolation (layer : Layer) (form place : String)
  | malformedDocument (detail : String)
  /-- An error value that became a failure; it keeps its code. -/
  | raised (error : ErrorValue)
  deriving DecidableEq, Inhabited

namespace Cause

def code : Cause → String
  | .divisionByZero => "DivisionByZero"
  | .integerOverflow _ => "IntegerOverflow"
  | .typeMismatch _ _ => "TypeMismatch"
  | .unknownOperator _ _ => "UnknownOperator"
  | .notCallable _ => "NotCallable"
  | .indexOutOfBounds _ _ => "IndexOutOfBounds"
  | .unboundName _ => "UnboundName"
  | .immutableBinding _ => "ImmutableBinding"
  | .arityMismatch _ _ _ => "ArityMismatch"
  | .recursionLimitExceeded _ => "RecursionLimitExceeded"
  | .recursiveDefinition _ => "RecursiveDefinition"
  | .unknownEffect _ => "UnknownEffect"
  | .domainNotFound _ => "DomainNotFound"
  | .taskSpawnFailed _ => "TaskSpawnFailed"
  | .invalidControlFlow _ => "InvalidControlFlow"
  | .layerViolation _ _ _ => "LayerViolation"
  | .malformedDocument _ => "MalformedDocument"
  | .raised error => error.code

def message : Cause → String
  | .divisionByZero => "division by zero"
  | .integerOverflow operation => "integer overflow in " ++ operation
  | .typeMismatch expected got => "type mismatch: expected " ++ expected ++ ", got " ++ got
  | .unknownOperator ns name => "unknown operator " ++ ns ++ ":" ++ name
  | .notCallable kind => kind ++ " is not callable"
  | .indexOutOfBounds index length =>
    "index " ++ toString index.toInt ++ " out of bounds for length " ++ toString length
  | .unboundName name => "unbound name: " ++ name
  | .immutableBinding name => "cannot assign to immutable binding: " ++ name
  | .arityMismatch name expected got =>
    (if name = "" then "expected " else name ++ " expects ") ++ toString expected ++
      (if expected = 1 then " argument, got " else " arguments, got ") ++ toString got
  | .recursionLimitExceeded limit =>
    "maximum recursion depth exceeded (limit: " ++ toString limit ++ ")"
  | .recursiveDefinition key => "definition " ++ key ++ " re-enters itself"
  | .unknownEffect name => "unknown effect: " ++ name
  | .domainNotFound name => "domain not found: " ++ name
  | .taskSpawnFailed reason => "could not start task: " ++ reason
  | .invalidControlFlow detail => "invalid control flow: " ++ detail
  | .layerViolation layer form place =>
    "`" ++ form ++ "` is not allowed in " ++ layer.name ++ " (at " ++ place ++ ")"
  | .malformedDocument detail => "malformed document: " ++ detail
  | .raised error => error.text

def toErrorValue : Cause → ErrorValue
  | .raised error => error
  | cause => ⟨cause.code, some cause.message⟩

end Cause

def StructureError.cause (e : StructureError) : Cause :=
  match e with
  | .duplicateNode _ => .malformedDocument e.message
  | .duplicateBlock _ | .missingEntry _ | .unknownLabel _ _ => .invalidControlFlow e.message

structure Backtrace where
  frames : List String
  deriving DecidableEq

private def numberedFrames (n : Nat) : List String → String
  | [] => ""
  | frame :: rest => "  " ++ toString n ++ ": " ++ frame ++ "\n" ++ numberedFrames (n + 1) rest

def Backtrace.text (b : Backtrace) : String :=
  if b.frames.isEmpty then "" else "stack backtrace:\n" ++ numberedFrames 0 b.frames

structure Fault where
  cause : Cause
  backtrace : Option Backtrace
  deriving DecidableEq

namespace Fault

def ofCause (cause : Cause) : Fault := ⟨cause, none⟩

/-- Only the first backtrace that a failure is given stays. -/
def withBacktrace (fault : Fault) (backtrace : Backtrace) : Fault :=
  match fault.backtrace with
  | none => { fault with backtrace := some backtrace }
  | some _ => fault

def text (fault : Fault) : String := "[" ++ fault.cause.code ++ "] " ++ fault.cause.message

def toValue (fault : Fault) : Value := .error fault.cause.toErrorValue

end Fault
end LayeredIR
