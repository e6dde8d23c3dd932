import LayeredIR.Fault

/-! The live calls of one task, with a ceiling on their number. A failure that leaves a call takes
the names of the live calls along, unless it has some already. -/
namespace LayeredIR

structure CallStack where
  /-- The names of the live calls, outermost first. -/
  frames : Array String
  limit : Nat

namespace CallStack

def empty (limit : Nat) : CallStack := ⟨#[], limit⟩

def depth (stack : CallStack) : Nat := stack.frames.size

def isFull (stack : CallStack) : Bool := decide (stack.limit ≤ stack.frames.size)

def grow (stack : CallStack) (name : String) : CallStack :=
  { stack with frames := stack.frames.push name }

def push (stack : CallStack) (name : String) : Except Cause CallStack :=
  if stack.isFull then .error (.recursionLimitExceeded stack.limit) else .ok (stack.grow name)

def pop (stack : CallStack) : CallStack := { stack with frames := stack.frames.pop }

def top? (stack : CallStack) : Option String := stack.frames.back?

def capture (stack : CallStack) : Backtrace := ⟨stack.frames.toList⟩

def attach (stack : CallStack) (fault : Fault) : Fault :=
  if stack.frames.isEmpty || fault.backtrace.isSome then fault
  else fault.withBacktrace stack.capture

end CallStack
end LayeredIR
