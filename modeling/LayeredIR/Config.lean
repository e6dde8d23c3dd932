/-! The limits and switches of an evaluation. -/
namespace LayeredIR

structure Config where
  maxCallDepth : Nat := 10000
  nodeCache : Bool := true
  maxTasks : Nat := 512
  deriving DecidableEq, Inhabited

end LayeredIR
