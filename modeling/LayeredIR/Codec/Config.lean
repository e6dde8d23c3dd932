import LayeredIR.Config
import LayeredIR.Json.Record

/-! Limits and switches as JSON; what is absent keeps its default. -/
namespace LayeredIR.Config

def ofJson? (tree : Json) : Option Config := do
  let defaults : Config := {}
  let members ← tree.obj?
  let maxCallDepth ← members.optional? "maxCallDepth" Json.nat?
  let nodeCache ← members.optional? "nodeCache" Json.bool?
  let maxTasks ← members.optional? "maxTasks" Json.nat?
  return ⟨maxCallDepth.getD defaults.maxCallDepth, nodeCache.getD defaults.nodeCache,
    maxTasks.getD defaults.maxTasks⟩

end LayeredIR.Config
