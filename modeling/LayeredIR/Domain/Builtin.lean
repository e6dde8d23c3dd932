import LayeredIR.Domain.List
import LayeredIR.Domain.Set
import LayeredIR.Text.Quoted

/-! The two domains that every registry starts with. Bags are a sample of a domain that a host may
register beside them: one with the common operations and no more. -/
namespace LayeredIR

def Domain.bag (name : String) : Domain where
  name := name
  construct := .list
  iterate value :=
    match value.items? with
    | some items => .ok items
    | none => .error (.typeMismatch "bag" value.kind)

namespace Domains

def builtin : Domains := (empty.register Domain.list).register Domain.set

def names (registry : Domains) : List String :=
  (registry.domains.map Domain.name).mergeSort fun a b => a ≤ b

def debug (registry : Domains) : String :=
  "DomainRegistry \x7b domains: " ++ Text.Quoted.quoteList registry.names ++ " \x7d"

end Domains
end LayeredIR
