import LayeredIR.Binary64
import LayeredIR.Ty

/-! Leaf values as documents write them. The items of a list or set are not checked against the
declared element type, and a set may repeat an item. -/
namespace LayeredIR

inductive Literal
  | int (value : Int64)
  | float (value : Binary64)
  | bool (value : Bool)
  | string (value : String)
  | void
  | list (of : Ty) (items : List Literal)
  | set (of : Ty) (items : List Literal)
  | error (code : String) (message : Option String)
  deriving Inhabited

def Literal.ty : Literal → Ty
  | .int _ => .int
  | .float _ => .float
  | .bool _ => .bool
  | .string _ => .string
  | .void => .void
  | .list of _ => .list of
  | .set of _ => .set of
  | .error _ _ => .error

end LayeredIR
