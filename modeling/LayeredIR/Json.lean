import LayeredIR.Binary64
import LayeredIR.CheckedInt

/-! JSON trees. Integers that fit a 64-bit word, signed or not, are kept apart from all other
numbers, and the members of an object have distinct names. -/
namespace LayeredIR

inductive Json
  | null
  | bool (value : Bool)
  | int (value : Int)
  | float (value : Binary64)
  | str (value : String)
  | arr (items : List Json)
  | obj (members : List (String × Json))
  deriving Inhabited

namespace Json

abbrev Members := List (String × Json)

namespace Members

def insert (name : String) (value : Json) : Members → Members
  | [] => [(name, value)]
  | member :: rest =>
    if member.1 = name then (name, value) :: rest else member :: insert name value rest

def get? (members : Members) (name : String) : Option Json :=
  match members with
  | [] => none
  | member :: rest => if member.1 = name then some member.2 else get? rest name

theorem mem_of_get? {members : Members} {name : String} {value : Json}
    (found : members.get? name = some value) : (name, value) ∈ members := by
  induction members with
  | nil => simp [get?] at found
  | cons member rest ih =>
    obtain ⟨key, tree⟩ := member
    simp only [get?] at found
    split at found
    · rename_i same
      injection found with isValue
      subst same isValue
      exact List.mem_cons_self
    · exact List.mem_cons_of_mem _ (ih found)

end Members

def ofMembers (members : Members) : Json :=
  .obj (members.foldl (fun kept member => Members.insert member.1 member.2 kept) [])

def members : Json → Members
  | .obj members => members
  | _ => []

def member? (tree : Json) (name : String) : Option Json := tree.members.get? name

abbrev Part (tree : Json) := { part : Json // sizeOf part < sizeOf tree }

theorem sizeOf_member {members : Members} {name : String} {value : Json}
    (isMember : (name, value) ∈ members) : sizeOf value < sizeOf (obj members) := by
  have := List.sizeOf_lt_of_mem isMember
  simp only [Prod.mk.sizeOf_spec] at this
  simp only [obj.sizeOf_spec]
  omega

theorem sizeOf_item {items : List Json} {item : Json} (isItem : item ∈ items) :
    sizeOf item < sizeOf (arr items) := by
  have := List.sizeOf_lt_of_mem isItem
  simp only [arr.sizeOf_spec]
  omega

def items? : (tree : Json) → Option (List tree.Part)
  | .arr items => some (items.attach.map fun ⟨item, isItem⟩ => ⟨item, sizeOf_item isItem⟩)
  | _ => none

def str? : Json → Option String
  | .str value => some value
  | _ => none

def bool? : Json → Option Bool
  | .bool value => some value
  | _ => none

def obj? : Json → Option Members
  | .obj members => some members
  | _ => none

/-- A number as a tree. There are no other numbers than finite ones, so null stands for the rest. -/
def ofBinary64 (x : Binary64) : Json := if x.isFinite then .float x else .null

def arr? : Json → Option (List Json)
  | .arr items => some items
  | _ => none

def int64? : Json → Option Int64
  | .int n => CheckedInt.ofInt? n
  | _ => none

def nat? : Json → Option Nat
  | .int n => if 0 ≤ n then some n.toNat else none
  | _ => none

end Json
end LayeredIR
