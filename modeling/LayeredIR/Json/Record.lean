import LayeredIR.Json
import LayeredIR.Binary64.Rounding

/-! Records: trees read by the names of their members. A record is an object, or an array of its
members in their declared order, of which the last ones may be missing but none may be left over. A
member may be required, optional, where null stands for absence, or have a value for its absence,
where null does not; members of an object that no reader asks for are ignored. A tagged record has
its tag in front of its other members, and its schema says which members each tag takes. -/
namespace LayeredIR.Json

def strings? (tree : Json) : Option (List String) := do
  (← tree.arr?).mapM str?

def binary64? (tree : Json) : Option Binary64 :=
  let number := match tree with
    | .int n => some (Binary64.ofInt n)
    | .float x => some x
    | _ => none
  number.filter Binary64.isFinite

namespace Members

def str? (members : Members) (name : String) : Option String := do
  (← members.get? name).str?

/-- A member that may be absent or null; the outer option tells whether it is well formed. -/
def optional? {α : Type} (members : Members) (name : String) (read : Json → Option α) :
    Option (Option α) :=
  match members.get? name with
  | none | some .null => some none
  | some value => (read value).map some

def getOr? {α : Type} (members : Members) (name : String) (absent : α)
    (read : Json → Option α) : Option α :=
  match members.get? name with
  | none => some absent
  | some value => read value

end Members

structure Record (tree : Json) where
  members : Members
  smaller : ∀ {name value}, members.get? name = some value → sizeOf value < sizeOf tree

def record? (order : List String) : (tree : Json) → Option (Record tree)
  | .obj members => some ⟨members, fun found => sizeOf_member (Members.mem_of_get? found)⟩
  | .arr items =>
    if items.length ≤ order.length then
      some ⟨order.zip items, fun found =>
        sizeOf_item (List.of_mem_zip (Members.mem_of_get? found)).2⟩
    else none
  | _ => none

namespace Record

variable {tree : Json} (record : Record tree)

def part? (name : String) : Option tree.Part :=
  match found : record.members.get? name with
  | some value => some ⟨value, record.smaller found⟩
  | none => none

theorem part?_of_get? {name : String} {value : Json}
    (found : record.members.get? name = some value) :
    record.part? name = some ⟨value, record.smaller found⟩ := by
  unfold part?
  split
  · rename_i other same
    rw [found] at same
    injection same with same
    subst same
    rfl
  · rename_i missing
    rw [found] at missing
    contradiction

theorem part?_of_missing {name : String} (missing : record.members.get? name = none) :
    record.part? name = none := by
  unfold part?
  split
  · rename_i other same
    rw [missing] at same
    contradiction
  · rfl

def items? (name : String) : Option (List tree.Part) := do
  let ⟨value, smaller⟩ ← record.part? name
  let items ← value.items?
  return items.map fun ⟨item, h⟩ => ⟨item, Nat.lt_trans h smaller⟩

def itemsOr? (name : String) : Option (List tree.Part) :=
  match record.members.get? name with
  | none => some []
  | some _ => record.items? name

end Record

def tagMember : String := "kind"

abbrev Schema := List (String × List String)

def writtenTag? : Json → Option Json
  | .obj members => Members.get? members tagMember
  | .arr items => items.head?
  | _ => none

/-- The tag that is meant. Within another tagged record a tag may be given by its place in the
schema, counted from zero. -/
def tagOf? (schema : Schema) (nested : Bool) : Json → Option String
  | .str tag => some tag
  | .int n => if nested ∧ 0 ≤ n then schema[n.toNat]?.map Prod.fst else none
  | _ => none

def tagged? (schema : Schema) (nested : Bool) (tree : Json) : Option (String × Record tree) := do
  let tag ← tagOf? schema nested (← tree.writtenTag?)
  let order ← schema.lookup tag
  return (tag, ← tree.record? (tagMember :: order))

def ofStrings (names : List String) : Json := .arr (names.map .str)

def tagged (tag : String) (members : Members) : Json := .obj ((tagMember, .str tag) :: members)

def memberIf {α : Type} (name : String) (encode : α → Json) : Option α → Members
  | none => []
  | some value => [(name, encode value)]

end LayeredIR.Json
