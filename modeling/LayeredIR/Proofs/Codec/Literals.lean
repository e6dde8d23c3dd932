import LayeredIR.Codec.Literal
import LayeredIR.Proofs.Codec.Records

/-! Types and literals, written and read. Reading gives back what was written, as long as every
float in it is finite; and what is read has no other floats. -/
namespace LayeredIR

/-- A word fits. -/
theorem CheckedInt.ofInt?_toInt (n : Int64) : CheckedInt.ofInt? n.toInt = some n := by
  have fits : Int64.minValue.toInt ≤ n.toInt ∧ n.toInt ≤ Int64.maxValue.toInt :=
    ⟨Int64.minValue_le_toInt n, Int64.toInt_le n⟩
  rw [ofInt?, if_pos fits, Int64.ofInt_toInt]

namespace Ty

theorem toJsons_eq_map (tys : List Ty) : toJsons tys = tys.map toJson := by
  induction tys with
  | nil => rfl
  | cons ty rest ih => rw [toJsons, ih, List.map_cons]

def ofMembers? (read : Json → Option Ty) (tag : String) (members : Json.Members) : Option Ty :=
  match tag with
  | "int" => some .int
  | "float" => some .float
  | "bool" => some .bool
  | "string" => some .string
  | "void" => some .void
  | "error" => some .error
  | "list" => (members.get? "of").bind fun of => return .list (← read of)
  | "set" => (members.get? "of").bind fun of => return .set (← read of)
  | "future" => (members.get? "of").bind fun of => return .future (← read of)
  | "fn" => (members.all? "params" read).bind fun params =>
    (members.get? "returns").bind fun returns => return .fn params (← read returns)
  | _ => none

theorem decode?_eq (nested : Bool) (tree : Json) :
    decode? nested tree = (tree.tagged? schema nested).bind fun (tag, record) =>
      ofMembers? (decode? true) tag record.members := by
  rw [decode?]
  cases tree.tagged? schema nested with
  | none => rfl
  | some found =>
    change _ = ofMembers? (decode? true) found.1 found.2.members
    generalize read : ofMembers? (decode? true) found.1 found.2.members = result
    simp only [Option.bind_eq_bind, Option.bind_some, ofMembers?, ← Json.Record.part?_bind,
      ← Json.Record.items?_bind, Option.bind_assoc] at read ⊢
    exact read

theorem decode?_tagged (nested : Bool) {tag : String} {order : List String}
    (known : schema.lookup tag = some order) (members : Json.Members) :
    decode? nested (Json.tagged tag members) =
      ofMembers? (decode? true) tag ((Json.tagMember, .str tag) :: members) := by
  rw [decode?_eq, Json.tagged?_tagged nested known]
  rfl

theorem decode?_toJson (nested : Bool) (ty : Ty) : decode? nested ty.toJson = some ty := by
  cases ty with
  | list of | set of | future of =>
    rw [toJson, decode?_tagged nested rfl]
    simp [ofMembers?, decode?_toJson true of]
  | fn params returns =>
    have each : Json.all? (decode? true) (.arr (toJsons params)) = some params := by
      rw [toJsons_eq_map]
      exact Json.all?_arr fun ty _ => decode?_toJson true ty
    rw [toJson, decode?_tagged nested rfl]
    simp [ofMembers?, Json.Members.all?, each, decode?_toJson true returns]
  | _ => exact decode?_tagged nested rfl []
termination_by sizeOf ty

end Ty

namespace Literal

inductive Finite : Literal → Prop
  | int {n} : Finite (.int n)
  | float {x} (finite : x.isFinite) : Finite (.float x)
  | bool {b} : Finite (.bool b)
  | string {s} : Finite (.string s)
  | void : Finite .void
  | list {of items} (all : ∀ item ∈ items, Finite item) : Finite (.list of items)
  | set {of items} (all : ∀ item ∈ items, Finite item) : Finite (.set of items)
  | error {code message} : Finite (.error code message)

theorem toJsons_eq_map (items : List Literal) : toJsons items = items.map toJson := by
  induction items with
  | nil => rfl
  | cons item rest ih => rw [toJsons, ih, List.map_cons]

def ofMembers? (read : Json → Option Literal) (tag : String) (members : Json.Members) :
    Option Literal :=
  match tag with
  | "int" => return .int (← (← members.get? "value").int64?)
  | "float" => return .float (← (← members.get? "value").binary64?)
  | "bool" => return .bool (← (← members.get? "value").bool?)
  | "string" => return .string (← members.str? "value")
  | "void" => some .void
  | "list" => do
    let of ← Ty.decode? true (← members.get? "of")
    return .list of (← members.getOr? "value" [] (Json.all? read))
  | "set" => do
    let of ← Ty.decode? true (← members.get? "of")
    return .set of (← members.getOr? "value" [] (Json.all? read))
  | "error" => return .error (← members.str? "code") (← members.optional? "message" Json.str?)
  | _ => none

theorem decode?_eq (nested : Bool) (tree : Json) :
    decode? nested tree = (tree.tagged? schema nested).bind fun (tag, record) =>
      ofMembers? (decode? true) tag record.members := by
  rw [decode?]
  cases tree.tagged? schema nested with
  | none => rfl
  | some found =>
    change _ = ofMembers? (decode? true) found.1 found.2.members
    generalize read : ofMembers? (decode? true) found.1 found.2.members = result
    simp only [Option.bind_eq_bind, Option.bind_some, ofMembers?, ← Json.Record.itemsOr?_bind,
      Option.bind_assoc] at read ⊢
    exact read

theorem decode?_tagged (nested : Bool) {tag : String} {order : List String}
    (known : schema.lookup tag = some order) (members : Json.Members) :
    decode? nested (Json.tagged tag members) =
      ofMembers? (decode? true) tag ((Json.tagMember, .str tag) :: members) := by
  rw [decode?_eq, Json.tagged?_tagged nested known]
  rfl

theorem decode?_toJson (nested : Bool) {l : Literal} (finite : l.Finite) :
    decode? nested l.toJson = some l := by
  induction finite generalizing nested with
  | @int n =>
    rw [toJson, decode?_tagged nested rfl]
    simp [ofMembers?, Json.int64?, CheckedInt.ofInt?_toInt n]
  | float finite =>
    rw [toJson, decode?_tagged nested rfl]
    simp [ofMembers?, Json.binary64?_ofBinary64 finite]
  | bool | string | void =>
    rw [toJson, decode?_tagged nested rfl]
    simp [ofMembers?]
  | @list of items _ ih | @set of items _ ih =>
    have each : Json.all? (decode? true) (.arr (toJsons items)) = some items := by
      rw [toJsons_eq_map]
      exact Json.all?_arr fun item member => ih item member true
    rw [toJson, decode?_tagged nested rfl]
    simp [ofMembers?, each, Ty.decode?_toJson true of]
  | @error code message =>
    rw [toJson, decode?_tagged nested rfl]
    cases message <;> simp [ofMembers?]

/-- What is read has finite floats only. -/
theorem finite_of_decode? {nested : Bool} {tree : Json} {l : Literal}
    (decoded : decode? nested tree = some l) : l.Finite := by
  induction size : sizeOf tree using Nat.strongRecOn generalizing nested tree l with
  | _ n ih =>
    subst size
    rw [decode?_eq] at decoded
    obtain ⟨⟨tag, record⟩, -, read⟩ := Option.bind_eq_some_iff.mp decoded
    have items {xs : List Literal}
        (each : record.members.getOr? "value" [] (Json.all? (decode? true)) = some xs) :
        ∀ x ∈ xs, x.Finite := by
      intro x member
      obtain ⟨part, has, here⟩ := Json.Members.has_of_getOr? each x member
      exact ih _ (record.sizeOf_has has) here rfl
    change ofMembers? (decode? true) tag record.members = some l at read
    unfold ofMembers? at read
    split at read <;> simp only [Option.bind_eq_bind, Option.pure_def, Option.bind_eq_some_iff,
      Option.some.injEq, reduceCtorEq] at read
    case h_1 =>
      obtain ⟨_, -, _, -, rfl⟩ := read
      exact .int
    case h_2 =>
      obtain ⟨_, -, _, number, rfl⟩ := read
      exact .float (Json.isFinite_of_binary64? number)
    case h_3 =>
      obtain ⟨_, -, _, -, rfl⟩ := read
      exact .bool
    case h_4 =>
      obtain ⟨_, -, rfl⟩ := read
      exact .string
    case h_5 => exact read ▸ .void
    case h_6 =>
      obtain ⟨_, -, _, -, _, each, rfl⟩ := read
      exact .list (items each)
    case h_7 =>
      obtain ⟨_, -, _, -, _, each, rfl⟩ := read
      exact .set (items each)
    case h_8 =>
      obtain ⟨_, -, _, -, rfl⟩ := read
      exact .error

end Literal
end LayeredIR
