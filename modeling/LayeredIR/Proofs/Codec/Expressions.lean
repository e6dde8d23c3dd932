import LayeredIR.Codec.Expr
import LayeredIR.Proofs.Codec.Literals
import LayeredIR.Proofs.Syntax

/-! Operands and expressions, written and read. Each form is read back from its members where its
operands are read back, so whole expressions are, and what is read has finite floats only. -/
namespace LayeredIR

def Expr.FiniteLiteral (expr : Expr) : Prop := ∀ l, expr = .lit l → l.Finite

theorem argsToJson_eq_map (args : List Arg) : argsToJson args = args.map Arg.toJson := by
  induction args with
  | nil => rfl
  | cons arg rest ih => rw [argsToJson, ih, List.map_cons]

namespace Expr

theorem every_iff {P : Expr → Prop} {expr : Expr} :
    expr.Every P ↔ P expr ∧ expr.operands.Forall (Arg.Every P) := by
  rw [List.forall_iff_forall_mem]
  exact ⟨fun all => ⟨all.here, all.operand⟩, fun all => .of_operands all.1 all.2⟩

def ofMembers? (read : Json → Option Arg) (tag : String) (members : Json.Members) : Option Expr :=
  let operand? (name : String) : Option Arg := (members.get? name).bind read
  let args? (name : String) : Option (List Arg) := members.getOr? name [] (Json.all? read)
  match tag with
  | "lit" => return .lit (← Literal.decode? true (← members.get? "value"))
  | "ref" => return .ref (← members.str? "id")
  | "var" => return .var (← members.str? "name")
  | "input" => return .input (← members.str? "name")
  | "call" => do
    let args ← args? "args"
    return .call (← members.optional? "ns" Json.str?) (← members.str? "name") args
  | "if" => do
    let cond ← members.get? "cond"
    let thenArg ← members.get? "then"
    let elseArg ← members.get? "else"
    return .ifThenElse (← read cond) (← read thenArg) (← read elseArg)
  | "let" => do
    let value ← members.get? "value"
    let body ← members.get? "body"
    return .letIn (← members.str? "name") (← read value) (← read body)
  | "airRef" => do
    let args ← args? "args"
    return .airRef (← members.str? "ns") (← members.str? "name") args
  | "list" => do
    let of ← Ty.decode? true (← members.get? "of")
    return .list of (← args? "items")
  | "lambda" => do
    let body ← members.get? "body"
    return .lambda (← members.getOr? "params" [] Json.strings?) (← read body)
  | "apply" => do
    let callee ← members.get? "fn"
    let args ← args? "args"
    return .apply (← read callee) args
  | "fix" => return .fix (← operand? "fn")
  | "seq" => return .seq (← args? "body")
  | "declare" => do
    let value ← members.get? "value"
    return .declare (← members.str? "name") (← read value)
  | "assign" => do
    let value ← members.get? "value"
    return .assign (← members.str? "name") (← read value)
  | "while" => do
    let cond ← members.get? "cond"
    let body ← members.get? "body"
    return .whileDo (← read cond) (← read body)
  | "effect" => do
    let args ← args? "args"
    return .effect (← members.str? "op") args
  | _ => none

theorem decode?_eq (nested : Bool) (tree : Json) :
    decode? nested tree = (tree.tagged? schema nested).bind fun (tag, record) =>
      ofMembers? Arg.ofJson? tag record.members := by
  rw [decode?]
  cases tree.tagged? schema nested with
  | none => rfl
  | some found =>
    change _ = ofMembers? Arg.ofJson? found.1 found.2.members
    generalize read : ofMembers? Arg.ofJson? found.1 found.2.members = result
    simp only [Option.bind_eq_bind, Option.bind_some, ofMembers?, ← Json.Record.part?_bind,
      ← Json.Record.itemsOr?_bind, Option.bind_assoc] at read ⊢
    exact read

theorem decode?_tagged (nested : Bool) {tag : String} {order : List String}
    (known : schema.lookup tag = some order) (members : Json.Members) :
    decode? nested (Json.tagged tag members) =
      ofMembers? Arg.ofJson? tag ((Json.tagMember, .str tag) :: members) := by
  rw [decode?_eq, Json.tagged?_tagged nested known]
  rfl

/-- Reading a form turns on reading its operands. -/
theorem decode?_toJson_of_operands (nested : Bool) {expr : Expr} (finite : expr.FiniteLiteral)
    (back : ∀ arg ∈ expr.operands, Arg.ofJson? arg.toJson = some arg) :
    decode? nested expr.toJson = some expr := by
  have each (args : List Arg) (back : ∀ arg ∈ args, Arg.ofJson? arg.toJson = some arg) :
      Json.all? Arg.ofJson? (.arr (argsToJson args)) = some args := by
    rw [argsToJson_eq_map]
    exact Json.all?_arr back
  cases expr with
  | lit l =>
    rw [toJson, decode?_tagged nested rfl]
    simp [ofMembers?, Literal.decode?_toJson true (finite l rfl)]
  | ref | var | input =>
    rw [toJson, decode?_tagged nested rfl]
    simp [ofMembers?]
  | call ns name args =>
    rw [toJson, decode?_tagged nested rfl]
    cases ns <;> simp [ofMembers?, each args back]
  | airRef _ _ args | seq args | effect _ args =>
    rw [toJson, decode?_tagged nested rfl]
    simp [ofMembers?, each args back]
  | list of items =>
    rw [toJson, decode?_tagged nested rfl]
    simp [ofMembers?, Ty.decode?_toJson true of, each items back]
  | apply callee args =>
    have head := back callee (List.mem_cons_self ..)
    have tail := each args fun arg member => back arg (List.mem_cons_of_mem callee member)
    rw [toJson, decode?_tagged nested rfl]
    simp [ofMembers?, head, tail]
  | ifThenElse | letIn | lambda | fix | declare | assign | whileDo =>
    rw [toJson, decode?_tagged nested rfl]
    simp only [operands, List.forall_mem_cons] at back
    simp [ofMembers?, back]

/-- A form is no plain string, so it is not taken for an id. -/
theorem ofJson?_inline (expr : Expr) :
    Arg.ofJson? expr.toJson = (decode? true expr.toJson).map .inline := by
  rw [Arg.ofJson?]
  intro name same
  cases expr <;> simp [toJson, Json.tagged] at same

end Expr

theorem Arg.ofJson?_toJson {arg : Arg} (finite : arg.Every Expr.FiniteLiteral) :
    ofJson? arg.toJson = some arg := by
  induction size : sizeOf arg using Nat.strongRecOn generalizing arg with
  | _ n ih =>
    subst size
    cases arg with
    | id name => rw [toJson, ofJson?]
    | inline expr =>
      rw [toJson, Expr.ofJson?_inline, Expr.decode?_toJson_of_operands true finite.here
        fun operand member => ih _ (Expr.operands_lt member) (finite.operand operand member) rfl]
      rfl

theorem Expr.decode?_toJson (nested : Bool) {expr : Expr} (finite : expr.Every FiniteLiteral) :
    decode? nested expr.toJson = some expr :=
  decode?_toJson_of_operands nested finite.here fun arg member =>
    Arg.ofJson?_toJson (finite.operand arg member)

namespace Expr

structure ReadFrom (read : Json → Option Arg) (members : Json.Members) (expr : Expr) : Prop where
  literal : ∀ l, expr = .lit l → ∃ tree, Literal.decode? true tree = some l
  operand : ∀ arg ∈ expr.operands, ∃ part, members.Has part ∧ read part = some arg

theorem readFrom_of_ofMembers? {read : Json → Option Arg} {tag : String} {members : Json.Members}
    {expr : Expr} (decoded : ofMembers? read tag members = some expr) :
    ReadFrom read members expr := by
  have one {name : String} {tree : Json} {arg : Arg} (found : members.get? name = some tree)
      (here : read tree = some arg) : ∃ part, members.Has part ∧ read part = some arg :=
    ⟨tree, Json.Members.has_of_get? found, here⟩
  unfold ofMembers? at decoded
  split at decoded <;> simp only [Option.bind_eq_bind, Option.pure_def, Option.bind_eq_some_iff,
    Option.some.injEq, reduceCtorEq] at decoded
  case h_1 =>
    obtain ⟨tree, -, l, here, rfl⟩ := decoded
    exact ⟨fun _ same => ⟨tree, by cases same; exact here⟩, List.forall_mem_nil _⟩
  case h_2 | h_3 | h_4 =>
    obtain ⟨_, -, rfl⟩ := decoded
    exact ⟨by rintro _ ⟨⟩, List.forall_mem_nil _⟩
  case h_5 | h_8 =>
    obtain ⟨_, args, _, -, _, -, rfl⟩ := decoded
    exact ⟨by rintro _ ⟨⟩, Json.Members.has_of_getOr? args⟩
  case h_6 =>
    obtain ⟨_, cond, _, first, _, second, _, here, _, here', _, here'', rfl⟩ := decoded
    refine ⟨by rintro _ ⟨⟩, List.forall_mem_cons.mpr ⟨one cond here, ?_⟩⟩
    exact List.forall_mem_cons.mpr
      ⟨one first here', List.forall_mem_singleton.mpr (one second here'')⟩
  case h_7 =>
    obtain ⟨_, value, _, body, _, -, _, here, _, here', rfl⟩ := decoded
    exact ⟨by rintro _ ⟨⟩, List.forall_mem_cons.mpr
      ⟨one value here, List.forall_mem_singleton.mpr (one body here')⟩⟩
  case h_9 =>
    obtain ⟨_, -, _, -, _, items, rfl⟩ := decoded
    exact ⟨by rintro _ ⟨⟩, Json.Members.has_of_getOr? items⟩
  case h_10 | h_14 | h_15 =>
    obtain ⟨_, part, _, -, _, here, rfl⟩ := decoded
    exact ⟨by rintro _ ⟨⟩, List.forall_mem_singleton.mpr (one part here)⟩
  case h_11 =>
    obtain ⟨_, callee, _, args, _, here, rfl⟩ := decoded
    exact ⟨by rintro _ ⟨⟩, List.forall_mem_cons.mpr
      ⟨one callee here, Json.Members.has_of_getOr? args⟩⟩
  case h_12 =>
    obtain ⟨_, ⟨_, generator, here⟩, rfl⟩ := decoded
    exact ⟨by rintro _ ⟨⟩, List.forall_mem_singleton.mpr (one generator here)⟩
  case h_13 =>
    obtain ⟨_, body, rfl⟩ := decoded
    exact ⟨by rintro _ ⟨⟩, Json.Members.has_of_getOr? body⟩
  case h_16 =>
    obtain ⟨_, cond, _, body, _, here, _, here', rfl⟩ := decoded
    exact ⟨by rintro _ ⟨⟩, List.forall_mem_cons.mpr
      ⟨one cond here, List.forall_mem_singleton.mpr (one body here')⟩⟩
  case h_17 =>
    obtain ⟨_, args, _, -, rfl⟩ := decoded
    exact ⟨by rintro _ ⟨⟩, Json.Members.has_of_getOr? args⟩

end Expr

/-- The operands of what is read are read from smaller trees. -/
theorem Expr.every_of_decode? {nested : Bool} {tree : Json} {expr : Expr}
    (decoded : decode? nested tree = some expr)
    (deeper : ∀ part arg, sizeOf part < sizeOf tree → Arg.ofJson? part = some arg →
      arg.Every FiniteLiteral) : expr.Every FiniteLiteral := by
  rw [decode?_eq] at decoded
  obtain ⟨⟨tag, record⟩, -, read⟩ := Option.bind_eq_some_iff.mp decoded
  have parts := readFrom_of_ofMembers? read
  refine .of_operands (fun l same => ?_) fun arg member => ?_
  · obtain ⟨_, here⟩ := parts.literal l same
    exact Literal.finite_of_decode? here
  · obtain ⟨part, has, here⟩ := parts.operand arg member
    exact deeper part arg (record.sizeOf_has has) here

theorem Arg.every_of_ofJson? {tree : Json} {arg : Arg} (decoded : ofJson? tree = some arg) :
    arg.Every Expr.FiniteLiteral := by
  induction size : sizeOf tree using Nat.strongRecOn generalizing tree arg with
  | _ n ih =>
    subst size
    unfold ofJson? at decoded
    split at decoded
    · cases decoded
      trivial
    · obtain ⟨expr, here, rfl⟩ := Option.map_eq_some_iff.mp decoded
      exact Expr.every_of_decode? here fun part arg smaller here => ih _ smaller here rfl

theorem Expr.every_of_ofJson? {tree : Json} {expr : Expr} (decoded : ofJson? tree = some expr) :
    expr.Every FiniteLiteral :=
  every_of_decode? decoded fun _ _ _ here => Arg.every_of_ofJson? here

end LayeredIR
