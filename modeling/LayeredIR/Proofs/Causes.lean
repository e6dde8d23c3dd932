import LayeredIR.Domain.Builtin

/-! The causes that operators and domains fail with. They run no code, so they fail neither with the
refusal to run some, that calls nest too deep or that a form is above the layer, nor with a label
that does not resolve. -/
namespace LayeredIR

inductive Cause.Refuses : Cause → Prop
  | ceiling (limit : Nat) : Refuses (.recursionLimitExceeded limit)
  | layer (layer : Layer) (form place : String) : Refuses (.layerViolation layer form place)

def BelowCeiling {α : Type} : Except Cause α → Prop
  | .error (.recursionLimitExceeded _) => False
  | _ => True

theorem BelowCeiling.of_error {α : Type} {result : Except Cause α} (below : BelowCeiling result)
    {cause : Cause} (failed : result = .error cause) (limit : Nat) :
    cause ≠ .recursionLimitExceeded limit := by
  rintro rfl
  rw [failed] at below
  exact below

def Unrefused {α : Type} : Except Cause α → Prop
  | .error (.recursionLimitExceeded _) | .error (.layerViolation _ _ _) => False
  | _ => True

namespace Unrefused

variable {α : Type} {result : Except Cause α}

theorem of_error (unrefused : Unrefused result) {cause : Cause} (failed : result = .error cause) :
    ¬ cause.Refuses := by
  rw [failed] at unrefused
  rintro (_ | _) <;> exact unrefused

theorem belowCeiling (unrefused : Unrefused result) : BelowCeiling result := by
  cases result with
  | error cause => cases cause <;> first | exact trivial | exact unrefused
  | ok a => exact trivial

end Unrefused

def Cause.Operational : Cause → Prop
  | .divisionByZero | .integerOverflow _ | .typeMismatch _ _ | .unknownOperator _ _
  | .indexOutOfBounds _ _ | .arityMismatch _ _ _ | .raised _ => True
  | _ => False

def Operational {α : Type} : Except Cause α → Prop
  | .ok _ => True
  | .error cause => cause.Operational

namespace Operational

variable {α β : Type} {result : Except Cause α}

theorem of_error (operational : Operational result) {cause : Cause}
    (failed : result = .error cause) : cause.Operational := by
  rwa [failed] at operational

theorem unrefused (operational : Operational result) : Unrefused result := by
  cases result with
  | error cause => cases cause <;> first | exact trivial | exact operational
  | ok a => exact trivial

theorem bind {next : α → Except Cause β} (first : Operational result)
    (rest : ∀ a, result = .ok a → Operational (next a)) : Operational (result >>= next) := by
  cases result with
  | error cause => exact first
  | ok a => exact rest a rfl

theorem map (operational : Operational result) (f : α → β) : Operational (result.map f) := by
  cases result with
  | error cause => exact operational
  | ok a => exact trivial

theorem ite {c : Prop} [Decidable c] {yes no : Except Cause α} (pos : Operational yes)
    (neg : Operational no) : Operational (if c then yes else no) := by
  split
  · exact pos
  · exact neg

end Operational

namespace Operator

theorem exactInt_operational (result : Option Int64) (operation : String) :
    Operational (exactInt result operation) := by
  cases result <;> trivial

theorem arith_operational (op : Operator) (left right : Value) :
    Operational (arith op left right) := by
  have ints (a b : Int64) : Operational (intArith op a b) := by
    fun_cases intArith op a b <;> first | exact exactInt_operational _ _ | trivial
  have floats (a b : Binary64) : Operational (floatArith op a b) := by
    fun_cases floatArith op a b <;> trivial
  fun_cases arith op left right <;> first | apply ints | apply floats | trivial

theorem equality_operational (left right : Value) : Operational (equality left right) := by
  fun_cases equality left right <;> trivial

theorem ordering_operational (left right : Value) : Operational (ordering left right) := by
  unfold ordering
  split
  all_goals first | trivial | exact .ite trivial trivial

theorem unary_operational (op : Operator) (operand : Value) : Operational (unary op operand) := by
  fun_cases unary op operand <;> first | exact exactInt_operational _ _ | trivial

theorem binary_operational (op : Operator) (left right : Value) :
    Operational (binary op left right) := by
  have comparisons {f : Bool → Value} : Operational ((equality left right).map f) :=
    (equality_operational left right).map f
  have orders {f : Option Ordering → Value} : Operational ((ordering left right).map f) :=
    (ordering_operational left right).map f
  have items : Operational (itemAt left right) := by
    fun_cases itemAt left right <;> trivial
  have joined : Operational (concatenation left right) := by
    fun_cases concatenation left right <;> trivial
  fun_cases binary op left right <;>
    first
    | exact arith_operational _ _ _
    | exact comparisons
    | exact orders
    | exact items
    | exact joined
    | trivial

theorem check_operational (op : Operator) (args : List Value) : Operational (check op args) := by
  fun_cases check op args <;> trivial

theorem compute_operational (op : Operator) (args : List Value) :
    Operational (compute op args) := by
  fun_cases compute op args with
  | case1 operand => exact unary_operational op operand
  | case2 left right => exact binary_operational op left right
  | case3 => trivial

end Operator

def Domains.Answer (domains : Domains) (cause : Cause) : Prop :=
  ∃ name d typeOf op args, domains.find? name = some d ∧
    Domain.call d typeOf op args = .error cause

def Domain.BelowCeiling (domain : Domain) : Prop :=
  ∀ typeOf op args, LayeredIR.BelowCeiling (domain.call typeOf op args)

def Domain.Unrefused (domain : Domain) : Prop :=
  ∀ typeOf op args, LayeredIR.Unrefused (domain.call typeOf op args)

def Domain.Operational (domain : Domain) : Prop :=
  ∀ typeOf op args, LayeredIR.Operational (domain.call typeOf op args)

namespace Domain

theorem operand_operational (domain op : String) (args : List Value) :
    LayeredIR.Operational (operand domain op args) := by
  fun_cases operand domain op args <;> trivial

theorem operandPair_operational (domain op : String) (args : List Value) :
    LayeredIR.Operational (operandPair domain op args) := by
  fun_cases operandPair domain op args <;> trivial

/-- The common operations fail as going through a value does. -/
theorem operational {domain : Domain}
    (iterate : ∀ v, LayeredIR.Operational (domain.iterate v))
    (contains : ∀ v item, LayeredIR.Operational (domain.contains v item))
    (extra : ∀ op args result, domain.extra op args = some result →
      LayeredIR.Operational result) : domain.Operational := by
  intro typeOf op args
  unfold call
  split
  · trivial
  · refine (operand_operational _ _ _).bind fun source _ => ?_
    split <;> trivial
  · refine (operand_operational _ _ _).bind fun source _ => ?_
    exact (iterate source).bind fun _ _ => trivial
  · refine (operandPair_operational _ _ _).bind fun (a, b) _ => ?_
    exact (iterate a).bind fun _ _ => (iterate b).bind fun _ _ => trivial
  · refine (operandPair_operational _ _ _).bind fun (value, item) _ => ?_
    exact (contains value item).bind fun _ _ => trivial
  · refine (operand_operational _ _ _).bind fun source _ => ?_
    refine (iterate source).bind fun items _ => ?_
    split <;> trivial
  · cases own : domain.extra op args with
    | none => trivial
    | some result => exact extra op args result own

theorem list_operational : list.Operational := by
  have items (v : Value) : LayeredIR.Operational (listItems v) := by cases v <;> trivial
  have iterate (v : Value) : LayeredIR.Operational (list.iterate v) := (items v).map _
  refine operational iterate (fun v item => (iterate v).map _) fun op args result own => ?_
  simp only [list] at own
  split at own <;> cases own
  · refine (operandPair_operational _ _ _).bind fun (source, item) _ => ?_
    exact (items source).bind fun _ _ => .ite trivial trivial
  · refine (operand_operational _ _ _).bind fun source _ => ?_
    exact (items source).bind fun _ _ => trivial

theorem set_operational : set.Operational := by
  have items (v : Value) : LayeredIR.Operational (setItems v) := by cases v <;> trivial
  have pairs (op : String) (args : List Value) : LayeredIR.Operational (setPair op args) := by
    refine (operandPair_operational _ _ _).bind fun (a, b) _ => ?_
    exact (items a).bind fun _ _ => (items b).bind fun _ _ => .ite trivial trivial
  refine operational (fun v => (items v).map _) (fun v item => (items v).map _)
    fun op args result own => ?_
  simp only [set] at own
  split at own <;> cases own
  · refine (operandPair_operational _ _ _).bind fun (source, item) _ => ?_
    exact (items source).bind fun _ _ => .ite trivial trivial
  all_goals exact (pairs _ args).bind fun _ _ => trivial

end Domain

theorem Domains.builtin_operational {name : String} {d : Domain}
    (found : builtin.find? name = some d) : d.Operational := by
  have member : d ∈ [Domain.list, Domain.set] := List.mem_of_find?_eq_some found
  simp only [List.mem_cons, List.not_mem_nil, or_false] at member
  rcases member with rfl | rfl
  · exact Domain.list_operational
  · exact Domain.set_operational

theorem Domains.builtin_unrefused {name : String} {d : Domain}
    (found : builtin.find? name = some d) : d.Unrefused :=
  fun typeOf op args => (builtin_operational found typeOf op args).unrefused

theorem Domains.builtin_belowCeiling {name : String} {d : Domain}
    (found : builtin.find? name = some d) : d.BelowCeiling :=
  fun typeOf op args => (builtin_unrefused found typeOf op args).belowCeiling

end LayeredIR
