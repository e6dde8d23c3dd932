import LayeredIR.Domain.Builtin
import LayeredIR.Proofs.Resemblance

/-! Operators and domain operations respect resemblances. Most of them look no further than the kind
of an operand and the leaves; those that pass items on pass like ones, and those that compare want
a resemblance under which no comparison tells like values apart. -/
namespace LayeredIR

namespace ResultsAlike

variable {ε ε' α α' β β' : Type} {failure : ε → ε' → Prop} {success : α → α' → Prop}
  {further : β → β' → Prop} {x : Except ε α} {x' : Except ε' α'}

theorem bind (results : ResultsAlike failure success x x') {f : α → Except ε β}
    {f' : α' → Except ε' β'}
    (rest : ∀ a a', success a a' → ResultsAlike failure further (f a) (f' a')) :
    ResultsAlike failure further (x >>= f) (x' >>= f') := by
  match x, x', results with
  | .ok a, .ok a', related => exact rest a a' related
  | .error _, .error _, related => exact related

theorem map (results : ResultsAlike failure success x x') {f : α → β} {f' : α' → β'}
    (rest : ∀ a a', success a a' → further (f a) (f' a')) :
    ResultsAlike failure further (x.map f) (x'.map f') := by
  match x, x', results with
  | .ok a, .ok a', related => exact rest a a' related
  | .error _, .error _, related => exact related

theorem map_eq {x : Except ε α} {x' : Except ε α'} (results : ResultsAlike Eq success x x')
    {f : α → β} {f' : α' → β} (same : ∀ a a', success a a' → f a = f' a') :
    x.map f = x'.map f' := by
  match x, x', results with
  | .ok a, .ok a', related => exact congrArg Except.ok (same a a' related)
  | .error _, .error _, rfl => rfl

end ResultsAlike

namespace Operator

theorem arith_outline (op : Operator) (left right : Value) :
    arith op left right = arith op left.outline right.outline := by
  cases left <;> cases right <;> rfl

theorem ordering_outline (left right : Value) :
    ordering left right = ordering left.outline right.outline := by
  cases left <;> cases right <;> rfl

/-- The operators whose result depends on the kinds and the leaves of the operands only, and is a
leaf itself. -/
def isScalar : Operator → Bool
  | .eq | .neq | .length | .nth | .concat => false
  | _ => true

theorem binary_outline {op : Operator} (scalar : op.isScalar) (left right : Value) :
    binary op left right = binary op left.outline right.outline := by
  cases op with
  | eq | neq | length | nth | concat => cases scalar
  | add | sub | mul | div | mod => exact arith_outline _ left right
  | lt | gt | le | ge => exact congrArg (Except.map _) (ordering_outline left right)
  | and | or | neg | not => cases left <;> cases right <;> rfl

theorem unary_outline {op : Operator} (scalar : op.isScalar) (operand : Value) :
    unary op operand = unary op operand.outline := by
  cases op with
  | eq | neq | length | nth | concat => cases scalar
  | _ => cases operand <;> rfl

def Leaf : Except Cause Value → Prop
  | .ok v => ∃ l, v = .ofLiteral l
  | .error _ => True

theorem exactInt_leaf (result : Option Int64) (operation : String) :
    Leaf (exactInt result operation) := by
  cases result with
  | none => trivial
  | some n => exact ⟨.int n, rfl⟩

theorem intArith_leaf (op : Operator) (a b : Int64) : Leaf (intArith op a b) := by
  cases op with
  | add | sub | mul => exact exactInt_leaf _ _
  | div | mod =>
    simp only [intArith]
    split
    · trivial
    · exact exactInt_leaf _ _
  | _ => trivial

theorem floatArith_leaf (op : Operator) (a b : Binary64) : Leaf (floatArith op a b) := by
  cases op with
  | add => exact ⟨.float (a.add b), rfl⟩
  | sub => exact ⟨.float (a.sub b), rfl⟩
  | mul => exact ⟨.float (a.mul b), rfl⟩
  | div =>
    simp only [floatArith]
    split
    · trivial
    · exact ⟨.float (a.div b), rfl⟩
  | mod =>
    simp only [floatArith]
    split
    · trivial
    · exact ⟨.float (a.rem b), rfl⟩
  | _ => trivial

theorem arith_leaf (op : Operator) (left right : Value) : Leaf (arith op left right) := by
  unfold arith
  split
  · exact intArith_leaf op _ _
  · exact floatArith_leaf op _ _
  all_goals trivial

theorem bool_leaf {α : Type} (result : Except Cause α) (f : α → Bool) :
    Leaf (result.map fun a => .bool (f a)) := by
  cases result with
  | ok a => exact ⟨.bool (f a), rfl⟩
  | error _ => trivial

theorem binary_leaf {op : Operator} (scalar : op.isScalar) (left right : Value) :
    Leaf (binary op left right) := by
  cases op with
  | eq | neq | length | nth | concat => cases scalar
  | add | sub | mul | div | mod => exact arith_leaf _ left right
  | lt | gt | le | ge => exact bool_leaf _ _
  | and | or =>
    simp only [binary]
    split
    · exact ⟨.bool _, rfl⟩
    all_goals trivial
  | neg | not => trivial

theorem unary_leaf {op : Operator} (scalar : op.isScalar) (operand : Value) :
    Leaf (unary op operand) := by
  cases op with
  | eq | neq | length | nth | concat => cases scalar
  | neg =>
    cases operand with
    | int n => exact exactInt_leaf _ _
    | float x => exact ⟨.float x.negate, rfl⟩
    | _ => trivial
  | not =>
    cases operand with
    | bool b => exact ⟨.bool !b, rfl⟩
    | _ => trivial
  | _ => trivial

end Operator

namespace Resemblance

variable {κ : Type} (R : Resemblance κ) {w : κ}

def Comparable : Prop :=
  ∀ {w v v' u u'}, R.value w v v' → R.value w u u' → ∀ floatEq,
    v.equalBy floatEq u = v'.equalBy floatEq u'

structure Distinguishes : Prop where
  closure : ∀ {w c c' d d'}, R.value w (.closure c) (.closure c') →
    R.value w (.closure d) (.closure d') → (c.id = d.id ↔ c'.id = d'.id)
  future : ∀ {w i i' j j'}, R.value w (.future i) (.future i') →
    R.value w (.future j) (.future j') → (i = j ↔ i' = j')

inductive Shapes (w : κ) : Value → Value → Prop
  | leaf {v} (plain : v.isLeaf) : Shapes w v v
  | list {of vs vs'} (items : List.Forall₂ (R.value w) vs vs') :
    Shapes w (.list of vs) (.list of vs')
  | set {of vs vs'} (items : List.Forall₂ (R.value w) vs vs') :
    Shapes w (.set of vs) (.set of vs')
  | closure {c c'} : Shapes w (.closure c) (.closure c')
  | future {i i'} : Shapes w (.future i) (.future i')

theorem shapes {v v' : Value} (values : R.value w v v') : R.Shapes w v v' := by
  have outline := R.outline_eq values
  have parts := R.value_items values
  cases v <;> cases v' <;> simp only [Value.outline, reduceCtorEq] at outline
  case list.list =>
    cases outline
    obtain ⟨items⟩ | ⟨⟩ := parts
    exact .list items
  case set.set =>
    cases outline
    obtain ⟨items⟩ | ⟨⟩ := parts
    exact .set items
  case closure.closure => exact .closure
  case future.future => exact .future
  all_goals
    cases outline
    exact .leaf rfl

section Equality

variable {R} {floatEq : Binary64 → Binary64 → Bool}

theorem any_equalBy_alike {v v' : Value}
    (same : ∀ u u', R.value w u u' → v.equalBy floatEq u = v'.equalBy floatEq u')
    {us us' : List Value} (others : List.Forall₂ (R.value w) us us') :
    us.any (v.equalBy floatEq) = us'.any (v'.equalBy floatEq) := by
  induction others with
  | nil => rfl
  | cons other _ ih => simp only [List.any_cons, same _ _ other, ih]

mutual

theorem Distinguishes.equalBy_alike (tells : R.Distinguishes) (v : Value) {v' u u' : Value}
    (values : R.value w v v') (others : R.value w u u') :
    v.equalBy floatEq u = v'.equalBy floatEq u' := by
  have shape := R.shapes values
  have shape' := R.shapes others
  cases shape with
  | leaf plain =>
    cases shape' with
    | leaf _ => rfl
    | _ => cases v <;> first | rfl | cases plain
  | list items =>
    cases shape' with
    | list items' =>
      simp only [Value.equalBy, items.length_eq, items'.length_eq,
        tells.pairwise_alike _ items items']
    | @leaf u plain => cases u <;> first | rfl | cases plain
    | _ => rfl
  | set items =>
    cases shape' with
    | set items' =>
      simp only [Value.equalBy, items.length_eq, items'.length_eq,
        tells.eachFound_alike _ items items']
    | @leaf u plain => cases u <;> first | rfl | cases plain
    | _ => rfl
  | closure =>
    cases shape' with
    | closure =>
      rw [Value.equalBy, Value.equalBy, Bool.eq_iff_iff, beq_iff_eq, beq_iff_eq]
      exact tells.closure values others
    | @leaf u plain => cases u <;> first | rfl | cases plain
    | _ => rfl
  | future =>
    cases shape' with
    | future =>
      rw [Value.equalBy, Value.equalBy, Bool.eq_iff_iff, beq_iff_eq, beq_iff_eq]
      exact tells.future values others
    | @leaf u plain => cases u <;> first | rfl | cases plain
    | _ => rfl

theorem Distinguishes.pairwise_alike (tells : R.Distinguishes) (vs : List Value)
    {vs' us us' : List Value} (values : List.Forall₂ (R.value w) vs vs')
    (others : List.Forall₂ (R.value w) us us') :
    Value.pairwiseEqualBy floatEq vs us = Value.pairwiseEqualBy floatEq vs' us' := by
  cases values with
  | nil => rfl
  | cons first more =>
    cases others with
    | nil => rfl
    | cons other others =>
      simp only [Value.pairwiseEqualBy, tells.equalBy_alike _ first other,
        tells.pairwise_alike _ more others]

theorem Distinguishes.eachFound_alike (tells : R.Distinguishes) (vs : List Value)
    {vs' us us' : List Value} (values : List.Forall₂ (R.value w) vs vs')
    (others : List.Forall₂ (R.value w) us us') :
    Value.eachFoundBy floatEq vs us = Value.eachFoundBy floatEq vs' us' := by
  cases values with
  | nil => rfl
  | cons first more =>
    simp only [Value.eachFoundBy, tells.eachFound_alike _ more others,
      any_equalBy_alike (fun _ _ other => tells.equalBy_alike _ first other) others]

end

theorem Distinguishes.comparable (tells : R.Distinguishes) : R.Comparable :=
  fun values others _ => tells.equalBy_alike _ values others

end Equality

theorem leaf_alike {x : Except Cause Value} (leaf : Operator.Leaf x) :
    ResultsAlike Eq (R.value w) x x := by
  cases x with
  | error cause => rfl
  | ok v =>
    obtain ⟨l, rfl⟩ := leaf
    exact R.value_literal w l

theorem int_alike (n : Int64) : R.value w (.int n) (.int n) := R.value_literal w (.int n)

theorem bool_alike (b : Bool) : R.value w (.bool b) (.bool b) := R.value_literal w (.bool b)

theorem length_alike {v v' : Value} (values : R.value w v v') :
    ResultsAlike Eq (R.value w) (Operator.unary .length v) (Operator.unary .length v') := by
  have outline := R.outline_eq values
  have parts := R.value_items values
  cases v <;> cases v' <;> simp only [Value.outline, reduceCtorEq, Value.string.injEq] at outline
  case list.list | set.set =>
    obtain ⟨same⟩ | ⟨⟩ := parts
    simp only [Operator.unary, same.length_eq]
    exact R.leaf_alike (Operator.exactInt_leaf _ _)
  case string.string =>
    subst outline
    exact R.leaf_alike (Operator.exactInt_leaf _ _)
  all_goals rfl

theorem getElem?_alike {vs vs' : List Value} (items : List.Forall₂ (R.value w) vs vs')
    (place : Nat) : Option.Rel (R.value w) vs[place]? vs'[place]? := by
  induction items generalizing place with
  | nil => exact .none
  | cons head _ ih =>
    cases place with
    | zero => exact .some head
    | succ place => exact ih place

theorem itemAt_alike {list list' index index' : Value} (lists : R.value w list list')
    (indices : R.value w index index') :
    ResultsAlike Eq (R.value w) (Operator.itemAt list index) (Operator.itemAt list' index') := by
  have outline := R.outline_eq lists
  have parts := R.value_items lists
  have same := R.outline_eq indices
  cases list <;> cases list' <;> simp only [Value.outline, reduceCtorEq] at outline
  case list.list of items of' items' =>
    obtain ⟨members⟩ | ⟨⟩ := parts
    cases index <;> cases index' <;>
      simp only [Value.outline, reduceCtorEq, Value.int.injEq] at same
    case int.int i i' =>
      subst same
      simp only [Operator.itemAt, members.length_eq]
      cases CheckedInt.toIndex? i with
      | none => rfl
      | some place =>
        have found := R.getElem?_alike members place
        simp only [Option.bind_some]
        generalize items[place]? = item, items'[place]? = item' at found
        cases found with
        | none => rfl
        | some related => exact related
    all_goals rfl
  all_goals rfl

theorem concatenation_alike {left left' right right' : Value} (lefts : R.value w left left')
    (rights : R.value w right right') :
    ResultsAlike Eq (R.value w) (Operator.concatenation left right)
      (Operator.concatenation left' right') := by
  have outline := R.outline_eq lefts
  have outline' := R.outline_eq rights
  have parts := R.value_items lefts
  have parts' := R.value_items rights
  have kinds := R.kind_eq rights
  cases left <;> cases left' <;>
    simp only [Value.outline, reduceCtorEq, Value.list.injEq, Value.string.injEq] at outline
  case list.list of items of' items' =>
    obtain ⟨rfl, -⟩ := outline
    obtain ⟨members⟩ | ⟨⟩ := parts
    cases right <;> cases right' <;>
      simp only [Value.outline, reduceCtorEq, Value.list.injEq] at outline'
    case list.list of' more of'' more' =>
      obtain ⟨rfl, -⟩ := outline'
      obtain ⟨members'⟩ | ⟨⟩ := parts'
      simp only [Operator.concatenation]
      split
      · exact R.value_list (List.rel_append members members')
      · rfl
    all_goals rfl
  case string.string a a' =>
    subst outline
    cases right <;> cases right' <;>
      simp only [Value.outline, reduceCtorEq, Value.string.injEq] at outline'
    case string.string b b' =>
      subst outline'
      exact R.value_literal w (.string (a ++ b))
    all_goals rfl
  all_goals rfl

theorem equality_alike (comparable : R.Comparable) {left left' right right' : Value}
    (lefts : R.value w left left') (rights : R.value w right right') :
    Operator.equality left right = Operator.equality left' right' := by
  have same : left.equals right = left'.equals right' := comparable lefts rights _
  have outline := R.outline_eq lefts
  unfold Operator.equality
  rw [R.kind_eq lefts, R.kind_eq rights, same]
  cases left <;> cases left' <;> simp only [Value.outline, reduceCtorEq] at outline
  all_goals rfl

theorem binary_alike {op : Operator} (comparable : op = .eq ∨ op = .neq → R.Comparable)
    {left left' right right' : Value} (lefts : R.value w left left')
    (rights : R.value w right right') :
    ResultsAlike Eq (R.value w) (Operator.binary op left right)
      (Operator.binary op left' right') := by
  cases op with
  | eq | neq =>
    simp only [Operator.binary, R.equality_alike (comparable (by simp)) lefts rights]
    exact R.leaf_alike (Operator.bool_leaf _ _)
  | length => rfl
  | nth => exact R.itemAt_alike lefts rights
  | concat => exact R.concatenation_alike lefts rights
  | _ =>
    rw [Operator.binary_outline rfl left, Operator.binary_outline rfl left',
      R.outline_eq lefts, R.outline_eq rights]
    exact R.leaf_alike (Operator.binary_leaf rfl _ _)

theorem unary_alike (op : Operator) {operand operand' : Value}
    (operands : R.value w operand operand') :
    ResultsAlike Eq (R.value w) (Operator.unary op operand) (Operator.unary op operand') := by
  cases op with
  | length => exact R.length_alike operands
  | eq | neq | nth | concat => rfl
  | _ =>
    rw [Operator.unary_outline rfl operand, Operator.unary_outline rfl operand',
      R.outline_eq operands]
    exact R.leaf_alike (Operator.unary_leaf rfl _)

theorem compute_alike {op : Operator} (comparable : op = .eq ∨ op = .neq → R.Comparable)
    {args args' : List Value} (operands : List.Forall₂ (R.value w) args args') :
    ResultsAlike Eq (R.value w) (op.compute args) (op.compute args') := by
  match operands with
  | .nil => rfl
  | .cons first .nil => exact R.unary_alike op first
  | .cons first (.cons second .nil) => exact R.binary_alike comparable first second
  | .cons _ (.cons _ (.cons _ rest)) =>
    simp only [Operator.compute, List.length_cons, rest.length_eq]
    rfl

end Resemblance

def Domain.Respects {κ : Type} (value : κ → Value → Value → Prop) (operation : String → Prop)
    (domain : Domain) : Prop :=
  ∀ w op (typeOf typeOf' : Value → Option Ty) args args', operation op →
    (∀ v v', value w v v' → typeOf v = typeOf' v') → List.Forall₂ (value w) args args' →
    ResultsAlike Eq (value w) (domain.call typeOf op args) (domain.call typeOf' op args')

namespace Resemblance

variable {κ : Type} (R : Resemblance κ) {w : κ}

structure Parts (domain : Domain) : Prop where
  construct : ∀ {w of vs vs'}, List.Forall₂ (R.value w) vs vs' →
    R.value w (domain.construct of vs) (domain.construct of vs')
  iterate : ∀ {w v v'}, R.value w v v' →
    ResultsAlike Eq (List.Forall₂ (R.value w)) (domain.iterate v) (domain.iterate v')
  equals : ∀ {w v v' u u'}, R.value w v v' → R.value w u u' →
    domain.equals v u = domain.equals v' u'
  contains : ∀ {w v v' u u'}, R.value w v v' → R.value w u u' →
    domain.contains v u = domain.contains v' u'
  extra : ∀ {w op vs vs'}, List.Forall₂ (R.value w) vs vs' →
    Option.Rel (ResultsAlike Eq (R.value w)) (domain.extra op vs) (domain.extra op vs')

theorem operand_single (domain op : String) {args args' : List Value}
    (operands : List.Forall₂ (R.value w) args args') :
    ResultsAlike Eq (R.value w) (Domain.operand domain op args)
      (Domain.operand domain op args') := by
  match operands with
  | .nil => rfl
  | .cons first .nil => exact first
  | .cons _ (.cons _ rest) =>
    simp only [Domain.operand, Domain.wrongArity, List.length_cons, rest.length_eq]
    rfl

theorem operand_pair (domain op : String) {args args' : List Value}
    (operands : List.Forall₂ (R.value w) args args') :
    ResultsAlike Eq (fun p p' => R.value w p.1 p'.1 ∧ R.value w p.2 p'.2)
      (Domain.operandPair domain op args) (Domain.operandPair domain op args') := by
  match operands with
  | .nil | .cons _ .nil => rfl
  | .cons first (.cons second .nil) => exact ⟨first, second⟩
  | .cons _ (.cons _ (.cons _ rest)) =>
    simp only [Domain.operandPair, Domain.wrongArity, List.length_cons, rest.length_eq]
    rfl

theorem elementTy?_eq {v v' : Value} (values : R.value w v v') :
    v.elementTy? = v'.elementTy? := by
  have outline := R.outline_eq values
  cases v <;> cases v' <;> simp_all [Value.outline, Value.elementTy?]

theorem fromList_alike {construct : Ty → List Value → Value} {v v' : Value}
    (made : ∀ {of vs vs'}, List.Forall₂ (R.value w) vs vs' →
      R.value w (construct of vs) (construct of vs')) (values : R.value w v v') :
    ResultsAlike Eq (R.value w)
      (match v with
        | .list of items => .ok (construct of items)
        | other => .error (.typeMismatch "list" other.kind))
      (match v' with
        | .list of items => Except.ok (construct of items)
        | other => .error (Cause.typeMismatch "list" other.kind)) := by
  have outline := R.outline_eq values
  have parts := R.value_items values
  cases v <;> cases v' <;>
    simp only [Value.outline, reduceCtorEq, Value.list.injEq, and_true] at outline
  case list.list =>
    subst outline
    obtain ⟨members⟩ | ⟨⟩ := parts
    exact made members
  all_goals rfl

theorem Parts.respects {domain : Domain} {operation : String → Prop} (parts : R.Parts domain) :
    domain.Respects R.value operation := by
  intro w op typeOf typeOf' args args' _ types operands
  unfold Domain.call
  split
  · have headed : args.head?.bind typeOf = args'.head?.bind typeOf' := by
      cases operands with
      | nil => rfl
      | cons first _ => exact types _ _ first
    rw [headed]
    exact parts.construct operands
  · exact (R.operand_single _ _ operands).bind fun v v' values =>
      R.fromList_alike parts.construct values
  · refine (R.operand_single _ _ operands).bind fun v v' values => ?_
    refine (parts.iterate values).bind fun vs vs' items => ?_
    rw [R.elementTy?_eq values]
    exact R.value_list items
  · refine (R.operand_pair _ _ operands).bind fun p p' pair => ?_
    refine (parts.iterate pair.1).bind fun _ _ _ => ?_
    refine (parts.iterate pair.2).bind fun _ _ _ => ?_
    rw [parts.equals pair.1 pair.2]
    exact R.bool_alike _
  · refine (R.operand_pair _ _ operands).bind fun ⟨v, u⟩ ⟨v', u'⟩ pair => ?_
    have same : domain.contains v u = domain.contains v' u' := parts.contains pair.1 pair.2
    exact (ResultsAlike.of_eq same).bind fun b b' same => same ▸ R.bool_alike b
  · refine (R.operand_single _ _ operands).bind fun v v' values => ?_
    refine (parts.iterate values).bind fun vs vs' items => ?_
    rw [items.length_eq]
    split
    · exact R.int_alike _
    · rfl
  · have more : Option.Rel (ResultsAlike Eq (R.value w)) (domain.extra op args)
        (domain.extra op args') := parts.extra operands
    generalize domain.extra op args = result, domain.extra op args' = result' at more
    cases more with
    | none => rfl
    | some related => exact related

theorem any_alike {p q : Value → Bool} (agree : ∀ v v', R.value w v v' → p v = q v')
    {vs vs' : List Value} (items : List.Forall₂ (R.value w) vs vs') : vs.any p = vs'.any q := by
  induction items with
  | nil => rfl
  | cons head _ ih => simp only [List.any_cons, agree _ _ head, ih]

theorem appended_alike (construct : Ty → List Value → Value)
    (made : ∀ {of vs vs'}, List.Forall₂ (R.value w) vs vs' →
      R.value w (construct of vs) (construct of vs'))
    {p p' : Ty × List Value} (same : p.1 = p'.1 ∧ List.Forall₂ (R.value w) p.2 p'.2)
    {v v' : Value} (values : R.value w v v') :
    ResultsAlike Eq (R.value w)
      (if v.conformsTo p.1 then .ok (construct p.1 (p.2 ++ [v]))
        else .error (Cause.typeMismatch p.1.text v.kind))
      (if v'.conformsTo p'.1 then .ok (construct p'.1 (p'.2 ++ [v']))
        else .error (Cause.typeMismatch p'.1.text v'.kind)) := by
  obtain ⟨types, items⟩ := same
  rw [types, R.conformsTo_eq values, R.kind_eq values]
  split
  · exact made (List.rel_append items (.cons values .nil))
  · rfl

section Builtin

variable (comparable : R.Comparable)
include comparable

theorem sameElement_alike {v v' u u' : Value} (values : R.value w v v')
    (others : R.value w u u') : v.sameElement u = v'.sameElement u' := comparable values others _

theorem isMember_alike {vs vs' : List Value} (items : List.Forall₂ (R.value w) vs vs')
    {u u' : Value} (others : R.value w u u') :
    Domain.isMember vs u = Domain.isMember vs' u' :=
  R.any_alike (fun _ _ values => R.sameElement_alike comparable values others) items

theorem distinct_alike {vs vs' : List Value} (items : List.Forall₂ (R.value w) vs vs') :
    List.Forall₂ (R.value w) (Value.distinct vs) (Value.distinct vs') := by
  have added {kept kept' : List Value} (keeps : List.Forall₂ (R.value w) kept kept')
      {u u' : Value} (others : R.value w u u') :
      List.Forall₂ (R.value w) (Value.addElement kept u) (Value.addElement kept' u') := by
    have same : (kept.any fun other => other.sameElement u) =
        kept'.any fun other => other.sameElement u' := R.isMember_alike comparable keeps others
    unfold Value.addElement
    rw [same]
    split
    · exact keeps
    · exact List.rel_append keeps (.cons others .nil)
  exact List.rel_foldl (P := List.Forall₂ (R.value w)) (R := R.value w)
    (fun _ _ keeps _ _ others => added keeps others) .nil items

theorem setOf_alike {of : Ty} {vs vs' : List Value} (items : List.Forall₂ (R.value w) vs vs') :
    R.value w (.setOf of vs) (.setOf of vs') :=
  R.value_set (R.distinct_alike comparable items)

omit comparable in
theorem listItems_alike {v v' : Value} (values : R.value w v v') :
    ResultsAlike Eq (fun p p' => p.1 = p'.1 ∧ List.Forall₂ (R.value w) p.2 p'.2)
      (Domain.listItems v) (Domain.listItems v') := by
  have outline := R.outline_eq values
  have parts := R.value_items values
  cases v <;> cases v' <;>
    simp only [Value.outline, reduceCtorEq, Value.list.injEq, and_true] at outline
  case list.list =>
    obtain ⟨members⟩ | ⟨⟩ := parts
    exact ⟨outline, members⟩
  all_goals rfl

omit comparable in
theorem setItems_alike {v v' : Value} (values : R.value w v v') :
    ResultsAlike Eq (fun p p' => p.1 = p'.1 ∧ List.Forall₂ (R.value w) p.2 p'.2)
      (Domain.setItems v) (Domain.setItems v') := by
  have outline := R.outline_eq values
  have parts := R.value_items values
  cases v <;> cases v' <;>
    simp only [Value.outline, reduceCtorEq, Value.set.injEq, and_true] at outline
  case set.set =>
    obtain ⟨members⟩ | ⟨⟩ := parts
    exact ⟨outline, members⟩
  all_goals rfl

theorem anyEqual_alike {vs vs' : List Value} (items : List.Forall₂ (R.value w) vs vs')
    {u u' : Value} (others : R.value w u u') :
    (vs.any fun other => other.equals u) = vs'.any fun other => other.equals u' :=
  R.any_alike (fun _ _ values => comparable values others _) items

theorem list_parts : R.Parts Domain.list where
  construct := R.value_list
  iterate values := (R.listItems_alike values).map fun _ _ same => same.2
  equals values others := comparable values others _
  contains values others :=
    ((R.listItems_alike values).map fun _ _ same => same.2).map_eq fun _ _ items =>
      R.anyEqual_alike comparable items others
  extra operands := by
    simp only [Domain.list]
    split
    · refine .some ((R.operand_pair _ _ operands).bind fun ⟨v, u⟩ ⟨v', u'⟩ pair => ?_)
      refine (R.listItems_alike pair.1).bind fun ⟨of, items⟩ ⟨of', items'⟩ same => ?_
      exact R.appended_alike .list R.value_list same pair.2
    · refine .some ((R.operand_single _ _ operands).bind fun v v' values => ?_)
      refine (R.listItems_alike values).bind fun ⟨of, items⟩ ⟨of', items'⟩ same => ?_
      obtain ⟨rfl, members⟩ := same
      exact R.value_list (List.rel_reverse members)
    · exact .none

omit comparable in
theorem setPair_alike (op : String) {args args' : List Value}
    (operands : List.Forall₂ (R.value w) args args') :
    ResultsAlike Eq (fun p p' => p.1 = p'.1 ∧ List.Forall₂ (R.value w) p.2.1 p'.2.1 ∧
      List.Forall₂ (R.value w) p.2.2 p'.2.2) (Domain.setPair op args)
      (Domain.setPair op args') := by
  refine (R.operand_pair _ _ operands).bind fun ⟨v, u⟩ ⟨v', u'⟩ pair => ?_
  refine (R.setItems_alike pair.1).bind fun ⟨of, xs⟩ ⟨of', xs'⟩ same => ?_
  refine (R.setItems_alike pair.2).bind fun ⟨of₂, ys⟩ ⟨of₂', ys'⟩ same' => ?_
  obtain ⟨rfl, items⟩ := same
  obtain ⟨rfl, others⟩ := same'
  simp only
  split
  · exact ⟨rfl, items, others⟩
  · rfl

theorem set_parts : R.Parts Domain.set where
  construct := R.setOf_alike comparable
  iterate values := (R.setItems_alike values).map fun _ _ same => same.2
  equals values others := comparable values others _
  contains values others :=
    (R.setItems_alike values).map_eq fun _ _ same => R.isMember_alike comparable same.2 others
  extra operands := by
    simp only [Domain.set]
    split
    · refine .some ((R.operand_pair _ _ operands).bind fun ⟨v, u⟩ ⟨v', u'⟩ pair => ?_)
      refine (R.setItems_alike pair.1).bind fun ⟨of, items⟩ ⟨of', items'⟩ same => ?_
      exact R.appended_alike .setOf (R.setOf_alike comparable) same pair.2
    · refine .some ((R.setPair_alike "union" operands).bind fun p p' same => ?_)
      obtain ⟨of, xs, ys⟩ := p
      obtain ⟨rfl, items, others⟩ := same
      exact R.setOf_alike comparable (List.rel_append items others)
    · refine .some ((R.setPair_alike "intersect" operands).bind fun p p' same => ?_)
      obtain ⟨of, xs, ys⟩ := p
      obtain ⟨rfl, items, others⟩ := same
      refine R.setOf_alike comparable (List.rel_filter ?_ items)
      intro x x' values
      exact iff_of_eq (congrArg (· = true) (R.isMember_alike comparable others values))
    · refine .some ((R.setPair_alike "difference" operands).bind fun p p' same => ?_)
      obtain ⟨of, xs, ys⟩ := p
      obtain ⟨rfl, items, others⟩ := same
      refine R.setOf_alike comparable (List.rel_filter ?_ items)
      intro x x' values
      exact iff_of_eq (congrArg (fun b => (!b) = true) (R.isMember_alike comparable others values))
    · exact .none

/-- The domains that every registry starts with respect every resemblance under which like values
are equal to like values. -/
theorem builtin_respects (operation : String → Prop) {name : String} {domain : Domain}
    (found : Domains.builtin.find? name = some domain) : domain.Respects R.value operation := by
  have member : domain ∈ Domains.builtin.domains := List.mem_of_find?_eq_some found
  have known : domain = Domain.list ∨ domain = Domain.set := by
    simpa [Domains.builtin, Domains.register, Domains.empty, Domain.list, Domain.set] using member
  rcases known with rfl | rfl
  · exact (R.list_parts comparable).respects
  · exact (R.set_parts comparable).respects

end Builtin

end Resemblance
end LayeredIR
