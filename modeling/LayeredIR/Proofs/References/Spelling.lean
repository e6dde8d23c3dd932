import LayeredIR.Evaluate
import LayeredIR.Proofs.Preorder
import Mathlib.Data.List.Forall2

/-! Two spellings of one operand. A node may be named by its id alone, or by a reference in place.
Code is respelled where some operands that name nodes by their ids have references instead, at any
depth. What a statement declares is read off its spelling, so statements that name declarations are
kept where statements run at all. -/
namespace LayeredIR

/-- A statement stays as it is where it is the id of a node that declares a variable. -/
def Nodes.Keeps (nodes : Nodes) (statement statement' : Arg) : Prop :=
  ∀ id name value, statement = .id id → nodes.get? id = some (.declare name value) →
    statement' = .id id

theorem Nodes.Keeps.refl (nodes : Nodes) (statement : Arg) : nodes.Keeps statement statement :=
  fun _ _ _ named _ => named

theorem Nodes.keeps_inline (nodes : Nodes) (expr : Expr) (statement' : Arg) :
    nodes.Keeps (.inline expr) statement' := nofun

section Respelled

variable (nodes : Nodes) (layer : Layer)

mutual

inductive Arg.Respelled : Arg → Arg → Prop
  | id (name) : Arg.Respelled (.id name) (.id name)
  | reference {name} (known : nodes.contains name) : Arg.Respelled (.id name) (.inline (.ref name))
  | inline {expr expr'} (parts : Expr.Respelled expr expr') :
    Arg.Respelled (.inline expr) (.inline expr')

inductive Expr.Respelled : Expr → Expr → Prop
  | lit (value) : Expr.Respelled (.lit value) (.lit value)
  | ref (id) : Expr.Respelled (.ref id) (.ref id)
  | var (name) : Expr.Respelled (.var name) (.var name)
  | input (name) : Expr.Respelled (.input name) (.input name)
  | call {ns name args args'} (operands : List.Forall₂ Arg.Respelled args args') :
    Expr.Respelled (.call ns name args) (.call ns name args')
  | ifThenElse {cond cond' thenArg thenArg' elseArg elseArg'} (test : Arg.Respelled cond cond')
    (yes : Arg.Respelled thenArg thenArg') (no : Arg.Respelled elseArg elseArg') :
    Expr.Respelled (.ifThenElse cond thenArg elseArg) (.ifThenElse cond' thenArg' elseArg')
  | letIn {name value value' body body'} (bound : Arg.Respelled value value')
    (within : Arg.Respelled body body') :
    Expr.Respelled (.letIn name value body) (.letIn name value' body')
  | airRef {ns name args args'} (operands : List.Forall₂ Arg.Respelled args args') :
    Expr.Respelled (.airRef ns name args) (.airRef ns name args')
  | list {of items items'} (operands : List.Forall₂ Arg.Respelled items items') :
    Expr.Respelled (.list of items) (.list of items')
  | lambda {params body body'} (within : Arg.Respelled body body') :
    Expr.Respelled (.lambda params body) (.lambda params body')
  | apply {callee callee' args args'} (called : Arg.Respelled callee callee')
    (operands : List.Forall₂ Arg.Respelled args args') :
    Expr.Respelled (.apply callee args) (.apply callee' args')
  | fix {generator generator'} (unrolled : Arg.Respelled generator generator') :
    Expr.Respelled (.fix generator) (.fix generator')
  | seq {body body'} (statements : List.Forall₂ Arg.Respelled body body')
    (kept : layer.hasMutation → List.Forall₂ nodes.Keeps body body') :
    Expr.Respelled (.seq body) (.seq body')
  | declare {name value value'} (bound : Arg.Respelled value value') :
    Expr.Respelled (.declare name value) (.declare name value')
  | assign {name value value'} (bound : Arg.Respelled value value') :
    Expr.Respelled (.assign name value) (.assign name value')
  | whileDo {cond cond' body body'} (test : Arg.Respelled cond cond')
    (repeated : Arg.Respelled body body') :
    Expr.Respelled (.whileDo cond body) (.whileDo cond' body')
  | effect {op args args'} (operands : List.Forall₂ Arg.Respelled args args') :
    Expr.Respelled (.effect op args) (.effect op args')

end

end Respelled

variable {nodes : Nodes} {layer : Layer}

namespace Expr.Respelled

variable {expr expr' : Expr} (parts : Expr.Respelled nodes layer expr expr')
include parts

theorem operands :
    List.Forall₂ (Arg.Respelled nodes layer) expr.operands expr'.operands := by
  cases parts with
  | lit | ref | var | input => exact .nil
  | call operands | airRef operands | list operands | effect operands => exact operands
  | seq statements => exact statements
  | ifThenElse test yes no => exact .cons test (.cons yes (.cons no .nil))
  | letIn bound within => exact .cons bound (.cons within .nil)
  | lambda within => exact .cons within .nil
  | apply called operands => exact .cons called operands
  | fix unrolled => exact .cons unrolled .nil
  | declare bound | assign bound => exact .cons bound .nil
  | whileDo test repeated => exact .cons test (.cons repeated .nil)

theorem form_eq : expr.form = expr'.form := by cases parts <;> rfl

theorem minLayer_eq : expr.minLayer = expr'.minLayer := by cases parts <;> rfl

end Expr.Respelled

/-- Code is respelled as itself. -/
theorem Expr.Respelled.of_operands {expr : Expr}
    (same : ∀ arg ∈ expr.operands, Arg.Respelled nodes layer arg arg) :
    Expr.Respelled nodes layer expr expr := by
  have all {args : List Arg} (within : ∀ arg ∈ args, Arg.Respelled nodes layer arg arg) :
      List.Forall₂ (Arg.Respelled nodes layer) args args := List.forall₂_same.mpr within
  cases expr with
  | lit value => exact .lit value
  | ref id => exact .ref id
  | var name => exact .var name
  | input name => exact .input name
  | call ns name args => exact .call (all same)
  | airRef ns name args => exact .airRef (all same)
  | list of items => exact .list (all same)
  | effect op args => exact .effect (all same)
  | seq body =>
    exact .seq (all same) fun _ => List.forall₂_same.mpr fun statement _ => .refl nodes statement
  | ifThenElse cond thenArg elseArg =>
    exact .ifThenElse (same cond (by simp)) (same thenArg (by simp)) (same elseArg (by simp))
  | letIn name value body => exact .letIn (same value (by simp)) (same body (by simp))
  | lambda params body => exact .lambda (same body (by simp))
  | apply callee args =>
    exact .apply (same callee (by simp)) (all fun arg member => same arg (by simp [member]))
  | fix generator => exact .fix (same generator (by simp))
  | declare name value => exact .declare (same value (by simp))
  | assign name value => exact .assign (same value (by simp))
  | whileDo cond body => exact .whileDo (same cond (by simp)) (same body (by simp))

theorem Expr.Respelled.refl (expr : Expr) : Expr.Respelled nodes layer expr expr := by
  induction size : sizeOf expr using Nat.strongRecOn generalizing expr with
  | _ n ih =>
    subst size
    refine .of_operands fun arg member => ?_
    cases arg with
    | id name => exact .id name
    | inline direct => exact .inline (ih _ (inline_lt member) direct rfl)

theorem Arg.Respelled.refl (arg : Arg) : Arg.Respelled nodes layer arg arg := by
  cases arg with
  | id name => exact .id name
  | inline expr => exact .inline (.refl expr)

theorem firstAboveIn_respelled {top : Layer} {args args' : List Arg}
    (each : ∀ arg ∈ args, ∀ arg', Arg.Respelled nodes layer arg arg' →
      arg.firstAbove top = arg'.firstAbove top)
    (same : List.Forall₂ (Arg.Respelled nodes layer) args args') :
    firstAboveIn top args = firstAboveIn top args' := by
  induction same with
  | nil => rfl
  | cons head _ ih =>
    rw [firstAboveIn, firstAboveIn, each _ (.head _) _ head,
      ih fun arg member => each arg (.tail _ member)]

/-- A reference may stand in every layer, so no search for a form above a layer finds it. -/
theorem Arg.firstAbove_reference (top : Layer) (id : String) :
    (Arg.inline (.ref id)).firstAbove top = none := by
  cases top <;> rfl

theorem Expr.Respelled.firstAbove_eq (top : Layer) {expr expr' : Expr}
    (parts : Expr.Respelled nodes layer expr expr') :
    expr.firstAbove top = expr'.firstAbove top := by
  induction size : sizeOf expr using Nat.strongRecOn generalizing expr expr' with
  | _ n ih =>
    subst size
    rw [firstAbove_operands, firstAbove_operands, parts.form_eq, parts.minLayer_eq]
    congr 1
    refine firstAboveIn_respelled (fun arg member arg' same => ?_) parts.operands
    cases same with
    | id name => rfl
    | reference known => exact (Arg.firstAbove_reference top _).symm
    | inline parts => exact ih _ (inline_lt member) parts rfl

theorem Arg.Respelled.firstAbove_eq (top : Layer) {arg arg' : Arg}
    (same : Arg.Respelled nodes layer arg arg') : arg.firstAbove top = arg'.firstAbove top := by
  cases same with
  | id name => rfl
  | reference known => exact (Arg.firstAbove_reference top _).symm
  | inline parts => exact parts.firstAbove_eq top

section Documents

variable (nodes layer)

structure Node.Respelled (node node' : Node) : Prop where
  id : node.id = node'.id
  parts : Expr.Respelled nodes layer node.expr node'.expr

structure Definition.Respelled (d d' : Definition) : Prop where
  rest : d' = { d with body := d'.body }
  body : Arg.Respelled nodes layer d.body d'.body

structure Document.Respelled (doc doc' : Document) : Prop where
  declared : doc.layer = doc'.layer
  nodes : List.Forall₂ (Node.Respelled ⟨doc.nodes⟩ layer) doc.nodes doc'.nodes
  definitions :
    List.Forall₂ (Definition.Respelled ⟨doc.nodes⟩ layer) doc.definitions doc'.definitions
  result : Arg.Respelled ⟨doc.nodes⟩ layer doc.result doc'.result

end Documents

theorem map_eq_of_forall₂ {α γ : Type} {R : α → α → Prop} {f : α → γ}
    (agree : ∀ a b, R a b → f a = f b) {as bs : List α} (related : List.Forall₂ R as bs) :
    as.map f = bs.map f := by
  rw [← List.forall₂_eq_eq_eq, List.forall₂_map_left_iff, List.forall₂_map_right_iff]
  exact related.imp agree

theorem findSome?_eq_of_forall₂ {α γ : Type} {R : α → α → Prop} {f : α → Option γ}
    (agree : ∀ a b, R a b → f a = f b) {as bs : List α} (related : List.Forall₂ R as bs) :
    as.findSome? f = bs.findSome? f := by
  have same := congrArg (List.findSome? id) (map_eq_of_forall₂ agree related)
  simpa only [List.findSome?_map, Function.id_comp] using same

namespace Definition.Respelled

variable {d d' : Definition} (same : Definition.Respelled nodes layer d d')
include same

theorem key_eq : d.key = d'.key := by
  rw [same.rest]
  rfl

theorem params_eq : d.params = d'.params := by rw [same.rest]

theorem result_eq : d.result = d'.result := by rw [same.rest]

end Definition.Respelled

/-- Tables of nodes that were respelled together. -/
theorem Nodes.get?_respelled {list list' : List Node}
    (same : List.Forall₂ (Node.Respelled nodes layer) list list') (id : String) :
    Option.Rel (Expr.Respelled nodes layer) (Nodes.get? ⟨list⟩ id) (Nodes.get? ⟨list'⟩ id) := by
  induction same with
  | nil => exact .none
  | @cons node node' _ _ head _ ih =>
    by_cases here : node.id = id
    · have here' : node'.id = id := head.id ▸ here
      simpa [get?, here, here'] using Option.Rel.some head.parts
    · have other : node'.id ≠ id := head.id ▸ here
      simpa [get?, here, other] using ih

theorem Definitions.get?_layered_respelled {list list' : List Definition}
    (same : List.Forall₂ (Definition.Respelled nodes layer) list list')
    {table table' : Definitions}
    (before : ∀ ns name, Option.Rel (Definition.Respelled nodes layer) (table.get? ns name)
      (table'.get? ns name)) (ns name : String) :
    Option.Rel (Definition.Respelled nodes layer) ((table.layered list).get? ns name)
      ((table'.layered list').get? ns name) := by
  induction same generalizing table table' with
  | nil => exact before ns name
  | @cons d d' _ _ head _ ih =>
    refine ih fun ns name => ?_
    rw [get?_insert, get?_insert, head.key_eq]
    split
    · exact .some head
    · exact before ns name

namespace Document.Respelled

variable {doc doc' : Document} (same : doc.Respelled layer doc')
include same

theorem firstAbove_eq (top : Layer) : doc.firstAbove top = doc'.firstAbove top := by
  have nodes := findSome?_eq_of_forall₂
    (f := fun node : Node => (node.expr.firstAbove top).map fun form => (node.id, form))
    (fun node node' same => by rw [same.parts.firstAbove_eq top, same.id]) same.nodes
  have definitions := findSome?_eq_of_forall₂
    (f := fun d : Definition => (d.body.firstAbove top).map fun form => (d.key, form))
    (fun d d' same => by rw [same.body.firstAbove_eq top, same.key_eq]) same.definitions
  rw [Document.firstAbove, Document.firstAbove, nodes, definitions, same.result.firstAbove_eq top]

theorem checkLayer_eq (reached top : Layer) :
    doc.checkLayer reached top = doc'.checkLayer reached top := by
  simp only [Document.checkLayer, same.declared, same.firstAbove_eq]

theorem airCirLayer_eq : doc.airCirLayer = doc'.airCirLayer := by
  simp only [Document.airCirLayer, same.declared]

theorem nodeTable_eq : doc'.nodeTable = doc.nodeTable.map fun _ => ⟨doc'.nodes⟩ := by
  have ids := map_eq_of_forall₂ (fun _ _ same => same.id) same.nodes
  simp only [Document.nodeTable, Nodes.ofNodes, ids]
  split <;> rfl

end Document.Respelled
end LayeredIR
