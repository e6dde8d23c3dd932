import LayeredIR.Proofs.Syntax

/-! Documents read from front to back. The forms of a document stand in an order: nodes before
definitions before the result, and in each a form before its operands. The search for a form above
a layer finds the first one in this order, whatever forms it goes through. -/
namespace LayeredIR
namespace Expr

def preorder (expr : Expr) : List Expr :=
  expr :: expr.operands.attach.flatMap fun arg =>
    match arg with
    | ⟨.id _, _⟩ => []
    | ⟨.inline direct, _⟩ => direct.preorder
termination_by sizeOf expr
decreasing_by exact inline_lt ‹_›

end Expr

def Arg.preorder : Arg → List Expr
  | .id _ => []
  | .inline expr => expr.preorder

namespace Expr

theorem preorder_eq (expr : Expr) :
    expr.preorder = expr :: expr.operands.flatMap Arg.preorder := by
  have operands : (expr.operands.attach.map Subtype.val).flatMap Arg.preorder =
      expr.operands.attach.flatMap fun arg => arg.val.preorder := by
    rw [List.flatMap_map]
  rw [List.attach_map_subtype_val] at operands
  rw [preorder, operands]
  congr 2
  funext ⟨arg, _⟩
  cases arg <;> rfl

theorem mem_preorder {inner expr : Expr} : inner ∈ expr.preorder ↔ inner.Occurs expr := by
  induction size : sizeOf expr using Nat.strongRecOn generalizing expr with
  | _ n ih =>
    subst size
    rw [preorder_eq, List.mem_cons, List.mem_flatMap]
    constructor
    · rintro (rfl | ⟨arg, member, within⟩)
      · exact .here
      · cases arg with
        | id name => cases within
        | inline direct =>
          exact .operand _ direct member ((ih _ (inline_lt member) rfl).mp within)
    · intro occurs
      cases occurs with
      | here => exact .inl rfl
      | operand _ direct member deeper =>
        exact .inr ⟨_, member, (ih _ (inline_lt member) rfl).mpr deeper⟩

/-- The search goes by the operands, whatever the form. -/
theorem firstAbove_operands (layer : Layer) (expr : Expr) : expr.firstAbove layer =
    if layer < expr.minLayer then some expr.form else firstAboveIn layer expr.operands := by
  cases expr <;> simp [Expr.firstAbove, firstAboveIn, Option.or_assoc]

theorem firstAboveIn_eq {layer : Layer} {args : List Arg}
    (each : ∀ arg ∈ args, arg.firstAbove layer =
      (arg.preorder.find? fun inner => layer < inner.minLayer).map form) :
    firstAboveIn layer args =
      ((args.flatMap Arg.preorder).find? fun inner => layer < inner.minLayer).map form := by
  induction args with
  | nil => rfl
  | cons arg rest ih =>
    rw [firstAboveIn, each arg (by simp), ih fun arg member => each arg (by simp [member]),
      List.flatMap_cons, List.find?_append]
    cases arg.preorder.find? fun inner => layer < inner.minLayer <;> rfl

theorem firstAbove_eq (layer : Layer) (expr : Expr) : expr.firstAbove layer =
    (expr.preorder.find? fun inner => layer < inner.minLayer).map form := by
  induction size : sizeOf expr using Nat.strongRecOn generalizing expr with
  | _ n ih =>
    subst size
    have each (arg : Arg) (member : arg ∈ expr.operands) : arg.firstAbove layer =
        (arg.preorder.find? fun inner => layer < inner.minLayer).map form := by
      cases arg with
      | id name => rfl
      | inline direct => exact ih _ (inline_lt member) direct rfl
    have operands := firstAboveIn_eq each
    rw [firstAbove_operands, preorder_eq, List.find?_cons, operands]
    by_cases above : layer < expr.minLayer <;> simp only [above, if_true, if_false, decide_true,
      decide_false, Option.map_some]

end Expr

theorem Arg.mem_preorder {inner : Expr} {arg : Arg} :
    inner ∈ arg.preorder ↔ ∃ expr, arg = .inline expr ∧ inner.Occurs expr := by
  cases arg <;> simp [preorder, Expr.mem_preorder]

/-- What holds of every form of an operand holds of the forms in its order. -/
theorem Arg.every_iff {P : Expr → Prop} {arg : Arg} :
    arg.Every P ↔ ∀ inner ∈ arg.preorder, P inner := by
  cases arg with
  | id name => simp [preorder]
  | inline expr => simp [preorder, Expr.mem_preorder, Expr.Every]

theorem Arg.firstAbove_eq (layer : Layer) (arg : Arg) : arg.firstAbove layer =
    (arg.preorder.find? fun inner => layer < inner.minLayer).map Expr.form := by
  cases arg with
  | id name => rfl
  | inline expr => exact expr.firstAbove_eq layer

namespace Document

def forms (doc : Document) : List (String × Expr) :=
  (doc.nodes.flatMap fun node => node.expr.preorder.map (node.id, ·)) ++
    ((doc.definitions.flatMap fun d => d.body.preorder.map (d.key, ·)) ++
      doc.result.preorder.map ("result", ·))

/-- A form occurs in a node, in the body of a definition or in the result. -/
theorem mem_forms {doc : Document} {place : String} {expr : Expr} : (place, expr) ∈ doc.forms ↔
    (∃ node ∈ doc.nodes, expr.Occurs node.expr ∧ node.id = place) ∨
    (∃ d ∈ doc.definitions, (∃ body, d.body = .inline body ∧ expr.Occurs body) ∧ d.key = place) ∨
    (∃ body, doc.result = .inline body ∧ expr.Occurs body) ∧ "result" = place := by
  simp [forms, Expr.mem_preorder, Arg.mem_preorder]

theorem every_iff {doc : Document} {P : Expr → Prop} :
    doc.Every P ↔ ∀ form ∈ doc.forms, P form.2 := by
  constructor
  · rintro ⟨nodes, definitions, result⟩ ⟨place, expr⟩ member
    rcases mem_forms.mp member with ⟨node, among, occurs, -⟩ | ⟨d, among, inside, -⟩ | ⟨inside, -⟩
    · exact nodes node among expr occurs
    · exact Arg.every_iff.mp (definitions d among) expr (Arg.mem_preorder.mpr inside)
    · exact Arg.every_iff.mp result expr (Arg.mem_preorder.mpr inside)
  · intro all
    refine ⟨fun node among expr occurs => ?_, fun d among => ?_, ?_⟩
    · exact all (node.id, expr) (mem_forms.mpr (.inl ⟨node, among, occurs, rfl⟩))
    · refine Arg.every_iff.mpr fun expr inside => ?_
      have occurs := Arg.mem_preorder.mp inside
      exact all (d.key, expr) (mem_forms.mpr (.inr (.inl ⟨d, among, occurs, rfl⟩)))
    · refine Arg.every_iff.mpr fun expr inside => ?_
      have occurs := Arg.mem_preorder.mp inside
      exact all ("result", expr) (mem_forms.mpr (.inr (.inr ⟨occurs, rfl⟩)))

theorem firstAbove_eq (doc : Document) (layer : Layer) : doc.firstAbove layer =
    (doc.forms.find? fun form => layer < form.2.minLayer).map
      fun form => (form.1, form.2.form) := by
  simp [firstAbove, forms, Expr.firstAbove_eq, Arg.firstAbove_eq, List.find?_flatMap,
    List.find?_map, Function.comp_def, Option.map_or, List.map_findSome?]

end Document
end LayeredIR
