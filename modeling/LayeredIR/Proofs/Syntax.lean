import LayeredIR.Setting

/-! Forms that occur in a document. A condition on forms is required of an operand by requiring it
of every form that occurs in it, at any depth. -/
namespace LayeredIR

theorem Layer.hasClosures_of_not_lt {layer : Layer} (reached : ¬ layer < .cir) :
    layer.hasClosures := by
  cases layer <;> first | rfl | exact absurd (by decide) reached

theorem Layer.hasMutation_of_not_lt {layer : Layer} (reached : ¬ layer < .eir) :
    layer.hasMutation := by
  cases layer <;> first | rfl | exact absurd (by decide) reached

theorem Layer.hasEffects_of_not_lt {layer : Layer} (reached : ¬ layer < .eir) :
    layer.hasEffects := by
  cases layer <;> first | rfl | exact absurd (by decide) reached

theorem Layer.hasClosures_of_hasMutation {layer : Layer} (mutation : layer.hasMutation) :
    layer.hasClosures := by
  cases layer <;> first | rfl | cases mutation

theorem Expr.operands_lt {expr : Expr} {arg : Arg} (member : arg ∈ expr.operands) :
    sizeOf arg < sizeOf (Arg.inline expr) := by
  have among {args : List Arg} (member : arg ∈ args) : sizeOf arg < sizeOf args :=
    List.sizeOf_lt_of_mem member
  cases expr with
  | lit _ | ref _ | var _ | input _ => cases member
  | call _ _ args | airRef _ _ args | list _ args | seq args | effect _ args =>
    have less : sizeOf arg < sizeOf args := among member
    simp only [Arg.inline.sizeOf_spec, Expr.call.sizeOf_spec, Expr.airRef.sizeOf_spec,
      Expr.list.sizeOf_spec, Expr.seq.sizeOf_spec, Expr.effect.sizeOf_spec]
    omega
  | apply callee args =>
    simp only [Arg.inline.sizeOf_spec, Expr.apply.sizeOf_spec]
    rcases List.mem_cons.mp member with rfl | later
    · omega
    · have less := among later
      omega
  | ifThenElse _ _ _ | letIn _ _ _ | lambda _ _ | fix _ | declare _ _ | assign _ _ | whileDo _ _ =>
    simp only [Expr.operands, List.mem_cons, List.not_mem_nil, or_false] at member
    simp only [Arg.inline.sizeOf_spec, Expr.ifThenElse.sizeOf_spec, Expr.letIn.sizeOf_spec,
      Expr.lambda.sizeOf_spec, Expr.fix.sizeOf_spec, Expr.declare.sizeOf_spec,
      Expr.assign.sizeOf_spec, Expr.whileDo.sizeOf_spec]
    rcases member with rfl | rfl | rfl <;> omega

theorem Expr.inline_lt {expr direct : Expr} (member : Arg.inline direct ∈ expr.operands) :
    sizeOf direct < sizeOf expr := by
  have less := operands_lt member
  simp only [Arg.inline.sizeOf_spec] at less
  omega

inductive Expr.Occurs (inner : Expr) : Expr → Prop
  | here : Occurs inner inner
  | operand (outer direct : Expr) (member : Arg.inline direct ∈ outer.operands)
      (deeper : Occurs inner direct) : Occurs inner outer

def Expr.Every (P : Expr → Prop) (expr : Expr) : Prop := ∀ inner, inner.Occurs expr → P inner

@[simp] def Arg.Every (P : Expr → Prop) : Arg → Prop
  | .id _ => True
  | .inline expr => expr.Every P

namespace Expr.Every

variable {P : Expr → Prop} {expr : Expr}

theorem here (all : expr.Every P) : P expr := all expr .here

theorem operand (all : expr.Every P) (arg : Arg) (member : arg ∈ expr.operands) : arg.Every P := by
  cases arg with
  | id name => trivial
  | inline direct => exact fun inner occurs => all inner (.operand expr direct member occurs)

theorem of_operands (top : P expr) (all : ∀ arg ∈ expr.operands, arg.Every P) : expr.Every P := by
  intro inner occurs
  cases occurs with
  | here => exact top
  | operand _ direct member deeper => exact all (.inline direct) member inner deeper

end Expr.Every

theorem Arg.Every.of_forall {P : Expr → Prop} (all : ∀ expr, P expr) (arg : Arg) : arg.Every P := by
  cases arg with
  | id name => trivial
  | inline expr => exact fun inner _ => all inner

theorem Arg.Every.imp {P Q : Expr → Prop} (weaker : ∀ expr, P expr → Q expr) {arg : Arg}
    (all : arg.Every P) : arg.Every Q := by
  cases arg with
  | id name => trivial
  | inline expr => exact fun inner occurs => weaker inner (all inner occurs)

def Definitions.Every (P : Expr → Prop) (table : Definitions) : Prop :=
  ∀ entry ∈ table.entries, entry.2.body.Every P

structure Document.Every (P : Expr → Prop) (doc : Document) : Prop where
  node : ∀ node ∈ doc.nodes, node.expr.Every P
  definition : ∀ d ∈ doc.definitions, d.body.Every P
  result : doc.result.Every P

theorem Document.Every.imp {P Q : Expr → Prop} (weaker : ∀ expr, P expr → Q expr) {doc : Document}
    (every : doc.Every P) : doc.Every Q :=
  ⟨fun node member inner occurs => weaker inner (every.node node member inner occurs),
    fun d member => .imp weaker (every.definition d member), .imp weaker every.result⟩

/-- The condition on the calls that a document makes: by expressions, given their namespace and
name, and by the operator instructions of blocks. -/
def Expr.CallsOnly (call : Option String → String → Prop) : Expr → Prop
  | .call ns name _ => call ns name
  | _ => True

def Instruction.CallsOnly (call : Option String → String → Prop) : Instruction → Prop
  | .assign _ value => value.Every (Expr.CallsOnly call)
  | .op _ ns name _ => call ns name
  | .call _ _ _ | .effect _ _ _ => True

theorem Expr.CallsOnly.of_forall {call : Option String → String → Prop}
    (all : ∀ ns name, call ns name) (expr : Expr) : expr.CallsOnly call := by
  cases expr with
  | call ns name args => exact all ns name
  | _ => trivial

theorem Expr.CallsOnly.imp {call call' : Option String → String → Prop}
    (weaker : ∀ ns name, call ns name → call' ns name) (expr : Expr) (only : expr.CallsOnly call) :
    expr.CallsOnly call' := by
  cases expr with
  | call ns name args => exact weaker ns name only
  | _ => trivial

structure Setting.CallsOnly {σ : Type} (s : Setting σ) (call : Option String → String → Prop) :
    Prop where
  node : ∀ id expr, s.nodes.get? id = some expr → expr.Every (Expr.CallsOnly call)
  definition : ∀ ns name d, s.definitions.get? ns name = some d →
    d.body.Every (Expr.CallsOnly call)
  instruction : ∀ block ∈ s.blocks, ∀ i ∈ block.instructions, i.CallsOnly call

structure Document.CallsOnly (doc : Document) (call : Option String → String → Prop) : Prop where
  node : ∀ node ∈ doc.nodes, node.expr.Every (Expr.CallsOnly call)
  definition : ∀ d ∈ doc.definitions, d.body.Every (Expr.CallsOnly call)
  result : doc.result.Every (Expr.CallsOnly call)

def Definitions.CallsOnly (table : Definitions) (call : Option String → String → Prop) : Prop :=
  ∀ entry ∈ table.entries, entry.2.body.Every (Expr.CallsOnly call)

theorem Setting.CallsOnly.of_forall {σ : Type} {s : Setting σ}
    {call : Option String → String → Prop} (all : ∀ ns name, call ns name) : s.CallsOnly call := by
  refine ⟨fun _ _ _ inner _ => .of_forall all inner,
    fun _ _ d _ => .of_forall (.of_forall all) d.body, ?_⟩
  intro block _ i _
  cases i with
  | assign target value => exact .of_forall (.of_forall all) value
  | op target ns name args => exact all ns name
  | _ => trivial

theorem Document.CallsOnly.of_forall {doc : Document} {call : Option String → String → Prop}
    (all : ∀ ns name, call ns name) : doc.CallsOnly call :=
  ⟨fun _ _ _ _ => .of_forall all _, fun _ _ => .of_forall (.of_forall all) _,
    .of_forall (.of_forall all) _⟩

theorem Document.CallsOnly.imp {doc : Document} {call call' : Option String → String → Prop}
    (weaker : ∀ ns name, call ns name → call' ns name) (only : doc.CallsOnly call) :
    doc.CallsOnly call' :=
  ⟨fun node member inner occurs => .imp weaker inner (only.node node member inner occurs),
    fun d member => .imp (.imp weaker) (only.definition d member), .imp (.imp weaker) only.result⟩

theorem Setting.block_mem {σ : Type} {s : Setting σ} {label : String} {block : Block}
    (found : s.block? label = some block) : block ∈ s.blocks := List.mem_of_find?_eq_some found

end LayeredIR
