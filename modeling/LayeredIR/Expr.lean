import LayeredIR.Layer
import LayeredIR.Literal

/-! Expressions of the upper three layers. An operand is either an expression in place or an id,
which names a node of the document or else a variable in scope. -/
namespace LayeredIR

mutual

inductive Arg
  | id (name : String)
  | inline (expr : Expr)

inductive Expr
  | lit (value : Literal)
  | ref (id : String)
  | var (name : String)
  | input (name : String)
  | call (ns : Option String) (name : String) (args : List Arg)
  | ifThenElse (cond thenArg elseArg : Arg)
  | letIn (name : String) (value body : Arg)
  | airRef (ns name : String) (args : List Arg)
  | list (of : Ty) (items : List Arg)
  | lambda (params : List String) (body : Arg)
  | apply (callee : Arg) (args : List Arg)
  | fix (generator : Arg)
  | seq (body : List Arg)
  | declare (name : String) (value : Arg)
  | assign (name : String) (value : Arg)
  | whileDo (cond body : Arg)
  | effect (op : String) (args : List Arg)

end

instance : Inhabited Expr := ⟨.lit .void⟩

instance : Inhabited Arg := ⟨.id ""⟩

def Arg.describe : Arg → String
  | .id name => name
  | .inline _ => "<inline>"

namespace Expr

def form : Expr → String
  | .lit _ => "lit"
  | .ref _ => "ref"
  | .var _ => "var"
  | .input _ => "input"
  | .call _ _ _ => "call"
  | .ifThenElse _ _ _ => "if"
  | .letIn _ _ _ => "let"
  | .airRef _ _ _ => "airRef"
  | .list _ _ => "list"
  | .lambda _ _ => "lambda"
  | .apply _ _ => "apply"
  | .fix _ => "fix"
  | .seq _ => "seq"
  | .declare _ _ => "declare"
  | .assign _ _ => "assign"
  | .whileDo _ _ => "while"
  | .effect _ _ => "effect"

def minLayer : Expr → Layer
  | .lit _ | .ref _ | .var _ | .input _ | .call _ _ _ | .ifThenElse _ _ _ | .letIn _ _ _
  | .airRef _ _ _ | .list _ _ => .air
  | .lambda _ _ | .apply _ _ | .fix _ => .cir
  | .seq _ | .declare _ _ | .assign _ _ | .whileDo _ _ | .effect _ _ => .eir

@[simp] def operands : Expr → List Arg
  | .lit _ | .ref _ | .var _ | .input _ => []
  | .call _ _ args | .airRef _ _ args | .list _ args | .seq args | .effect _ args => args
  | .ifThenElse cond thenArg elseArg => [cond, thenArg, elseArg]
  | .letIn _ value body => [value, body]
  | .lambda _ body => [body]
  | .apply callee args => callee :: args
  | .fix generator => [generator]
  | .declare _ value | .assign _ value => [value]
  | .whileDo cond body => [cond, body]

end Expr

mutual

def Expr.firstAbove (layer : Layer) (expr : Expr) : Option String :=
  if layer < expr.minLayer then some expr.form
  else match expr with
    | .lit _ | .ref _ | .var _ | .input _ => none
    | .call _ _ args | .airRef _ _ args | .list _ args | .seq args | .effect _ args =>
      firstAboveIn layer args
    | .ifThenElse cond thenArg elseArg =>
      (cond.firstAbove layer <|> thenArg.firstAbove layer) <|>
        elseArg.firstAbove layer
    | .letIn _ value body => value.firstAbove layer <|> body.firstAbove layer
    | .lambda _ body => body.firstAbove layer
    | .apply callee args => callee.firstAbove layer <|> firstAboveIn layer args
    | .fix generator => generator.firstAbove layer
    | .declare _ value | .assign _ value => value.firstAbove layer
    | .whileDo cond body => cond.firstAbove layer <|> body.firstAbove layer

def Arg.firstAbove (layer : Layer) (arg : Arg) : Option String :=
  match arg with
  | .id _ => none
  | .inline expr => expr.firstAbove layer

def firstAboveIn (layer : Layer) (args : List Arg) : Option String :=
  match args with
  | [] => none
  | arg :: rest => arg.firstAbove layer <|> firstAboveIn layer rest

end

end LayeredIR
