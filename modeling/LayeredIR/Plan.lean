import LayeredIR.Domain
import LayeredIR.Future
import LayeredIR.Scope

/-! What the evaluation of one form asks for. A plan is a tree of requests: to evaluate something
else, to do so within a call, to use what the task has (its scopes, its calls, its node cache) or
shares with others (domains, effects), to fork a task or to wait for one. The forms of the language
are plans and never run one another; who runs a plan decides how its requests are served. Plans are
a lawful monad, so a plan may be taken apart after any of its requests. -/
namespace LayeredIR

inductive Job
  | operand (arg : Arg) (scope : ScopeId)
  | expr (expr : Expr) (scope : ScopeId)
  | apply (callee : Value) (args : List Value)
  | block (label : String)

/-- How the evaluation of a form ends: with a value, or with that of another job in its place. -/
inductive Next
  | value (v : Value)
  | job (j : Job)

/-- A call: the name of its frame, and whether it is that of a definition, which may not be
re-entered before it ends. -/
structure CallSite where
  name : String
  isDefinition : Bool

/-- What a plan may ask of the task that runs it and of the host. -/
inductive Query
  | lookup (scope : ScopeId) (name : String)
  | define (scope : ScopeId) (name : String) (value : Value) (mutability : Mutability)
  | assign (scope : ScopeId) (name : String) (value : Value)
  | child (scope : ScopeId)
  | enter (captured : Captured)
  | flatten (scope : ScopeId)
  | fresh
  | isActive (key : String)
  | innermost
  | recollect (node : String)
  | remember (node : String) (value : Value)
  | compute (op : Operator) (args : List Value)
  | dispatch (domain : Domain) (op : String) (args : List Value)
  | perform (effect : String) (args : List Value)

@[reducible]
def Query.Answer : Query → Type
  | .lookup _ _ => Option Value
  | .define _ _ _ _ => Unit
  | .assign _ _ _ => Except AssignFailure Unit
  | .child _ => ScopeId
  | .enter _ => ScopeId
  | .flatten _ => Bindings
  | .fresh => Identity
  | .isActive _ => Bool
  | .innermost => Option String
  | .recollect _ => Option Value
  | .remember _ _ => Unit
  | .compute _ _ => Except Cause Value
  | .dispatch _ _ _ => Except Cause Value
  | .perform _ _ => Except Fault Value

inductive Plan (α : Type) : Type
  | done (result : α)
  | fail (fault : Fault)
  | eval (job : Job) (next : Value → Plan α)
  | call (site : CallSite) (job : Job) (next : Value → Plan α)
  | ask (query : Query) (next : query.Answer → Plan α)
  /-- A new task that starts at a block with the given registers: its future, or none where no slot
  is free. -/
  | fork (label : String) (registers : Bindings) (next : Option Identity → Plan α)
  | await (future : Identity) (next : Outcome → Plan α)

namespace Plan

def bind {α β : Type} : Plan α → (α → Plan β) → Plan β
  | .done result, f => f result
  | .fail fault, _ => .fail fault
  | .eval job next, f => .eval job fun v => (next v).bind f
  | .call site job next, f => .call site job fun v => (next v).bind f
  | .ask query next, f => .ask query fun a => (next a).bind f
  | .fork label registers next, f => .fork label registers fun id => (next id).bind f
  | .await future next, f => .await future fun outcome => (next outcome).bind f

instance : Monad Plan where
  pure := .done
  bind := .bind

theorem bind_done {α : Type} (p : Plan α) : p.bind .done = p := by
  induction p with
  | done _ | fail _ => rfl
  | eval _ next ih | call _ _ next ih | ask _ next ih | fork _ _ next ih | await _ next ih =>
    simp only [bind]
    congr 1
    funext answer
    exact ih answer

theorem bind_bind {α β γ : Type} (p : Plan α) (f : α → Plan β) (g : β → Plan γ) :
    (p.bind f).bind g = p.bind fun a => (f a).bind g := by
  induction p with
  | done _ | fail _ => rfl
  | eval _ next ih | call _ _ next ih | ask _ next ih | fork _ _ next ih | await _ next ih =>
    simp only [bind]
    congr 1
    funext answer
    exact ih answer

instance : LawfulMonad Plan := LawfulMonad.mk' Plan bind_done (fun _ _ => rfl) bind_bind

def raise {α : Type} (cause : Cause) : Plan α := .fail (.ofCause cause)

def evaluate (job : Job) : Plan Value := .eval job .done

def within (site : CallSite) (job : Job) : Plan Value := .call site job .done

def query (q : Query) : Plan q.Answer := .ask q .done

def orRaise {α : Type} : Except Cause α → Plan α
  | .ok result => .done result
  | .error cause => raise cause

end Plan
end LayeredIR
