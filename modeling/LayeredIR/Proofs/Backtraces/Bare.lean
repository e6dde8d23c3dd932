import LayeredIR.Proofs.Protocol.Blocks
import LayeredIR.Task

/-! Failures that carry no backtrace. No form, instruction or terminator gives a failure one: what
it raises is bare, and what it passes on comes from the handler of an effect. -/
namespace LayeredIR

def Fault.Bare (fault : Fault) : Prop := fault.backtrace = none

theorem Fault.ofCause_bare (cause : Cause) : (ofCause cause).Bare := rfl

def Handler.Bare {σ : Type} (handler : Handler σ) : Prop :=
  ∀ futures args host fault, (handler futures args host).1 = .error fault → fault.Bare

def Query.Bare : (q : Query) → q.Answer → Prop
  | .perform _ _, result => ∀ fault, result = .error fault → fault.Bare
  | _, _ => True

def Protocol.bare : Protocol Unit where
  le _ _ := True
  value _ _ := True
  scope _ _ := True
  made _ _ _ := True
  fails := Fault.Bare
  evals _ _ := True
  calls _ _ _ := True
  asks _ _ := True
  answers _ q _ := q.Bare
  forks _ _ _ := True
  awaits := True
  bodies := False
  refl _ := trivial
  trans _ _ := trivial
  later _ := trivial

def Plan.Bare (p : Plan Next) : Prop := p.Obeys Protocol.bare (fun _ _ => True) ()

theorem Plan.Bare.resumed {job : Job} {next : Value → Plan Next}
    (rest : ∀ k v, Protocol.bare.le () k → Protocol.bare.Told job k v → (next v).Bare) (v : Value) :
    (next v).Bare := rest () v trivial ⟨trivial, nofun⟩

namespace Setting

variable {σ : Type} (s : Setting σ)

theorem bare_laws : Protocol.bare.Laws s where
  value_mono _ _ := trivial
  scope_mono _ _ := trivial
  tells _ _ := trivial
  fails {_ q _ _ _} told fails := by
    cases q with
    | compute | dispatch =>
      obtain ⟨cause, -, rfl⟩ := fails
      exact Fault.ofCause_bare cause
    | perform => exact told _ fails
    | _ => exact fails.elim
  opens _ _ _ := trivial
  binds _ := rfl
  scope_made _ := trivial
  define_made _ _ _ _ := trivial
  own _ := Fault.ofCause_bare _
  inquires _ := trivial
  child _ := trivial
  root _ := trivial
  flatten _ _ _ := trivial
  remember _ := trivial
  compute _ _ _ := trivial
  dispatch _ _ _ _ := trivial
  perform _ _ _ := trivial
  literal _ _ := trivial
  list _ _ _ := trivial
  input _ := trivial

theorem bare_allowsForm (expr : Expr) (a : ScopeId) : Protocol.bare.AllowsForm s expr a where
  operand _ _ _ _ := trivial
  node _ _ _ := trivial
  definition _ _ _ _ _ := trivial
  function _ _ _ _ := trivial
  fixpoint _ _ _ := trivial
  declare _ _ _ _ := trivial
  assign _ _ _ _ := trivial
  apply _ _ _ := trivial
  loop _ _ := trivial
  above _ _ := Fault.ofCause_bare _

theorem bare_allowsCall (c : Closure) (args : List Value) :
    Protocol.bare.AllowsCall () c args where
  held _ _ := trivial
  enter _ := trivial
  body _ _ := trivial
  unroll _ := trivial
  again _ _ _ := trivial

theorem bare_allowsBlock (block : Block) : Protocol.bare.AllowsBlock s block where
  scope _ := trivial
  write _ _ := trivial
  operand _ _ _ := trivial
  apply _ _ := trivial
  perform _ _ := trivial
  flatten _ := trivial
  successor _ := trivial
  missing _ _ := Fault.ofCause_bare _
  fork _ _ := trivial
  future _ _ := trivial
  await := trivial

/-- Whatever is evaluated fails without a backtrace of its own. -/
theorem plan_bare (job : Job) : (s.plan job).Bare := by
  have allows : Protocol.bare.AllowsJob s () job := by
    cases job with
    | operand arg a => exact .operand trivial (fun _ _ => trivial) fun _ _ _ _ _ _ => trivial
    | expr expr a => exact .expr trivial (s.bare_allowsForm expr a)
    | apply callee args => exact .apply fun c _ => bare_allowsCall c args
    | block label =>
      exact .block (fun _ => Fault.ofCause_bare _) fun block _ => s.bare_allowsBlock block
  exact (s.plan_obeys s.bare_laws allows).imp fun _ _ _ => trivial

/-- Only handlers answer with a failure, or the want of one. -/
theorem serve_bare (handlers : ∀ name handler, s.handler? name = some handler → handler.Bare)
    (q : Query) (shared : Shared σ) (memory : Memory) : q.Bare (s.serve q shared memory).1 := by
  cases q with
  | perform effect args =>
    intro fault failed
    simp only [serve] at failed
    cases found : s.handler? effect with
    | some handler =>
      rw [found] at failed
      exact handlers effect handler found _ _ _ _ failed
    | none =>
      rw [found] at failed
      cases failed
      rfl
  | _ => exact trivial

end Setting
end LayeredIR
