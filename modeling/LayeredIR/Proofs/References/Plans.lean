import LayeredIR.Proofs.Likeness.Forms
import LayeredIR.Proofs.References.Spelling
import LayeredIR.Proofs.Value.Recoded

/-! Plans of respelled code. They evaluate respelled code in the same scopes, ask the same of like
values, and go on alike. What they do without evaluating anything is a matter of their values alone,
so for that they are held to a likeness under which no code runs. -/
namespace LayeredIR

/-- Values in two runs whose closures differ in their code, where the runs have the same scopes,
identities and calls. No code is run and nothing is applied. -/
def Likeness.recoded {code : Arg → Arg → Prop} (same : ∀ arg, code arg arg) : Likeness Unit where
  toResemblance := .recoded same
  captured _ := Captured.Recoded code
  identity _ := Eq
  mutability := Eq
  scope _ := Eq
  outer _ := Eq
  writable _ := Eq
  inside w := w
  fault _ := Eq
  place _ place place' := place' = place
  operator _ := True
  operation _ := True
  domain d := d.Respects (Resemblance.recoded same).value fun _ => True
  allowed _ := False
  reads _ := True
  applicable := False
  flow := False
  mutation := True
  effects := True
  snapshots := False
  memo := False
  copying := False
  node _ _ := False
  value_mono _ values := values
  captured_mono _ captures := captures
  scope_mono _ same := same
  inside_mono le := le
  scope_root none := none.elim
  writable_of_scope _ same := same
  outer_root _ := rfl
  outer_of_scope same := same
  mutability_self _ := rfl
  allowed_operand none := none.elim
  allowed_call none := none.elim
  allowed_var none := none.elim
  fault_self _ _ := rfl
  fault_place same _ _ := by rw [same]
  value_closure _ _ none := none.elim
  closure_parts none := none.elim

section Relations

variable (nodes : Nodes) (layer : Layer)

abbrev Likeness.respelled : Likeness Unit :=
  .recoded fun arg => (Arg.Respelled.refl arg : Arg.Respelled nodes layer arg arg)

abbrev Value.Respelled : Value → Value → Prop := Value.Recoded (Arg.Respelled nodes layer)

inductive Job.Respelled : Job → Job → Prop
  | operand {arg arg' scope} (same : Arg.Respelled nodes layer arg arg') :
    Respelled (.operand arg scope) (.operand arg' scope)
  | expr {expr expr' scope} (parts : Expr.Respelled nodes layer expr expr') :
    Respelled (.expr expr scope) (.expr expr' scope)
  | apply {callee callee' args args'} (callees : Value.Respelled nodes layer callee callee')
    (operands : List.Forall₂ (Value.Respelled nodes layer) args args') :
    Respelled (.apply callee args) (.apply callee' args')

inductive Next.Respelled : Next → Next → Prop
  | value {v v'} (values : Value.Respelled nodes layer v v') : Respelled (.value v) (.value v')
  | job {j j'} (jobs : Job.Respelled nodes layer j j') : Respelled (.job j) (.job j')

inductive Plan.Respelled {α β : Type} (R : α → β → Prop) : Plan α → Plan β → Prop
  | done {result result'} (related : R result result') : Respelled R (.done result) (.done result')
  | fail (fault) : Respelled R (.fail fault) (.fail fault)
  | eval {job job' next next'} (jobs : Job.Respelled nodes layer job job')
    (rest : ∀ v v', Value.Respelled nodes layer v v' → Respelled R (next v) (next' v')) :
    Respelled R (.eval job next) (.eval job' next')
  | call {site job job' next next'} (jobs : Job.Respelled nodes layer job job')
    (rest : ∀ v v', Value.Respelled nodes layer v v' → Respelled R (next v) (next' v')) :
    Respelled R (.call site job next) (.call site job' next')
  | ask {q q' next next'} (queries : (Likeness.respelled nodes layer).Queries () q q')
    (rest : ∀ a a', (Likeness.respelled nodes layer).Answers () q q' a a' →
      Respelled R (next a) (next' a')) :
    Respelled R (.ask q next) (.ask q' next')
  | enter {c c' next next'} (captures : Captured.Recoded (Arg.Respelled nodes layer) c c')
    (rest : ∀ a a', a = a' → Respelled R (next a) (next' a')) :
    Respelled R (.ask (.enter c) next) (.ask (.enter c') next')

end Relations

variable {nodes : Nodes} {layer : Layer} {α β α' β' : Type}

theorem Likeness.no_respelled_jobs {w : Unit} {job job' : Job}
    (jobs : (Likeness.respelled nodes layer).Jobs w job job') : False := by
  cases jobs with
  | operand none | expr none | apply none | block none => exact none

namespace Plan.Respelled

/-- What two plans do that evaluate nothing. -/
theorem of_likeness {R : Unit → α → β → Prop} {w : Unit} {p : Plan α} {p' : Plan β}
    (plans : (Likeness.respelled nodes layer).Plans R w p p') :
    p.Respelled nodes layer (R ()) p' := by
  induction plans with
  | done related => exact .done related
  | fail faults =>
    obtain rfl := faults
    exact .fail _
  | eval jobs | call jobs => exact (Likeness.no_respelled_jobs jobs).elim
  | ask queries _ ih => exact .ask queries fun a a' answers => ih () a a' le_rfl answers
  | fork none | await none | memo none | copy none => exact none.elim

theorem imp {R S : α → β → Prop} {p : Plan α} {p' : Plan β} (plans : p.Respelled nodes layer R p')
    (weaker : ∀ a b, R a b → S a b) : p.Respelled nodes layer S p' := by
  induction plans with
  | done related => exact .done (weaker _ _ related)
  | fail fault => exact .fail fault
  | eval jobs _ ih => exact .eval jobs ih
  | call jobs _ ih => exact .call jobs ih
  | ask queries _ ih => exact .ask queries ih
  | enter captures _ ih => exact .enter captures ih

theorem bind {R : α → α' → Prop} {S : β → β' → Prop} {p : Plan α} {p' : Plan α'}
    {f : α → Plan β} {f' : α' → Plan β'} (plans : p.Respelled nodes layer R p')
    (rest : ∀ a a', R a a' → (f a).Respelled nodes layer S (f' a')) :
    (p >>= f).Respelled nodes layer S (p' >>= f') := by
  induction plans with
  | done related => exact rest _ _ related
  | fail fault => exact .fail fault
  | eval jobs _ ih => exact .eval jobs ih
  | call jobs _ ih => exact .call jobs ih
  | ask queries _ ih => exact .ask queries ih
  | enter captures _ ih => exact .enter captures ih

theorem query {q q' : Query} (queries : (Likeness.respelled nodes layer).Queries () q q') :
    (Plan.query q).Respelled nodes layer ((Likeness.respelled nodes layer).Answers () q q')
      (Plan.query q') :=
  .ask queries fun _ _ answers => .done answers

theorem ite {R : α → β → Prop} {c : Prop} [Decidable c] {p q : Plan α} {p' q' : Plan β}
    (yes : c → p.Respelled nodes layer R p') (no : ¬ c → q.Respelled nodes layer R q') :
    (if c then p else q).Respelled nodes layer R (if c then p' else q') := by
  split
  · exact yes ‹c›
  · exact no ‹¬ c›

theorem within (site : CallSite) {job job' : Job} (jobs : job.Respelled nodes layer job') :
    (Plan.within site job).Respelled nodes layer (Value.Respelled nodes layer)
      (Plan.within site job') :=
  .call jobs fun _ _ values => .done values

end Plan.Respelled

namespace Plan

theorem evalIn_respelled {arg arg' : Arg} (same : arg.Respelled nodes layer arg')
    (scope : ScopeId) :
    (evalIn scope arg).Respelled nodes layer (Value.Respelled nodes layer)
      (evalIn scope arg') :=
  .eval (.operand same) fun _ _ values => .done values

theorem evalAll_respelled {args args' : List Arg}
    (operands : List.Forall₂ (Arg.Respelled nodes layer) args args') (scope : ScopeId) :
    (evalAll scope args).Respelled nodes layer (List.Forall₂ (Value.Respelled nodes layer))
      (evalAll scope args') := by
  induction operands with
  | nil => exact .done .nil
  | cons head _ ih =>
    refine (evalIn_respelled head scope).bind fun v v' values => ?_
    exact ih.bind fun vs vs' items => .done (.cons values items)

theorem defineAll_respelled (scope : ScopeId) (mutability : Mutability) (params : List String)
    {vs vs' : List Value} (values : List.Forall₂ (Value.Respelled nodes layer) vs vs') :
    (defineAll scope mutability (params.zip vs)).Respelled nodes layer (fun _ _ => True)
      (defineAll scope mutability (params.zip vs')) :=
  .of_likeness <| (Likeness.respelled nodes layer).defineAll_alike (w := ()) rfl rfl
    ((Likeness.respelled nodes layer).arguments_zip params values)

theorem checkResult_respelled (result : Option Ty) {v v' : Value}
    (values : v.Respelled nodes layer v') :
    (checkResult result v).Respelled nodes layer (Next.Respelled nodes layer)
      (checkResult result v') := by
  have checked := Respelled.of_likeness
    ((Likeness.respelled nodes layer).checkResult_alike (w := ()) result values)
  refine checked.imp fun next next' nexts => ?_
  cases nexts with
  | value values => exact .value values
  | job jobs => exact (Likeness.no_respelled_jobs jobs).elim

end Plan
end LayeredIR
