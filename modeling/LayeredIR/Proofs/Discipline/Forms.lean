import LayeredIR.Proofs.Discipline
import LayeredIR.Proofs.Keeping
import LayeredIR.Proofs.Protocol.Blocks

/-! The plan of every job that a discipline permits heeds it: what a form evaluates in place is code
that the discipline permits where the form stands, what it binds in a scope that it has just made is
older than the scope, and blocks run where the discipline lets them. -/
namespace LayeredIR

/-- The answers of an operator hold no references but those of its operands. -/
theorem Operator.compute_conserves {op : Operator} {args : List Value} {v : Value}
    (computed : op.compute args = .ok v) : v.From args := by
  let held : Resemblance Unit := .holding
    (fun _ part => part.isReference → ∃ arg ∈ args, part.Inside arg)
    fun _ v plain reference => absurd (plain ▸ reference) Bool.false_ne_true
  have operands : List.Forall₂ (held.value ()) args args :=
    forall₂_self_iff.mpr ⟨rfl, fun arg member part inside _ => ⟨arg, member, inside⟩⟩
  have results : ResultsAlike Eq (held.value ()) (op.compute args) (op.compute args) :=
    held.compute_alike (fun _ => Resemblance.holding_comparable) operands
  rw [computed] at results
  exact results.2

variable {σ : Type} {s : Setting σ} {D : Discipline s} (laws : D.Laws) {c : List CallSite}
  {w : Shape}

namespace Discipline

include laws

theorem protocol_laws : (D.protocol c).Laws s where
  value_mono le held := laws.value_mono le held
  scope_mono := laws.scope_mono
  tells {_ q _ _ _} told tells := by
    cases q with
    | lookup | recollect => exact told.1 ▸ told.2 _ tells
    | compute | dispatch | perform => exact told.1 ▸ told.2.1 _ tells
    | flatten =>
      obtain ⟨entry, member, rfl⟩ := tells
      exact told.1 ▸ told.2 entry member
    | _ => exact tells.elim
  fails {_ q _ _ _} told fails := by
    cases q with
    | compute | dispatch =>
      obtain ⟨cause, same, rfl⟩ := fails
      exact told.2.2 cause same
    | perform => exact told.2.2 _ fails
    | _ => exact fails.elim
  opens {w q w' a inner} asks told opens := by
    cases q with
    | child outer =>
      cases opens
      obtain ⟨rfl, rfl⟩ := told
      exact ⟨List.prefix_append w _, Nat.le_refl _, laws.scope_made asks⟩
    | enter captured =>
      cases opens
      obtain ⟨f, rfl, function⟩ := asks
      exact ⟨prefix_of_answers told, laws.entered function told⟩
    | _ => exact opens.elim
  binds same := same
  scope_made made := made.2.2
  define_made _ _ made held :=
    ⟨laws.define_made made.1 held made.2.1 made.2.2, laws.value_mono made.1 held⟩
  own own := laws.cause_own own.not_refuses
  inquires {_ q} free := by cases q <;> first | exact trivial | exact free.elim
  child scope := laws.outer_scope scope
  root := laws.outer_root
  flatten _ _ copies := copies
  remember held := held
  compute _ held _ := held
  dispatch _ found held _ := ⟨⟨_, found⟩, held⟩
  perform effects held _ := ⟨effects, held⟩
  literal _ := value_literal
  list := .list
  input := laws.input _

theorem allowsForm {expr : Expr} (code : D.code c (.inline expr)) (a : ScopeId) :
    (D.protocol c).AllowsForm s expr a where
  operand inner evaluates _ scope := .operand (laws.code_evaluated evaluates code) scope
  node := by
    rintro _ id node rfl found scope
    have called := laws.code_ref found code
    exact ⟨⟨_, called⟩, .expr called scope⟩
  definition := by
    rintro ns name args d _ _ _ inner rfl found told - scope
    have called := laws.code_definition found code (told.2 rfl)
    exact ⟨⟨_, called⟩, .operand called scope⟩
  function := by
    rintro params body _ captured id rfl closures captures
    cases captures with
    | @copied entries copies held =>
      refine .closure (laws.closure_frozen entries copies code) ?_
      rintro _ ⟨⟩
      exact held
    | shared shares scope => exact .closure (laws.closure_shared closures shares code scope) nofun
  fixpoint id _ told := value_with told.1 id true
  declare := by
    rintro name arg _ v rfl mutation scope held
    exact ⟨laws.define_declared mutation code scope held, held⟩
  assign := by
    rintro name arg _ v rfl mutation scope held
    exact ⟨laws.assign_code mutation code scope held, held⟩
  apply := .apply
  loop _ scope := .expr code scope
  above place := laws.above place code

theorem allowsCall {f : Closure} {args : List Value} (closures : s.layer.hasClosures)
    (function : D.value w (.closure f)) (held : ∀ arg ∈ args, D.value w arg) :
    (D.protocol c).AllowsCall w f args where
  held := held
  enter _ := ⟨f, rfl, function⟩
  body _ scope := by
    have body := laws.code_body c closures (function.self f rfl)
    exact ⟨⟨_, body⟩, .operand body scope⟩
  unroll _ := .apply closures (value_with function f.id false) (by simpa using function)
  again _ le unrolled :=
    .apply closures unrolled.1 fun arg member => laws.value_mono le (held arg member)

theorem allowsBlock (flow : D.flow) {block : Block} (known : block ∈ s.blocks) :
    (D.protocol c).AllowsBlock s block where
  scope w := laws.flow_scope w flow
  write name held := ⟨laws.flow_define name flow held, held⟩
  operand member _ scope := .operand (laws.code_instruction c flow known member) scope
  apply := .apply (by rw [laws.flow_layer flow]; rfl)
  perform held _ := ⟨by rw [laws.flow_layer flow]; rfl, held⟩
  flatten _ := by simp [protocol, Queries, laws.flow_layer flow, Layer.copiesCaptures]
  successor _ := .block flow
  missing _ _ := laws.cause_own nofun
  fork _ held := ⟨flow, held⟩
  future _ := .future
  await := flow

theorem allowsJob {job : Job} (jobs : D.Jobs c w job) : (D.protocol c).AllowsJob s w job := by
  cases jobs with
  | @operand arg a code scope =>
    refine .operand scope ?_ ?_
    · rintro expr rfl
      exact .expr code scope
    · rintro id expr rfl found w scope
      have called := laws.code_node found code
      exact ⟨⟨_, called⟩, .expr called scope⟩
  | expr code scope => exact .expr scope (allowsForm laws code _)
  | apply closures function held =>
    refine .apply fun f same => ?_
    subst same
    exact allowsCall laws closures function held
  | block flow =>
    exact .block (fun _ => laws.cause_own nofun) fun block found =>
      allowsBlock laws flow (Setting.block_mem found)

omit laws in
/-- What a job has come to, as a task that goes on from it knows it. -/
theorem nexts_of_ends {job : Job} {w : Shape} {next : Next}
    (ends : (D.protocol c).Ends job w next) : D.Nexts c w next := by
  cases ends with
  | value told => exact .value told.1
  | job permitted => exact .job permitted

end Discipline

include laws in
theorem Setting.plan_heeds {job : Job} (jobs : D.Jobs c w job) :
    (s.plan job).Heeds D c (D.Nexts c) w := by
  have obeys := s.plan_obeys (Discipline.protocol_laws laws) (Discipline.allowsJob laws jobs)
  exact obeys.imp fun _ _ => Discipline.nexts_of_ends

end LayeredIR
