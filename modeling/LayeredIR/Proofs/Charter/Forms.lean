import LayeredIR.Proofs.Charter
import LayeredIR.Proofs.Keeping
import LayeredIR.Proofs.Protocol.Blocks

/-! The plan of every job upholds every charter. What a form binds it binds in a scope that it has
just made, except for a declaration, which binds where it stands, and a block goes on at its
successors only. -/
namespace LayeredIR

theorem Cause.Operational.ne_flow {cause : Cause} (operational : cause.Operational)
    (detail : String) : cause ≠ .invalidControlFlow detail := by
  rintro rfl
  exact operational

variable {σ : Type} {s : Setting σ} {C : Charter s} (laws : C.Laws)

namespace Charter

include laws

theorem Laws.void : C.value .void := laws.literal .void

/-- Closures of one scope differ in nothing that a charter sees. -/
theorem Laws.recaptured {c : Closure} (held : C.value (.closure c)) (c' : Closure)
    (same : c'.captured = c.captured) : C.value (.closure c') := by
  refine laws.closure ?_
  rw [same]
  exact laws.captured held

theorem protocol_laws : C.protocol.Laws s where
  value_mono _ held := held
  scope_mono _ scope := scope
  tells {_ q _ _ _} told tells := by
    cases q with
    | lookup | recollect => exact told _ tells
    | compute | dispatch | perform => exact told.value _ tells
    | flatten =>
      obtain ⟨entry, member, rfl⟩ := tells
      exact told entry member
    | _ => exact tells.elim
  fails {_ q _ _ _} told fails := by
    cases q with
    | compute | dispatch =>
      obtain ⟨cause, same, rfl⟩ := fails
      exact told.cause cause same
    | perform => exact told.cause _ fails
    | _ => exact fails.elim
  opens {_ q _ _ _} _ told opens := by
    cases q with
    | child | enter =>
      cases opens
      exact told
    | _ => exact opens.elim
  binds _ := rfl
  scope_made := laws.young
  define_made _ _ young held := ⟨held, .inl young⟩
  own own := laws.cause_own own.ne_flow
  inquires {_ q} free := by cases q <;> first | exact trivial | exact free.elim
  child _ := trivial
  root _ := trivial
  flatten _ _ _ := trivial
  remember held := held
  compute _ held _ := held
  dispatch _ found held _ := ⟨⟨_, found⟩, held⟩
  perform _ held _ := held
  literal _ := laws.literal
  list of _ all := laws.list of all
  input := laws.input

theorem allowsForm {expr : Expr} {a : ScopeId} (admits : C.Admits (.expr expr a)) :
    C.protocol.AllowsForm s expr a where
  operand _ _ _ scope := .operand scope
  node _ _ scope := .expr scope
  definition _ _ _ _ scope := .operand scope
  function := by
    rintro params body _ captured id rfl - captures
    refine laws.closure ?_
    cases captures with
    | copied _ held => exact held
    | shared => trivial
  fixpoint id _ told := laws.recaptured told.1 _ rfl
  declare := by
    rintro name arg _ v rfl mutation - held
    exact ⟨held, (admits mutation).imp_right fun allowed => ⟨rfl, allowed⟩⟩
  assign _ mutation _ held := ⟨held, mutation⟩
  apply _ := .apply
  loop _ scope := .expr scope
  above _ _ := laws.cause_own nofun

theorem allowsCall {f : Closure} {args : List Value} (function : C.value (.closure f))
    (held : ∀ arg ∈ args, C.value arg) : C.protocol.AllowsCall () f args where
  held := held
  enter _ := laws.captured function
  body _ scope := .operand scope
  unroll _ := .apply (laws.recaptured function _ rfl) (by simpa using function)
  again _ _ unrolled := .apply unrolled.1 held

theorem allowsBlock {label : String} (known : C.label label) {block : Block}
    (found : s.block? label = some block) : C.protocol.AllowsBlock s block where
  scope _ := (laws.registers known).1
  write name held := ⟨held, .inr ⟨rfl, (laws.registers known).2 name⟩⟩
  operand _ _ scope := .operand scope
  apply := .apply
  perform held _ := held
  flatten _ := trivial
  successor member := .block (laws.successor known found member)
  missing member := laws.cause_label (laws.successor known found member)
  fork member held := ⟨laws.successor known found member, held⟩
  future _ := laws.future
  await := trivial

theorem allowsJob {job : Job} (jobs : C.Jobs job) (admits : C.Admits job) :
    C.protocol.AllowsJob s () job := by
  cases jobs with
  | operand scope =>
    exact .operand scope (fun _ _ => .expr scope) fun _ _ _ _ _ scope => .expr scope
  | expr scope => exact .expr scope (allowsForm laws admits)
  | apply function held =>
    refine .apply fun f same => ?_
    subst same
    exact allowsCall laws function held
  | block known =>
    exact .block (laws.cause_label known) fun block found => allowsBlock laws known found

end Charter

theorem Plan.Obeys.upholds {p : Plan Next} {job : Job}
    (obeys : p.Obeys C.protocol (C.protocol.Ends job) ()) : p.Upholds C C.Nexts := by
  refine obeys.imp fun _ _ ends => ?_
  cases ends with
  | value told => exact .value told.1
  | job permitted => exact .job permitted

include laws

/-- A sequence runs in a scope of its own, wherever it stands. -/
theorem Setting.seq_upholds (body : List Arg) (a : ScopeId) :
    (s.plan (.expr (.seq body) a)).Upholds C C.Nexts := by
  have laws' := Charter.protocol_laws laws
  have allows : C.protocol.AllowsForm s (.seq body) a := Charter.allowsForm laws trivial
  have obeys : (s.plan (.expr (.seq body) a)).Obeys C.protocol
      (C.protocol.Ends (.expr (.seq body) a)) () :=
    s.expression_obeys laws' allows.above fun _ =>
      s.seq_obeys laws' trivial (fun _ inner => allows.operand inner) fun _ _ => trivial
  exact obeys.upholds

theorem Setting.plan_upholds {job : Job} (jobs : C.Jobs job) (admits : C.Admits job) :
    (s.plan job).Upholds C C.Nexts :=
  (s.plan_obeys (Charter.protocol_laws laws) (Charter.allowsJob laws jobs admits)).upholds

end LayeredIR
