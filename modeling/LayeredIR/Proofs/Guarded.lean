import LayeredIR.Proofs.Depth
import LayeredIR.Proofs.Protocol.Blocks

/-! Plans that check before they act. An operation is asked for only once its operands have been
looked through and none of them is an error value; a definition is called only once it has been
found in the table and its body is known not to be running. Every form, instruction and terminator
is such a plan, whatever it is told on the way. -/
namespace LayeredIR

def Query.operands : Query → List Value
  | .compute _ args | .dispatch _ _ args | .perform _ args => args
  | _ => []

def Query.idle : (q : Query) → q.Answer → List String
  | .isActive key, active => if active then [] else [key]
  | _, _ => []

variable {σ : Type} (s : Setting σ)

def Setting.Defines (key : String) : Prop :=
  ∃ ns name d, s.definitions.get? ns name = some d ∧ key = definitionKey ns name

/-- The stages are the definitions whose bodies are known not to be running. What is evaluated and
called on the way leaves them so. -/
def Setting.guard : Protocol (List String) where
  le idle idle' := idle ⊆ idle'
  value _ _ := True
  scope _ _ := True
  made _ _ _ := True
  fails _ := True
  evals _ _ := True
  calls idle site _ := site.isDefinition → site.name ∈ idle ∧ s.Defines site.name
  asks _ q := ∀ v ∈ q.operands, v.isError = false
  answers idle q idle' a := idle' = q.idle a ++ idle
  forks _ _ _ := True
  awaits := True
  bodies := False
  refl _ := List.Subset.refl _
  trans := List.Subset.trans
  later := by
    rintro idle q _ a rfl
    exact List.subset_append_right _ _

def Plan.Guarded {α : Type} (idle : List String) (p : Plan α) : Prop :=
  p.Obeys s.guard (fun _ _ => True) idle

variable {s}

/-- What is resumed with a value knows of the same definitions. -/
theorem Plan.Guarded.resumed {idle : List String} {job : Job} {next : Value → Plan Next}
    (rest : ∀ idle' v, s.guard.le idle idle' → s.guard.Told job idle' v →
      (next v).Guarded s idle') (v : Value) : (next v).Guarded s idle :=
  rest idle v (List.Subset.refl idle) ⟨trivial, nofun⟩

theorem Plan.Guarded.of_ends {idle : List String} {job : Job} {p : Plan Next}
    (obeys : p.Obeys s.guard (s.guard.Ends job) idle) : p.Guarded s idle :=
  obeys.imp fun _ _ _ => trivial

namespace Setting

variable {idle : List String}

theorem guard_laws : s.guard.Laws s where
  value_mono _ _ := trivial
  scope_mono _ _ := trivial
  tells _ _ := trivial
  fails _ _ := trivial
  opens _ _ _ := trivial
  binds same := same
  scope_made _ := trivial
  define_made _ _ _ _ := List.forall_mem_nil _
  own _ := trivial
  inquires {_ q} free := by cases q <;> first | exact List.forall_mem_nil _ | exact free.elim
  child _ := List.forall_mem_nil _
  root _ := List.forall_mem_nil _
  flatten _ _ _ := List.forall_mem_nil _
  remember _ := List.forall_mem_nil _
  compute _ _ sound := sound
  dispatch _ _ _ sound := sound
  perform _ _ sound := sound
  literal _ _ := trivial
  list _ _ _ := trivial
  input _ := trivial

theorem guard_allowsForm (expr : Expr) (a : ScopeId) : s.guard.AllowsForm s expr a where
  operand _ _ _ _ := trivial
  node _ _ _ := nofun
  definition := by
    rintro ns name args d _ _ idle _ - found rfl more - -
    exact ⟨more (.head _), ns, name, d, found, rfl⟩
  function _ _ _ _ := trivial
  fixpoint _ _ _ := trivial
  declare _ _ _ _ := List.forall_mem_nil _
  assign _ _ _ _ := List.forall_mem_nil _
  apply _ _ _ := trivial
  loop _ _ := trivial
  above _ _ := trivial

theorem guard_allowsCall (c : Closure) (args : List Value) : s.guard.AllowsCall idle c args where
  held _ _ := trivial
  enter _ := List.forall_mem_nil _
  body _ _ := nofun
  unroll _ := trivial
  again _ _ _ := trivial

theorem guard_allowsBlock (block : Block) : s.guard.AllowsBlock s block where
  scope _ := trivial
  write _ _ := List.forall_mem_nil _
  operand _ _ _ := trivial
  apply _ _ := trivial
  perform _ sound := sound
  flatten _ := List.forall_mem_nil _
  successor _ := trivial
  missing _ _ := trivial
  fork _ _ := trivial
  future _ _ := trivial
  await := trivial

/-- Whatever is evaluated checks before it acts. -/
theorem plan_guarded (job : Job) : (s.plan job).Guarded s idle := by
  have allows : s.guard.AllowsJob s idle job := by
    cases job with
    | operand arg a => exact .operand trivial (fun _ _ => trivial) fun _ _ _ _ _ _ => nofun
    | expr expr a => exact .expr trivial (guard_allowsForm expr a)
    | apply callee args => exact .apply fun c _ => guard_allowsCall c args
    | block label => exact .block (fun _ => trivial) fun block _ => guard_allowsBlock block
  exact .of_ends (s.plan_obeys guard_laws allows)

end Setting
end LayeredIR
