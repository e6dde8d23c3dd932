import LayeredIR.Proofs.Protocol
import LayeredIR.Proofs.Rules.Memories

/-! What a run keeps to whatever code it runs. A charter says which values a run may hold, which
failures it may come to, which blocks it may go to, and which names it may bind in scopes that are
older than the run. A plan upholds a charter when it asks for nothing else, as long as it is told
nothing else. A discipline tells code apart by where it stands; a charter lets all code run, so its
laws speak of values, labels and scopes alone. -/
namespace LayeredIR

structure Charter {σ : Type} (s : Setting σ) where
  value : Value → Prop
  cause : Cause → Prop
  label : String → Prop
  base : Nat
  scope : ScopeId → Prop
  /-- Names that may be bound in older scopes. -/
  declared : ScopeId → String → Prop
  host : σ → Prop

namespace Charter

variable {σ : Type} {s : Setting σ} (C : Charter s)

def Binds (a : ScopeId) (name : String) : Prop := C.base ≤ a ∨ C.declared a name

structure Shares (futures : Futures) (host : σ) : Prop where
  settled : ∀ id v, futures.outcome? id = some (.ok v) → C.value v
  host : C.host host

structure Results {ε : Type} (cause : ε → Cause) (result : Except ε Value) : Prop where
  value : ∀ v, result = .ok v → C.value v
  cause : ∀ e, result = .error e → C.cause (cause e)

structure Laws : Prop where
  literal : ∀ l, C.value (.ofLiteral l)
  list : ∀ of {items}, (∀ item ∈ items, C.value item) → C.value (.list of items)
  future : ∀ id, C.value (.future id)
  closure : ∀ {c : Closure}, c.captured.All C.value → C.value (.closure c)
  captured : ∀ {c : Closure}, C.value (.closure c) → c.captured.All C.value
  input : ∀ {name v}, s.input? name = some v → C.value v
  compute : ∀ {op : Operator} {args v}, (∀ arg ∈ args, C.value arg) → op.compute args = .ok v →
    C.value v
  cause_own : ∀ {cause}, (∀ detail, cause ≠ .invalidControlFlow detail) → C.cause cause
  cause_label : ∀ {label}, C.label label → s.block? label = none →
    C.cause (.invalidControlFlow ("unknown label `" ++ label ++ "`"))
  successor : ∀ {label block next}, C.label label → s.block? label = some block →
    next ∈ block.terminator.successors → C.label next
  registers : ∀ {label}, C.label label →
    C.scope registerScope ∧ ∀ name, C.declared registerScope name
  young : ∀ {a}, C.base ≤ a → C.scope a

def Hears (shared : Shared σ) : Query → Prop
  | .dispatch d op args => (∃ name, s.domains.find? name = some d) → (∀ arg ∈ args, C.value arg) →
    C.Results id (d.call shared.futures.typeOf op args)
  | .perform effect args => ∀ handler, s.handler? effect = some handler →
    (∀ arg ∈ args, C.value arg) →
    C.Results Fault.cause (handler shared.futures args shared.host).1 ∧
      C.host (handler shared.futures args shared.host).2
  | _ => True

def Heard (shared : Shared σ) (task : Task) : Prop :=
  ∀ q next, task.control = .ask q next → C.Hears shared q

inductive Jobs : Job → Prop
  | operand {arg a} (scope : C.scope a) : Jobs (.operand arg a)
  | expr {expr a} (scope : C.scope a) : Jobs (.expr expr a)
  | apply {callee args} (function : C.value callee) (held : ∀ arg ∈ args, C.value arg) :
    Jobs (.apply callee args)
  | block {label} (known : C.label label) : Jobs (.block label)

inductive Nexts : Next → Prop
  | value {v} (held : C.value v) : Nexts (.value v)
  | job {job} (jobs : C.Jobs job) : Nexts (.job job)

def Admits : Job → Prop
  | .expr (.declare name _) a => s.layer.hasMutation → C.Binds a name
  | _ => True

def Queries : Query → Prop
  | .define a name v m => C.value v ∧ (C.base ≤ a ∨ m = .mutable ∧ C.declared a name)
  | .assign _ _ v => C.value v ∧ s.layer.hasMutation
  | .enter captured => captured.All C.value
  | .remember _ v => C.value v
  | .compute _ args | .perform _ args => ∀ arg ∈ args, C.value arg
  | .dispatch d _ args => (∃ name, s.domains.find? name = some d) ∧ ∀ arg ∈ args, C.value arg
  | .lookup _ _ | .child _ | .flatten _ | .fresh | .isActive _ | .innermost | .recollect _ => True

def Answers : (q : Query) → q.Answer → Prop
  | .lookup _ _, a => ∀ v, a = some v → C.value v
  | .recollect _, a => ∀ v, a = some v → C.value v
  | .flatten _, bindings => bindings.All C.value
  | .child _, a => C.base ≤ a
  | .enter _, a => C.base ≤ a
  | .compute _ _, result => C.Results id result
  | .dispatch _ _ _, result => C.Results id result
  | .perform _ _, result => C.Results Fault.cause result
  | _, _ => True

def protocol : Protocol Unit where
  le _ _ := True
  value _ := C.value
  scope _ := C.scope
  made _ a _ := C.base ≤ a
  fails fault := C.cause fault.cause
  evals _ := C.Jobs
  calls _ _ := C.Jobs
  asks _ := C.Queries
  answers _ q _ := C.Answers q
  forks _ label registers := C.label label ∧ registers.All C.value
  awaits := True
  bodies := False
  refl _ := trivial
  trans _ _ := trivial
  later _ := trivial

end Charter

def Plan.Upholds {σ α : Type} {s : Setting σ} (C : Charter s) (R : α → Prop) (p : Plan α) : Prop :=
  p.Obeys C.protocol (fun _ => R) ()

theorem Plan.Upholds.resumed {σ α : Type} {s : Setting σ} {C : Charter s} {R : α → Prop}
    {job : Job} {next : Value → Plan α}
    (rest : ∀ k v, C.protocol.le () k → C.protocol.Told job k v → (next v).Upholds C R) :
    ∀ v, C.value v → (next v).Upholds C R :=
  fun v held => rest () v trivial ⟨held, nofun⟩

end LayeredIR
