import LayeredIR.Proofs.Causes
import LayeredIR.Proofs.Syntax
import LayeredIR.Semantics.Block

/-! What a plan asks for, and what it is told. A protocol says, from one stage of a run to the next,
which requests a plan may make and how they may be answered. A plan that obeys it makes no other
request, as long as it gets no other answer. The evaluators are one family of plans, so what they
ask for is gone through once, for any protocol that grants what the forms of the language need. -/
namespace LayeredIR

def Arg.Gives : Arg → Value → Prop
  | .inline (.lambda _ body), v => ∃ c, v = .closure c ∧ c.isFix = false ∧ c.body = body
  | _, _ => True

/-- What is known of the value of a job. A function that is no fixpoint gives what its body does. -/
def Job.Gives : Job → Value → Prop
  | .operand arg _, v => arg.Gives v
  | .expr e _, v => (Arg.inline e).Gives v
  | .apply (.closure c) _, v => c.isFix = false → c.body.Gives v
  | .apply _ _, _ => True
  | .block _, _ => True

namespace Query

def Inquires : Query → Prop
  | .lookup _ _ | .fresh | .isActive _ | .innermost | .recollect _ => True
  | _ => False

def Tells : (q : Query) → q.Answer → Value → Prop
  | .lookup _ _, found, v => found = some v
  | .recollect _, found, v => found = some v
  | .flatten _, bindings, v => ∃ entry ∈ bindings, entry.2.value = v
  | .compute _ _, result, v => result = .ok v
  | .dispatch _ _ _, result, v => result = .ok v
  | .perform _ _, result, v => result = .ok v
  | _, _, _ => False

def Fails : (q : Query) → q.Answer → Fault → Prop
  | .compute _ _, result, fault => ∃ cause, result = .error cause ∧ fault = .ofCause cause
  | .dispatch _ _ _, result, fault => ∃ cause, result = .error cause ∧ fault = .ofCause cause
  | .perform _ _, result, fault => result = .error fault
  | _, _, _ => False

def Opens : (q : Query) → q.Answer → ScopeId → Prop
  | .child _, inner, a => inner = a
  | .enter _, inner, a => inner = a
  | _, _, _ => False

end Query

/-- What may be asked for and what may be answered, at the stages of a run. -/
structure Protocol (κ : Type) where
  le : κ → κ → Prop
  value : κ → Value → Prop
  scope : κ → ScopeId → Prop
  /-- A scope made at some stage, by which the run has come to another. -/
  made : κ → ScopeId → κ → Prop
  fails : Fault → Prop
  evals : κ → Job → Prop
  calls : κ → CallSite → Job → Prop
  asks : κ → Query → Prop
  answers : κ → (q : Query) → κ → q.Answer → Prop
  forks : κ → String → Bindings → Prop
  awaits : Prop
  /-- Whether it is known which jobs give closures of which code. -/
  bodies : Prop
  refl : ∀ k, le k k
  trans : ∀ {i j k}, le i j → le j k → le i k
  later : ∀ {k q k'} {a : q.Answer}, answers k q k' a → le k k'

namespace Protocol

variable {κ : Type} (P : Protocol κ)

def Gives (job : Job) (v : Value) : Prop := P.bodies → job.Gives v

def Told (job : Job) (k : κ) (v : Value) : Prop := P.value k v ∧ P.Gives job v

inductive Ends (job : Job) (k : κ) : Next → Prop
  | value {v} (told : P.Told job k v) : Ends job k (.value v)
  | job {other} (permitted : P.evals k other) (gives : ∀ v, P.Gives other v → P.Gives job v) :
    Ends job k (.job other)

def Permits (a : ScopeId) (arg : Arg) : Prop := ∀ k, P.scope k a → P.evals k (.operand arg a)

end Protocol

/-- A plan that obeys a protocol from some stage on, and whose result is as wanted. -/
inductive Plan.Obeys {κ α : Type} (P : Protocol κ) (R : κ → α → Prop) : κ → Plan α → Prop
  | done {k result} (wanted : R k result) : Obeys P R k (.done result)
  | fail {k fault} (allowed : P.fails fault) : Obeys P R k (.fail fault)
  | eval {k job next} (permitted : P.evals k job)
    (rest : ∀ k' v, P.le k k' → P.Told job k' v → Obeys P R k' (next v)) :
    Obeys P R k (.eval job next)
  | call {k site job next} (permitted : P.calls k site job)
    (rest : ∀ k' v, P.le k k' → P.Told job k' v → Obeys P R k' (next v)) :
    Obeys P R k (.call site job next)
  | ask {k q next} (permitted : P.asks k q)
    (rest : ∀ k' a, P.answers k q k' a → Obeys P R k' (next a)) : Obeys P R k (.ask q next)
  | fork {k label registers next} (permitted : P.forks k label registers)
    (rest : ∀ id, Obeys P R k (next id)) : Obeys P R k (.fork label registers next)
  | await {k id next} (permitted : P.awaits)
    (rest : ∀ outcome, (∀ v, outcome = .ok v → P.value k v) → Obeys P R k (next outcome)) :
    Obeys P R k (.await id next)

namespace Plan.Obeys

variable {κ α β : Type} {P : Protocol κ} {k : κ} {R : κ → α → Prop} {S : κ → β → Prop}

theorem bind {p : Plan α} {f : α → Plan β} (obeys : p.Obeys P R k)
    (rest : ∀ k' a, P.le k k' → R k' a → (f a).Obeys P S k') : (p >>= f).Obeys P S k := by
  induction obeys with
  | done wanted => exact rest _ _ (P.refl _) wanted
  | fail allowed => exact .fail allowed
  | eval permitted _ ih =>
    exact .eval permitted fun k' v le told =>
      ih k' v le told fun k'' a le' => rest k'' a (P.trans le le')
  | call permitted _ ih =>
    exact .call permitted fun k' v le told =>
      ih k' v le told fun k'' a le' => rest k'' a (P.trans le le')
  | ask permitted _ ih =>
    exact .ask permitted fun k' a told =>
      ih k' a told fun k'' b le => rest k'' b (P.trans (P.later told) le)
  | fork permitted _ ih => exact .fork permitted fun id => ih id rest
  | await permitted _ ih => exact .await permitted fun outcome held => ih outcome held rest

theorem imp {R' : κ → α → Prop} {p : Plan α} (obeys : p.Obeys P R k)
    (weaker : ∀ k a, R k a → R' k a) : p.Obeys P R' k := by
  have same : (p >>= pure).Obeys P R' k :=
    obeys.bind fun k' a _ wanted => .done (weaker k' a wanted)
  rwa [bind_pure] at same

theorem query {q : Query} (permitted : P.asks k q) : (Plan.query q).Obeys P (P.answers k q) k :=
  .ask permitted fun _ _ told => .done told

theorem orRaise {result : Except Cause α} (wanted : ∀ a, result = .ok a → R k a)
    (allowed : ∀ cause, result = .error cause → P.fails (.ofCause cause)) :
    (Plan.orRaise result).Obeys P R k := by
  cases result with
  | ok a => exact .done (wanted a rfl)
  | error cause => exact .fail (allowed cause rfl)

theorem ite {c : Prop} [Decidable c] {p q : Plan α} (yes : c → p.Obeys P R k)
    (no : ¬ c → q.Obeys P R k) : (if c then p else q).Obeys P R k := by
  split
  · exact yes ‹c›
  · exact no ‹¬ c›

end Plan.Obeys

def Cause.Own : Cause → Prop
  | .recursionLimitExceeded _ | .layerViolation _ _ _ | .invalidControlFlow _ => False
  | _ => True

namespace Cause

theorem Operational.own {cause : Cause} (operational : cause.Operational) : cause.Own := by
  cases cause <;> first | exact trivial | exact operational

theorem Own.not_refuses {cause : Cause} (own : cause.Own) : ¬ cause.Refuses := by
  rintro (_ | _) <;> exact own

theorem Own.ne_flow {cause : Cause} (own : cause.Own) (detail : String) :
    cause ≠ .invalidControlFlow detail := by
  rintro rfl
  exact own

end Cause

theorem Setting.declaration?_eq_some {σ : Type} {s : Setting σ} {statement value : Arg}
    {name : String}
    (declares : s.declaration? statement = some (name, value)) :
    statement = .inline (.declare name value) ∨
      ∃ id, statement = .id id ∧ s.nodes.get? id = some (.declare name value) := by
  have parts {expr : Expr} (declared : s.declaration? (.inline expr) = some (name, value)) :
      expr = .declare name value := by
    cases expr <;> simp_all [declaration?]
  cases statement with
  | inline expr => exact .inl (congrArg Arg.inline (parts declares))
  | id name =>
    obtain ⟨expr, found, declared⟩ := Option.bind_eq_some_iff.mp declares
    obtain rfl := parts declared
    exact .inr ⟨name, rfl, found⟩

/-- The operands that the evaluation of a form comes to in place. A statement that declares a
variable is not evaluated as a form: what it declares is. -/
inductive Setting.Evaluates {σ : Type} (s : Setting σ) : Arg → Expr → Prop
  | operand {expr arg} (plain : ∀ params body, expr ≠ .lambda params body)
    (single : ∀ body, expr ≠ .seq body) (member : arg ∈ expr.operands) : Evaluates s arg expr
  | statement {body statement} (member : statement ∈ body)
    (silent : s.declaration? statement = none) : Evaluates s statement (.seq body)
  | declared {body statement name value} (member : statement ∈ body)
    (declares : s.declaration? statement = some (name, value)) : Evaluates s value (.seq body)

/-- What every form satisfies in code and in the nodes, it satisfies in what the code comes to. -/
theorem Setting.Evaluates.every {σ : Type} {s : Setting σ} {P : Expr → Prop} {arg : Arg}
    {expr : Expr} (evaluates : s.Evaluates arg expr)
    (nodes : ∀ id expr, s.nodes.get? id = some expr → expr.Every P) (all : expr.Every P) :
    arg.Every P := by
  cases evaluates with
  | operand _ _ member => exact all.operand arg member
  | statement member _ => exact all.operand arg member
  | declared member declares =>
    rcases Setting.declaration?_eq_some declares with rfl | ⟨id, rfl, found⟩
    · exact (all.operand _ member).operand arg (by simp)
    · exact (nodes id _ found).operand arg (by simp)

namespace Protocol

variable {κ σ : Type} (P : Protocol κ) (s : Setting σ)

structure Laws : Prop where
  value_mono : ∀ {k k' v}, P.le k k' → P.value k v → P.value k' v
  scope_mono : ∀ {k k' a}, P.le k k' → P.scope k a → P.scope k' a
  tells : ∀ {k q k'} {a : q.Answer} {v}, P.answers k q k' a → q.Tells a v → P.value k' v
  fails : ∀ {k q k'} {a : q.Answer} {fault}, P.answers k q k' a → q.Fails a fault → P.fails fault
  opens : ∀ {k q k'} {a : q.Answer} {inner}, P.asks k q → P.answers k q k' a → q.Opens a inner →
    P.made k inner k'
  binds : ∀ {k a name v mutability k' u}, P.answers k (.define a name v mutability) k' u → k' = k
  scope_made : ∀ {k a k'}, P.made k a k' → P.scope k' a
  define_made : ∀ {k a k' v} name mutability, P.made k a k' → P.value k v →
    P.asks k' (.define a name v mutability)
  own : ∀ {cause : Cause}, cause.Own → P.fails (.ofCause cause)
  inquires : ∀ {k} {q : Query}, q.Inquires → P.asks k q
  child : ∀ {k a}, P.scope k a → P.asks k (.child a)
  root : ∀ k, P.asks k (.child rootScope)
  flatten : ∀ k a, s.layer.copiesCaptures → P.asks k (.flatten a)
  remember : ∀ {k id v}, P.value k v → P.asks k (.remember id v)
  compute : ∀ {k args} op, (∀ arg ∈ args, P.value k arg) → (∀ arg ∈ args, arg.isError = false) →
    P.asks k (.compute op args)
  dispatch : ∀ {k ns d args} op, s.domains.find? ns = some d → (∀ arg ∈ args, P.value k arg) →
    (∀ arg ∈ args, arg.isError = false) → P.asks k (.dispatch d op args)
  perform : ∀ {k op args}, s.layer.hasEffects → (∀ arg ∈ args, P.value k arg) →
    (∀ arg ∈ args, arg.isError = false) → P.asks k (.perform op args)
  literal : ∀ k l, P.value k (.ofLiteral l)
  list : ∀ {k} of {items}, (∀ item ∈ items, P.value k item) → P.value k (.list of items)
  input : ∀ {k name v}, s.input? name = some v → P.value k v

inductive Captures (k : κ) (a : ScopeId) : Captured → Prop
  | copied {entries} (copies : s.layer.copiesCaptures)
    (held : ∀ entry ∈ entries, P.value k entry.2) : Captures k a (.frozen entries)
  | shared (shares : s.layer.copiesCaptures = false) (scope : P.scope k a) :
    Captures k a (.shared a)

/-- What the evaluation of a form in a scope needs, beyond what every plan does. -/
structure AllowsForm (expr : Expr) (a : ScopeId) : Prop where
  operand : ∀ {arg} inner, s.Evaluates arg expr → P.Permits inner arg
  node : ∀ {k id node}, expr = .ref id → s.nodes.get? id = some node → P.scope k a →
    P.calls k ⟨id, false⟩ (.expr node a)
  definition : ∀ {ns name args d k k' k'' inner}, expr = .airRef ns name args →
    s.definitions.get? ns name = some d → P.answers k (.isActive (definitionKey ns name)) k' false →
    P.le k' k'' → P.scope k'' inner →
    P.calls k'' ⟨definitionKey ns name, true⟩ (.operand d.body inner)
  function : ∀ {params body k captured} id, expr = .lambda params body → s.layer.hasClosures →
    P.Captures s k a captured → P.value k (.closure ⟨id, params, body, captured, false⟩)
  fixpoint : ∀ {generator k c} id, expr = .fix generator →
    P.Told (.operand generator a) k (.closure c) → P.value k (.closure (c.fixpointOf id))
  declare : ∀ {name arg k v}, expr = .declare name arg → s.layer.hasMutation → P.scope k a →
    P.value k v → P.asks k (.define a name v .mutable)
  assign : ∀ {name arg k v}, expr = .assign name arg → s.layer.hasMutation → P.scope k a →
    P.value k v → P.asks k (.assign a name v)
  apply : ∀ {k callee args}, s.layer.hasClosures → P.value k callee →
    (∀ arg ∈ args, P.value k arg) → P.evals k (.apply callee args)
  loop : ∀ {cond body k}, expr = .whileDo cond body → P.scope k a → P.evals k (.expr expr a)
  above : ∀ place, s.layer < expr.minLayer →
    P.fails (.ofCause (.layerViolation s.layer expr.form place))

structure AllowsCall (k : κ) (c : Closure) (args : List Value) : Prop where
  held : ∀ arg ∈ args, P.value k arg
  enter : c.isFix = false → P.asks k (.enter c.captured)
  body : ∀ {k' inner}, c.isFix = false → P.scope k' inner →
    P.calls k' ⟨"<closure>", false⟩ (.operand c.body inner)
  unroll : c.isFix = true → P.evals k (.apply (.closure c.generator) [.closure c])
  again : ∀ {k' v}, c.isFix = true → P.le k k' →
    P.Told (.apply (.closure c.generator) [.closure c]) k' v → P.evals k' (.apply v args)

structure AllowsBlock (block : Block) : Prop where
  scope : ∀ k, P.scope k registerScope
  write : ∀ {k v} name, P.value k v → P.asks k (.define registerScope name v .mutable)
  operand : ∀ {target arg}, .assign target arg ∈ block.instructions → P.Permits registerScope arg
  apply : ∀ {k callee args}, P.value k callee → (∀ arg ∈ args, P.value k arg) →
    P.evals k (.apply callee args)
  perform : ∀ {k op args}, (∀ arg ∈ args, P.value k arg) → (∀ arg ∈ args, arg.isError = false) →
    P.asks k (.perform op args)
  flatten : ∀ k, P.asks k (.flatten registerScope)
  successor : ∀ {k label}, label ∈ block.terminator.successors → P.evals k (.block label)
  missing : ∀ {label}, label ∈ block.terminator.successors → s.block? label = none →
    P.fails (.ofCause (.invalidControlFlow ("unknown label `" ++ label ++ "`")))
  fork : ∀ {k label registers}, label ∈ block.terminator.successors →
    (∀ entry ∈ registers, P.value k entry.2.value) → P.forks k label registers
  future : ∀ k id, P.value k (.future id)
  await : P.awaits

inductive AllowsJob (k : κ) : Job → Prop
  | operand {arg a} (scope : P.scope k a)
    (inPlace : ∀ expr, arg = .inline expr → P.evals k (.expr expr a))
    (node : ∀ id expr, arg = .id id → s.nodes.get? id = some expr → ∀ k, P.scope k a →
      P.calls k ⟨id, false⟩ (.expr expr a)) : AllowsJob k (.operand arg a)
  | expr {expr a} (scope : P.scope k a) (allows : P.AllowsForm s expr a) :
    AllowsJob k (.expr expr a)
  | apply {callee args} (allows : ∀ c, callee = .closure c → P.AllowsCall k c args) :
    AllowsJob k (.apply callee args)
  | block {label} (missing : s.block? label = none →
      P.fails (.ofCause (.invalidControlFlow ("unknown label `" ++ label ++ "`"))))
    (allows : ∀ block, s.block? label = some block → P.AllowsBlock s block) :
    AllowsJob k (.block label)

end Protocol
end LayeredIR
