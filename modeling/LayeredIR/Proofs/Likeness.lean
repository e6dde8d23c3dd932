import LayeredIR.Proofs.Heap
import LayeredIR.Proofs.Resemblance
import LayeredIR.Proofs.Syntax
import LayeredIR.Semantics.Block
import Mathlib.Order.CompleteBooleanAlgebra
import Mathlib.Order.CompletePartialOrder

/-! What it means for two runs to proceed alike. A likeness says which values, scopes and identities
of two runs stand for each other, at each of the stages that the runs pass; two plans are alike
where they ask for like things, and go on alike under like answers at any later stage. A run is
compared with itself to state what it keeps. -/
namespace LayeredIR

def Permitted (operator : Operator → Prop) (operation : String → Prop) (ns : Option String)
    (name : String) : Prop :=
  if Operator.isCoreNamespace ns then ∀ op, Operator.ofName? name = some op → operator op
  else operation name

theorem Permitted.of_forall {operator : Operator → Prop} {operation : String → Prop}
    (operators : ∀ op, operator op) (operations : ∀ op, operation op) (ns : Option String)
    (name : String) : Permitted operator operation ns name := by
  unfold Permitted
  split
  · exact fun op _ => operators op
  · exact operations name

theorem Permitted.all (ns : Option String) (name : String) :
    Permitted (fun _ => True) (fun _ => True) ns name :=
  .of_forall (fun _ => trivial) (fun _ => trivial) ns name

/-- What is taken for the same in two runs, at stages that only grow. -/
structure Likeness (κ : Type) [Preorder κ] extends Resemblance κ where
  captured : κ → Captured → Captured → Prop
  identity : κ → Identity → Identity → Prop
  mutability : Mutability → Mutability → Prop
  scope : κ → ScopeId → ScopeId → Prop
  outer : κ → ScopeId → ScopeId → Prop
  writable : κ → ScopeId → ScopeId → Prop
  inside : κ → κ
  fault : κ → Fault → Fault → Prop
  place : κ → Option String → Option String → Prop
  operator : Operator → Prop
  operation : String → Prop
  domain : Domain → Prop
  allowed : Arg → Prop
  reads : String → Prop
  applicable : Prop
  flow : Prop
  mutation : Prop
  effects : Prop
  snapshots : Prop
  /-- Whether the first run may answer from its node cache where the second evaluates. -/
  memo : Prop
  /-- Whether a closure of the second run may take a copy where that of the first shares. -/
  copying : Prop
  node : String → Expr → Prop
  value_mono : ∀ {w w' v v'}, w ≤ w' → value w v v' → value w' v v'
  captured_mono : ∀ {w w' c c'}, w ≤ w' → captured w c c' → captured w' c c'
  scope_mono : ∀ {w w' a b}, w ≤ w' → scope w a b → scope w' a b
  inside_mono : ∀ {w w'}, w ≤ w' → inside w ≤ inside w'
  scope_root : ∀ {w a b id expr}, node id expr → scope w a b → (a = rootScope ↔ b = rootScope)
  writable_of_scope : ∀ {w a b}, mutation → scope w a b → writable w a b
  outer_root : ∀ w, outer w rootScope rootScope
  outer_of_scope : ∀ {w a b}, scope w a b → outer w a b
  mutability_self : ∀ m, mutability m m
  allowed_operand : ∀ {expr arg}, allowed (.inline expr) → arg ∈ expr.operands → allowed arg
  allowed_call : ∀ {ns name args}, allowed (.inline (.call ns name args)) →
    Permitted operator operation ns name
  allowed_var : ∀ {name}, allowed (.inline (.var name)) → reads name
  fault_self : ∀ w f, fault w f f
  fault_place : ∀ {w p p'}, place w p p' → ∀ layer form,
    fault w (.ofCause (.layerViolation layer form (p.getD "<expr>")))
      (.ofCause (.layerViolation layer form (p'.getD "<expr>")))
  value_closure : ∀ {w id id' params body c c' isFix}, identity w id id' → captured w c c' →
    allowed body →
    value w (.closure ⟨id, params, body, c, isFix⟩) (.closure ⟨id', params, body, c', isFix⟩)
  closure_parts : ∀ {w c c'}, applicable → value w (.closure c) (.closure c') →
    c.params = c'.params ∧ c.body = c'.body ∧ c.isFix = c'.isFix ∧
      identity w c.id c'.id ∧ captured w c.captured c'.captured ∧ allowed c.body

def Setting.caches {σ : Type} (s : Setting σ) : Bool := s.config.nodeCache && !s.layer.hasMutation

def Plan.memoized {α : Type} (id : String) (expr : Expr) (next : Value → Plan α) : Plan α :=
  .ask (.recollect id) fun kept =>
    match kept with
    | some v => next v
    | none =>
      .call ⟨id, false⟩ (.expr expr rootScope) fun v => .ask (.remember id v) fun _ => next v

namespace Likeness

variable {κ : Type} [Preorder κ] (L : Likeness κ)

theorem values_mono {w w' : κ} {vs vs' : List Value} (le : w ≤ w')
    (values : List.Forall₂ (L.value w) vs vs') : List.Forall₂ (L.value w') vs vs' :=
  values.imp fun _ _ same => L.value_mono le same

theorem value_void (w : κ) : L.value w .void .void := L.value_literal w .void

abbrev allowedForm (expr : Expr) : Prop := L.allowed (.inline expr)

def allowedInstruction : Instruction → Prop
  | .assign _ value => L.allowed value
  | .op _ ns name _ => Permitted L.operator L.operation ns name
  | .call _ _ _ | .effect _ _ _ => True

def Entries (w : κ) : Bindings → Bindings → Prop := Bindings.Alike (L.value w)

def Outcomes (w : κ) : Outcome → Outcome → Prop := ResultsAlike Eq (L.value w)

inductive Jobs (w : κ) : Job → Job → Prop
  | operand {arg a b} (allowed : L.allowed arg) (scope : L.scope w a b) :
    Jobs w (.operand arg a) (.operand arg b)
  | expr {expr a b} (allowed : L.allowedForm expr) (scope : L.scope w a b) :
    Jobs w (.expr expr a) (.expr expr b)
  | apply {callee callee' args args'} (applicable : L.applicable)
    (callees : L.value w callee callee') (operands : List.Forall₂ (L.value w) args args') :
    Jobs w (.apply callee args) (.apply callee' args')
  | block {label} (flow : L.flow) (registers : L.scope w registerScope registerScope) :
    Jobs w (.block label) (.block label)

inductive Nexts (w : κ) : Next → Next → Prop
  | value {v v'} (values : L.value w v v') : Nexts w (.value v) (.value v')
  | job {j j'} (jobs : L.Jobs w j j') : Nexts w (.job j) (.job j')

inductive Queries (w : κ) : Query → Query → Prop
  | lookup {a b name} (reads : L.reads name) (scope : L.scope w a b) :
    Queries w (.lookup a name) (.lookup b name)
  | define {a b name v v' m m'} (writable : L.writable w a b) (mutabilities : L.mutability m m')
    (values : L.value w v v') : Queries w (.define a name v m) (.define b name v' m')
  | assign {a b name v v'} (mutation : L.mutation) (scope : L.scope w a b)
    (values : L.value w v v') : Queries w (.assign a name v) (.assign b name v')
  | child {a b} (outer : L.outer w a b) : Queries w (.child a) (.child b)
  | enter {c c'} (applicable : L.applicable) (captured : L.captured w c c') :
    Queries w (.enter c) (.enter c')
  | flatten {a b} (plain : ¬ L.copying) (snapshots : L.snapshots) (scope : L.scope w a b) :
    Queries w (.flatten a) (.flatten b)
  | fresh : Queries w .fresh .fresh
  | isActive {key} : Queries w (.isActive key) (.isActive key)
  | innermost : Queries w .innermost .innermost
  | recollect {id} (plain : ¬ L.memo) (root : L.scope w rootScope rootScope) :
    Queries w (.recollect id) (.recollect id)
  | remember {id v v'} (plain : ¬ L.memo) (root : L.scope w rootScope rootScope)
    (values : L.value w v v') : Queries w (.remember id v) (.remember id v')
  | compute {op args args'} (permitted : L.operator op)
    (operands : List.Forall₂ (L.value w) args args') :
    Queries w (.compute op args) (.compute op args')
  | dispatch {domain op args args'} (known : L.domain domain) (permitted : L.operation op)
    (operands : List.Forall₂ (L.value w) args args') :
    Queries w (.dispatch domain op args) (.dispatch domain op args')
  | perform {effect args args'} (effects : L.effects)
    (operands : List.Forall₂ (L.value w) args args') :
    Queries w (.perform effect args) (.perform effect args')

structure Made (w : κ) (a b : ScopeId) : Prop where
  scope : L.scope w a b
  inside : L.scope (L.inside w) a b
  writable : L.writable w a b

def Answers (w : κ) : (q q' : Query) → q.Answer → q'.Answer → Prop
  | .lookup _ _, .lookup _ _, a, a' => Option.Rel (L.value w) a a'
  | .define a _ _ _, .define b _ _ _, _, _ => L.writable w a b
  | .assign _ _ _, .assign _ _ _, a, a' => a = a'
  | .child _, .child _, a, a' => L.Made w a a'
  | .enter _, .enter _, a, a' => L.Made w a a'
  | .flatten _, .flatten _, a, a' => L.Entries w a a'
  | .fresh, .fresh, a, a' => L.identity w a a'
  | .isActive _, .isActive _, a, a' => a = a'
  | .innermost, .innermost, a, a' => L.place w a a'
  | .recollect _, .recollect _, a, a' => Option.Rel (L.value w) a a'
  | .remember _ _, .remember _ _, _, _ => True
  | .compute _ _, .compute _ _, a, a' => ResultsAlike Eq (L.value w) a a'
  | .dispatch _ _ _, .dispatch _ _ _, a, a' => ResultsAlike Eq (L.value w) a a'
  | .perform _ _, .perform _ _, a, a' => ResultsAlike (L.fault w) (L.value w) a a'
  | _, _, _, _ => False

/-- Plans that ask for like things, and end in results that `R` relates. The first may answer a
node from its cache where the second evaluates the node again, and it may share a scope with a new
closure where the second copies what is visible there. -/
inductive Plans {α β : Type} (R : κ → α → β → Prop) : κ → Plan α → Plan β → Prop
  | done {w result result'} (related : R w result result') :
    Plans R w (.done result) (.done result')
  | fail {w fault fault'} (faults : L.fault w fault fault') :
    Plans R w (.fail fault) (.fail fault')
  | eval {w job job' next next'} (jobs : L.Jobs w job job')
    (rest : ∀ w' v v', w ≤ w' → L.value w' v v' → Plans R w' (next v) (next' v')) :
    Plans R w (.eval job next) (.eval job' next')
  | call {w site job job' next next'}
    (jobs : L.Jobs (if site.isDefinition then L.inside w else w) job job')
    (rest : ∀ w' v v', w ≤ w' → L.value w' v v' → Plans R w' (next v) (next' v')) :
    Plans R w (.call site job next) (.call site job' next')
  | ask {w q q' next next'} (queries : L.Queries w q q')
    (rest : ∀ w' a a', w ≤ w' → L.Answers w' q q' a a' → Plans R w' (next a) (next' a')) :
    Plans R w (.ask q next) (.ask q' next')
  | fork {w label registers registers' next next'} (flow : L.flow)
    (entries : L.Entries w registers registers')
    (rest : ∀ w' a a', w ≤ w' →
      Option.Rel (fun id id' => L.value w' (.future id) (.future id')) a a' →
      Plans R w' (next a) (next' a')) :
    Plans R w (.fork label registers next) (.fork label registers' next')
  | await {w id id' next next'} (flow : L.flow) (futures : L.value w (.future id) (.future id'))
    (rest : ∀ w' o o', w ≤ w' → L.Outcomes w' o o' → Plans R w' (next o) (next' o')) :
    Plans R w (.await id next) (.await id' next')
  | memo {w id expr next next'} (memo : L.memo) (node : L.node id expr)
    (allowed : L.allowedForm expr) (root : L.scope w rootScope rootScope)
    (rest : ∀ w' v v', w ≤ w' → L.value w' v v' → Plans R w' (next v) (next' v')) :
    Plans R w (.memoized id expr next) (.call ⟨id, false⟩ (.expr expr rootScope) next')
  | copy {w a b next} {next' : List (String × Value) → Identity → Plan β}
    (copying : L.copying) (scope : L.scope w a b)
    (rest : ∀ w' entries id id', w ≤ w' → L.captured w' (.shared a) (.frozen entries) →
      L.identity w' id id' → Plans R w' (next id) (next' entries id')) :
    Plans R w (.ask .fresh next)
      (.ask (.flatten b) fun visible => .ask .fresh (next' visible.values))

theorem Plans.bind {L : Likeness κ} {α β α' β' : Type} {R : κ → α → α' → Prop}
    {S : κ → β → β' → Prop} {w : κ} {p : Plan α} {p' : Plan α'} {f : α → Plan β}
    {f' : α' → Plan β'} (plans : L.Plans R w p p')
    (rest : ∀ w' a a', w ≤ w' → R w' a a' → L.Plans S w' (f a) (f' a')) :
    L.Plans S w (p >>= f) (p' >>= f') := by
  induction plans with
  | done related => exact rest _ _ _ le_rfl related
  | fail faults => exact .fail faults
  | eval jobs _ ih =>
    exact .eval jobs fun w' v v' le values =>
      ih w' v v' le values fun w'' a a' le' => rest w'' a a' (le.trans le')
  | call jobs _ ih =>
    exact .call jobs fun w' v v' le values =>
      ih w' v v' le values fun w'' a a' le' => rest w'' a a' (le.trans le')
  | ask queries _ ih =>
    exact .ask queries fun w' a a' le answers =>
      ih w' a a' le answers fun w'' b b' le' => rest w'' b b' (le.trans le')
  | fork flow entries _ ih =>
    exact .fork flow entries fun w' a a' le ids =>
      ih w' a a' le ids fun w'' b b' le' => rest w'' b b' (le.trans le')
  | await flow futures _ ih =>
    exact .await flow futures fun w' o o' le outcomes =>
      ih w' o o' le outcomes fun w'' b b' le' => rest w'' b b' (le.trans le')
  | @memo w id expr next next' memo node allowed root _ ih =>
    have moved : (Plan.memoized id expr next >>= f) =
        .memoized id expr fun v => next v >>= f := by
      simp only [Plan.memoized, Bind.bind, Plan.bind]
      congr 1
      funext kept
      cases kept <;> rfl
    rw [moved]
    exact .memo memo node allowed root fun w' v v' le values =>
      ih w' v v' le values fun w'' a a' le' => rest w'' a a' (le.trans le')
  | copy copying scope _ ih =>
    exact .copy copying scope fun w' entries id id' le captured ids =>
      ih w' entries id id' le captured ids fun w'' a a' le' => rest w'' a a' (le.trans le')

theorem raise_alike {α α' : Type} {R : κ → α → α' → Prop} (w : κ) (cause : Cause) :
    L.Plans R w (Plan.raise cause) (Plan.raise cause) := .fail (L.fault_self w _)

theorem query_alike {w : κ} {q q' : Query} (queries : L.Queries w q q') :
    L.Plans (fun w a a' => L.Answers w q q' a a') w (Plan.query q) (Plan.query q') :=
  .ask queries fun _ _ _ _ answers => .done answers

theorem orRaise_alike {α α' : Type} {R : κ → α → α' → Prop} {w : κ} {e : Except Cause α}
    {e' : Except Cause α'} (results : ResultsAlike Eq (R w) e e') :
    L.Plans R w (Plan.orRaise e) (Plan.orRaise e') := by
  match e, e', results with
  | .ok a, .ok a', related => exact .done related
  | .error cause, .error _, rfl => exact L.raise_alike w cause

theorem ite_alike {α α' : Type} {R : κ → α → α' → Prop} {w : κ} {c : Prop} [Decidable c]
    {p q : Plan α} {p' q' : Plan α'} (yes : c → L.Plans R w p p') (no : ¬ c → L.Plans R w q q') :
    L.Plans R w (if c then p else q) (if c then p' else q') := by
  split
  · exact yes ‹c›
  · exact no ‹¬ c›

structure Allows {σ : Type} (s : Setting σ) : Prop where
  node : ∀ id expr, s.nodes.get? id = some expr → L.allowed (.id id) ∨ L.allowedForm (.ref id) →
    L.node id expr ∧ L.allowedForm expr
  unknown : ∀ name, s.nodes.get? name = none → L.allowed (.id name) → L.reads name
  definition : ∀ ns name args d, s.definitions.get? ns name = some d →
    L.allowedForm (.airRef ns name args) → L.allowed d.body
  instruction : L.flow → ∀ block ∈ s.blocks, ∀ i ∈ block.instructions, L.allowedInstruction i

theorem Allows.of_callsOnly {L : Likeness κ} {σ : Type} {s : Setting σ}
    (all : ∀ arg : Arg, arg.Every (Expr.CallsOnly (Permitted L.operator L.operation)) →
      L.allowed arg)
    (node : ∀ id expr, s.nodes.get? id = some expr → L.node id expr)
    (reads : ∀ name, L.reads name)
    (calls : s.CallsOnly (Permitted L.operator L.operation)) : L.Allows s where
  node id expr found _ := ⟨node id expr found, all (.inline expr) (calls.node id expr found)⟩
  unknown name _ _ := reads name
  definition ns name _ d found _ := all d.body (calls.definition ns name d found)
  instruction _ block member i among := by
    have only := calls.instruction block member i among
    cases i with
    | assign target value => exact all value only
    | _ => exact only

structure Settings {σ σ' : Type} (s : Setting σ) (s' : Setting σ') : Prop where
  nodes : s.nodes = s'.nodes
  definitions : s.definitions = s'.definitions
  blocks : L.flow → s.blocks = s'.blocks
  domains : s.domains = s'.domains
  maxTasks : s.config.maxTasks = s'.config.maxTasks
  handlers : s.layer.hasEffects → ∀ name, s.hasHandler name = s'.hasHandler name
  inputs : ∀ w name, Option.Rel (L.value w) (s.input? name) (s'.input? name)
  cache : ¬ L.memo ∧ s.caches = s'.caches ∨ L.memo ∧ s'.caches = false
  code : L.Allows s
  domain : ∀ name d, s.domains.find? name = some d → L.domain d
  layer : s.layer = s'.layer ∨
    ∀ expr, L.allowedForm expr → ¬ s.layer < expr.minLayer ∧ ¬ s'.layer < expr.minLayer
  mutability : L.mutability s.localMutability s'.localMutability
  mutation : s.layer.hasMutation → L.mutation
  effects : s.layer.hasEffects → L.effects
  snapshots : s.layer.copiesCaptures → L.snapshots
  registers : s.layer.hasMutation → ∀ name, L.reads name
  closures : s.layer.hasClosures → L.applicable
  flow : L.flow → s.layer = .lir
  captures : ¬ L.copying ∧ s.layer.copiesCaptures = s'.layer.copiesCaptures ∨
    L.copying ∧ s.layer.copiesCaptures = false ∧ s'.layer.copiesCaptures
  shared : s.layer.hasClosures → s'.layer.copiesCaptures = false →
    ∀ w a b, L.scope w a b → L.captured w (.shared a) (.shared b)
  frozen : s.layer.copiesCaptures → ∀ w bindings bindings', L.Entries w bindings bindings' →
    L.captured w (.frozen bindings.values) (.frozen bindings'.values)

/-- A setting compared with itself. -/
theorem Settings.self {L : Likeness κ} {σ : Type} {s : Setting σ} (single : ¬ L.memo)
    (level : ¬ L.copying) (reads : ∀ name, L.reads name)
    (inputs : ∀ w name, Option.Rel (L.value w) (s.input? name) (s.input? name))
    (code : L.Allows s) (domain : ∀ name d, s.domains.find? name = some d → L.domain d)
    (mutation : s.layer.hasMutation → L.mutation) (effects : s.layer.hasEffects → L.effects)
    (snapshots : s.layer.copiesCaptures → L.snapshots)
    (closures : s.layer.hasClosures → L.applicable) (flow : L.flow → s.layer = .lir)
    (shared : s.layer.copiesCaptures = false →
      ∀ w a b, L.scope w a b → L.captured w (.shared a) (.shared b))
    (frozen : ∀ w bindings bindings', L.Entries w bindings bindings' →
      L.captured w (.frozen bindings.values) (.frozen bindings'.values)) : L.Settings s s where
  nodes := rfl
  definitions := rfl
  blocks _ := rfl
  domains := rfl
  maxTasks := rfl
  handlers _ _ := rfl
  inputs := inputs
  cache := .inl ⟨single, rfl⟩
  code := code
  domain := domain
  layer := .inl rfl
  mutability := L.mutability_self _
  mutation := mutation
  effects := effects
  snapshots := snapshots
  registers _ := reads
  closures := closures
  flow := flow
  captures := .inl ⟨level, rfl⟩
  shared _ := shared
  frozen _ := frozen

end Likeness
end LayeredIR
