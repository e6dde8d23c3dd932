import LayeredIR.Proofs.Protocol
import LayeredIR.Proofs.Value.Parts
import LayeredIR.Task

/-! What code may do where it stands. A discipline says which code may run within which calls, which
closures it may hold once the heap has grown to some shape, and what it may bind where. A plan heeds
a discipline when it asks for nothing else, as long as it is told nothing else. The laws of a
discipline say that whatever code it permits permits the code that this comes to. -/
namespace LayeredIR

abbrev Shape := List (Option ScopeId)

def Value.Closures (P : Closure → Prop) (v : Value) : Prop :=
  v.All fun part => ∀ c, part = .closure c → P c

namespace Value.Closures

variable {P Q : Closure → Prop}

theorem mono (more : ∀ c, P c → Q c) {v : Value} (all : v.Closures P) : v.Closures Q :=
  All.mono (fun _ kind c same => more c (kind c same)) all

theorem of_plain {v : Value} (plain : v.All fun part => part.isReference = false) :
    v.Closures P := by
  refine plain.mono fun part plain c same => ?_
  subst same
  cases plain

theorem literal (l : Literal) : (Value.ofLiteral l).Closures P := of_plain (ofLiteral_plain l)

theorem list (of : Ty) {items : List Value} (all : ∀ item ∈ items, item.Closures P) :
    (Value.list of items).Closures P := all_list (fun _ => nofun) all

theorem future (id : Identity) : (Value.future id).Closures P := all_future fun _ => nofun

theorem closure {c : Closure} (self : P c)
    (captured : ∀ entries, c.captured = .frozen entries →
      ∀ entry ∈ entries, entry.2.Closures P) : (Value.closure c).Closures P :=
  all_closure (fun _ same => Value.closure.inj same ▸ self) captured

theorem captured {c : Closure} (all : (Value.closure c).Closures P)
    {entries : List (String × Value)} (copied : c.captured = .frozen entries) :
    ∀ entry ∈ entries, entry.2.Closures P := All.captured all copied

theorem of_from {args : List Value} {v : Value} (conserved : v.From args)
    (all : ∀ arg ∈ args, arg.Closures P) : v.Closures P := by
  intro part inside c same
  subst same
  obtain ⟨arg, member, within⟩ := conserved _ inside rfl
  exact all arg member _ within c rfl

end Value.Closures

/-- What code may do. Calls are given by the live ones, innermost first. -/
structure Discipline {σ : Type} (s : Setting σ) where
  base : Nat
  closure : Shape → Arg → Captured → Prop
  scope : Shape → ScopeId → Prop
  outer : Shape → ScopeId → Prop
  define : Shape → ScopeId → String → Value → Prop
  assign : Shape → ScopeId → String → Value → Prop
  code : List CallSite → Arg → Prop
  cause : Cause → Prop
  calls : List CallSite → CallStack → List String → Prop
  idle : List CallSite → String → Prop
  flow : Prop
  kept : σ → Closure → Prop

namespace Discipline

variable {σ : Type} {s : Setting σ} (D : Discipline s)

def value (w : Shape) : Value → Prop := Value.Closures fun c => D.closure w c.body c.captured

def next (w : Shape) : ScopeId := D.base + w.length

structure Shares (w : Shape) (futures : Futures) (host : σ) : Prop where
  settled : ∀ id v, futures.outcome? id = some (.ok v) → D.value w v
  kept : ∀ c, D.kept host c → D.closure w c.body c.captured

structure Laws : Prop where
  closure_mono : ∀ {w w' body captured}, w <+: w' → D.closure w body captured →
    D.closure w' body captured
  scope_mono : ∀ {w w' a}, w <+: w' → D.scope w a → D.scope w' a
  outer_root : ∀ w, D.outer w rootScope
  outer_scope : ∀ {w a}, D.scope w a → D.outer w a
  outer_captured : ∀ {w body a}, D.closure w body (.shared a) → D.outer w a
  outer_copy : ∀ w, D.outer (w ++ [none]) (D.next w)
  scope_made : ∀ {w a}, D.outer w a → D.scope (w ++ [some a]) (D.next w)
  define_made : ∀ {w w' a name v}, w <+: w' → D.value w v → D.next w ≤ a → D.scope w' a →
    D.define w' a name v
  define_declared : ∀ {w c a name arg v}, s.layer.hasMutation →
    D.code c (.inline (.declare name arg)) → D.scope w a → D.value w v → D.define w a name v
  assign_code : ∀ {w c a name arg v}, s.layer.hasMutation →
    D.code c (.inline (.assign name arg)) → D.scope w a → D.value w v → D.assign w a name v
  code_evaluated : ∀ {c arg expr}, s.Evaluates arg expr → D.code c (.inline expr) → D.code c arg
  code_node : ∀ {c id expr}, s.nodes.get? id = some expr → D.code c (.id id) →
    D.code (⟨id, false⟩ :: c) (.inline expr)
  code_ref : ∀ {c id expr}, s.nodes.get? id = some expr → D.code c (.inline (.ref id)) →
    D.code (⟨id, false⟩ :: c) (.inline expr)
  code_definition : ∀ {c ns name args d}, s.definitions.get? ns name = some d →
    D.code c (.inline (.airRef ns name args)) → D.idle c (definitionKey ns name) →
    D.code (⟨definitionKey ns name, true⟩ :: c) d.body
  code_body : ∀ {w body captured} c, s.layer.hasClosures → D.closure w body captured →
    D.code (⟨"<closure>", false⟩ :: c) body
  code_instruction : ∀ {block target arg} c, D.flow → block ∈ s.blocks →
    .assign target arg ∈ block.instructions → D.code c arg
  closure_shared : ∀ {w c params body a}, s.layer.hasClosures → s.layer.copiesCaptures = false →
    D.code c (.inline (.lambda params body)) → D.scope w a → D.closure w body (.shared a)
  closure_frozen : ∀ {w c params body} entries, s.layer.copiesCaptures →
    D.code c (.inline (.lambda params body)) → D.closure w body (.frozen entries)
  flow_scope : ∀ w, D.flow → D.scope w registerScope
  flow_define : ∀ {w v} name, D.flow → D.value w v → D.define w registerScope name v
  /-- What may be held where there are several tasks may be held by any of them. -/
  flow_closure : ∀ {w body captured} w', D.flow → D.closure w body captured →
    D.closure w' body captured
  flow_layer : D.flow → s.layer = .lir
  input : ∀ {name v} w, s.input? name = some v → D.value w v
  domain : ∀ {w name d} typeOf op args, s.domains.find? name = some d →
    (∀ arg ∈ args, D.value w arg) →
    (∀ v, d.call typeOf op args = .ok v → D.value w v) ∧
      ∀ cause, d.call typeOf op args = .error cause → D.cause cause
  handler : ∀ {w name handler futures args host result host'}, s.layer.hasEffects →
    s.handler? name = some handler → handler futures args host = (result, host') →
    (∀ arg ∈ args, D.value w arg) → D.Shares w futures host →
    (∀ v, result = .ok v → D.value w v) ∧ (∀ fault, result = .error fault → D.cause fault.cause) ∧
      D.Shares w futures host'
  cause_own : ∀ {cause}, ¬ cause.Refuses → D.cause cause
  above : ∀ {c expr} place, D.code c (.inline expr) → s.layer < expr.minLayer →
    D.cause (.layerViolation s.layer expr.form place)
  full : ∀ {c site arg stack active}, D.calls c stack active → D.code (site :: c) arg →
    stack.isFull → D.cause (.recursionLimitExceeded stack.limit)
  enter : ∀ {c site stack active}, D.calls c stack active → stack.isFull = false →
    D.calls (site :: c) (stack.grow site.name)
      (if site.isDefinition then site.name :: active else active)
  leave : ∀ {c site stack active}, D.calls (site :: c) stack active →
    D.calls c stack.pop (if site.isDefinition then active.tail else active)
  idle : ∀ {c stack active key}, D.calls c stack active → active.contains key = false →
    D.idle c key

section Requests

variable (c : List CallSite) (w : Shape)

inductive Jobs : Job → Prop
  | operand {arg a} (code : D.code c arg) (scope : D.scope w a) : Jobs (.operand arg a)
  | expr {expr a} (code : D.code c (.inline expr)) (scope : D.scope w a) : Jobs (.expr expr a)
  | apply {callee args} (closures : s.layer.hasClosures) (function : D.value w callee)
    (held : ∀ arg ∈ args, D.value w arg) : Jobs (.apply callee args)
  | block {label} (flow : D.flow) : Jobs (.block label)

inductive Nexts : Next → Prop
  | value {v} (held : D.value w v) : Nexts (.value v)
  | job {job} (jobs : D.Jobs c w job) : Nexts (.job job)

def Queries : Query → Prop
  | .define a name v _ => D.define w a name v ∧ D.value w v
  | .assign a name v => D.assign w a name v ∧ D.value w v
  | .child a => D.outer w a
  | .enter captured => ∃ c : Closure, c.captured = captured ∧ D.value w (.closure c)
  | .remember _ v => D.value w v
  | .compute _ args => ∀ arg ∈ args, D.value w arg
  | .perform _ args => s.layer.hasEffects ∧ ∀ arg ∈ args, D.value w arg
  | .dispatch d _ args => (∃ name, s.domains.find? name = some d) ∧ ∀ arg ∈ args, D.value w arg
  | .flatten _ => s.layer.copiesCaptures
  | .lookup _ _ | .fresh | .isActive _ | .innermost | .recollect _ => True

def Answers : (q : Query) → Shape → q.Answer → Prop
  | .lookup _ _, w', a => w' = w ∧ ∀ v, a = some v → D.value w v
  | .recollect _, w', a => w' = w ∧ ∀ v, a = some v → D.value w v
  | .flatten _, w', bindings => w' = w ∧ ∀ entry ∈ bindings, D.value w entry.2.value
  | .child outer, w', a => w' = w ++ [some outer] ∧ a = D.next w
  | .enter (.shared outer), w', a => w' = w ++ [some outer] ∧ a = D.next w
  | .enter (.frozen _), w', a =>
    w' = w ++ [none] ++ [some (D.next w)] ∧ a = D.next (w ++ [none])
  | .isActive key, w', a => w' = w ∧ (a = false → D.idle c key)
  | .compute _ _, w', result => w' = w ∧ (∀ v, result = .ok v → D.value w v) ∧
      ∀ cause, result = .error cause → D.cause cause
  | .dispatch _ _ _, w', result => w' = w ∧ (∀ v, result = .ok v → D.value w v) ∧
      ∀ cause, result = .error cause → D.cause cause
  | .perform _ _, w', result => w' = w ∧ (∀ v, result = .ok v → D.value w v) ∧
      ∀ fault, result = .error fault → D.cause fault.cause
  | _, w', _ => w' = w

end Requests

end Discipline

namespace Discipline

variable {σ : Type} {s : Setting σ} {D : Discipline s} {c : List CallSite} {w w' : Shape}

theorem Laws.value_mono (laws : D.Laws) (le : w <+: w') {v : Value} (held : D.value w v) :
    D.value w' v := held.mono fun _ => laws.closure_mono le

theorem value_literal (l : Literal) : D.value w (.ofLiteral l) := .literal l

theorem value_void : D.value w .void := .literal .void

/-- Closures differ in their identity and in being a fixpoint without being of another kind. -/
theorem value_with {f : Closure} (held : D.value w (.closure f)) (id : Identity) (isFix : Bool) :
    D.value w (.closure { f with id := id, isFix := isFix }) :=
  .closure (held.self f rfl) fun _ => held.captured

theorem prefix_of_answers {q : Query} {a : q.Answer} (answers : D.Answers c w q w' a) :
    w <+: w' := by
  have same (equal : w' = w) : w <+: w' := equal ▸ List.prefix_refl w
  cases q with
  | child outer =>
    rw [answers.1]
    exact List.prefix_append w _
  | enter captured =>
    cases captured with
    | shared outer =>
      rw [answers.1]
      exact List.prefix_append w _
    | frozen entries =>
      rw [answers.1, List.append_assoc]
      exact List.prefix_append w _
  | define | assign | fresh | innermost | remember => exact same answers
  | lookup | flatten | isActive | recollect | compute | dispatch | perform => exact same answers.1

/-- The scope that the body of a function begins in is younger than what is held before it. -/
theorem Laws.entered (laws : D.Laws) {f : Closure} (function : D.value w (.closure f))
    {a : ScopeId} (told : D.Answers c w (.enter f.captured) w' a) :
    D.next w ≤ a ∧ D.scope w' a := by
  obtain ⟨id, params, body, captured, isFix⟩ := f
  have known : D.closure w body captured := function.self _ rfl
  cases captured with
  | shared outer =>
    obtain ⟨rfl, rfl⟩ := told
    exact ⟨Nat.le_refl _, laws.scope_made (laws.outer_captured known)⟩
  | frozen entries =>
    obtain ⟨rfl, rfl⟩ := told
    refine ⟨Nat.add_le_add_left ?_ D.base, laws.scope_made (laws.outer_copy w)⟩
    rw [List.length_append]
    exact Nat.le_add_right w.length 1

def protocol (D : Discipline s) (c : List CallSite) : Protocol Shape where
  le w w' := w <+: w'
  value := D.value
  scope := D.scope
  made w a w' := w <+: w' ∧ D.next w ≤ a ∧ D.scope w' a
  fails fault := D.cause fault.cause
  evals := D.Jobs c
  calls w site job := (∃ arg, D.code (site :: c) arg) ∧ D.Jobs (site :: c) w job
  asks := D.Queries
  answers := D.Answers c
  forks w _ registers := D.flow ∧ ∀ entry ∈ registers, D.value w entry.2.value
  awaits := D.flow
  bodies := False
  refl := List.prefix_refl
  trans := List.IsPrefix.trans
  later := prefix_of_answers

end Discipline

def Plan.Heeds {σ α : Type} {s : Setting σ} (D : Discipline s) (c : List CallSite)
    (R : Shape → α → Prop) (w : Shape) (p : Plan α) : Prop := p.Obeys (D.protocol c) R w

theorem Plan.Heeds.resumed {σ α : Type} {s : Setting σ} {D : Discipline s} {c : List CallSite}
    {R : Shape → α → Prop} {w : Shape} {job : Job} {next : Value → Plan α}
    (rest : ∀ w' v, w <+: w' → (D.protocol c).Told job w' v → (next v).Heeds D c R w') :
    ∀ w' v, w <+: w' → D.value w' v → (next v).Heeds D c R w' :=
  fun w' v le held => rest w' v le ⟨held, nofun⟩

end LayeredIR
