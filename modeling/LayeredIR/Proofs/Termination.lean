import LayeredIR.Evaluate
import LayeredIR.Proofs.Keeping
import LayeredIR.Proofs.Rules.Memories
import LayeredIR.Proofs.Termination.Grounded
import LayeredIR.Proofs.Yields

/-! Runs that end. Apart from loops, only three things lead a run on: calls, of which the ceiling
leaves ever fewer; the operands of a form, which are evaluated at the depth of the form; and the
application of a fixpoint, which at its depth applies two functions that are none. So jobs end by
induction on the calls that are left, and under that on what an operand unfolds to. -/
namespace LayeredIR

def Arg.IsFunction : Arg → Prop
  | .inline (.lambda _ _) => True
  | _ => False

def Arg.ReturnsFunction : Arg → Prop
  | .inline (.lambda _ body) => body.IsFunction
  | _ => False

/-- No loop, and no fixpoint but of a function in place that returns another. -/
def Expr.Bounded : Expr → Prop
  | .whileDo _ _ => False
  | .fix generator => generator.ReturnsFunction
  | _ => True

def Closure.Bounded (c : Closure) : Prop :=
  c.body.Every Expr.Bounded ∧ (c.isFix → c.body.IsFunction)

def Value.Bounded (v : Value) : Prop := v.All fun part => ∀ c, part = .closure c → c.Bounded

theorem Value.bounded_of_plain {part : Value} (plain : part.isReference = false) :
    ∀ c, part = .closure c → c.Bounded := by
  rintro c rfl
  cases plain

theorem Value.bounded_closure {c : Closure} (bounded : c.Bounded)
    (captured : ∀ entries, c.captured = .frozen entries → ∀ entry ∈ entries, entry.2.Bounded) :
    (Value.closure c).Bounded :=
  Value.all_closure (fun _ same => by cases same; exact bounded) captured

/-- A closure is bounded as a fixpoint and as the generator of one, where its body is. -/
theorem Value.Bounded.with {c : Closure} (bounded : (Value.closure c).Bounded) (id : Identity)
    {isFix : Bool} (fixpoint : isFix → c.body.IsFunction) :
    (Value.closure { c with id := id, isFix := isFix }).Bounded :=
  Value.bounded_closure ⟨(bounded.self c rfl).1, fixpoint⟩ fun _ => bounded.captured

def Domain.Bounded (domain : Domain) : Prop :=
  ∀ typeOf op args v, (∀ arg ∈ args, arg.Bounded) → domain.call typeOf op args = .ok v → v.Bounded

def Handler.Bounded {σ : Type} (handler : Handler σ) : Prop :=
  ∀ futures args host v, (∀ arg ∈ args, arg.Bounded) → (handler futures args host).1 = .ok v →
    v.Bounded

/-- What is made of bounded parts is bounded. -/
theorem Value.Bounded.of_from {args : List Value} {v : Value} (conserved : v.From args)
    (all : ∀ arg ∈ args, arg.Bounded) : v.Bounded := by
  intro part inside
  cases reference : part.isReference with
  | false => exact Value.bounded_of_plain reference
  | true =>
    obtain ⟨arg, member, within⟩ := conserved part inside reference
    exact all arg member part within

theorem Operator.compute_bounded {op : Operator} {args : List Value} {v : Value}
    (all : ∀ arg ∈ args, arg.Bounded) (computed : op.compute args = .ok v) : v.Bounded := by
  let bounded : Resemblance Unit := .holding (fun _ part => ∀ c, part = .closure c → c.Bounded)
    fun _ _ => Value.bounded_of_plain
  have operands : List.Forall₂ (bounded.value ()) args args := forall₂_self_iff.mpr ⟨rfl, all⟩
  have results : ResultsAlike Eq (bounded.value ()) (op.compute args) (op.compute args) :=
    bounded.compute_alike (fun _ => Resemblance.holding_comparable) operands
  rw [computed] at results
  exact results.2

section Jobs

variable {σ : Type} {s : Setting σ}

def Setting.Ends (s : Setting σ) (P : Value → Prop) (job : Job) (plan : Plan Next)
    (shared : Shared σ) (memory : Memory) : Prop :=
  ∃ outcome shared' memory', s.Yields shared memory plan outcome shared' memory' ∧
    memory'.Holds P ∧ ∀ v, outcome = .ok v → P v ∧ job.Gives v

def Setting.EndsWithin (s : Setting σ) (P : Value → Prop) (left : Nat) (job : Job) : Prop :=
  ∀ shared memory, memory.Holds P → memory.stack.limit ≤ memory.stack.depth + left →
    s.Ends P job (s.plan job) shared memory

/-- A plan ends where what it evaluates in place does, and, with fewer calls left, what it calls. -/
theorem Setting.ends_of_obeys {r : Rules} (closed : r.Closed s) {left : Nat}
    (inPlace : ∀ job, r.job job → s.EndsWithin r.value left job)
    (called : ∀ fewer < left, ∀ job, r.call job → s.EndsWithin r.value fewer job)
    {job : Job} {plan : Plan Next} {k : Unit}
    (obeys : plan.Obeys r.protocol (r.protocol.Ends job) k) (shared : Shared σ) (memory : Memory) (holds : memory.Holds r.value)
    (room : memory.stack.limit ≤ memory.stack.depth + left) :
    s.Ends r.value job plan shared memory := by
  induction obeys generalizing shared memory with
  | done ends =>
    cases ends with
    | value told =>
      refine ⟨_, _, _, .value, holds, fun u same => ?_⟩
      cases same
      exact ⟨told.1, told.2 trivial⟩
    | @job other permitted given =>
      obtain ⟨outcome, shared', memory', yields, held, gives⟩ :=
        inPlace other permitted shared memory holds room
      refine ⟨outcome, shared', memory', .job yields, held, fun v same => ⟨(gives v same).1, ?_⟩⟩
      exact given v (fun _ => (gives v same).2) trivial
  | fail => exact ⟨_, _, _, .fail, holds, nofun⟩
  | @eval _ first next permitted _ ih =>
    obtain ⟨outcome, shared₁, memory₁, yields, held, gives⟩ :=
      inPlace first permitted shared memory holds room
    cases outcome with
    | error fault => exact ⟨_, _, _, .evalFail yields, held, nofun⟩
    | ok v =>
      have room' : memory₁.stack.limit ≤ memory₁.stack.depth + left := by rwa [yields.calls.1]
      have told : r.protocol.Told first () v := ⟨(gives v rfl).1, fun _ => (gives v rfl).2⟩
      obtain ⟨outcome, shared', memory', rest, held', wanted⟩ :=
        ih () v trivial told shared₁ memory₁ held room'
      exact ⟨outcome, shared', memory', .eval yields rest, held', wanted⟩
  | @call _ site inner next permitted _ ih =>
    cases free : memory.stack.isFull with
    | true => exact ⟨_, _, _, .full free, holds, nofun⟩
    | false =>
      have below : memory.stack.depth < memory.stack.limit := by
        simpa [CallStack.isFull, CallStack.depth] using free
      have deeper : (memory.enter site).stack.depth = memory.stack.depth + 1 := by
        simp [Memory.enter, CallStack.grow, CallStack.depth]
      have room' : (memory.enter site).stack.limit ≤
          (memory.enter site).stack.depth + (left - 1) := by
        have same : (memory.enter site).stack.limit = memory.stack.limit := rfl
        omega
      obtain ⟨outcome, shared₁, memory₁, yields, held, gives⟩ :=
        called (left - 1) (by omega) inner permitted shared _ (holds.enter site) room'
      cases outcome with
      | error fault => exact ⟨_, _, _, .callFail free yields, held.leave _, by rintro _ ⟨⟩⟩
      | ok v =>
        have back := Yields.leave_enter site memory₁ yields.calls.1 yields.calls.2
        have told : r.protocol.Told inner () v := ⟨(gives v rfl).1, fun _ => (gives v rfl).2⟩
        obtain ⟨outcome, shared', memory', rest, held', wanted⟩ :=
          ih () v trivial told shared₁ (memory₁.leave site.isDefinition) (held.leave _)
            (by rwa [back.1])
        exact ⟨outcome, shared', memory', .call free yields rest, held', wanted⟩
  | @ask _ q next permitted _ ih =>
    obtain ⟨held, told⟩ := closed.serve shared permitted holds
    have same := (Yields.serve_calls s q shared memory).1
    obtain ⟨outcome, shared', memory', rest, held', wanted⟩ :=
      ih () _ told _ _ held (by rwa [same])
    exact ⟨outcome, shared', memory', .ask rest, held', wanted⟩
  | fork permitted | await permitted => exact permitted.elim

variable (s) in
def Setting.BoundedValue (v : Value) : Prop := s.layer.hasClosures → v.Bounded

theorem Setting.BoundedValue.captured {c : Closure} (callee : s.BoundedValue (.closure c)) :
    c.captured.All s.BoundedValue := by
  cases copied : c.captured with
  | shared scope => trivial
  | frozen entries =>
    exact fun entry member closures => (callee closures).captured copied entry member

variable (s) in
def Setting.BoundedCode : Job → Prop
  | .operand arg _ => s.layer.hasClosures → arg.Every Expr.Bounded
  | .expr expr _ => s.layer.hasClosures → expr.Every Expr.Bounded
  | .apply _ _ | .block _ => False

def Setting.boundedRules (s : Setting σ) (left : Nat) : Rules where
  value := s.BoundedValue
  domain d := s.layer.hasClosures → d.Bounded
  job := s.EndsWithin s.BoundedValue left
  call := s.BoundedCode

structure Setting.Bounded (s : Setting σ) : Prop where
  node : ∀ id expr, s.nodes.get? id = some expr → s.layer.hasClosures → expr.Every Expr.Bounded
  definition : ∀ ns name d, s.definitions.get? ns name = some d → s.layer.hasClosures →
    d.body.Every Expr.Bounded
  input : ∀ name v, s.input? name = some v → s.BoundedValue v
  domain : ∀ name d, s.domains.find? name = some d → s.layer.hasClosures → d.Bounded
  handler : ∀ name handler, s.handler? name = some handler → s.layer.hasClosures →
    handler.Bounded

theorem Setting.Bounded.closed (bounded : s.Bounded) (left : Nat) :
    (s.boundedRules left).Closed s where
  operator _ _ _ all computed closures :=
    Operator.compute_bounded (fun arg member => all arg member closures) computed
  domain _ typeOf op args v known all answered closures :=
    known closures typeOf op args v (fun arg member => all arg member closures) answered
  handler name handler futures args host v found all answered closures :=
    bounded.handler name handler found closures futures args host v
      (fun arg member => all arg member closures) answered

section AtDepth

variable {left : Nat} (bounded : s.Bounded)
  (called : ∀ fewer < left, ∀ job, s.BoundedCode job → s.EndsWithin s.BoundedValue fewer job)
include bounded called

theorem Setting.Bounded.endsWithin {job : Job}
    (obeys : (s.plan job).Obeys (s.boundedRules left).protocol
      ((s.boundedRules left).protocol.Ends job) ()) :
    s.EndsWithin s.BoundedValue left job :=
  Setting.ends_of_obeys (bounded.closed left) (fun _ ends => ends) called obeys

omit called in
theorem Setting.Bounded.laws : (s.boundedRules left).protocol.Laws s :=
  Rules.Fit.laws
    { literal := fun l _ => (Value.ofLiteral_plain l).mono fun _ => Value.bounded_of_plain
      list := fun _ _ all closures =>
        Value.all_list (Value.bounded_of_plain rfl) fun item member => all item member closures
      input := bounded.input
      domain := bounded.domain }

theorem Setting.Bounded.apply_plain {c : Closure} {args : List Value} (plain : c.isFix = false)
    (callee : s.BoundedValue (.closure c)) (held : ∀ arg ∈ args, s.BoundedValue arg) :
    s.EndsWithin s.BoundedValue left (.apply (.closure c) args) := by
  have other {goal : Prop} (isFix : c.isFix = true) : goal :=
    absurd (plain.symm.trans isFix) Bool.noConfusion
  refine bounded.endsWithin called (s.apply_obeys bounded.laws ?_)
  rintro _ ⟨⟩
  exact ⟨held, fun _ => callee.captured, fun _ _ closures => ((callee closures).self c rfl).1,
    other, fun isFix => other isFix⟩

/-- A fixpoint gives way to what its generator returns. Neither of them is a fixpoint. -/
theorem Setting.Bounded.apply {callee : Value} {args : List Value} (closures : s.layer.hasClosures)
    (function : s.BoundedValue callee) (held : ∀ arg ∈ args, s.BoundedValue arg) :
    s.EndsWithin s.BoundedValue left (.apply callee args) := by
  refine bounded.endsWithin called (s.apply_obeys bounded.laws ?_)
  rintro c rfl
  refine ⟨held, fun _ => function.captured, fun _ _ closures => ((function closures).self c rfl).1,
    fun isFix => ?_, fun {_ v} isFix _ unrolled => ?_⟩
  · have generator : s.BoundedValue (.closure c.generator) :=
      fun closures => (function closures).with c.id nofun
    refine bounded.apply_plain called rfl generator ?_
    simpa using function
  · have returns : c.body.IsFunction := ((function closures).self c rfl).2 isFix
    obtain ⟨params, body, same⟩ : ∃ params body, c.body = .inline (.lambda params body) := by
      revert returns
      cases c.body with
      | id name => exact False.elim
      | inline expr => cases expr <;> first | exact fun _ => ⟨_, _, rfl⟩ | exact False.elim
    have gives : c.body.Gives v := unrolled.2 trivial rfl
    rw [same] at gives
    obtain ⟨returned, rfl, plain, -⟩ := gives
    exact bounded.apply_plain called plain unrolled.1 held

theorem Setting.Bounded.operand {arg : Arg} (scope : ScopeId)
    (inPlace : ∀ expr, arg = .inline expr → s.EndsWithin s.BoundedValue left (.expr expr scope)) :
    s.EndsWithin s.BoundedValue left (.operand arg scope) :=
  bounded.endsWithin called (s.operand_obeys bounded.laws trivial inPlace
    fun id expr _ found _ _ => bounded.node id expr found)

theorem Setting.Bounded.expr {arg : Arg} (unfolds : Acc s.Unfolds arg)
    (code : s.layer.hasClosures → arg.Every Expr.Bounded) {expr : Expr}
    (same : arg = .inline expr) (scope : ScopeId) :
    s.EndsWithin s.BoundedValue left (.expr expr scope) := by
  induction unfolds generalizing expr scope with
  | intro arg _ ih =>
    subst same
    refine bounded.endsWithin called (s.expression_obeys bounded.laws (fun _ _ => trivial)
      fun reached => s.form_obeys bounded.laws reached trivial ?_)
    constructor
    case operand =>
      intro inner scope evaluates _ _
      refine bounded.operand called scope fun expr same =>
        ih inner ⟨_, rfl, reached, evaluates⟩ ?_ same scope
      exact fun closures =>
        evaluates.every (fun id expr found => bounded.node id expr found closures) (code closures)
    case node => exact fun _ found _ => bounded.node _ _ found
    case definition => exact fun _ found _ _ _ => bounded.definition _ _ _ found
    case function =>
      rintro params body _ captured id rfl closures captures _
      have inner := (code closures).operand body (by simp)
      refine Value.bounded_closure ⟨inner, nofun⟩ ?_
      rintro entries rfl entry member
      exact Rules.all_of_captures captures entry member closures
    case fixpoint =>
      rintro generator _ c id rfl told closures
      refine (told.1 closures).with id fun _ => ?_
      have gives : generator.Gives (.closure c) := told.2 trivial
      have returns : generator.ReturnsFunction := (code closures).here
      match generator, returns, gives with
      | .inline (.lambda params body), returns, ⟨_, rfl, _, same⟩ => exact same ▸ returns
    case declare => exact fun _ _ _ held => held
    case assign => exact fun _ _ _ held => held
    case apply => exact bounded.apply called
    case loop =>
      rintro cond body _ rfl -
      have mutation := Layer.hasMutation_of_not_lt reached
      exact (code (Layer.hasClosures_of_hasMutation mutation)).here.elim
    case above => exact fun _ _ => trivial

end AtDepth

/-- Bounded code ends. -/
theorem Setting.Bounded.code (bounded : s.Bounded)
    (grounded : s.layer.hasMutation → s.nodes.Grounded) (left : Nat) (job : Job)
    (code : s.BoundedCode job) : s.EndsWithin s.BoundedValue left job := by
  induction left using Nat.strongRecOn generalizing job with
  | _ left called =>
    have inPlace (expr : Expr) (scope : ScopeId)
        (code : s.layer.hasClosures → expr.Every Expr.Bounded) :
        s.EndsWithin s.BoundedValue left (.expr expr scope) :=
      bounded.expr called (s.acc_unfolds grounded (.inline expr)) code rfl scope
    cases job with
    | operand arg scope =>
      refine bounded.operand called scope fun expr same => inPlace expr scope ?_
      subst same
      exact code
    | expr expr scope => exact inPlace expr scope code
    | apply callee args | block label => exact code.elim

end Jobs

structure Setting.BringsBounded {σ : Type} (s : Setting σ) : Prop where
  definition : ∀ entry ∈ s.definitions.entries, entry.2.body.Every Expr.Bounded
  literal : ∀ entry ∈ s.inputs, ∃ l, entry.2 = Value.ofLiteral l
  domain : ∀ name d, s.domains.find? name = some d → d.Bounded

namespace Document

structure Bounded (doc : Document) : Prop where
  node : ∀ node ∈ doc.nodes, node.expr.Every Expr.Bounded
  definition : ∀ d ∈ doc.definitions, d.body.Every Expr.Bounded
  result : doc.result.Every Expr.Bounded

variable {σ : Type} {doc : Document} {s prepared : Setting σ} {layer : Layer}

theorem Bounded.setting (bounded : layer.hasClosures → doc.Bounded ∧ s.BringsBounded)
    (handlers : ∀ name handler, s.handler? name = some handler → handler.Bounded)
    (ok : doc.setting s layer = .ok prepared) : prepared.Bounded := by
  obtain ⟨nodes, table, rfl⟩ := setting_eq_ok ok
  constructor
  case node =>
    intro id expr found closures
    obtain ⟨node, member, rfl⟩ := mem_nodeTable table found
    exact (bounded closures).1.node node member
  case definition =>
    intro ns name d found closures
    rcases Definitions.mem_layered (Definitions.mem_of_get? found) with new | old
    · exact (bounded closures).1.definition d new
    · exact (bounded closures).2.definition _ old
  case input =>
    intro name v found closures
    obtain ⟨before, after, split, -⟩ := List.lookup_eq_some_iff.mp found
    have member : (name, v) ∈ s.inputs := split ▸ List.mem_append_right before (.head after)
    obtain ⟨l, rfl⟩ := (bounded closures).2.literal (name, v) member
    exact (Value.ofLiteral_plain l).mono fun _ => Value.bounded_of_plain
  case domain => exact fun name d found closures => (bounded closures).2.domain name d found
  case handler => exact fun name handler found _ => handlers name handler found

/-- A document that is accepted in a layer ends there. -/
theorem finish_ends (bounded : layer.hasClosures → doc.Bounded ∧ s.BringsBounded)
    (handlers : ∀ name handler, s.handler? name = some handler → handler.Bounded)
    (grounded : layer.hasMutation → (Nodes.mk doc.nodes).Grounded) (top : Layer) (host : σ) :
    ∃ fuel, (doc.finish s fuel layer top host).isSome := by
  unfold finish
  cases doc.checkLayer layer top with
  | error cause => exact ⟨0, rfl⟩
  | ok _ =>
    cases resolved : doc.setting s layer with
    | error cause => exact ⟨0, rfl⟩
    | ok prepared =>
      have runs : prepared.Bounded := Bounded.setting bounded handlers resolved
      obtain ⟨nodes, table, rfl⟩ := setting_eq_ok resolved
      obtain rfl := nodeTable_eq_ok table
      have result := runs.code grounded s.config.maxCallDepth (.operand doc.result rootScope)
        fun closures => (bounded closures).1.result
      obtain ⟨outcome, shared, memory, yields, -⟩ := result ⟨.empty, 0, host⟩
        (.initial entryTask s.config.maxCallDepth) (.initial _ _) (Nat.le_add_left _ _)
      obtain ⟨fuel, ran⟩ := (Setting.Yields.job yields).exists_run
      exact ⟨fuel, congrArg Option.isSome ran⟩

/-- Documents end, whatever the ceiling on calls is and whether node values are kept: those in the
first layer without more, and others where their code and that of the caller is bounded. In the
third layer this takes that no node opens itself: a declaration that a sequence names is evaluated
without a call, so the ceiling does not count it. -/
theorem evaluate_ends (doc : Document) (s : Setting σ) (host : σ) :
    (doc.layer = some .air ∨ doc.Bounded ∧ s.BringsBounded →
      ∃ fuel, (doc.evaluateAirCir s fuel host).isSome) ∧
    (doc.Bounded → s.BringsBounded →
      (∀ name handler, s.handler? name = some handler → handler.Bounded) →
      (Nodes.mk doc.nodes).Grounded → ∃ fuel, (doc.evaluateEir s fuel host).isSome) := by
  constructor
  · intro allowed
    have bounded : doc.airCirLayer.hasClosures → doc.Bounded ∧ s.BringsBounded := by
      intro closures
      refine allowed.resolve_left fun air => ?_
      simp [airCirLayer, air, Layer.hasClosures] at closures
    have still : ¬ doc.airCirLayer.hasMutation := by
      unfold airCirLayer
      split <;> decide
    obtain ⟨fuel, some⟩ : ∃ fuel,
        (doc.finish { s with effects := none } fuel doc.airCirLayer .cir host).isSome :=
      finish_ends (s := { s with effects := none })
        (fun closures => ⟨(bounded closures).1, (bounded closures).2.definition,
          (bounded closures).2.literal, (bounded closures).2.domain⟩)
        (fun _ _ => nofun) (fun mutation => absurd mutation still) .cir host
    exact ⟨fuel, by simpa [evaluateAirCir, finishAirCir] using some⟩
  · intro bounded brings handlers grounded
    obtain ⟨fuel, some⟩ := finish_ends (fun _ => ⟨bounded, brings⟩) handlers (fun _ => grounded)
      .eir host
    exact ⟨fuel, by simpa [evaluateEir, evaluate] using some⟩

def knotted : Document where
  version := "1.0.0"
  layer := none
  definitions := []
  nodes := [⟨"there", .ref "back"⟩, ⟨"back", .ref "there"⟩,
    ⟨"one", .declare "n" (.inline (.lit (.int 1)))⟩]
  result := .inline (.apply (.inline (.fix (.inline (.lambda ["f"] (.inline (.lambda ["n"]
    (.inline (.apply (.id "f") [.id "there"])))))))) [.inline (.lit (.int 1))])

theorem evaluate_ends_knotted :
    (∃ fuel, (knotted.evaluateAirCir ({} : Setting Unit) fuel ()).isSome) ∧
      ∃ fuel, (knotted.evaluateEir ({} : Setting Unit) fuel ()).isSome := by
  have one : (Expr.lit (.int 1)).Every Expr.Bounded :=
    .of_operands trivial (by simp)
  have body : (Expr.apply (.id "f") [.id "there"]).Every Expr.Bounded :=
    .of_operands trivial (by simp)
  have function (name : String) (returned : Expr) (all : returned.Every Expr.Bounded) :
      (Expr.lambda [name] (.inline returned)).Every Expr.Bounded :=
    .of_operands trivial (by simpa using all)
  have bounded : knotted.Bounded := by
    refine ⟨fun node member => ?_, List.forall_mem_nil _, ?_⟩
    · simp only [knotted, List.mem_cons, List.not_mem_nil, or_false] at member
      rcases member with rfl | rfl | rfl
      · exact .of_operands trivial (by simp)
      · exact .of_operands trivial (by simp)
      · exact .of_operands trivial (by simpa using one)
    · have fixpoint : (Expr.fix (.inline (.lambda ["f"] (.inline (.lambda ["n"]
          (.inline (.apply (.id "f") [.id "there"]))))))).Every Expr.Bounded :=
        .of_operands trivial (by
          simpa using function "f" _ (function "n" _ body))
      exact .of_operands trivial (by simpa using ⟨fixpoint, one⟩)
  have brings : ({} : Setting Unit).BringsBounded :=
    { definition := by simp [Definitions.empty]
      literal := by simp
      domain := fun _ _ found _ _ _ _ all answered =>
        .of_from (Domains.builtin_conserves found _ _ _ _ answered) all }
  have grounded : (Nodes.mk knotted.nodes).Grounded := by
    intro id cycle
    obtain ⟨_, ⟨name, value, body, _, _, found, within, -, -⟩, -⟩ :=
      Relation.TransGen.head'_iff.mp cycle
    have only : value = .inline (.lit (.int 1)) := by
      have table : knotted.nodeTable = .ok ⟨knotted.nodes⟩ := by rfl
      obtain ⟨node, member, same⟩ := mem_nodeTable table found
      simp only [knotted, List.mem_cons, List.not_mem_nil, or_false] at member
      rcases member with rfl | rfl | rfl <;> cases same
      rfl
    subst only
    cases within with
    | operand _ member _ => cases member
  obtain ⟨first, second⟩ := evaluate_ends knotted ({} : Setting Unit) ()
  exact ⟨first (.inr ⟨bounded, brings⟩), second bounded brings (by rintro _ _ ⟨⟩) grounded⟩

end Document

/-- A declaration that begins with itself, as a statement, goes on for ever: no call is made on the
way, so the ceiling does not matter. -/
theorem Setting.run_opened {σ : Type} {s : Setting σ} (mutation : s.layer.hasMutation)
    {id name : String} {body : List Arg}
    (found : s.nodes.get? id = some (.declare name (.inline (.seq (.id id :: body)))))
    (rest : List Arg) (fuel : Nat) (shared : Shared σ) (scope : ScopeId) (frames : List Frame)
    (memory : Memory) :
    Task.run s fuel shared ⟨.done (.job (.expr (.seq (.id id :: rest)) scope)), frames, memory⟩ =
      none := by
  have declares : s.declaration? (.id id) = some (name, .inline (.seq (.id id :: body))) := by
    simp [Setting.declaration?, found]
  have allowed : ¬ s.layer < .eir := by
    cases layer : s.layer <;> simp [layer, Layer.hasMutation] at mutation <;> decide
  have plan (rest : List Arg) (scope : ScopeId) : ∃ next : ScopeId → Value → Plan Next,
      s.plan (.expr (.seq (.id id :: rest)) scope) = .ask (.child scope)
        fun inner => .eval (.operand (.inline (.seq (.id id :: body))) inner) (next inner) := by
    have below : (Expr.seq (.id id :: rest)).minLayer = .eir := rfl
    simp only [Setting.plan, Setting.expression, below, allowed, if_false, Setting.form,
      Setting.statements, declares]
    exact ⟨_, rfl⟩
  induction fuel using Nat.strongRecOn generalizing rest scope frames memory with
  | _ fuel ih =>
    obtain ⟨next, plan⟩ := plan rest scope
    obtain _ | _ | _ | fuel := fuel
    · rfl
    · simp only [Task.run, Task.step, plan]
    · simp only [Task.run, Task.step, plan]
    · simp only [Task.run, Task.step, plan]
      exact ih fuel (by omega) body _ _ _

end LayeredIR
