import LayeredIR.Proofs.Likeness
import LayeredIR.Proofs.Protocol

/-! The forms of the language respect every likeness: like jobs have like plans. What a run keeps,
and how two runs compare, is left to how their queries are served. -/
namespace LayeredIR

namespace Likeness

variable {κ : Type} [Preorder κ] (L : Likeness κ) {w : κ}

section Operands

theorem lookupOrRaise_alike {a b : ScopeId} {name : String} (reads : L.reads name)
    (scope : L.scope w a b) :
    L.Plans L.value w (Plan.lookupOrRaise a name) (Plan.lookupOrRaise b name) := by
  refine (L.query_alike (.lookup reads scope)).bind fun w' found found' le answers => ?_
  cases answers with
  | none => exact L.raise_alike w' _
  | some values => exact .done values

theorem evaluate_alike {job job' : Job} (jobs : L.Jobs w job job') :
    L.Plans L.value w (Plan.evaluate job) (Plan.evaluate job') :=
  .eval jobs fun _ _ _ _ values => .done values

theorem within_alike (name : String) {job job' : Job} (jobs : L.Jobs w job job') :
    L.Plans L.value w (Plan.within ⟨name, false⟩ job) (Plan.within ⟨name, false⟩ job') :=
  .call jobs fun _ _ _ _ values => .done values

theorem inside_alike (key : String) {job job' : Job} (jobs : L.Jobs (L.inside w) job job') :
    L.Plans L.value w (Plan.within ⟨key, true⟩ job) (Plan.within ⟨key, true⟩ job') :=
  .call jobs fun _ _ _ _ values => .done values

theorem evalIn_alike {a b : ScopeId} {arg : Arg} (allowed : L.allowed arg) (scope : L.scope w a b) :
    L.Plans L.value w (Plan.evalIn a arg) (Plan.evalIn b arg) :=
  L.evaluate_alike (.operand allowed scope)

theorem evalAll_alike {a b : ScopeId} {args : List Arg} (allowed : ∀ arg ∈ args, L.allowed arg)
    (scope : L.scope w a b) :
    L.Plans (fun w => List.Forall₂ (L.value w)) w (Plan.evalAll a args) (Plan.evalAll b args) := by
  induction args generalizing w with
  | nil => exact .done .nil
  | cons arg rest ih =>
    refine (L.evalIn_alike (allowed arg (by simp)) scope).bind fun w' v v' le values => ?_
    have tail := ih (fun arg member => allowed arg (by simp [member])) (L.scope_mono le scope)
    refine tail.bind fun w'' vs vs' le' items => ?_
    exact .done (.cons (L.value_mono le' values) items)

def Arguments (w : κ) : List (String × Value) → List (String × Value) → Prop :=
  List.Forall₂ fun entry entry' => entry.1 = entry'.1 ∧ L.value w entry.2 entry'.2

theorem arguments_zip (params : List String) {vs vs' : List Value}
    (values : List.Forall₂ (L.value w) vs vs') :
    L.Arguments w (params.zip vs) (params.zip vs') := by
  induction values generalizing params with
  | nil => simp [Arguments]
  | cons head _ ih =>
    cases params with
    | nil => simp [Arguments]
    | cons name rest => exact .cons ⟨rfl, head⟩ (ih rest)

theorem defineAll_alike {a b : ScopeId} {m m' : Mutability} (mutabilities : L.mutability m m')
    {entries entries' : List (String × Value)} (writable : L.writable w a b)
    (arguments : L.Arguments w entries entries') :
    L.Plans (fun _ _ _ => True) w (Plan.defineAll a m entries) (Plan.defineAll b m' entries') := by
  induction entries generalizing w entries' with
  | nil => cases arguments; exact .done trivial
  | cons entry rest ih =>
    obtain ⟨name, v⟩ := entry
    cases arguments with
    | @cons _ entry' _ rest' head tail =>
    obtain ⟨name', v'⟩ := entry'
    obtain ⟨rfl, values⟩ := head
    refine (L.query_alike (.define writable mutabilities values)).bind
      fun w' _ _ le writable' => ?_
    exact ih writable' (tail.imp fun _ _ same => ⟨same.1, L.value_mono le same.2⟩)

theorem findSome_asError?_eq {vs vs' : List Value} (values : List.Forall₂ (L.value w) vs vs') :
    Operator.firstError? vs = Operator.firstError? vs' := by
  unfold Operator.firstError?
  induction values with
  | nil => rfl
  | cons head _ ih => simp only [List.findSome?_cons, L.asError?_eq head, ih]

theorem refuseErrors_alike {vs vs' : List Value} (values : List.Forall₂ (L.value w) vs vs') :
    L.Plans (fun _ _ _ => True) w (Plan.refuseErrors vs) (Plan.refuseErrors vs') := by
  unfold Plan.refuseErrors
  rw [L.findSome_asError?_eq values]
  cases Operator.firstError? vs' with
  | none => exact .done trivial
  | some e => exact L.raise_alike w _

theorem check_alike (op : Operator) {vs vs' : List Value}
    (values : List.Forall₂ (L.value w) vs vs') : op.check vs = op.check vs' := by
  unfold Operator.check
  rw [L.findSome_asError?_eq values, values.length_eq]

theorem operate_alike {op : Operator} (permitted : L.operator op) {vs vs' : List Value}
    (values : List.Forall₂ (L.value w) vs vs') :
    L.Plans L.value w (Plan.operate op vs) (Plan.operate op vs') := by
  have checked : L.Plans (fun _ _ _ => True) w (Plan.orRaise (op.check vs))
      (Plan.orRaise (op.check vs')) := by
    rw [L.check_alike op values]
    cases op.check vs' with
    | ok _ => exact .done trivial
    | error cause => exact L.raise_alike w cause
  refine checked.bind fun w' _ _ le _ => ?_
  refine (L.query_alike (.compute permitted (L.values_mono le values))).bind
    fun w'' result result' _ answers => ?_
  exact L.orRaise_alike answers

theorem condition_alike {v v' : Value} (values : L.value w v v') :
    L.Plans (fun _ => Eq) w (Plan.condition v) (Plan.condition v') := by
  have same := L.outline_eq values
  cases v <;> cases v' <;> simp only [Value.outline, reduceCtorEq, Value.bool.injEq,
    Value.error.injEq] at same
  all_goals first
    | (subst same; first | exact .done rfl | exact L.raise_alike w _)
    | exact L.raise_alike w _

theorem checkResult_alike (result : Option Ty) {v v' : Value} (values : L.value w v v') :
    L.Plans L.Nexts w (Plan.checkResult result v) (Plan.checkResult result v') := by
  cases result with
  | none => exact .done (.value values)
  | some ty =>
    simp only [Plan.checkResult, Value.isError, L.asError?_eq values, L.conformsTo_eq values,
      L.kind_eq values]
    exact L.ite_alike (fun _ => .done (.value values)) fun _ => L.raise_alike w _

theorem refuseError_alike {v v' : Value} (values : L.value w v v') :
    L.Plans (fun _ _ _ => True) w (Plan.refuseError v) (Plan.refuseError v') := by
  have refused (u : Value) : Plan.refuseError u =
      u.asError?.elim (return ()) fun e => Plan.raise (.raised e) := by
    cases u <;> rfl
  rw [refused v, refused v', L.asError?_eq values]
  cases v'.asError? with
  | none => exact .done trivial
  | some e => exact L.raise_alike w _

theorem checkItems_alike (of : Ty) {vs vs' : List Value}
    (values : List.Forall₂ (L.value w) vs vs') :
    L.Plans (fun _ _ _ => True) w (Plan.checkItems of vs) (Plan.checkItems of vs') := by
  induction values with
  | nil => exact .done trivial
  | cons head _ ih =>
    simp only [Plan.checkItems, L.conformsTo_eq head, L.kind_eq head]
    refine L.ite_alike (fun _ => ih) fun _ => ?_
    exact (L.refuseError_alike head).bind fun w' _ _ _ _ => L.raise_alike w' _

theorem shortCircuit_alike {op : Operator} (permitted : L.operator op) {args : List Arg}
    {a b : ScopeId} (allowed : ∀ arg ∈ args, L.allowed arg) (scope : L.scope w a b) :
    L.Plans L.Nexts w (Plan.shortCircuit op args a) (Plan.shortCircuit op args b) := by
  match args, allowed with
  | [], _ | [_], _ | _ :: _ :: _ :: _, _ => exact L.raise_alike w _
  | [left, right], allowed =>
    refine (L.evalIn_alike (allowed left (by simp)) scope).bind fun w' v v' le values => ?_
    refine (L.condition_alike values).bind fun w₂ decided decided' le' same => ?_
    cases same
    refine L.ite_alike (fun _ => .done (.value (L.value_mono le' values))) fun _ => ?_
    have again := L.scope_mono (le.trans le') scope
    refine (L.evalIn_alike (allowed right (by simp)) again).bind fun w₃ u u' le'' others => ?_
    have left' := L.value_mono (le'.trans le'') values
    exact (L.operate_alike permitted (.cons left' (.cons others .nil))).bind
      fun _ _ _ _ results => .done (.value results)

theorem fixpoint_alike (applicable : L.applicable) {v v' : Value} (values : L.value w v v') :
    L.Plans L.Nexts w (Plan.fixpoint v) (Plan.fixpoint v') := by
  have same := L.outline_eq values
  cases v with
  | closure c =>
    obtain ⟨c', rfl⟩ : ∃ c', v' = .closure c' := by
      cases v' <;> simp_all [Value.outline]
    obtain ⟨params, body, isFix, -⟩ := L.closure_parts applicable values
    have shown : c.shownParams = c'.shownParams := by
      simp only [Closure.shownParams, params, body, isFix]
    simp only [Plan.fixpoint, ← isFix, ← shown]
    refine L.ite_alike (fun _ => L.raise_alike w _) fun _ => ?_
    refine (L.query_alike .fresh).bind fun w' id id' le identity => ?_
    have generators := L.value_mono le values
    obtain ⟨-, -, -, -, captured, allowed⟩ := L.closure_parts applicable generators
    have fixpoints : L.value w' (.closure (c.fixpointOf id)) (.closure (c'.fixpointOf id')) := by
      have made : L.value w' (.closure ⟨id, c.params, c.body, c.captured, true⟩)
          (.closure ⟨id', c.params, c.body, c'.captured, true⟩) :=
        L.value_closure identity captured allowed
      simpa only [Closure.fixpointOf, params, body] using made
    exact .done (.job (.apply applicable generators (.cons fixpoints .nil)))
  | error e =>
    cases v' <;> simp only [Value.outline, reduceCtorEq, Value.error.injEq] at same
    subst same
    exact L.raise_alike w _
  | _ =>
    cases v' <;> simp only [Value.outline, reduceCtorEq] at same
    all_goals exact L.raise_alike w _

end Operands

section Forms

variable {σ σ' : Type} {s : Setting σ} {s' : Setting σ'} (like : L.Settings s s')
include like

omit like in
theorem node_memoized (id : String) (expr : Expr)
    (on : s.caches = true) :
    s.node id expr rootScope = Plan.memoized id expr fun v => .done (Next.value v) := by
  unfold Setting.caches at on
  simp only [Setting.node, on, beq_self_eq_true, Bool.and_self, if_true]
  rfl

omit like in
theorem node_uncached (id : String) (expr : Expr) (scope : ScopeId)
    (off : (s.caches && scope == rootScope) = false) :
    s.node id expr scope = .call ⟨id, false⟩ (.expr expr scope) fun v => .done (.value v) := by
  unfold Setting.caches at off
  simp only [Setting.node, off, Bool.false_eq_true, if_false]
  rfl

theorem node_alike {id : String} {expr : Expr} {a b : ScopeId}
    (found : s.nodes.get? id = some expr) (named : L.allowed (.id id) ∨ L.allowedForm (.ref id))
    (scope : L.scope w a b) : L.Plans L.Nexts w (s.node id expr a) (s'.node id expr b) := by
  obtain ⟨kept, allowed⟩ := like.code.node id expr found named
  have evaluated : L.Plans L.Nexts w
      (.call ⟨id, false⟩ (.expr expr a) fun v => .done (.value v))
      (.call ⟨id, false⟩ (.expr expr b) fun v => .done (.value v)) :=
    .call (.expr allowed scope) fun _ _ _ _ values => .done (.value values)
  by_cases root : a = rootScope
  · have root' := (L.scope_root kept scope).mp root
    subst root root'
    cases on : s.caches with
    | false =>
      have off' : s'.caches = false := by
        rcases like.cache with ⟨_, same⟩ | ⟨_, off⟩
        · rw [← same, on]
        · exact off
      rw [node_uncached id expr _ (by rw [on, Bool.false_and]),
        node_uncached id expr _ (by rw [off', Bool.false_and])]
      exact evaluated
    | true =>
      rw [node_memoized id expr on]
      rcases like.cache with ⟨plain, same⟩ | ⟨memo, off⟩
      · rw [node_memoized id expr (by rw [← same, on])]
        refine .ask (.recollect plain scope) fun w' kept kept' le answers => ?_
        cases answers with
        | some values => exact .done (.value values)
        | none =>
          have again := L.scope_mono le scope
          refine .call (.expr allowed again) fun w₂ v v' le' values => ?_
          refine .ask (.remember plain (L.scope_mono le' again) values) fun w₃ _ _ le'' _ => ?_
          exact .done (.value (L.value_mono le'' values))
      · rw [node_uncached id expr _ (by rw [off, Bool.false_and])]
        exact .memo memo kept allowed scope fun _ _ _ _ values => .done (.value values)
  · have root' : b ≠ rootScope := fun same => root ((L.scope_root kept scope).mpr same)
    rw [node_uncached id expr a (by rw [beq_eq_false_iff_ne.mpr root, Bool.and_false]),
      node_uncached id expr b (by rw [beq_eq_false_iff_ne.mpr root', Bool.and_false])]
    exact evaluated

theorem operand_alike {arg : Arg} {a b : ScopeId} (allowed : L.allowed arg)
    (scope : L.scope w a b) : L.Plans L.Nexts w (s.operand arg a) (s'.operand arg b) := by
  cases arg with
  | inline expr => exact .done (.job (.expr allowed scope))
  | id name =>
    simp only [Setting.operand, ← like.nodes]
    cases found : s.nodes.get? name with
    | some expr =>
      have nodes := L.node_alike like found (.inl allowed) scope
      exact nodes
    | none =>
      have reads := like.code.unknown name found allowed
      exact (L.lookupOrRaise_alike reads scope).bind fun _ _ _ _ values =>
        .done (.value values)

theorem apply_alike {callee callee' : Value} {args args' : List Value}
    (applicable : L.applicable) (callees : L.value w callee callee')
    (operands : List.Forall₂ (L.value w) args args') :
    L.Plans L.Nexts w (s.apply callee args) (s'.apply callee' args') := by
  have same := L.outline_eq callees
  cases callee with
  | closure c =>
    obtain ⟨c', rfl⟩ : ∃ c', callee' = .closure c' := by
      cases callee' <;> simp_all [Value.outline]
    obtain ⟨params, body, isFix, identity, captured, allowed⟩ := L.closure_parts applicable callees
    simp only [Setting.apply, ← params, ← body, ← isFix, operands.length_eq]
    refine L.ite_alike (fun _ => ?_) fun _ => ?_
    · have generators : L.value w (.closure c.generator) (.closure c'.generator) := by
        have made : L.value w (.closure ⟨c.id, c.params, c.body, c.captured, false⟩)
            (.closure ⟨c'.id, c.params, c.body, c'.captured, false⟩) :=
          L.value_closure identity captured allowed
        simpa only [Closure.generator, params, body] using made
      refine (L.evaluate_alike (.apply applicable generators (.cons callees .nil))).bind
        fun w' v v' le unrolled => ?_
      exact .done (.job (.apply applicable unrolled (L.values_mono le operands)))
    · refine L.ite_alike (fun _ => L.raise_alike w _) fun _ => ?_
      refine (L.query_alike (.enter applicable captured)).bind fun w' a b le made => ?_
      have arguments := L.arguments_zip c.params (L.values_mono le operands)
      refine (L.defineAll_alike like.mutability made.writable arguments).bind
        fun w₂ _ _ le' _ => ?_
      refine (L.within_alike "<closure>" (.operand allowed (L.scope_mono le' made.scope))).bind
        fun _ _ _ _ values => ?_
      exact .done (.value values)
  | error e =>
    cases callee' <;> simp only [Value.outline, reduceCtorEq, Value.error.injEq] at same
    subst same
    exact L.raise_alike w _
  | _ =>
    have kinds := L.kind_eq callees
    cases callee' <;> simp only [Value.outline, reduceCtorEq] at same
    all_goals exact L.raise_alike w _

theorem definitionBody_alike (key : String) {d : Definition} (allowed : L.allowed d.body)
    {values values' : List Value} (operands : List.Forall₂ (L.value w) values values') :
    L.Plans L.value w (s.definitionBody key d values) (s'.definitionBody key d values') := by
  unfold Setting.definitionBody
  refine (L.query_alike (.child (L.outer_root w))).bind fun w' a b le made => ?_
  have arguments := L.arguments_zip d.params (L.values_mono le operands)
  refine (L.defineAll_alike like.mutability made.writable arguments).bind fun w₂ _ _ le' _ => ?_
  have inside := L.scope_mono (L.inside_mono le') made.inside
  exact L.inside_alike key (.operand allowed inside)

theorem callDefinition_alike {ns name : String} {args : List Arg} {a b : ScopeId}
    (called : L.allowedForm (.airRef ns name args)) (scope : L.scope w a b) :
    L.Plans L.Nexts w (s.callDefinition ns name args a) (s'.callDefinition ns name args b) := by
  have allowed : ∀ arg ∈ args, L.allowed arg := fun _ => L.allowed_operand called
  unfold Setting.callDefinition
  rw [← like.definitions]
  cases found : s.definitions.get? ns name with
  | none => exact L.raise_alike w _
  | some d =>
    refine (L.query_alike .isActive).bind fun w' active active' le same => ?_
    cases same
    refine L.ite_alike (fun _ => L.raise_alike w' _) fun _ => ?_
    refine L.ite_alike (fun _ => L.raise_alike w' _) fun _ => ?_
    refine (L.evalAll_alike allowed (L.scope_mono le scope)).bind fun w₂ vs vs' _ operands => ?_
    have body := L.definitionBody_alike like (definitionKey ns name)
      (like.code.definition ns name args d found called) operands
    exact body.bind fun w₃ v v' _ values => L.checkResult_alike d.result values

theorem callOperator_alike {ns : Option String} {name : String} {args : List Arg} {a b : ScopeId}
    (permitted : Permitted L.operator L.operation ns name)
    (allowed : ∀ arg ∈ args, L.allowed arg) (scope : L.scope w a b) :
    L.Plans L.Nexts w (s.callOperator ns name args a) (s'.callOperator ns name args b) := by
  unfold Setting.callOperator
  unfold Permitted at permitted
  refine L.ite_alike (fun core => ?_) fun other => ?_
  · rw [if_pos core] at permitted
    cases found : Operator.ofName? name with
    | none => exact L.raise_alike w _
    | some op =>
      refine L.ite_alike (fun _ => L.shortCircuit_alike (permitted op found) allowed scope)
        fun _ => ?_
      refine (L.evalAll_alike allowed scope).bind fun w' vs vs' _ operands => ?_
      exact (L.operate_alike (permitted op found) operands).bind fun _ _ _ _ results =>
        .done (.value results)
  · rw [if_neg other] at permitted
    simp only [← like.domains, Domains.get]
    cases found : s.domains.find? (ns.getD "") with
    | none => exact L.raise_alike w _
    | some domain =>
      have known := like.domain _ domain found
      refine (L.evalAll_alike allowed scope).bind fun w' vs vs' _ operands => ?_
      refine (L.refuseErrors_alike operands).bind fun w₂ _ _ le _ => ?_
      exact (L.query_alike (.dispatch known permitted (L.values_mono le operands))).bind
        fun w₃ e e' _ answers => (L.orRaise_alike answers).bind fun _ _ _ _ results =>
          .done (.value results)

theorem performEffect_alike (effects : s.layer.hasEffects) (op : String)
    {args args' : Plan (List Value)}
    (operands : L.Plans (fun w => List.Forall₂ (L.value w)) w args args') :
    L.Plans L.value w (s.performEffect op args) (s'.performEffect op args') := by
  unfold Setting.performEffect
  rw [← like.handlers effects]
  refine L.ite_alike (fun _ => ?_) fun _ => L.raise_alike w _
  refine operands.bind fun w' vs vs' _ values => ?_
  refine (L.refuseErrors_alike values).bind fun w₂ _ _ le _ => ?_
  have performs := like.effects effects
  refine (L.query_alike (.perform performs (L.values_mono le values))).bind
    fun w₃ e e' _ answers => ?_
  match e, e', answers with
  | .ok v, .ok v', related => exact .done related
  | .error fault, .error fault', faults => exact .fail faults

/-- A function in place: its closure takes the scope along, or a copy of what is visible there. -/
theorem lambda_alike {params : List String} {body : Arg} {a b : ScopeId}
    (closures : s.layer.hasClosures) (allowed : L.allowed body) (scope : L.scope w a b) :
    L.Plans L.Nexts w (s.form (.lambda params body) a) (s'.form (.lambda params body) b) := by
  have made {w₁ w₂ : κ} {c c' : Captured} {id id' : Identity} (le : w₁ ≤ w₂)
      (captured : L.captured w₁ c c') (ids : L.identity w₂ id id') :
      L.Plans L.Nexts w₂ (.done (.value (.closure ⟨id, params, body, c, false⟩)))
        (.done (.value (.closure ⟨id', params, body, c', false⟩))) :=
    .done (.value (L.value_closure ids (L.captured_mono le captured) allowed))
  have named {w₁ : κ} {c c' : Captured} (captured : L.captured w₁ c c') :
      L.Plans L.Nexts w₁
        (.ask .fresh fun id => .done (.value (.closure ⟨id, params, body, c, false⟩)))
        (.ask .fresh fun id => .done (.value (.closure ⟨id, params, body, c', false⟩))) :=
    .ask .fresh fun _ _ _ le ids => made le captured ids
  simp only [Setting.form, Setting.capture]
  rcases like.captures with ⟨plain, same⟩ | ⟨copying, shares, copies⟩
  · rw [← same]
    cases copies : s.layer.copiesCaptures with
    | true =>
      exact .ask (.flatten plain (like.snapshots copies) scope) fun w' _ _ _ entries =>
        named (like.frozen copies w' _ _ entries)
    | false => exact named (like.shared closures (same ▸ copies) w a b scope)
  · rw [shares, copies]
    exact .copy copying scope fun w' entries id id' _ captured ids => made le_rfl captured ids

theorem declaration?_eq (statement : Arg) :
    s.declaration? statement = s'.declaration? statement := by
  cases statement <;> simp only [Setting.declaration?, like.nodes]

/-- What a statement declares is part of the statement, or of the node that it names. -/
theorem declaration?_allowed {statement : Arg} (allowed : L.allowed statement) {name : String}
    {value : Arg} (declared : s.declaration? statement = some (name, value)) : L.allowed value := by
  have part (every : L.allowedForm (.declare name value)) : L.allowed value :=
    L.allowed_operand every (by simp)
  rcases Setting.declaration?_eq_some declared with rfl | ⟨node, rfl, found⟩
  · exact part allowed
  · exact part (like.code.node node _ found (.inl allowed)).2

theorem statements_alike {last last' : Value} {body : List Arg} {a b : ScopeId}
    (values : L.value w last last') (allowed : ∀ arg ∈ body, L.allowed arg)
    (scope : L.scope w a b) :
    L.Plans L.Nexts w (s.statements last body a) (s'.statements last' body b) := by
  induction body generalizing w last last' a b with
  | nil => exact .done (.value values)
  | cons statement rest ih =>
    have allowed' : ∀ arg ∈ rest, L.allowed arg := fun arg member => allowed arg (by simp [member])
    simp only [Setting.statements, ← L.declaration?_eq like]
    cases declared : s.declaration? statement with
    | none =>
      refine (L.evalIn_alike (allowed statement (by simp)) scope).bind fun w' v v' le values' => ?_
      exact ih values' allowed' (L.scope_mono le scope)
    | some declaration =>
      obtain ⟨name, value⟩ := declaration
      have part := L.declaration?_allowed like (allowed statement (by simp)) declared
      refine (L.evalIn_alike part scope).bind fun w' v v' le values' => ?_
      have outer := L.outer_of_scope (L.scope_mono le scope)
      refine (L.query_alike (.child outer)).bind fun w₂ inner inner' le' made => ?_
      have later := L.value_mono le' values'
      refine (L.query_alike (.define made.writable (L.mutability_self .mutable) later)).bind
        fun w₃ _ _ le'' _ => ?_
      exact ih (L.value_void w₃) allowed' (L.scope_mono le'' made.scope)

theorem form_alike {expr : Expr} {a b : ScopeId} (allowed : L.allowedForm expr)
    (reached : ¬ s.layer < expr.minLayer) (scope : L.scope w a b) :
    L.Plans L.Nexts w (s.form expr a) (s'.form expr b) := by
  have operands : ∀ arg ∈ expr.operands, L.allowed arg := fun _ => L.allowed_operand allowed
  cases expr with
  | lit value => exact .done (.value (L.value_literal w value))
  | ref id =>
    simp only [Setting.form, ← like.nodes]
    cases found : s.nodes.get? id with
    | some expr => exact L.node_alike like found (.inr allowed) scope
    | none => exact L.raise_alike w _
  | var name =>
    exact (L.lookupOrRaise_alike (L.allowed_var allowed) scope).bind fun _ _ _ _ values =>
      .done (.value values)
  | input name =>
    have inputs := like.inputs w name
    simp only [Setting.form]
    generalize s.input? name = input, s'.input? name = input' at inputs ⊢
    cases inputs with
    | none => exact L.raise_alike w _
    | some values => exact .done (.value values)
  | call ns name args => exact L.callOperator_alike like (L.allowed_call allowed) operands scope
  | ifThenElse cond thenArg elseArg =>
    refine (L.evalIn_alike (operands cond (by simp)) scope).bind
      fun w' v v' le values => ?_
    refine (L.condition_alike values).bind fun w₂ _ _ le' same => ?_
    cases same
    have again := L.scope_mono (le.trans le') scope
    exact L.ite_alike
      (fun _ => .done (.job (.operand (operands thenArg (by simp)) again)))
      fun _ => .done (.job (.operand (operands elseArg (by simp)) again))
  | letIn name value body =>
    refine (L.evalIn_alike (operands value (by simp)) scope).bind
      fun w' v v' le values => ?_
    have outer := L.outer_of_scope (L.scope_mono le scope)
    refine (L.query_alike (.child outer)).bind fun w₂ inner inner' le' made => ?_
    refine (L.query_alike (.define made.writable like.mutability (L.value_mono le' values))).bind
      fun w₃ _ _ le'' _ => ?_
    exact .done (.job (.operand (operands body (by simp))
      (L.scope_mono le'' made.scope)))
  | airRef ns name args => exact L.callDefinition_alike like allowed scope
  | list of items =>
    refine (L.evalAll_alike operands scope).bind fun w' vs vs' _ values => ?_
    refine (L.checkItems_alike of values).bind fun w₂ _ _ le _ => ?_
    exact .done (.value (L.value_list (L.values_mono le values)))
  | lambda params body =>
    have closures := Layer.hasClosures_of_not_lt reached
    exact L.lambda_alike like closures (operands body (by simp)) scope
  | apply callee args =>
    have closures := like.closures (Layer.hasClosures_of_not_lt reached)
    refine (L.evalIn_alike (operands callee (by simp)) scope).bind
      fun w' v v' le callees => ?_
    have rest : ∀ arg ∈ args, L.allowed arg :=
      fun arg member => operands arg (by simp [member])
    refine (L.evalAll_alike rest (L.scope_mono le scope)).bind fun w₂ vs vs' le' values => ?_
    exact .done (.job (.apply closures (L.value_mono le' callees) values))
  | fix generator =>
    have closures := like.closures (Layer.hasClosures_of_not_lt reached)
    exact (L.evalIn_alike (operands generator (by simp)) scope).bind
      fun _ _ _ _ values => L.fixpoint_alike closures values
  | seq body =>
    refine (L.query_alike (.child (L.outer_of_scope scope))).bind fun w' inner inner' _ made => ?_
    exact L.statements_alike like (L.value_void w') operands made.scope
  | declare name value =>
    have mutation := like.mutation (Layer.hasMutation_of_not_lt reached)
    refine (L.evalIn_alike (operands value (by simp)) scope).bind
      fun w' v v' le values => ?_
    have writable := L.writable_of_scope mutation (L.scope_mono le scope)
    exact (L.query_alike (.define writable (L.mutability_self .mutable) values)).bind
      fun w₂ _ _ _ _ => .done (.value (L.value_void w₂))
  | assign name value =>
    refine (L.evalIn_alike (operands value (by simp)) scope).bind
      fun w' v v' le values => ?_
    have mutation := like.mutation (Layer.hasMutation_of_not_lt reached)
    refine (L.query_alike (.assign mutation (L.scope_mono le scope) values)).bind
      fun w₂ result result' _ same => ?_
    cases same
    match result with
    | .ok () => exact .done (.value (L.value_void w₂))
    | .error .undefined | .error .immutable => exact L.raise_alike w₂ _
  | whileDo cond body =>
    refine (L.evalIn_alike (operands cond (by simp)) scope).bind
      fun w' v v' le values => ?_
    refine (L.condition_alike values).bind fun w₂ _ _ le' same => ?_
    cases same
    have again := L.scope_mono (le.trans le') scope
    refine L.ite_alike (fun _ => ?_) fun _ => .done (.value (L.value_void w₂))
    refine (L.evalIn_alike (operands body (by simp)) again).bind
      fun w₃ _ _ le'' _ => ?_
    exact .done (.job (.expr allowed (L.scope_mono le'' again)))
  | effect op args =>
    have effects := Layer.hasEffects_of_not_lt reached
    exact (L.performEffect_alike like effects op (L.evalAll_alike operands scope)).bind
      fun _ _ _ _ values => .done (.value values)

theorem expression_alike {expr : Expr} {a b : ScopeId} (allowed : L.allowedForm expr)
    (scope : L.scope w a b) : L.Plans L.Nexts w (s.expression expr a) (s'.expression expr b) := by
  unfold Setting.expression
  rcases like.layer with same | fits
  · rw [← same]
    refine L.ite_alike (fun _ => ?_) fun reached => L.form_alike like allowed reached scope
    exact (L.query_alike .innermost).bind fun w' place place' _ places =>
      .fail (L.fault_place places _ _)
  · obtain ⟨reached, reached'⟩ := fits expr allowed
    rw [if_neg reached, if_neg reached']
    exact L.form_alike like allowed reached scope

end Forms

end Likeness
end LayeredIR
