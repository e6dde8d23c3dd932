import LayeredIR.Proofs.References.Plans

/-! The forms of respelled code. Each makes the same requests as before; the one difference is that
an operand that has become a reference is looked at once more before its node is evaluated. -/
namespace LayeredIR

variable {σ : Type}

def Setting.withCode (s : Setting σ) (nodes : Nodes) (definitions : Definitions) : Setting σ :=
  { s with nodes := nodes, definitions := definitions }

/-- A setting in which closures share their scopes, no domain reads the code of closures, and the
code is respelled by other nodes and definitions. -/
structure Setting.Respelled (s : Setting σ) (nodes : Nodes)
    (definitions : Definitions) : Prop where
  nodes : ∀ id, Option.Rel (Expr.Respelled s.nodes s.layer) (s.nodes.get? id) (nodes.get? id)
  definitions : ∀ ns name, Option.Rel (Definition.Respelled s.nodes s.layer)
    (s.definitions.get? ns name) (definitions.get? ns name)
  domain : ∀ name d, s.domains.find? name = some d →
    d.Respects (fun _ : Unit => Value.Respelled s.nodes s.layer) fun _ => True
  sharing : s.layer.copiesCaptures = false

section Operands

variable {nodes : Nodes} {layer : Layer}

namespace Plan

theorem lookupOrRaise_respelled (scope : ScopeId) (name : String) :
    (lookupOrRaise scope name).Respelled nodes layer (Value.Respelled nodes layer)
      (lookupOrRaise scope name) :=
  .of_likeness <| (Likeness.respelled nodes layer).lookupOrRaise_alike (w := ()) trivial rfl

theorem operate_respelled (op : Operator) {vs vs' : List Value}
    (values : List.Forall₂ (Value.Respelled nodes layer) vs vs') :
    (operate op vs).Respelled nodes layer (Value.Respelled nodes layer) (operate op vs') :=
  .of_likeness <| (Likeness.respelled nodes layer).operate_alike (w := ()) trivial values

theorem condition_respelled {v v' : Value} (values : v.Respelled nodes layer v') :
    (condition v).Respelled nodes layer Eq (condition v') :=
  .of_likeness <| (Likeness.respelled nodes layer).condition_alike (w := ()) values

theorem refuseErrors_respelled {vs vs' : List Value}
    (values : List.Forall₂ (Value.Respelled nodes layer) vs vs') :
    (refuseErrors vs).Respelled nodes layer (fun _ _ => True) (refuseErrors vs') :=
  .of_likeness <| (Likeness.respelled nodes layer).refuseErrors_alike (w := ()) values

theorem checkItems_respelled (of : Ty) {vs vs' : List Value}
    (values : List.Forall₂ (Value.Respelled nodes layer) vs vs') :
    (checkItems of vs).Respelled nodes layer (fun _ _ => True) (checkItems of vs') :=
  .of_likeness <| (Likeness.respelled nodes layer).checkItems_alike (w := ()) of values

theorem shortCircuit_respelled (op : Operator) {args args' : List Arg}
    (operands : List.Forall₂ (Arg.Respelled nodes layer) args args') (scope : ScopeId) :
    (shortCircuit op args scope).Respelled nodes layer (Next.Respelled nodes layer)
      (shortCircuit op args' scope) := by
  match operands with
  | .nil | .cons _ .nil => exact .fail _
  | .cons _ (.cons _ (.cons _ rest)) =>
    simp only [shortCircuit, List.length_cons, rest.length_eq]
    exact .fail _
  | .cons left (.cons right .nil) =>
    refine (evalIn_respelled left scope).bind fun v v' values => ?_
    refine (condition_respelled values).bind fun decided _ same => ?_
    obtain rfl := same
    refine .ite (fun _ => .done (.value values)) fun _ => ?_
    refine (evalIn_respelled right scope).bind fun u u' others => ?_
    exact (operate_respelled op (.cons values (.cons others .nil))).bind
      fun _ _ results => .done (.value results)

end Plan

/-- A reference is no function, so the functions that a fixpoint shows are in place in both. -/
theorem Closure.shownParams_recoded {c c' : Closure}
    (closures : c.Recoded (Arg.Respelled nodes layer) c') : c.shownParams = c'.shownParams := by
  unfold shownParams
  rw [closures.isFix, closures.params]
  have codes := closures.codes
  generalize c.body = body, c'.body = body' at codes
  cases codes with
  | id | reference => rfl
  | inline parts => cases parts <;> rfl

/-- A closure with its own body under another identity, as a generator or as its fixpoint. -/
theorem Closure.Recoded.again {code : Arg → Arg → Prop} {c c' : Closure}
    (closures : c.Recoded code c') (isFix : Bool) (id : Identity) :
    Closure.Recoded code { c with id := id, isFix := isFix } { c' with id := id, isFix := isFix } :=
  ⟨rfl, closures.params, rfl, closures.codes, closures.captured⟩

theorem Plan.fixpoint_respelled {v v' : Value} (values : v.Respelled nodes layer v') :
    (fixpoint v).Respelled nodes layer (Next.Respelled nodes layer) (fixpoint v') := by
  have shapes := (Resemblance.recoded Arg.Respelled.refl).shapes (w := ()) values
  cases shapes with
  | leaf plain =>
    cases v with
    | closure => cases plain
    | _ => exact .fail _
  | list | set | future => exact .fail _
  | @closure c c' =>
    have closures := values.closure
    simp only [fixpoint, closures.isFix, Closure.shownParams_recoded closures]
    refine .ite (fun _ => .fail _) fun _ => ?_
    refine (Respelled.query .fresh).bind fun id _ same => ?_
    obtain rfl : id = _ := same
    exact .done (.job (.apply values (.cons (closures.again true id).value .nil)))

end Operands

section Forms

variable {s : Setting σ} {nodes : Nodes} {definitions : Definitions}
  (same : s.Respelled nodes definitions)
include same

namespace Setting

omit same in
theorem node_respelled (id : String) {expr expr' : Expr}
    (parts : expr.Respelled s.nodes s.layer expr') (scope : ScopeId) :
    (s.node id expr scope).Respelled s.nodes s.layer (Next.Respelled s.nodes s.layer)
      ((s.withCode nodes definitions).node id expr' scope) := by
  unfold node
  refine .ite (fun _ => ?_) fun _ => ?_
  · refine (Plan.Respelled.query (.recollect not_false rfl)).bind fun kept kept' answers => ?_
    cases answers with
    | some values => exact .done (.value values)
    | none =>
      refine (Plan.Respelled.within _ (.expr parts)).bind fun v v' values => ?_
      exact (Plan.Respelled.query (.remember not_false rfl values)).bind
        fun _ _ _ => .done (.value values)
  · exact (Plan.Respelled.within _ (.expr parts)).bind fun _ _ values => .done (.value values)

theorem ref_respelled (id : String) (scope : ScopeId) :
    (s.form (.ref id) scope).Respelled s.nodes s.layer (Next.Respelled s.nodes s.layer)
      ((s.withCode nodes definitions).form (.ref id) scope) := by
  have found := same.nodes id
  simp only [form, withCode]
  generalize s.nodes.get? id = node, nodes.get? id = node' at found
  cases found with
  | none => exact .fail _
  | some parts => exact node_respelled id parts scope

omit same in
theorem apply_respelled {callee callee' : Value} {args args' : List Value}
    (callees : callee.Respelled s.nodes s.layer callee')
    (operands : List.Forall₂ (Value.Respelled s.nodes s.layer) args args') :
    (s.apply callee args).Respelled s.nodes s.layer (Next.Respelled s.nodes s.layer)
      ((s.withCode nodes definitions).apply callee' args') := by
  have shapes := (Resemblance.recoded Arg.Respelled.refl).shapes (w := ()) callees
  cases shapes with
  | leaf plain =>
    cases callee with
    | closure => cases plain
    | _ => exact .fail _
  | list | set | future => exact .fail _
  | @closure c c' =>
    have closures := callees.closure
    simp only [apply, closures.isFix, closures.params, operands.length_eq]
    refine .ite (fun _ => ?_) fun _ => .ite (fun _ => .fail _) fun _ => ?_
    · have generators : Value.Respelled s.nodes s.layer (.closure c.generator)
          (.closure c'.generator) :=
        Closure.Recoded.value
          ⟨closures.id, closures.params, rfl, closures.codes, closures.captured⟩
      refine Plan.Respelled.bind (.eval (.apply generators (.cons callees .nil))
        fun _ _ values => .done values) fun v v' unrolled => ?_
      exact .done (.job (.apply unrolled operands))
    · refine .enter closures.captured fun scope _ same => ?_
      obtain rfl := same
      refine (Plan.defineAll_respelled scope s.localMutability _ operands).bind fun _ _ _ => ?_
      exact (Plan.Respelled.within _ (.operand closures.codes)).bind
        fun _ _ values => .done (.value values)

omit same in
theorem definitionBody_respelled (key : String) {d d' : Definition}
    (spelled : Definition.Respelled s.nodes s.layer d d') {vs vs' : List Value}
    (values : List.Forall₂ (Value.Respelled s.nodes s.layer) vs vs') :
    (s.definitionBody key d vs).Respelled s.nodes s.layer (Value.Respelled s.nodes s.layer)
      ((s.withCode nodes definitions).definitionBody key d' vs') := by
  unfold definitionBody
  rw [← spelled.params_eq]
  refine (Plan.Respelled.query (.child rfl)).bind fun inner _ made => ?_
  obtain rfl : inner = _ := made.scope
  refine (Plan.defineAll_respelled inner s.localMutability _ values).bind fun _ _ _ => ?_
  exact Plan.Respelled.within _ (.operand spelled.body)

theorem callDefinition_respelled (ns name : String) {args args' : List Arg}
    (operands : List.Forall₂ (Arg.Respelled s.nodes s.layer) args args') (scope : ScopeId) :
    (s.callDefinition ns name args scope).Respelled s.nodes s.layer
      (Next.Respelled s.nodes s.layer)
      ((s.withCode nodes definitions).callDefinition ns name args' scope) := by
  have found := same.definitions ns name
  simp only [callDefinition]
  change Option.Rel _ _ ((s.withCode nodes definitions).definitions.get? ns name) at found
  generalize s.definitions.get? ns name = known,
    (s.withCode nodes definitions).definitions.get? ns name = known' at found
  cases found with
  | none => exact .fail _
  | @some d d' spelled =>
    refine (Plan.Respelled.query .isActive).bind fun active _ same => ?_
    obtain rfl : active = _ := same
    simp only [← spelled.params_eq, ← spelled.result_eq, operands.length_eq]
    refine .ite (fun _ => .fail _) fun _ => .ite (fun _ => .fail _) fun _ => ?_
    refine (Plan.evalAll_respelled operands scope).bind fun vs vs' values => ?_
    refine (definitionBody_respelled _ spelled values).bind fun v v' results => ?_
    exact Plan.checkResult_respelled d.result results

theorem callOperator_respelled (ns : Option String) (name : String) {args args' : List Arg}
    (operands : List.Forall₂ (Arg.Respelled s.nodes s.layer) args args') (scope : ScopeId) :
    (s.callOperator ns name args scope).Respelled s.nodes s.layer (Next.Respelled s.nodes s.layer)
      ((s.withCode nodes definitions).callOperator ns name args' scope) := by
  unfold callOperator
  refine .ite (fun _ => ?_) fun _ => ?_
  · cases Operator.ofName? name with
    | none => exact .fail _
    | some op =>
      refine .ite (fun _ => Plan.shortCircuit_respelled op operands scope) fun _ => ?_
      refine (Plan.evalAll_respelled operands scope).bind fun vs vs' values => ?_
      exact (Plan.operate_respelled op values).bind fun _ _ results => .done (.value results)
  · simp only [withCode, Domains.get]
    cases found : s.domains.find? (ns.getD "") with
    | none => exact .fail _
    | some domain =>
      refine (Plan.evalAll_respelled operands scope).bind fun vs vs' values => ?_
      refine (Plan.refuseErrors_respelled values).bind fun _ _ _ => ?_
      have known := same.domain _ domain found
      refine (Plan.Respelled.query (.dispatch known trivial values)).bind fun e e' answers => ?_
      exact (Plan.Respelled.of_likeness ((Likeness.respelled s.nodes s.layer).orRaise_alike
        (w := ()) answers)).bind fun _ _ results => .done (.value results)

omit same in
theorem performEffect_respelled (op : String) {args args' : Plan (List Value)}
    (operands : args.Respelled s.nodes s.layer
      (List.Forall₂ (Value.Respelled s.nodes s.layer)) args') :
    (s.performEffect op args).Respelled s.nodes s.layer (Value.Respelled s.nodes s.layer)
      ((s.withCode nodes definitions).performEffect op args') := by
  unfold performEffect
  refine .ite (fun _ => ?_) fun _ => .fail _
  refine operands.bind fun vs vs' values => ?_
  refine (Plan.refuseErrors_respelled values).bind fun _ _ _ => ?_
  refine (Plan.Respelled.query (.perform trivial values)).bind fun e e' answers => ?_
  match e, e', answers with
  | .ok _, .ok _, related => exact .done related
  | .error fault, .error _, faults =>
    obtain rfl : fault = _ := faults
    exact .fail fault

theorem lambda_respelled (params : List String) {body body' : Arg}
    (codes : body.Respelled s.nodes s.layer body') (scope : ScopeId) :
    (s.form (.lambda params body) scope).Respelled s.nodes s.layer (Next.Respelled s.nodes s.layer)
      ((s.withCode nodes definitions).form (.lambda params body') scope) := by
  simp only [form, capture, withCode, same.sharing]
  refine (Plan.Respelled.query .fresh).bind fun id _ same => ?_
  obtain rfl : id = _ := same
  exact .done (.value (Closure.Recoded.value ⟨rfl, rfl, rfl, codes, .shared scope⟩))

/-- A statement that names a declaration is kept, so the same statements declare variables. -/
theorem declaration?_respelled {statement statement' : Arg}
    (parts : statement.Respelled s.nodes s.layer statement')
    (kept : s.nodes.Keeps statement statement') :
    Option.Rel (fun p p' => p.1 = p'.1 ∧ Arg.Respelled s.nodes s.layer p.2 p'.2)
      (s.declaration? statement) ((s.withCode nodes definitions).declaration? statement') := by
  cases parts with
  | id name =>
    have found := same.nodes name
    simp only [declaration?, withCode]
    generalize s.nodes.get? name = node, nodes.get? name = node' at found
    cases found with
    | none => exact .none
    | some parts =>
      cases parts with
      | declare bound => exact .some ⟨rfl, bound⟩
      | _ => exact .none
  | @reference name known =>
    -- a reference in place declares nothing, so the id must not have named a declaration
    cases declared : s.declaration? (.id name) with
    | none => exact .none
    | some p =>
      rcases declaration?_eq_some declared with named | ⟨node, named, found⟩
      · cases named
      · cases kept node _ _ named found
  | inline parts =>
    cases parts with
    | declare bound => exact .some ⟨rfl, bound⟩
    | _ => exact .none

theorem statements_respelled {last last' : Value} (values : last.Respelled s.nodes s.layer last')
    {body body' : List Arg} (parts : List.Forall₂ (Arg.Respelled s.nodes s.layer) body body')
    (kept : List.Forall₂ s.nodes.Keeps body body') (scope : ScopeId) :
    (s.statements last body scope).Respelled s.nodes s.layer (Next.Respelled s.nodes s.layer)
      ((s.withCode nodes definitions).statements last' body' scope) := by
  induction parts generalizing last last' scope with
  | nil => exact .done (.value values)
  | @cons statement statement' rest rest' head _ ih =>
    obtain ⟨keeps, further⟩ := List.forall₂_cons.mp kept
    have declared := declaration?_respelled same head keeps
    simp only [statements]
    generalize s.declaration? statement = declaration,
      (s.withCode nodes definitions).declaration? statement' = declaration' at declared
    cases declared with
    | none =>
      exact (Plan.evalIn_respelled head scope).bind fun v v' values => ih values further scope
    | @some p p' both =>
      obtain ⟨name, value⟩ := p
      obtain ⟨name', value'⟩ := p'
      obtain ⟨rfl : name = name', bound⟩ := both
      refine (Plan.evalIn_respelled bound scope).bind fun v v' values => ?_
      refine (Plan.Respelled.query (.child rfl)).bind fun inner _ made => ?_
      obtain rfl : inner = _ := made.scope
      refine (Plan.Respelled.query (.define rfl rfl values)).bind fun _ _ _ => ?_
      exact ih (.leaf rfl) further inner

theorem form_respelled {expr expr' : Expr} (reached : ¬ s.layer < expr.minLayer)
    (parts : expr.Respelled s.nodes s.layer expr') (scope : ScopeId) :
    (s.form expr scope).Respelled s.nodes s.layer (Next.Respelled s.nodes s.layer)
      ((s.withCode nodes definitions).form expr' scope) := by
  cases parts with
  | lit value => exact .done (.value (.refl Arg.Respelled.refl _))
  | ref id => exact ref_respelled same id scope
  | var name =>
    exact (Plan.lookupOrRaise_respelled scope name).bind fun _ _ values => .done (.value values)
  | input name =>
    change (form s (.input name) scope).Respelled _ _ _ (form s (.input name) scope)
    simp only [form]
    cases s.input? name with
    | none => exact .fail _
    | some value => exact .done (.value (.refl Arg.Respelled.refl _))
  | call operands => exact callOperator_respelled same _ _ operands scope
  | airRef operands => exact callDefinition_respelled same _ _ operands scope
  | lambda within => exact lambda_respelled same _ within scope
  | effect operands =>
    exact (performEffect_respelled _ (Plan.evalAll_respelled operands scope)).bind
      fun _ _ values => .done (.value values)
  | ifThenElse test yes no =>
    refine (Plan.evalIn_respelled test scope).bind fun v v' values => ?_
    refine (Plan.condition_respelled values).bind fun holds _ same => ?_
    obtain rfl := same
    exact .ite (fun _ => .done (.job (.operand yes))) fun _ => .done (.job (.operand no))
  | letIn bound within =>
    refine (Plan.evalIn_respelled bound scope).bind fun v v' values => ?_
    refine (Plan.Respelled.query (.child rfl)).bind fun inner _ made => ?_
    obtain rfl : inner = _ := made.scope
    exact (Plan.Respelled.query (.define rfl rfl values)).bind
      fun _ _ _ => .done (.job (.operand within))
  | list operands =>
    refine (Plan.evalAll_respelled operands scope).bind fun vs vs' values => ?_
    exact (Plan.checkItems_respelled _ values).bind
      fun _ _ _ => .done (.value (.of_list values))
  | apply called operands =>
    refine (Plan.evalIn_respelled called scope).bind fun v v' callees => ?_
    exact (Plan.evalAll_respelled operands scope).bind
      fun vs vs' values => .done (.job (.apply callees values))
  | fix unrolled =>
    exact (Plan.evalIn_respelled unrolled scope).bind
      fun _ _ values => Plan.fixpoint_respelled values
  | seq statements kept =>
    refine (Plan.Respelled.query (.child rfl)).bind fun inner _ made => ?_
    obtain rfl : inner = _ := made.scope
    have keeps := kept (Layer.hasMutation_of_not_lt reached)
    exact statements_respelled same (.leaf rfl) statements keeps inner
  | declare bound =>
    refine (Plan.evalIn_respelled bound scope).bind fun v v' values => ?_
    exact (Plan.Respelled.query (.define rfl rfl values)).bind
      fun _ _ _ => .done (.value (.leaf rfl))
  | assign bound =>
    refine (Plan.evalIn_respelled bound scope).bind fun v v' values => ?_
    refine (Plan.Respelled.query (.assign trivial rfl values)).bind fun result _ same => ?_
    obtain rfl : result = _ := same
    cases result with
    | ok => exact .done (.value (.leaf rfl))
    | error refusal => cases refusal <;> exact .fail _
  | whileDo test repeated =>
    refine (Plan.evalIn_respelled test scope).bind fun v v' values => ?_
    refine (Plan.condition_respelled values).bind fun holds _ same => ?_
    obtain rfl := same
    refine .ite (fun _ => ?_) fun _ => .done (.value (.leaf rfl))
    exact (Plan.evalIn_respelled repeated scope).bind
      fun _ _ _ => .done (.job (.expr (.whileDo test repeated)))

theorem expression_respelled {expr expr' : Expr} (parts : expr.Respelled s.nodes s.layer expr')
    (scope : ScopeId) :
    (s.expression expr scope).Respelled s.nodes s.layer (Next.Respelled s.nodes s.layer)
      ((s.withCode nodes definitions).expression expr' scope) := by
  simp only [expression, ← parts.form_eq, ← parts.minLayer_eq]
  refine .ite (fun _ => ?_) fun reached => form_respelled same reached parts scope
  refine (Plan.Respelled.query .innermost).bind fun place _ same => ?_
  obtain rfl : _ = place := same
  exact .fail _

end Setting

/-- The plan of a job: that of the job it was, or one job away from it where an operand has become
a reference. -/
inductive Plan.Reaches (s' : Setting σ) (nodes : Nodes) (layer : Layer) (p p' : Plan Next) :
    Prop
  | here (plans : p.Respelled nodes layer (Next.Respelled nodes layer) p')
  | onward {job} (looked : p' = .done (.job job))
    (plans : p.Respelled nodes layer (Next.Respelled nodes layer) (s'.plan job))

omit same in
/-- The id of a node stands for a reference to it. -/
theorem Setting.operand_eq_reference {name : String} (known : s.nodes.contains name)
    (scope : ScopeId) : s.operand (.id name) scope = s.plan (.expr (.ref name) scope) := by
  obtain ⟨expr, found⟩ := Option.isSome_iff_exists.mp known
  change _ = s.form (.ref name) scope
  simp only [operand, form, found]

theorem Setting.operand_respelled {arg arg' : Arg} (parts : arg.Respelled s.nodes s.layer arg')
    (scope : ScopeId) :
    Plan.Reaches (s.withCode nodes definitions) s.nodes s.layer (s.operand arg scope)
      ((s.withCode nodes definitions).operand arg' scope) := by
  cases parts with
  | id name =>
    refine .here ?_
    have found := same.nodes name
    simp only [operand, withCode]
    generalize s.nodes.get? name = node, nodes.get? name = node' at found
    cases found with
    | none =>
      exact (Plan.lookupOrRaise_respelled scope name).bind fun _ _ values => .done (.value values)
    | some parts => exact node_respelled name parts scope
  | @reference name known =>
    refine .onward rfl ?_
    rw [operand_eq_reference known]
    exact expression_respelled same (.ref name) scope
  | inline parts => exact .here (.done (.job (.expr parts)))

theorem Setting.plan_respelled {job job' : Job} (jobs : job.Respelled s.nodes s.layer job') :
    Plan.Reaches (s.withCode nodes definitions) s.nodes s.layer (s.plan job)
      ((s.withCode nodes definitions).plan job') := by
  cases jobs with
  | operand parts => exact operand_respelled same parts _
  | expr parts => exact .here (expression_respelled same parts _)
  | apply callees operands => exact .here (apply_respelled callees operands)

end Forms

end LayeredIR
