import LayeredIR.Proofs.Protocol

/-! The forms of the language obey every protocol that grants what they need. What a form evaluates
in place is one of the operands that it comes to, or an application; everything else is within a
call. What it binds it binds in a scope that it has just made, declarations and assignments apart,
and an operation is asked for only once its operands have been looked through. -/
namespace LayeredIR

theorem Operator.firstError?_eq_none {vs : List Value} (none : Operator.firstError? vs = none) :
    ∀ v ∈ vs, v.isError = false := by
  intro v member
  have clear := List.findSome?_eq_none_iff.mp none v member
  simp [Value.isError, clear]

theorem Operator.check_eq_ok {op : Operator} {vs : List Value} {u : Unit}
    (ok : op.check vs = .ok u) : ∀ v ∈ vs, v.isError = false := by
  unfold check at ok
  split at ok
  · cases ok
  · cases clear : Operator.firstError? vs with
    | none => exact firstError?_eq_none clear
    | some e =>
      rw [clear] at ok
      cases ok

variable {κ σ : Type} {P : Protocol κ} {s : Setting σ} {k : κ}

namespace Plan

theorem evalIn_obeys {arg : Arg} {a : ScopeId} (permits : P.Permits a arg) (scope : P.scope k a) :
    (evalIn a arg).Obeys P (P.Told (.operand arg a)) k :=
  .eval (permits k scope) fun _ _ _ told => .done told

variable (laws : P.Laws s)
include laws

theorem Obeys.raise {α : Type} {R : κ → α → Prop} {cause : Cause} (own : cause.Own) :
    (Plan.raise cause : Plan α).Obeys P R k := .fail (laws.own own)

theorem lookupOrRaise_obeys (a : ScopeId) (name : String) :
    (lookupOrRaise a name).Obeys P P.value k := by
  refine (Obeys.query (q := .lookup a name) (laws.inquires trivial)).bind fun k' found _ told => ?_
  cases found with
  | none => exact .raise laws trivial
  | some v => exact .done (laws.tells told rfl)

theorem evalAll_obeys {args : List Arg} {a : ScopeId} (permits : ∀ arg ∈ args, P.Permits a arg)
    (scope : P.scope k a) :
    (evalAll a args).Obeys P (fun k vs => ∀ v ∈ vs, P.value k v) k := by
  induction args generalizing k with
  | nil => exact .done (by simp)
  | cons arg rest ih =>
    refine (evalIn_obeys (permits arg (.head _)) scope).bind fun k' v le first => ?_
    have others := ih (fun arg member => permits arg (.tail _ member)) (laws.scope_mono le scope)
    refine others.bind fun k'' vs le' held => .done ?_
    exact List.forall_mem_cons.mpr ⟨laws.value_mono le' first.1, held⟩

/-- Values bound in a scope that was made when they were held. -/
theorem defineAll_obeys {k' : κ} {a : ScopeId} (made : P.made k a k') (mutability : Mutability)
    {entries : List (String × Value)} (held : ∀ entry ∈ entries, P.value k entry.2) :
    (defineAll a mutability entries).Obeys P (fun last _ => last = k') k' := by
  induction entries with
  | nil => exact .done rfl
  | cons entry rest ih =>
    obtain ⟨name, v⟩ := entry
    have allowed := laws.define_made name mutability made (held (name, v) (.head _))
    refine (Obeys.query allowed).bind fun _ _ _ told => ?_
    cases laws.binds told
    exact ih fun entry member => held entry (.tail _ member)

theorem refuseErrors_obeys (vs : List Value) : (refuseErrors vs).Obeys P
    (fun last _ => last = k ∧ ∀ v ∈ vs, v.isError = false) k := by
  unfold refuseErrors
  cases clear : Operator.firstError? vs with
  | none => exact .done ⟨rfl, Operator.firstError?_eq_none clear⟩
  | some e => exact .raise laws trivial

theorem operate_obeys (op : Operator) {vs : List Value} (held : ∀ v ∈ vs, P.value k v) :
    (operate op vs).Obeys P P.value k := by
  unfold operate
  cases checked : op.check vs with
  | error cause => exact .raise laws ((op.check_operational vs).of_error checked).own
  | ok u =>
    have permitted := laws.compute op held (Operator.check_eq_ok checked)
    refine (Obeys.query permitted).bind fun _ result _ told => ?_
    exact .orRaise (fun _ same => laws.tells told same)
      fun cause same => laws.fails told ⟨cause, same, rfl⟩

/-- An operation of a domain, once its operands are known. -/
theorem dispatch_obeys {ns : String} {d : Domain} (found : s.domains.find? ns = some d)
    (op : String) {vs : List Value} (held : ∀ v ∈ vs, P.value k v)
    (sound : ∀ v ∈ vs, v.isError = false) :
    (query (.dispatch d op vs) >>= orRaise).Obeys P P.value k := by
  refine (Obeys.query (laws.dispatch op found held sound)).bind fun _ result _ told => ?_
  exact .orRaise (fun _ same => laws.tells told same)
    fun cause same => laws.fails told ⟨cause, same, rfl⟩

theorem condition_obeys (v : Value) : (condition v).Obeys P (fun last _ => last = k) k := by
  cases v with
  | bool b => exact .done rfl
  | _ => exact .raise laws trivial

theorem checkItems_obeys (of : Ty) (vs : List Value) :
    (checkItems of vs).Obeys P (fun last _ => last = k) k := by
  induction vs with
  | nil => exact .done rfl
  | cons v rest ih =>
    refine .ite (fun _ => ih) fun _ => ?_
    cases v <;> exact .raise laws trivial

variable {job : Job}

theorem checkResult_obeys (result : Option Ty) {v : Value} (told : P.Told job k v) :
    (checkResult result v).Obeys P (P.Ends job) k := by
  cases result with
  | none => exact .done (.value told)
  | some ty => exact .ite (fun _ => .done (.value told)) fun _ => .raise laws trivial

theorem shortCircuit_obeys (op : Operator) {args : List Arg} {a : ScopeId}
    (permits : ∀ arg ∈ args, P.Permits a arg) (scope : P.scope k a) (gives : ∀ v, P.Gives job v) :
    (shortCircuit op args a).Obeys P (P.Ends job) k := by
  match args, permits with
  | [], _ | [_], _ | _ :: _ :: _ :: _, _ => exact .raise laws trivial
  | [left, right], permits =>
    refine (evalIn_obeys (permits left (by simp)) scope).bind fun k' v le first => ?_
    refine (condition_obeys laws v).bind fun _ decided _ same => ?_
    cases same
    refine .ite (fun _ => .done (.value ⟨first.1, gives v⟩)) fun _ => ?_
    have again := laws.scope_mono le scope
    refine (evalIn_obeys (permits right (by simp)) again).bind fun k'' u le' second => ?_
    refine (operate_obeys laws op ?_).bind fun _ u _ held => .done (.value ⟨held, gives u⟩)
    simpa using ⟨laws.value_mono le' first.1, second.1⟩

/-- A fixpoint is applied to itself at once. -/
theorem fixpoint_obeys {v : Value}
    (apply : ∀ k' c id, P.le k k' → v = .closure c →
      P.evals k' (.apply v [.closure (c.fixpointOf id)]))
    (gives : ∀ v, P.Gives job v) : (fixpoint v).Obeys P (P.Ends job) k := by
  cases v with
  | closure c =>
    refine .ite (fun _ => .raise laws trivial) fun _ => ?_
    refine (Obeys.query (q := .fresh) (laws.inquires trivial)).bind fun k' id le _ => ?_
    exact .done (.job (apply k' c id le rfl) fun v _ => gives v)
  | _ => exact .raise laws trivial

end Plan

namespace Setting

open Plan

variable (laws : P.Laws s)
include laws

theorem node_obeys {id : String} {expr : Expr} {a : ScopeId} {job : Job} (scope : P.scope k a)
    (permitted : ∀ k, P.scope k a → P.calls k ⟨id, false⟩ (.expr expr a))
    (gives : ∀ v, P.Gives job v) : (s.node id expr a).Obeys P (P.Ends job) k := by
  refine .ite (fun _ => ?_) fun _ => ?_
  · refine (Obeys.query (q := .recollect id) (laws.inquires trivial)).bind fun k' kept le told => ?_
    cases kept with
    | some v => exact .done (.value ⟨laws.tells told rfl, gives v⟩)
    | none =>
      refine .call (permitted k' (laws.scope_mono le scope)) fun k'' v _ held => ?_
      refine (Obeys.query (q := .remember id v) (laws.remember held.1)).bind fun _ _ le _ => ?_
      exact .done (.value ⟨laws.value_mono le held.1, gives v⟩)
  · exact .call (permitted k scope) fun _ v _ held => .done (.value ⟨held.1, gives v⟩)

theorem operand_obeys {arg : Arg} {a : ScopeId} (scope : P.scope k a)
    (inPlace : ∀ expr, arg = .inline expr → P.evals k (.expr expr a))
    (node : ∀ id expr, arg = .id id → s.nodes.get? id = some expr → ∀ k, P.scope k a →
      P.calls k ⟨id, false⟩ (.expr expr a)) :
    (s.operand arg a).Obeys P (P.Ends (.operand arg a)) k := by
  cases arg with
  | inline expr => exact .done (.job (inPlace expr rfl) fun _ gives => gives)
  | id name =>
    simp only [operand]
    cases found : s.nodes.get? name with
    | some expr => exact s.node_obeys laws scope (node name expr rfl found) fun _ _ => trivial
    | none =>
      exact (lookupOrRaise_obeys laws a name).bind fun _ v _ held =>
        .done (.value ⟨held, fun _ => trivial⟩)

/-- The arguments of a call, in a scope that has been made for them. -/
theorem bound_obeys {α : Type} {R : κ → α → Prop} {k' : κ} {inner : ScopeId}
    (made : P.made k inner k') (mutability : Mutability) (params : List String)
    {values : List Value} (held : ∀ v ∈ values, P.value k v) {next : Unit → Plan α}
    (rest : (next ()).Obeys P R k') :
    (defineAll inner mutability (params.zip values) >>= next).Obeys P R k' := by
  have arguments : ∀ entry ∈ params.zip values, P.value k entry.2 :=
    fun entry member => held entry.2 (List.of_mem_zip member).2
  refine (defineAll_obeys laws made mutability arguments).bind fun _ _ _ same => ?_
  cases same
  exact rest

/-- A fixpoint first applies its generator, and then what comes back. Any other function evaluates
nothing in place. -/
theorem apply_obeys {callee : Value} {args : List Value}
    (allows : ∀ c, callee = .closure c → P.AllowsCall k c args) :
    (s.apply callee args).Obeys P (P.Ends (.apply callee args)) k := by
  cases callee with
  | closure c =>
    have allows := allows c rfl
    unfold Setting.apply
    refine .ite (fun isFix => ?_) fun plain => .ite (fun _ => .raise laws trivial) fun _ => ?_
    · refine .eval (allows.unroll isFix) fun k' v le unrolled => ?_
      refine .done (.job (allows.again isFix le unrolled) fun _ _ _ other => ?_)
      exact absurd (isFix.symm.trans other) Bool.noConfusion
    · have plain : c.isFix = false := Bool.not_eq_true _ ▸ plain
      have enter := allows.enter plain
      refine (Obeys.query enter).bind fun k' inner _ told => ?_
      have made := laws.opens enter told rfl
      refine s.bound_obeys laws made s.localMutability c.params allows.held ?_
      refine .call (allows.body plain (laws.scope_made made)) fun _ v _ told => ?_
      exact .done (.value ⟨told.1, fun known _ => told.2 known⟩)
  | _ => exact .raise laws trivial

theorem definitionBody_obeys {key : String} {d : Definition} {values : List Value}
    (body : ∀ k' inner, P.le k k' → P.scope k' inner →
      P.calls k' ⟨key, true⟩ (.operand d.body inner))
    (held : ∀ v ∈ values, P.value k v) : (s.definitionBody key d values).Obeys P P.value k := by
  have root := laws.root k
  refine (Obeys.query root).bind fun k' inner le told => ?_
  have made := laws.opens root told rfl
  refine s.bound_obeys laws made s.localMutability d.params held ?_
  exact .call (body k' inner le (laws.scope_made made)) fun _ _ _ told => .done told.1

theorem callDefinition_obeys {ns name : String} {args : List Arg} {a : ScopeId} {job : Job}
    (permits : ∀ arg ∈ args, P.Permits a arg) (scope : P.scope k a)
    (body : ∀ {d k' k'' inner}, s.definitions.get? ns name = some d →
      P.answers k (.isActive (definitionKey ns name)) k' false → P.le k' k'' → P.scope k'' inner →
      P.calls k'' ⟨definitionKey ns name, true⟩ (.operand d.body inner))
    (gives : ∀ v, P.Gives job v) :
    (s.callDefinition ns name args a).Obeys P (P.Ends job) k := by
  unfold callDefinition
  cases found : s.definitions.get? ns name with
  | none => exact .raise laws trivial
  | some d =>
    refine (Obeys.query (q := .isActive _) (laws.inquires trivial)).bind fun k' active le told => ?_
    refine .ite (fun _ => .raise laws trivial) fun off => ?_
    cases Bool.not_eq_true active ▸ off
    refine .ite (fun _ => .raise laws trivial) fun _ => ?_
    -- what the operands evaluate to changes nothing of what is running once they are done
    refine (evalAll_obeys laws permits (laws.scope_mono le scope)).bind
      fun k'' values le' held => ?_
    refine (s.definitionBody_obeys laws (fun _ _ later => body found told (P.trans le' later))
      held).bind fun _ v _ given => ?_
    exact checkResult_obeys laws d.result ⟨given, gives v⟩

theorem domain_obeys (ns : String) :
    (orRaise (s.domains.get ns)).Obeys P
      (fun last d => last = k ∧ s.domains.find? ns = some d) k := by
  unfold Domains.get
  cases found : s.domains.find? ns with
  | none => exact .raise laws trivial
  | some d => exact .done ⟨rfl, rfl⟩

theorem callOperator_obeys (ns : Option String) (name : String) {args : List Arg} {a : ScopeId}
    {job : Job} (permits : ∀ arg ∈ args, P.Permits a arg) (scope : P.scope k a)
    (gives : ∀ v, P.Gives job v) : (s.callOperator ns name args a).Obeys P (P.Ends job) k := by
  unfold callOperator
  refine .ite (fun _ => ?_) fun _ => ?_
  · cases Operator.ofName? name with
    | none => exact .raise laws trivial
    | some op =>
      refine .ite (fun _ => shortCircuit_obeys laws op permits scope gives) fun _ => ?_
      refine (evalAll_obeys laws permits scope).bind fun _ values _ held => ?_
      exact (operate_obeys laws op held).bind fun _ v _ given => .done (.value ⟨given, gives v⟩)
  · refine (s.domain_obeys laws _).bind fun _ d _ known => ?_
    obtain ⟨rfl, found⟩ := known
    refine (evalAll_obeys laws permits scope).bind fun _ values _ held => ?_
    refine (refuseErrors_obeys laws values).bind fun _ _ _ sound => ?_
    obtain ⟨rfl, sound⟩ := sound
    have answered := (dispatch_obeys laws found name held sound).bind (S := P.Ends job)
      (f := fun v => pure (.value v)) fun _ v _ given => .done (.value ⟨given, gives v⟩)
    simpa only [bind_assoc] using answered

theorem performEffect_obeys {op : String} {args : Plan (List Value)}
    (operands : args.Obeys P (fun k vs => ∀ v ∈ vs, P.value k v) k)
    (permitted : ∀ {k values}, (∀ v ∈ values, P.value k v) → (∀ v ∈ values, v.isError = false) →
      P.asks k (.perform op values)) : (s.performEffect op args).Obeys P P.value k := by
  refine .ite (fun _ => ?_) fun _ => .raise laws trivial
  refine operands.bind fun k' values _ held => ?_
  refine (refuseErrors_obeys laws values).bind fun _ _ _ sound => ?_
  obtain ⟨rfl, sound⟩ := sound
  refine (Obeys.query (permitted held sound)).bind fun _ result _ told => ?_
  cases result with
  | ok v => exact .done (laws.tells told rfl)
  | error fault => exact .fail (laws.fails told rfl)

theorem capture_obeys {a : ScopeId} (scope : P.scope k a) :
    (s.capture a).Obeys P (fun k captured => P.Captures s k a captured) k := by
  refine .ite (fun copies => ?_) fun shares => .done (.shared (Bool.not_eq_true _ ▸ shares) scope)
  refine (Obeys.query (laws.flatten k a copies)).bind fun _ visible _ told => ?_
  refine .done (.copied copies fun entry member => ?_)
  obtain ⟨bound, among, rfl⟩ := List.mem_map.mp member
  exact laws.tells told ⟨bound, among, rfl⟩

/-- A value bound in a scope of its own. -/
theorem bind_obeys {α : Type} {R : κ → α → Prop} {a : ScopeId} {v : Value}
    (opens : P.asks k (.child a)) (held : P.value k v) (name : String) (mutability : Mutability)
    {next : ScopeId → Plan α}
    (rest : ∀ k' inner, P.scope k' inner → (next inner).Obeys P R k') :
    (query (.child a) >>= fun inner => query (.define inner name v mutability) >>= fun _ =>
      next inner).Obeys P R k := by
  refine (Obeys.query opens).bind fun k' inner _ told => ?_
  have made := laws.opens opens told rfl
  refine (Obeys.query (laws.define_made name mutability made held)).bind fun _ _ _ told => ?_
  cases laws.binds told
  exact rest k' inner (laws.scope_made made)

theorem statements_obeys {last : Value} {body : List Arg} {a : ScopeId} {job : Job}
    (held : P.value k last) (scope : P.scope k a)
    (permits : ∀ arg inner, s.Evaluates arg (.seq body) → P.Permits inner arg)
    (gives : ∀ v, P.Gives job v) : (s.statements last body a).Obeys P (P.Ends job) k := by
  induction body generalizing last a k with
  | nil => exact .done (.value ⟨held, gives last⟩)
  | cons first rest ih =>
    have later (arg : Arg) (inner : ScopeId) (evaluates : s.Evaluates arg (.seq rest)) :
        P.Permits inner arg := by
      refine permits arg inner ?_
      cases evaluates with
      | operand _ single _ => exact absurd rfl (single _)
      | statement member silent => exact .statement (.tail _ member) silent
      | declared member declares => exact .declared (.tail _ member) declares
    simp only [statements]
    cases declares : s.declaration? first with
    | none =>
      have own := permits first a (.statement (.head _) declares)
      exact (evalIn_obeys own scope).bind fun _ v le told =>
        ih told.1 (laws.scope_mono le scope) later
    | some declaration =>
      obtain ⟨name, arg⟩ := declaration
      have own := permits arg a (.declared (.head _) declares)
      refine (evalIn_obeys own scope).bind fun _ v le told => ?_
      refine s.bind_obeys laws (laws.child (laws.scope_mono le scope)) told.1 name .mutable ?_
      exact fun _ _ scope => ih (laws.literal _ .void) scope later

/-- A sequence runs in a scope of its own, wherever it stands. -/
theorem seq_obeys {body : List Arg} {a : ScopeId} {job : Job} (opens : P.asks k (.child a))
    (permits : ∀ arg inner, s.Evaluates arg (.seq body) → P.Permits inner arg)
    (gives : ∀ v, P.Gives job v) : (s.form (.seq body) a).Obeys P (P.Ends job) k := by
  refine (Obeys.query opens).bind fun k' inner _ told => ?_
  have scope := laws.scope_made (laws.opens opens told rfl)
  exact s.statements_obeys laws (laws.literal k' .void) scope permits gives

theorem form_obeys {expr : Expr} {a : ScopeId} (reached : ¬ s.layer < expr.minLayer)
    (scope : P.scope k a) (allows : P.AllowsForm s expr a) :
    (s.form expr a).Obeys P (P.Ends (.expr expr a)) k := by
  have operands (plain : ∀ params body, expr ≠ .lambda params body)
      (single : ∀ body, expr ≠ .seq body) (arg : Arg) (member : arg ∈ expr.operands)
      (inner : ScopeId) : P.Permits inner arg :=
    allows.operand inner (.operand plain single member)
  cases expr with
  | lit value => exact .done (.value ⟨laws.literal k value, fun _ => trivial⟩)
  | ref id =>
    unfold form
    dsimp only
    cases found : s.nodes.get? id with
    | some expr =>
      exact s.node_obeys laws scope (fun _ => allows.node rfl found) fun _ _ => trivial
    | none => exact .raise laws trivial
  | var name =>
    exact (lookupOrRaise_obeys laws a name).bind fun _ _ _ held =>
      .done (.value ⟨held, fun _ => trivial⟩)
  | input name =>
    unfold form
    dsimp only
    cases found : s.input? name with
    | none => exact .raise laws trivial
    | some v => exact .done (.value ⟨laws.input found, fun _ => trivial⟩)
  | call ns name args =>
    have own := operands nofun nofun
    exact s.callOperator_obeys laws ns name (fun arg member => own arg member a) scope
      fun _ _ => trivial
  | ifThenElse cond thenArg elseArg =>
    have own := operands nofun nofun
    refine (evalIn_obeys (own cond (by simp) a) scope).bind fun k' test le _ => ?_
    refine (condition_obeys laws test).bind fun _ _ _ same => ?_
    cases same
    have again := laws.scope_mono le scope
    exact .ite (fun _ => .done (.job (own thenArg (by simp) a k' again) fun _ _ _ => trivial))
      fun _ => .done (.job (own elseArg (by simp) a k' again) fun _ _ _ => trivial)
  | letIn name value body =>
    have own := operands nofun nofun
    refine (evalIn_obeys (own value (by simp) a) scope).bind fun k' v le told => ?_
    refine s.bind_obeys laws (laws.child (laws.scope_mono le scope)) told.1 name _ ?_
    exact fun k'' inner scope =>
      .done (.job (own body (by simp) inner k'' scope) fun _ _ _ => trivial)
  | airRef ns name args =>
    have own := operands nofun nofun
    exact s.callDefinition_obeys laws (fun arg member => own arg member a) scope
      (allows.definition rfl) fun _ _ => trivial
  | list of items =>
    have own := operands nofun nofun
    refine (evalAll_obeys laws (fun arg member => own arg member a) scope).bind
      fun _ values _ held => ?_
    refine (checkItems_obeys laws of values).bind fun _ _ _ same => ?_
    cases same
    exact .done (.value ⟨laws.list of held, fun _ => trivial⟩)
  | lambda params body =>
    have closures := Layer.hasClosures_of_not_lt reached
    refine (s.capture_obeys laws scope).bind fun _ captured _ captures => ?_
    refine (Obeys.query (q := .fresh) (laws.inquires trivial)).bind fun _ id le _ => ?_
    have made := laws.value_mono le (allows.function id rfl closures captures)
    exact .done (.value ⟨made, fun _ => ⟨_, rfl, rfl, rfl⟩⟩)
  | apply callee args =>
    have own := operands nofun nofun
    refine (evalIn_obeys (own callee (by simp) a) scope).bind fun _ v le function => ?_
    have arguments (arg : Arg) (member : arg ∈ args) := own arg (by simp [member]) a
    refine (evalAll_obeys laws arguments (laws.scope_mono le scope)).bind fun _ _ le' held => ?_
    exact .done (.job (allows.apply (Layer.hasClosures_of_not_lt reached)
      (laws.value_mono le' function.1) held) fun _ _ _ => trivial)
  | fix generator =>
    refine (evalIn_obeys (operands nofun nofun generator (by simp) a) scope).bind
      fun k' v _ told => ?_
    refine fixpoint_obeys laws ?_ fun _ _ => trivial
    rintro k'' c id le rfl
    refine allows.apply (Layer.hasClosures_of_not_lt reached) (laws.value_mono le told.1) ?_
    simpa using laws.value_mono le (allows.fixpoint id rfl told)
  | seq body =>
    exact s.seq_obeys laws (laws.child scope) (fun _ inner => allows.operand inner)
      fun _ _ => trivial
  | declare name value =>
    have mutation := Layer.hasMutation_of_not_lt reached
    refine (evalIn_obeys (operands nofun nofun value (by simp) a) scope).bind fun _ v le told => ?_
    have bound := allows.declare rfl mutation (laws.scope_mono le scope) told.1
    exact (Obeys.query bound).bind fun _ _ _ _ =>
      .done (.value ⟨laws.literal _ .void, fun _ => trivial⟩)
  | assign name value =>
    have mutation := Layer.hasMutation_of_not_lt reached
    refine (evalIn_obeys (operands nofun nofun value (by simp) a) scope).bind fun _ v le told => ?_
    have bound := allows.assign rfl mutation (laws.scope_mono le scope) told.1
    refine (Obeys.query bound).bind fun k' result _ _ => ?_
    match result with
    | .ok () => exact .done (.value ⟨laws.literal k' .void, fun _ => trivial⟩)
    | .error .undefined | .error .immutable => exact .raise laws trivial
  | whileDo cond body =>
    have own := operands nofun nofun
    refine (evalIn_obeys (own cond (by simp) a) scope).bind fun k' test le _ => ?_
    refine (condition_obeys laws test).bind fun _ _ _ same => ?_
    cases same
    have again := laws.scope_mono le scope
    refine .ite (fun _ => ?_) fun _ => .done (.value ⟨laws.literal k' .void, fun _ => trivial⟩)
    refine (evalIn_obeys (own body (by simp) a) again).bind fun _ _ le' _ => ?_
    exact .done (.job (allows.loop rfl (laws.scope_mono le' again)) fun _ gives => gives)
  | effect op args =>
    have own := operands nofun nofun
    have arguments := evalAll_obeys laws (fun arg member => own arg member a) scope
    refine (s.performEffect_obeys laws arguments fun held sound =>
      laws.perform (Layer.hasEffects_of_not_lt reached) held sound).bind fun _ _ _ held => ?_
    exact .done (.value ⟨held, fun _ => trivial⟩)

theorem expression_obeys {expr : Expr} {a : ScopeId} {R : κ → Next → Prop}
    (above : ∀ place, s.layer < expr.minLayer →
      P.fails (.ofCause (.layerViolation s.layer expr.form place)))
    (form : ¬ s.layer < expr.minLayer → (s.form expr a).Obeys P R k) :
    (s.expression expr a).Obeys P R k := by
  refine .ite (fun below => ?_) form
  exact (Obeys.query (q := .innermost) (laws.inquires trivial)).bind
    fun _ place _ _ => .fail (above _ below)

end Setting
end LayeredIR
