import LayeredIR.Proofs.Protocol.Forms

/-! Blocks obey every protocol that grants what they need: they read and write registers, and go on
at their successors only. -/
namespace LayeredIR

variable {κ σ : Type} {P : Protocol κ} {s : Setting σ} {k : κ}

section Targets

variable {block : Block} (allows : P.AllowsBlock s block)
include allows

namespace Setting

open Plan

theorem writeTarget_obeys (target : Option String) {v : Value} (held : P.value k v) :
    (writeTarget target v).Obeys P (fun _ _ => True) k := by
  cases target with
  | none => exact .done trivial
  | some name => exact (Obeys.query (allows.write name held)).imp fun _ _ _ => trivial

theorem target_obeys {label : String} (successor : label ∈ block.terminator.successors) :
    (s.target label).Obeys P (fun last next => last = k ∧ next = .block label) k := by
  unfold target
  cases missing : s.block? label with
  | none => exact .fail (allows.missing successor missing)
  | some next => exact .done ⟨rfl, rfl⟩

/-- Control goes on at a block. -/
theorem goto_obeys {label next : String} (successor : next ∈ block.terminator.successors) :
    (s.target next >>= fun job => pure (.job job)).Obeys P (P.Ends (.block label)) k := by
  refine (s.target_obeys allows successor).bind fun _ job _ same => ?_
  obtain ⟨rfl, rfl⟩ := same
  exact .done (.job (allows.successor successor) fun _ gives => gives)

end Setting

end Targets

variable (laws : P.Laws s)
include laws

theorem Plan.readRegisters_obeys (names : List String) :
    (Plan.readRegisters names).Obeys P (fun k vs => ∀ v ∈ vs, P.value k v) k := by
  induction names generalizing k with
  | nil => exact .done (by simp)
  | cons name rest ih =>
    refine (Plan.lookupOrRaise_obeys laws registerScope name).bind fun _ v _ first => ?_
    refine ih.bind fun _ vs le held => .done ?_
    exact List.forall_mem_cons.mpr ⟨laws.value_mono le first, held⟩

namespace Setting

open Plan

theorem operatorInstruction_obeys (ns : Option String) (name : String) (args : List String) :
    (s.operatorInstruction ns name args).Obeys P P.value k := by
  refine (readRegisters_obeys laws args).bind fun _ values _ held => .ite (fun _ => ?_) fun _ => ?_
  · cases Operator.ofName? name with
    | none => exact .raise laws trivial
    | some op => exact operate_obeys laws op held
  · refine (s.domain_obeys laws _).bind fun _ d _ known => ?_
    obtain ⟨rfl, found⟩ := known
    refine (refuseErrors_obeys laws values).bind fun _ _ _ sound => ?_
    obtain ⟨rfl, sound⟩ := sound
    exact dispatch_obeys laws found name held sound

/-- The two operands of a call, as the instruction reads them. -/
theorem callInstruction_obeys (callee : String) (args : List String)
    (apply : ∀ {k callee args}, P.value k callee → (∀ arg ∈ args, P.value k arg) →
      P.evals k (.apply callee args)) :
    (readRegister callee >>= fun callee => readRegisters args >>= fun args =>
      evaluate (.apply callee args)).Obeys P P.value k := by
  refine (lookupOrRaise_obeys laws registerScope callee).bind fun _ f _ function => ?_
  refine (readRegisters_obeys laws args).bind fun _ values le held => ?_
  exact .eval (apply (laws.value_mono le function) held) fun _ _ _ told => .done told.1

section Instructions

variable {block : Block} (allows : P.AllowsBlock s block)
include allows

theorem instruction_obeys {i : Instruction} (member : i ∈ block.instructions) :
    (s.instruction i).Obeys P (fun _ _ => True) k := by
  have written {k : κ} (name : String) (v : Value) (held : P.value k v) :=
    s.writeTarget_obeys allows (some name) held
  cases i with
  | assign target arg =>
    exact (evalIn_obeys (allows.operand member) (allows.scope k)).bind fun _ v _ told =>
      written target v told.1
  | op target ns name args =>
    exact (s.operatorInstruction_obeys laws ns name args).bind fun _ v _ held =>
      written target v held
  | call target callee args =>
    have called := s.callInstruction_obeys (k := k) laws callee args allows.apply
    have stored := called.bind fun _ v _ held => written target v held
    simp only [bind_assoc] at stored
    exact stored
  | effect target op args =>
    refine (s.performEffect_obeys laws (readRegisters_obeys laws args) allows.perform).bind
      fun _ v _ held => ?_
    exact s.writeTarget_obeys allows target held

theorem instructions_obeys {is : List Instruction} (among : ∀ i ∈ is, i ∈ block.instructions) :
    (s.instructions is).Obeys P (fun _ _ => True) k := by
  induction is generalizing k with
  | nil => exact .done trivial
  | cons i rest ih =>
    refine (s.instruction_obeys laws allows (among i (.head _))).bind fun _ _ _ _ => ?_
    exact ih fun i member => among i (.tail _ member)

theorem forked_obeys {label body continuation future : String}
    (terminator : block.terminator = .fork body continuation future) :
    (s.terminator (.fork body continuation future)).Obeys P (P.Ends (.block label)) k := by
  have started : body ∈ block.terminator.successors := by simp [terminator, Terminator.successors]
  have continued : continuation ∈ block.terminator.successors := by
    simp [terminator, Terminator.successors]
  refine (s.target_obeys allows started).bind fun _ _ _ same => ?_
  cases same.1
  refine (s.target_obeys allows continued).bind fun _ next _ same => ?_
  obtain ⟨rfl, rfl⟩ := same
  refine (Obeys.query (allows.flatten _)).bind fun k' registers _ told => ?_
  have held : ∀ entry ∈ registers, P.value k' entry.2.value :=
    fun entry member => laws.tells told ⟨entry, member, rfl⟩
  refine .fork (allows.fork started held) fun id => ?_
  cases id with
  | none => exact .raise laws trivial
  | some id =>
    refine (s.writeTarget_obeys allows (some future) (allows.future k' id)).bind
      fun _ _ _ _ => ?_
    exact .done (.job (allows.successor continued) fun _ gives => gives)

theorem joined_obeys {label future next : String} {result : Option String}
    (terminator : block.terminator = .join future result next) :
    (s.terminator (.join future result next)).Obeys P (P.Ends (.block label)) k := by
  have continued : next ∈ block.terminator.successors := by
    simp [terminator, Terminator.successors]
  refine (s.target_obeys allows continued).bind fun _ job _ same => ?_
  obtain ⟨rfl, rfl⟩ := same
  refine (lookupOrRaise_obeys laws registerScope future).bind fun k' v _ _ => ?_
  cases v with
  | future id =>
    refine .await allows.await fun outcome held => ?_
    cases outcome with
    | error e => exact .raise laws trivial
    | ok v =>
      refine (s.writeTarget_obeys allows result (held v rfl)).bind fun _ _ _ _ => ?_
      exact .done (.job (allows.successor continued) fun _ gives => gives)
  | _ => exact .raise laws trivial

theorem terminator_obeys {label : String} :
    (s.terminator block.terminator).Obeys P (P.Ends (.block label)) k := by
  cases terminator : block.terminator with
  | jump next => exact s.goto_obeys allows (by simp [terminator, Terminator.successors])
  | branch cond thenLabel elseLabel =>
    refine (lookupOrRaise_obeys laws registerScope cond).bind fun _ v _ _ => ?_
    refine (condition_obeys laws v).bind fun _ _ _ _ => .ite (fun _ => ?_) fun _ => ?_
    · exact s.goto_obeys allows (by simp [terminator, Terminator.successors])
    · exact s.goto_obeys allows (by simp [terminator, Terminator.successors])
  | ret result =>
    cases result with
    | none => exact .done (.value ⟨laws.literal k .void, fun _ => trivial⟩)
    | some name =>
      exact (lookupOrRaise_obeys laws registerScope name).bind fun _ _ _ held =>
        .done (.value ⟨held, fun _ => trivial⟩)
  | fork body continuation future => exact s.forked_obeys laws allows terminator
  | join future result next => exact s.joined_obeys laws allows terminator

end Instructions

theorem block_obeys {label : String}
    (missing : s.block? label = none →
      P.fails (.ofCause (.invalidControlFlow ("unknown label `" ++ label ++ "`"))))
    (allows : ∀ block, s.block? label = some block → P.AllowsBlock s block) :
    (s.block label).Obeys P (P.Ends (.block label)) k := by
  unfold Setting.block
  cases found : s.block? label with
  | none => exact .fail (missing found)
  | some block =>
    have allows := allows block found
    refine (s.instructions_obeys laws allows fun _ member => member).bind fun _ _ _ _ => ?_
    exact s.terminator_obeys laws allows

/-- The plan of a job obeys every protocol that grants what the job needs. -/
theorem plan_obeys {job : Job} (allows : P.AllowsJob s k job) :
    (s.plan job).Obeys P (P.Ends job) k := by
  cases allows with
  | operand scope inPlace node => exact s.operand_obeys laws scope inPlace node
  | expr scope allows =>
    exact s.expression_obeys laws allows.above fun reached => s.form_obeys laws reached scope allows
  | apply allows => exact s.apply_obeys laws allows
  | block missing allows => exact s.block_obeys laws missing allows

end Setting
end LayeredIR
