import LayeredIR.Proofs.Likeness.Forms

/-! Blocks respect every likeness under which the registers stand for each other. -/
namespace LayeredIR
namespace Likeness

variable {κ : Type} [Preorder κ] (L : Likeness κ) {w : κ}

section Registers

variable (reads : ∀ name, L.reads name) (registers : L.scope w registerScope registerScope)
include reads registers

theorem readRegisters_alike (names : List String) :
    L.Plans (fun w => List.Forall₂ (L.value w)) w (Plan.readRegisters names)
      (Plan.readRegisters names) := by
  induction names generalizing w with
  | nil => exact .done .nil
  | cons name rest ih =>
    refine (L.lookupOrRaise_alike (reads name) registers).bind fun w' v v' le values => ?_
    refine (ih (L.scope_mono le registers)).bind fun w₂ vs vs' le' items => ?_
    exact .done (.cons (L.value_mono le' values) items)

end Registers

section Blocks

variable {σ σ' : Type} {s : Setting σ} {s' : Setting σ'} (like : L.Settings s s')
  (flow : s.layer = .lir)
include like flow

theorem reads_of_flow (name : String) : L.reads name := like.registers (by rw [flow]; rfl) name

theorem writeRegister_alike {name : String} {v v' : Value}
    (registers : L.scope w registerScope registerScope) (values : L.value w v v') :
    L.Plans (fun _ _ _ => True) w (Plan.writeRegister name v) (Plan.writeRegister name v') := by
  have writable := L.writable_of_scope (like.mutation (by rw [flow]; rfl)) registers
  exact (L.query_alike (.define writable (L.mutability_self .mutable) values)).bind
    fun _ _ _ _ _ => .done trivial

theorem writeTarget_alike (target : Option String) {v v' : Value}
    (registers : L.scope w registerScope registerScope) (values : L.value w v v') :
    L.Plans (fun _ _ _ => True) w (Plan.writeTarget target v) (Plan.writeTarget target v') := by
  cases target with
  | none => exact .done trivial
  | some name => exact L.writeRegister_alike like flow registers values

theorem operatorInstruction_alike {ns : Option String} {name : String} (args : List String)
    (permitted : Permitted L.operator L.operation ns name)
    (registers : L.scope w registerScope registerScope) :
    L.Plans L.value w (s.operatorInstruction ns name args)
      (s'.operatorInstruction ns name args) := by
  unfold Permitted at permitted
  refine (L.readRegisters_alike (L.reads_of_flow like flow) registers args).bind
    fun w' vs vs' _ operands => ?_
  refine L.ite_alike (fun core => ?_) fun other => ?_
  · rw [if_pos core] at permitted
    cases found : Operator.ofName? name with
    | none => exact L.raise_alike w' _
    | some op => exact L.operate_alike (permitted op found) operands
  · rw [if_neg other] at permitted
    simp only [← like.domains, Domains.get]
    cases found : s.domains.find? (ns.getD "") with
    | none => exact L.raise_alike w' _
    | some domain =>
      refine (L.refuseErrors_alike operands).bind fun w₂ _ _ le _ => ?_
      exact (L.query_alike (.dispatch (like.domain _ domain found) permitted
        (L.values_mono le operands))).bind fun w₃ e e' _ answers => L.orRaise_alike answers

theorem instruction_alike {i : Instruction} (allowed : L.allowedInstruction i)
    (registers : L.scope w registerScope registerScope) :
    L.Plans (fun _ _ _ => True) w (s.instruction i) (s'.instruction i) := by
  have reads := L.reads_of_flow like flow
  cases i with
  | assign target value =>
    refine (L.evalIn_alike allowed registers).bind fun w' v v' le values => ?_
    exact L.writeRegister_alike like flow (L.scope_mono le registers) values
  | op target ns name args =>
    refine (L.operatorInstruction_alike like flow args allowed registers).bind
      fun w' v v' le values => ?_
    exact L.writeRegister_alike like flow (L.scope_mono le registers) values
  | call target callee args =>
    have closures := like.closures (by rw [flow]; rfl)
    refine (L.lookupOrRaise_alike (reads callee) registers).bind fun w' v v' le callees => ?_
    have again := L.scope_mono le registers
    refine (L.readRegisters_alike reads again args).bind fun w₂ vs vs' le' operands => ?_
    have jobs := Jobs.apply closures (L.value_mono le' callees) operands
    refine (L.evaluate_alike jobs).bind fun w₃ u u' le'' values => ?_
    exact L.writeRegister_alike like flow (L.scope_mono (le'.trans le'') again) values
  | effect target op args =>
    have operands := L.readRegisters_alike reads registers args
    refine (L.performEffect_alike like (by rw [flow]; rfl) op operands).bind
      fun w' v v' le values => ?_
    exact L.writeTarget_alike like flow target (L.scope_mono le registers) values

theorem instructions_alike {is : List Instruction}
    (allowed : ∀ i ∈ is, L.allowedInstruction i)
    (registers : L.scope w registerScope registerScope) :
    L.Plans (fun _ _ _ => True) w (s.instructions is) (s'.instructions is) := by
  induction is generalizing w with
  | nil => exact .done trivial
  | cons i rest ih =>
    refine (L.instruction_alike like flow (allowed i (by simp)) registers).bind
      fun w' _ _ le _ => ?_
    exact ih (fun i member => allowed i (by simp [member])) (L.scope_mono le registers)

variable (runs : L.flow)
include runs

omit flow in
theorem target_alike (label : String) :
    L.Plans (fun _ next next' => next = .block label ∧ next' = .block label) w (s.target label)
      (s'.target label) := by
  simp only [Setting.target, Setting.block?, ← like.blocks runs]
  cases s.blocks.find? fun block => block.id = label with
  | none => exact L.raise_alike w _
  | some block => exact .done ⟨rfl, rfl⟩

omit flow in
theorem goto_alike (label : String) (registers : L.scope w registerScope registerScope) :
    L.Plans L.Nexts w (s.target label >>= fun next => pure (.job next))
      (s'.target label >>= fun next => pure (.job next)) := by
  refine (L.target_alike like runs label).bind fun w' next next' le same => ?_
  obtain ⟨rfl, rfl⟩ := same
  exact .done (.job (.block runs (L.scope_mono le registers)))

theorem forked_alike (body continuation future : String)
    (registers : L.scope w registerScope registerScope) :
    L.Plans L.Nexts w (s.terminator (.fork body continuation future))
      (s'.terminator (.fork body continuation future)) := by
  have plain : ¬ L.copying := by
    rcases like.captures with ⟨plain, -⟩ | ⟨-, shares, -⟩
    · exact plain
    · rw [flow] at shares
      cases shares
  refine (L.target_alike like runs body).bind fun w' _ _ le _ => ?_
  refine (L.target_alike like runs continuation).bind fun w₂ next next' le' same => ?_
  obtain ⟨rfl, rfl⟩ := same
  have again := L.scope_mono (le.trans le') registers
  have snapshots := like.snapshots (by rw [flow]; rfl)
  refine (L.query_alike (.flatten plain snapshots again)).bind
    fun w₃ entries entries' le'' copies => ?_
  refine Plans.bind (.fork runs copies fun _ _ _ _ ids => .done ids) fun w₄ id id' le₃ ids => ?_
  rw [like.maxTasks]
  have registers₄ := L.scope_mono (le''.trans le₃) again
  cases ids with
  | none => exact L.raise_alike w₄ _
  | some futures =>
    refine (L.writeRegister_alike like flow registers₄ futures).bind fun w₅ _ _ le₄ _ => ?_
    exact .done (.job (.block runs (L.scope_mono le₄ registers₄)))

theorem joined_alike (future label : String) (result : Option String)
    (registers : L.scope w registerScope registerScope) :
    L.Plans L.Nexts w (s.terminator (.join future result label))
      (s'.terminator (.join future result label)) := by
  refine (L.target_alike like runs label).bind fun w' next next' le same => ?_
  obtain ⟨rfl, rfl⟩ := same
  have again := L.scope_mono le registers
  have may := L.reads_of_flow like flow future
  refine (L.lookupOrRaise_alike may again).bind fun w₂ v v' le' values => ?_
  have again' := L.scope_mono le' again
  have outline := L.outline_eq values
  cases v with
  | future id =>
    obtain ⟨id', rfl⟩ : ∃ id', v' = .future id' := by
      cases v' <;> simp_all [Value.outline]
    refine Plans.bind (.await runs values fun _ _ _ _ outcomes => .done outcomes)
      fun w₃ outcome outcome' le'' outcomes => ?_
    have registers₃ := L.scope_mono le'' again'
    cases outcome with
    | error e =>
      cases outcome' with
      | error e' =>
        cases outcomes
        exact L.raise_alike w₃ _
      | ok u' => exact outcomes.elim
    | ok u =>
      cases outcome' with
      | error e' => exact outcomes.elim
      | ok u' =>
        refine (L.writeTarget_alike like flow result registers₃ outcomes).bind
          fun w₄ _ _ le₃ _ => ?_
        exact .done (.job (.block runs (L.scope_mono le₃ registers₃)))
  | error e =>
    cases v' <;> simp only [Value.outline, reduceCtorEq, Value.error.injEq] at outline
    subst outline
    exact L.raise_alike w₂ _
  | _ =>
    have kinds := L.kind_eq values
    cases v' <;> simp only [Value.outline, reduceCtorEq] at outline
    all_goals exact L.raise_alike w₂ _

theorem terminator_alike (t : Terminator) (registers : L.scope w registerScope registerScope) :
    L.Plans L.Nexts w (s.terminator t) (s'.terminator t) := by
  have reads := L.reads_of_flow like flow
  cases t with
  | jump label => exact L.goto_alike like runs label registers
  | branch cond thenLabel elseLabel =>
    refine (L.lookupOrRaise_alike (reads cond) registers).bind fun w' v v' le values => ?_
    refine (L.condition_alike values).bind fun w₂ _ _ le' same => ?_
    cases same
    have again := L.scope_mono (le.trans le') registers
    exact L.ite_alike (fun _ => L.goto_alike like runs thenLabel again)
      fun _ => L.goto_alike like runs elseLabel again
  | ret value =>
    cases value with
    | none => exact .done (.value (L.value_void w))
    | some name =>
      exact (L.lookupOrRaise_alike (reads name) registers).bind fun _ _ _ _ values =>
        .done (.value values)
  | fork body continuation future =>
    exact L.forked_alike like flow runs body continuation future registers
  | join future result label => exact L.joined_alike like flow runs future label result registers

theorem block_alike (label : String) (registers : L.scope w registerScope registerScope) :
    L.Plans L.Nexts w (s.block label) (s'.block label) := by
  have same : s'.block? label = s.block? label := by simp only [Setting.block?, like.blocks runs]
  unfold Setting.block
  rw [same]
  cases found : s.block? label with
  | none => exact L.raise_alike w _
  | some block =>
    have allowed := like.code.instruction runs block (Setting.block_mem found)
    refine (L.instructions_alike like flow allowed registers).bind fun w' _ _ le _ => ?_
    exact L.terminator_alike like flow runs block.terminator (L.scope_mono le registers)

omit flow runs in
theorem plan_alike {job job' : Job} (jobs : L.Jobs w job job') :
    L.Plans L.Nexts w (s.plan job) (s'.plan job') := by
  cases jobs with
  | operand allowed scope => exact L.operand_alike like allowed scope
  | expr allowed scope => exact L.expression_alike like allowed scope
  | apply applicable callees operands => exact L.apply_alike like applicable callees operands
  | block runs registers => exact L.block_alike like (like.flow runs) runs _ registers

end Blocks

end Likeness
end LayeredIR
