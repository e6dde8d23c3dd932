import LayeredIR.Proofs.RootScope

/-! Where tasks fork. Only blocks do, at their end, so what a task goes on with after a fork is
known in every state that it comes to. -/
namespace LayeredIR

abbrev Likeness.still : Likeness Unit := .rooted .eir

theorem Likeness.still_answers {q q' : Query} (queries : Likeness.still.Queries () q q')
    (a : q.Answer) : ∃ a', Likeness.still.Answers () q q' a a' := by
  obtain rfl := Likeness.rooted_queries queries
  have scope (place : ScopeId) : Likeness.still.scope () place place := ⟨rfl, nofun⟩
  have writable (place : ScopeId) : Likeness.still.writable () place place :=
    ⟨rfl, fun other => absurd rfl other⟩
  refine ⟨a, ?_⟩
  cases q with
  | define place name v mutability => exact writable place
  | child place | enter captured => exact ⟨scope a, scope a, writable a⟩
  | flatten place => exact List.forall₂_same.mpr fun _ _ => ⟨rfl, rfl, rfl⟩
  | lookup place name | recollect id => exact rel_self a
  | compute op args | dispatch domain op args | perform effect args => exact ResultsAlike.of_eq rfl
  | remember id v => trivial
  | assign place name v | fresh | isActive key | innermost => rfl

def Plan.Straight {α : Type} : Plan α → Prop
  | .done _ | .fail _ => True
  | .eval _ next | .call _ _ next => ∀ v, (next v).Straight
  | .ask _ next => ∀ a, (next a).Straight
  | .fork _ _ _ | .await _ _ => False

theorem Plan.Straight.bind {α β : Type} {p : Plan α} {f : α → Plan β} (straight : p.Straight)
    (rest : ∀ a, (f a).Straight) : (p >>= f).Straight := by
  induction p with
  | done result => exact rest result
  | fail fault => trivial
  | eval _ _ ih | call _ _ _ ih | ask _ _ ih => exact fun a => ih a (straight a)
  | fork | await => exact straight.elim

theorem Likeness.Plans.straight {α β : Type} {R : Unit → α → β → Prop} {w : Unit} {p : Plan α}
    {p' : Plan β} (still : Likeness.still.Plans R w p p') : p.Straight := by
  induction still with
  | done _ | fail _ => trivial
  | eval _ _ ih | call _ _ ih => exact fun v => ih () v v le_rfl rfl
  | ask queries _ ih =>
    intro a
    obtain ⟨a', answers⟩ := Likeness.still_answers queries a
    exact ih () a a' le_rfl answers
  | fork flow _ _ _ | await flow _ _ _ => cases flow
  | memo memo _ _ _ _ _ => exact memo.elim
  | copy copying _ _ _ => exact copying.elim

def Plan.Forks (P : String → (Option Identity → Plan Next) → Prop) : Plan Next → Prop
  | .done _ | .fail _ => True
  | .eval _ next | .call _ _ next => ∀ v, (next v).Forks P
  | .ask _ next => ∀ a, (next a).Forks P
  | .fork label _ next => P label next ∧ ∀ id, (next id).Forks P
  | .await _ next => ∀ outcome, (next outcome).Forks P

variable {P : String → (Option Identity → Plan Next) → Prop}

theorem Plan.Straight.forks_bind {α : Type} {p : Plan α} {f : α → Plan Next}
    (straight : p.Straight) (rest : ∀ a, (f a).Forks P) : (p >>= f).Forks P := by
  induction p with
  | done result => exact rest result
  | fail fault => trivial
  | eval _ _ ih | call _ _ _ ih | ask _ _ ih => exact fun a => ih a (straight a)
  | fork | await => exact straight.elim

theorem Plan.Straight.forks {p : Plan Next} (straight : p.Straight) : p.Forks P := by
  have all : (p >>= pure).Forks P := straight.forks_bind fun _ => trivial
  rwa [bind_pure] at all

theorem Likeness.Plans.forks_bind {α β : Type} {R : Unit → α → β → Prop} {w : Unit} {p : Plan α}
    {p' : Plan β} {f : α → Plan Next} (still : Likeness.still.Plans R w p p')
    (rest : ∀ a, (f a).Forks P) : (p >>= f).Forks P := still.straight.forks_bind rest

section Setting

variable {σ : Type} (s : Setting σ)

def Setting.afterFork (future continuation : String) : Option Identity → Plan Next
  | none =>
    Plan.raise (.taskSpawnFailed (toString s.config.maxTasks ++ " forked tasks already running"))
  | some id => do
    Plan.writeRegister future (.future id)
    return .job (.block continuation)

def Setting.IsFork (body : String) (next : Option Identity → Plan Next) : Prop :=
  ∃ block ∈ s.blocks, ∃ continuation future, block.terminator = .fork body continuation future ∧
    (s.block? continuation).isSome ∧ next = s.afterFork future continuation

variable {s}

theorem Likeness.still_settings (layer : s.layer = .lir) : Likeness.still.Settings s s :=
  Likeness.rooted_settings s (fun _ => rfl) fun _ => layer

theorem Setting.target_forks_bind {label : String} {f : Job → Plan Next}
    (rest : (s.block? label).isSome → (f (.block label)).Forks P) :
    (s.target label >>= f).Forks P := by
  unfold Setting.target
  cases found : s.block? label with
  | none => trivial
  | some block => exact rest (found ▸ rfl)

theorem Setting.goto_forks (label : String) :
    (s.target label >>= fun next => pure (.job next)).Forks P :=
  Setting.target_forks_bind fun _ => trivial

theorem Plan.readRegister_straight (name : String) : (Plan.readRegister name).Straight := by
  have still : Likeness.still.Plans Likeness.still.value () (Plan.readRegister name)
      (Plan.readRegister name) := Likeness.still.lookupOrRaise_alike trivial ⟨rfl, nofun⟩
  exact still.straight

theorem Plan.readRegister_forks_bind (name : String) {f : Value → Plan Next}
    (rest : ∀ v, (f v).Forks P) : (Plan.readRegister name >>= f).Forks P :=
  (Plan.readRegister_straight name).forks_bind rest

theorem Setting.terminator_forks {block : Block} (member : block ∈ s.blocks) :
    (s.terminator block.terminator).Forks s.IsFork := by
  cases ends : block.terminator with
  | jump label => exact Setting.goto_forks label
  | branch cond thenLabel elseLabel =>
    refine Plan.readRegister_forks_bind cond fun test => ?_
    refine (Likeness.still.condition_alike (w := ()) (rfl : test = test)).forks_bind fun holds => ?_
    cases holds with
    | true => exact Setting.goto_forks thenLabel
    | false => exact Setting.goto_forks elseLabel
  | ret value =>
    cases value with
    | none => trivial
    | some name => exact Plan.readRegister_forks_bind name fun _ => trivial
  | fork body continuation future =>
    refine Setting.target_forks_bind fun _ => Setting.target_forks_bind fun there registers => ?_
    refine ⟨⟨block, member, continuation, future, ends, there, ?_⟩, fun id => ?_⟩
    · funext id
      cases id <;> rfl
    · cases id with
      | none => trivial
      | some id => exact fun _ => trivial
  | join future result label =>
    refine Setting.target_forks_bind fun _ => Plan.readRegister_forks_bind future fun v => ?_
    cases v with
    | future id =>
      intro outcome
      cases outcome with
      | error e => trivial
      | ok value =>
        cases result with
        | none => trivial
        | some name => exact fun _ => trivial
    | _ => trivial

/-- Only the ends of blocks fork or wait. -/
theorem Setting.plan_straight (layer : s.layer = .lir) {job : Job}
    (inside : ∀ label, job ≠ .block label) : (s.plan job).Straight := by
  have like := Likeness.still_settings layer
  have here (place : ScopeId) : Likeness.still.scope () place place := ⟨rfl, nofun⟩
  have still (jobs : Likeness.still.Jobs () job job) : (s.plan job).Straight :=
    (Likeness.still.plan_alike like jobs).straight
  cases job with
  | operand arg place => exact still (.operand trivial (here place))
  | expr expr place => exact still (.expr trivial (here place))
  | apply callee args => exact still (.apply trivial rfl (List.forall₂_same.mpr fun _ _ => rfl))
  | block label => exact absurd rfl (inside label)

theorem Setting.instructions_straight (layer : s.layer = .lir) (is : List Instruction) :
    (s.instructions is).Straight := by
  have like := Likeness.still_settings layer
  have registers : Likeness.still.scope () registerScope registerScope := ⟨rfl, nofun⟩
  have allowed (i : Instruction) : Likeness.still.allowedInstruction i := by
    cases i with
    | op target ns name args =>
      exact .all ns name
    | _ => trivial
  exact (Likeness.still.instructions_alike like layer (fun i _ => allowed i) registers).straight

theorem Setting.plan_forks (layer : s.layer = .lir) (job : Job) : (s.plan job).Forks s.IsFork := by
  cases job with
  | operand | expr | apply => exact (Setting.plan_straight layer (by simp)).forks
  | block label =>
    simp only [Setting.plan, Setting.block]
    cases found : s.block? label with
    | none => trivial
    | some block =>
      have member : block ∈ s.blocks := Setting.block_mem found
      exact (Setting.instructions_straight layer block.instructions).forks_bind
        fun _ => Setting.terminator_forks member

structure Plan.Lasting (Q : Plan Next → Prop) : Prop where
  done : ∀ next, Q (.done next)
  fail : ∀ fault, Q (.fail fault)
  eval : ∀ {job next}, Q (.eval job next) → ∀ v, Q (next v)
  call : ∀ {site job next}, Q (.call site job next) → ∀ v, Q (next v)
  ask : ∀ {q next}, Q (.ask q next) → ∀ a, Q (next a)

structure Task.Lasts (Q : Plan Next → Prop) (task : Task) : Prop where
  control : Q task.control
  frames : ∀ next, Frame.resume next ∈ task.frames → ∀ v, Q (next v)

theorem Task.Lasts.step {Q : Plan Next → Prop} (lasting : Plan.Lasting Q)
    (plans : ∀ job, Q (s.plan job)) {task task' : Task} {shared shared' : Shared σ}
    (lasts : task.Lasts Q) (stepped : task.step s shared = .running shared' task') :
    task'.Lasts Q := by
  obtain ⟨control, frames, memory⟩ := task
  obtain ⟨here, around⟩ := lasts
  cases control with
  | done next =>
    cases next with
    | job job =>
      cases stepped
      exact ⟨plans job, around⟩
    | value v =>
      match frames with
      | [] => cases stepped
      | .resume next :: rest =>
        cases stepped
        exact ⟨around next (by simp) v, fun next member => around next (by simp [member])⟩
      | .leave isDefinition :: rest =>
        cases stepped
        exact ⟨lasting.done _, fun next member => around next (by simp [member])⟩
  | fail fault =>
    match frames with
    | [] => cases stepped
    | .resume next :: rest =>
      cases stepped
      exact ⟨lasting.fail _, fun next member => around next (by simp [member])⟩
    | .leave isDefinition :: rest =>
      cases stepped
      exact ⟨lasting.fail _, fun next member => around next (by simp [member])⟩
  | eval job next =>
    cases stepped
    refine ⟨plans job, fun next member => ?_⟩
    rcases List.mem_cons.mp member with same | member
    · cases same
      exact lasting.eval here
    · exact around next member
  | call site job next =>
    simp only [Task.step] at stepped
    split at stepped
    · cases stepped
      exact ⟨lasting.fail _, around⟩
    · cases stepped
      refine ⟨plans job, fun next member => ?_⟩
      rcases List.mem_cons.mp member with same | member
      · cases same
      · rcases List.mem_cons.mp member with same | member
        · cases same
          exact lasting.call here
        · exact around next member
  | ask q next =>
    cases stepped
    exact ⟨lasting.ask here _, around⟩
  | fork label registers next => cases stepped
  | await id next => cases stepped

structure Task.ForksAtEnds (s : Setting σ) (task : Task) : Prop where
  control : task.control.Forks s.IsFork
  frames : ∀ next, Frame.resume next ∈ task.frames → ∀ v, (next v).Forks s.IsFork

theorem Plan.forks_lasting : Plan.Lasting fun plan => plan.Forks P where
  done _ := trivial
  fail _ := trivial
  eval forks := forks
  call forks := forks
  ask forks := forks

theorem Task.ForksAtEnds.step (layer : s.layer = .lir) {task task' : Task}
    {shared shared' : Shared σ} (forks : task.ForksAtEnds s)
    (stepped : task.step s shared = .running shared' task') : task'.ForksAtEnds s := by
  have lasts : task.Lasts fun plan => plan.Forks s.IsFork := ⟨forks.control, forks.frames⟩
  obtain ⟨here, around⟩ := lasts.step Plan.forks_lasting (Setting.plan_forks layer) stepped
  exact ⟨here, around⟩

/-- In every state that a control-flow document comes to, a fork is one that a block ends with. -/
theorem Setting.Reaches.forksAtEnds (layer : s.layer = .lir) {task : Task}
    (reaches : s.Reaches task) :
    task.ForksAtEnds s := by
  induction reaches with
  | result other => exact absurd layer other
  | block _ => exact ⟨trivial, by simp [Task.atBlock, Task.start]⟩
  | step _ stepped ih => exact ih.step layer stepped
  | answered _ outcome ih => exact ⟨ih.control outcome, ih.frames⟩
  | refused _ ih | forked _ ih => exact ⟨ih.control.2 _, ih.frames⟩

end Setting
end LayeredIR
