import LayeredIR.Proofs.Bodies.Apart
import LayeredIR.Proofs.Lookups
import LayeredIR.Proofs.Yields

/-! What the body of a definition depends on. As long as the root scope binds nothing, it is the
operands alone, whatever is bound around the call; and a name that the root scope binds is one that
some body sees. -/
namespace LayeredIR

variable {σ : Type}

namespace Setting

variable (s : Setting σ)

def withParams (place : ScopeId) (heap : Heap) : List (String × Value) → Heap
  | [] => heap
  | (name, v) :: rest => withParams place (heap.define place name ⟨v, s.localMutability⟩) rest

def bodyMemory (key : String) (d : Definition) (values : List Value) (memory : Memory) : Memory :=
  let heap := s.withParams memory.heap.size (memory.heap.child rootScope).2 (d.params.zip values)
  { memory with heap := heap }.enter ⟨key, true⟩

def bodyTask (key : String) (d : Definition) (values : List Value) (memory : Memory) : Task :=
  ⟨s.plan (.operand d.body memory.heap.size), [], s.bodyMemory key d values memory⟩

end Setting

theorem Task.defineAll_leads {s : Setting σ} {shared : Shared σ} {next : Unit → Plan Next}
    {frames : List Frame} {memory : Memory} {place : ScopeId} (bindings : List (String × Value)) :
    Task.Leads s shared ⟨Plan.defineAll place s.localMutability bindings >>= next, frames, memory⟩
      shared ⟨next (), frames,
        { memory with heap := s.withParams place memory.heap bindings }⟩ := by
  induction bindings generalizing memory with
  | nil => exact .refl _ _
  | cons binding rest ih => exact .step rfl ih

theorem Setting.definitionBody_leads {s : Setting σ} {shared : Shared σ} {key : String}
    {d : Definition} {values : List Value} {next : Value → Plan Next} {frames : List Frame}
    {memory : Memory} (free : memory.stack.isFull = false) :
    Task.Leads s shared ⟨s.definitionBody key d values >>= next, frames, memory⟩ shared
      ⟨(s.bodyTask key d values memory).control, .leave true :: .resume next :: frames,
        (s.bodyTask key d values memory).memory⟩ := by
  have opened : Task.Leads s shared ⟨s.definitionBody key d values >>= next, frames, memory⟩ shared
      ⟨Plan.defineAll memory.heap.size s.localMutability (d.params.zip values) >>= fun _ =>
        Plan.within ⟨key, true⟩ (.operand d.body memory.heap.size) >>= next, frames,
        { memory with heap := (memory.heap.child rootScope).2 }⟩ := by
    simp only [definitionBody, bind_assoc]
    exact .step rfl (.refl _ _)
  exact opened.trans ((Task.defineAll_leads _).trans (.step (Task.step_free free) (.refl _ _)))

def Task.asCall (result : Option Ty) (frames : List Frame) (task : Task) : Task :=
  { task with
    frames := task.frames ++ .leave true :: .resume (Plan.checkResult result) :: frames }

/-- A call that begins from some scope and gets to the body of a definition: there is one of the
name that is not running, its operands come to values, and there is room for the call. -/
structure Setting.Enters (s : Setting σ) (ns name : String) (args : List Arg) (scope : ScopeId)
    (frames : List Frame) (d : Definition) (values : List Value) (shared : Shared σ)
    (memory : Memory) (shared' : Shared σ) (memory' : Memory) : Prop where
  found : s.definitions.get? ns name = some d
  idle : memory.active.contains (definitionKey ns name) = false
  arity : d.params.length = args.length
  operands : ∀ next : List Value → Plan Next,
    Task.Leads s shared ⟨Plan.evalAll scope args >>= next, frames, memory⟩ shared'
      ⟨next values, frames, memory'⟩
  room : memory'.stack.isFull = false

/-- What goes on when a body is entered does not tell from which scope it was called. -/
theorem Setting.Enters.leads {s : Setting σ} {ns name : String} {args : List Arg} {scope : ScopeId}
    {frames : List Frame} {d : Definition} {values : List Value} {shared shared' : Shared σ}
    {memory memory' : Memory}
    (enters : s.Enters ns name args scope frames d values shared memory shared' memory') :
    Task.Leads s shared ⟨s.callDefinition ns name args scope, frames, memory⟩ shared'
      ((s.bodyTask (definitionKey ns name) d values memory').asCall d.result frames) := by
  obtain ⟨found, idle, arity, operands, room⟩ := enters
  have asked : Task.step s shared ⟨s.callDefinition ns name args scope, frames, memory⟩ =
      .running shared ⟨Plan.evalAll scope args >>= fun values =>
        s.definitionBody (definitionKey ns name) d values >>= Plan.checkResult d.result, frames,
        memory⟩ := by
    simp only [callDefinition, found]
    change Progress.running _ ⟨if memory.active.contains (definitionKey ns name) = true then _
      else _, _, _⟩ = _
    rw [idle, if_neg Bool.false_ne_true, if_neg (not_not_intro arity)]
  exact .step asked ((operands _).trans (definitionBody_leads room))

section Beginning

variable {s : Setting σ} {m m' : Memory}

theorem Heap.Extends.withParams {heap later : Heap} {n : Nat} {place : ScopeId} (le : n ≤ place)
    (extends_ : heap.Extends n later) (bindings : List (String × Value)) :
    heap.Extends n (s.withParams place later bindings) := by
  induction bindings generalizing later with
  | nil => exact extends_
  | cons binding rest ih =>
    exact ih (extends_.trans (.define later binding.1 _ le extends_.size) (Nat.le_refl n))

variable (uniform : s.Uniform) (alike : m.CallsAlike m')

theorem Likeness.Aligned.withParams {stacked : CallStack → CallStack → Prop} {n : Nat}
    {memory memory' : Memory} {place place' : ScopeId}
    (writable : (Likeness.twins alike).writable n place place') (bindings : List (String × Value))
    (free : ∀ binding ∈ bindings, binding.2.ClosureFree)
    (aligned : (Likeness.twins alike).Aligned (Likeness.twinsRegular uniform alike).extent stacked n
      memory memory') :
    (Likeness.twins alike).Aligned (Likeness.twinsRegular uniform alike).extent stacked n
      { memory with heap := s.withParams place memory.heap bindings }
      { memory' with heap := s.withParams place' memory'.heap bindings } := by
  induction bindings generalizing memory memory' with
  | nil => exact aligned
  | cons binding rest ih =>
    have first := aligned.define writable binding.1 s.localMutability
      (.of_closureFree binding.2 (free binding (.head _)))
    exact ih (fun other member => free other (.tail _ member)) first

theorem Likeness.bodyMemory_aligned (key : String) (d : Definition) {values : List Value}
    (free : ∀ v ∈ values, v.ClosureFree) :
    (Likeness.twins alike).Aligned (Likeness.twinsRegular uniform alike).extent (m.Stacks m' 0) 1
      (s.bodyMemory key d values m) (s.bodyMemory key d values m') := by
  have before : (Likeness.twins alike).Aligned (Likeness.twinsRegular uniform alike).extent
      (fun stack stack' => stack = m.stack ∧ stack' = m'.stack) 0 m m' := by
    refine ⟨?_, rfl, fun k => ⟨k, rfl, rfl⟩, ⟨rfl, rfl⟩, alike.active, ?_⟩
    · intro a b either
      rcases either with ⟨rfl, rfl⟩ | ⟨_, none, _⟩
      · rw [alike.empty, alike.empty']
        exact .some ⟨.nil, .none⟩
      · cases none
    · intro parts
      obtain ⟨n, root⟩ := parts
      exact absurd rfl (alike.new_ne_root root).1
  have opened := before.add .nil (.some (.inl ⟨rfl, rfl⟩))
  have bound := opened.withParams uniform alike ⟨0, Nat.zero_lt_one, rfl, rfl⟩ (d.params.zip values)
    fun binding member => free binding.2 (List.of_mem_zip member).2
  exact ⟨bound.heap, bound.sizes, bound.identities,
    ⟨[key], rfl, Array.toList_push, Array.toList_push, rfl, rfl⟩,
    congrArg (key :: ·) alike.active, bound.kept⟩

theorem Likeness.bodyTask_alike (key : String) (d : Definition) {values : List Value}
    (free : ∀ v ∈ values, v.ClosureFree) (shared : Shared σ) :
    Likeness.Tasks (Likeness.bodyMemories uniform alike) 1 shared (s.bodyTask key d values m) shared
      (s.bodyTask key d values m') := by
  have jobs : (Likeness.twins alike).Jobs 1 (.operand d.body m.heap.size)
      (.operand d.body m'.heap.size) := .operand trivial ⟨0, Nat.zero_lt_one, rfl, rfl⟩
  have old {memory : Memory} : memory.heap.Extends memory.heap.size
      (s.bodyMemory key d values memory).heap :=
    .withParams (Nat.le_refl _) (.add memory.heap [] _ (Nat.le_refl _)) _
  exact ⟨(Likeness.twins alike).plan_alike (Likeness.twins_settings uniform alike) jobs, .nil,
    ⟨rfl, Likeness.bodyMemory_aligned uniform alike key d free⟩, old, old⟩

end Beginning

namespace Task

variable (s : Setting σ) (others : Nat → Shared σ → Shared σ)

def after : Nat → Shared σ → Task → Progress σ
  | 0, shared, task => .running shared task
  | n + 1, shared, task =>
    match task.step s (others n shared) with
    | .running shared task => after n shared task
    | progress => progress

def effect? (task : Task) : Option (String × List Value) :=
  match task.control with
  | .ask (.perform effect args) _ => some (effect, args)
  | _ => none

def performed : Nat → Shared σ → Task → List (String × List Value)
  | 0, _, _ => []
  | n + 1, shared, task =>
    match task.step s (others n shared) with
    | .running shared later => task.effect?.toList ++ performed n shared later
    | _ => task.effect?.toList

end Task

theorem Setting.Reaches.after {s : Setting σ} {task task' : Task} (reaches : s.Reaches task)
    (others : Nat → Shared σ → Shared σ) (steps : Nat) (shared : Shared σ) {shared' : Shared σ}
    (ran : task.after s others steps shared = .running shared' task') : s.Reaches task' := by
  induction steps generalizing task shared with
  | zero =>
    cases ran
    exact reaches
  | succ steps ih =>
    simp only [Task.after] at ran
    generalize stepped : task.step s (others steps shared) = progress at ran
    cases progress with
    | running shared₁ later => exact ih (reaches.step stepped) shared₁ ran
    | ended | waiting => cases ran

namespace Memory

variable (m m' : Memory)

def AnyScopes (a b : ScopeId) : Prop := ∃ n, m.Scopes m' n a b

abbrev AnyValues : Value → Value → Prop :=
  Value.Alike (m.Ids m') (m.AnyScopes m') fun _ => True

end Memory

/-- How far two bodies have come. Both go on, or both have ended, with the same value up to the
identities and scopes that they have made, or with the same failure up to the calls around them. No
older scope has changed. -/
inductive Progress.BodiesAlike (m m' : Memory) : Progress σ → Progress σ → Prop
  | running {shared task task'} (old : m.heap.Extends m.heap.size task.memory.heap)
    (old' : m'.heap.Extends m'.heap.size task'.memory.heap) :
    BodiesAlike m m' (.running shared task) (.running shared task')
  | ended {outcome outcome' shared memory memory'}
    (outcomes : ResultsAlike (m.Faults m') (m.AnyValues m') outcome outcome')
    (heaps : Heap.Alike (m.AnyValues m') (m.AnyScopes m') memory.heap memory'.heap)
    (old : m.heap.Extends m.heap.size memory.heap)
    (old' : m'.heap.Extends m'.heap.size memory'.heap) :
    BodiesAlike m m' (.ended outcome shared memory) (.ended outcome' shared memory')

section Together

variable {s : Setting σ} {m m' : Memory} {uniform : s.Uniform} {alike : m.CallsAlike m'}

theorem Memory.values_any {n : Nat} {v v' : Value} (values : m.Values m' n v v') :
    m.AnyValues m' v v' :=
  values.mono (fun _ _ ids => ids) (fun _ _ scopes => ⟨n, scopes⟩) fun _ held => held

theorem Likeness.Aligned.anyScopes {stacked : CallStack → CallStack → Prop} {n : Nat}
    {memory memory' : Memory}
    (aligned : (Likeness.twins alike).Aligned (Likeness.twinsRegular uniform alike).extent stacked n
      memory memory') :
    Heap.Alike (m.AnyValues m') (m.AnyScopes m') memory.heap memory'.heap := by
  have known (a b : ScopeId) (scopes : m.Scopes m' n a b) :
      Option.Rel (Scope.Alike (m.AnyValues m') (m.AnyScopes m') a b) (memory.heap.get? a)
        (memory'.heap.get? b) :=
    rel_imp (fun _ _ same => same.mono (fun _ _ => Memory.values_any) fun _ _ held => ⟨n, held⟩)
      (aligned.heap a b scopes)
  obtain ⟨size, size'⟩ :
      m.heap.size + n = memory.heap.size ∧ m'.heap.size + n = memory'.heap.size :=
    Prod.ext_iff.mp aligned.sizes
  intro a b parts
  obtain ⟨j, root | ⟨k, -, rfl, rfl⟩⟩ := parts
  · exact known a b (.inl root)
  · by_cases made : k < n
    · exact known _ _ (.inr ⟨k, made, rfl, rfl⟩)
    · have absent {heap : Heap} {place : ScopeId} (past : heap.size ≤ place) :
          heap.get? place = none := Array.getElem?_eq_none past
      rw [absent (size ▸ Nat.add_le_add_left (Nat.le_of_not_lt made) _),
        absent (size' ▸ Nat.add_le_add_left (Nat.le_of_not_lt made) _)]
      exact .none

/-- Two bodies take like steps, whatever the others have changed alike. -/
theorem Likeness.Tasks.step_beside {n : Nat} {shared : Shared σ} {task task' : Task}
    (tasks : Likeness.Tasks (Likeness.bodyMemories uniform alike) n shared task shared task')
    (changed : Shared σ) :
    Likeness.Steps (Likeness.bodyMemories uniform alike) n (task.step s changed)
      (task'.step s changed) :=
  Likeness.step_alike _ (Likeness.twins_settings uniform alike) (fun _ => rfl)
    (fun _ _ memo => memo.elim) (fun _ _ _ copying => copying)
    ⟨tasks.control, tasks.frames, ⟨rfl, tasks.memory.1.2⟩, tasks.memory.2⟩

theorem Likeness.Tasks.after_alike {n : Nat} {shared : Shared σ} {task task' : Task}
    (tasks : Likeness.Tasks (Likeness.bodyMemories uniform alike) n shared task shared task')
    (others : Nat → Shared σ → Shared σ) (steps : Nat) :
    (task.after s others steps shared).BodiesAlike m m' (task'.after s others steps shared) := by
  induction steps generalizing n shared task task' with
  | zero => exact .running tasks.memory.2.1 tasks.memory.2.2
  | succ steps ih =>
    have stepped := tasks.step_beside (others steps shared)
    simp only [Task.after]
    generalize task.step s (others steps shared) = progress,
      task'.step s (others steps shared) = progress' at stepped ⊢
    cases stepped with
    | running _ later =>
      obtain ⟨rfl, -⟩ := later.memory.1
      exact ih later
    | @ended outcome outcome' _ _ _ _ outcomes memories =>
      obtain ⟨⟨rfl, aligned⟩, old, old'⟩ := memories
      refine .ended ?_ aligned.anyScopes old old'
      match outcome, outcome', outcomes with
      | .ok _, .ok _, values => exact Memory.values_any values
      | .error _, .error _, faults => exact faults
    | waiting flow _ => exact flow.elim

theorem Likeness.Tasks.effect?_alike {n : Nat} {shared : Shared σ} {task task' : Task}
    (tasks : Likeness.Tasks (Likeness.bodyMemories uniform alike) n shared task shared task') :
    List.Forall₂ (fun call call' => call.1 = call'.1 ∧
      List.Forall₂ (m.AnyValues m') call.2 call'.2) task.effect?.toList task'.effect?.toList := by
  obtain ⟨control, frames, memory⟩ := task
  obtain ⟨control', frames', memory'⟩ := task'
  cases tasks.control with
  | ask queries _ =>
    cases queries with
    | perform _ operands =>
      exact .cons ⟨rfl, operands.imp fun _ _ => Memory.values_any⟩ .nil
    | _ => exact .nil
  | memo memo _ _ _ _ => exact memo.elim
  | copy copying _ _ => exact copying.elim
  | _ => exact .nil

theorem Likeness.Tasks.performed_alike {n : Nat} {shared : Shared σ} {task task' : Task}
    (tasks : Likeness.Tasks (Likeness.bodyMemories uniform alike) n shared task shared task')
    (others : Nat → Shared σ → Shared σ) (steps : Nat) :
    List.Forall₂ (fun call call' => call.1 = call'.1 ∧
        List.Forall₂ (m.AnyValues m') call.2 call'.2)
      (task.performed s others steps shared) (task'.performed s others steps shared) := by
  induction steps generalizing n shared task task' with
  | zero => exact .nil
  | succ steps ih =>
    have stepped := tasks.step_beside (others steps shared)
    simp only [Task.performed]
    generalize task.step s (others steps shared) = progress,
      task'.step s (others steps shared) = progress' at stepped ⊢
    cases stepped with
    | running _ later =>
      obtain ⟨rfl, -⟩ := later.memory.1
      exact List.rel_append tasks.effect?_alike (ih later)
    | ended => exact tasks.effect?_alike
    | waiting => exact tasks.effect?_alike

end Together

section Seen

variable {s : Setting σ}

def Definition.ofVariable (name : String) : Definition :=
  ⟨"", "", [], .inline (.var name), none⟩

theorem Task.after_ofVariable (shared : Shared σ) {memory : Memory} {bindings : Bindings}
    (key name : String) (root : memory.heap.get? rootScope = some ⟨bindings, none⟩) :
    (s.bodyTask key (.ofVariable name) [] memory).after s (fun _ shared => shared) 3 shared =
      .ended (match bindings.find? name with
        | some binding => .ok binding.value
        | none => .error (.ofCause (.unboundName name))) shared
        (s.bodyMemory key (.ofVariable name) [] memory) := by
  have plan (scope : ScopeId) : s.plan (.expr (.var name) scope) =
      .ask (.lookup scope name) fun found => match found with
        | some v => .done (.value v)
        | none => .fail (.ofCause (.unboundName name)) := by
    have low : ¬ s.layer < (Expr.var name).minLayer := Nat.not_lt_zero _
    change s.expression (.var name) scope = _
    rw [Setting.expression, if_neg low]
    refine congrArg (Plan.ask (.lookup scope name)) (funext fun found => ?_)
    cases found <;> rfl
  have seen : (s.bodyMemory key (.ofVariable name) [] memory).heap.lookup memory.heap.size name =
      (bindings.find? name).map Binding.value := Heap.lookup_child name root
  have first : (s.bodyTask key (.ofVariable name) [] memory).after s (fun _ shared => shared) 3
      shared = Task.after s (fun _ shared => shared) 2 shared
        ⟨s.plan (.expr (.var name) memory.heap.size), [],
          s.bodyMemory key (.ofVariable name) [] memory⟩ := rfl
  rw [first, plan]
  simp only [Task.after, Task.step, Setting.serve, seen]
  cases bindings.find? name <;> rfl

end Seen

/-- Whether all bodies go alike in two memories, whatever their closure-free operands are. -/
def Setting.BodiesAgree (s : Setting σ) (shared : Shared σ) (m m' : Memory) : Prop :=
  ∀ key d values, (∀ v ∈ values, v.ClosureFree) → ∀ (others : Nat → Shared σ → Shared σ) n,
    ((s.bodyTask key d values m).after s others n shared).BodiesAlike m m'
        ((s.bodyTask key d values m').after s others n shared) ∧
      List.Forall₂ (fun call call' => call.1 = call'.1 ∧
          List.Forall₂ (m.AnyValues m') call.2 call'.2)
        ((s.bodyTask key d values m).performed s others n shared)
        ((s.bodyTask key d values m').performed s others n shared)

/-- In a state that is reached, the body of a definition goes on from its operands whatever scope it
is called from, and what it does is told by them alone just where the root scope binds nothing. -/
theorem Setting.Reaches.bodiesAgree_iff {s : Setting σ} (uniform : s.Uniform) {task : Task}
    (reaches : s.Reaches task) (shared : Shared σ) :
    (s.layer ≠ .eir → task.memory.RootEmpty) ∧
    (∀ ns name args scope frames d values shared₀ memory₀,
      s.Enters ns name args scope frames d values shared₀ memory₀ shared task.memory →
      Task.Leads s shared₀ ⟨s.callDefinition ns name args scope, frames, memory₀⟩ shared
        ((s.bodyTask (definitionKey ns name) d values task.memory).asCall d.result frames)) ∧
    (task.memory.RootEmpty ↔ ∀ m', m'.RootEmpty → task.memory.SameCalls m' →
      s.BodiesAgree shared task.memory m') := by
  obtain ⟨bindings, root, empty⟩ := reaches.keepsRoot.rooted
  refine ⟨fun other => ?_, fun _ _ _ _ _ _ _ _ _ enters => enters.leads, ?_, fun agree => ?_⟩
  · rw [Memory.RootEmpty, root, empty other]
  · intro bare m' bare' same key d values free others n
    have alike : task.memory.CallsAlike m' := ⟨same, bare, bare'⟩
    have tasks := Likeness.bodyTask_alike uniform alike key d free shared
    exact ⟨tasks.after_alike others n, tasks.performed_alike others n⟩
  · cases bindings with
    | nil => exact root
    | cons entry rest =>
      obtain ⟨name, binding⟩ := entry
      have found : Bindings.find? name ((name, binding) :: rest) = some binding :=
        List.lookup_cons_self
      let bare : Memory := { task.memory with heap := ⟨#[⟨[], none⟩]⟩ }
      obtain ⟨together, -⟩ := agree bare rfl ⟨rfl, rfl, rfl⟩ "" (.ofVariable name) []
        (fun _ => nofun) (fun _ shared => shared) 3
      rw [Task.after_ofVariable shared "" name root, Task.after_ofVariable shared "" name rfl,
        found] at together
      cases together with
      | ended outcomes _ _ _ => exact outcomes.elim

/-- The domains that every registry starts with, and literals, tell no closures apart. -/
theorem Setting.Uniform.of_builtin {s : Setting σ} (domains : s.domains = .builtin)
    (handlers : ∀ name, s.handler? name = none)
    (literal : ∀ entry ∈ s.inputs, ∃ l, entry.2 = Value.ofLiteral l) : s.Uniform := by
  refine ⟨fun name d found identity scope one => ?_, fun name _ found => ?_, fun entry member => ?_⟩
  · rw [domains] at found
    let alike : Resemblance Unit := .upTo (fun _ => identity) (fun _ => scope) fun _ => True
    exact alike.builtin_respects (Resemblance.upTo_comparable fun _ => one) _ found
  · rw [handlers] at found
    cases found
  · obtain ⟨l, same⟩ := literal entry member
    rw [same]
    refine (Value.ofLiteral_plain l).mono ?_
    intro _ plain c equal
    cases equal
    cases plain

theorem Setting.Reaches.bodiesAgree_iff_declared : ∃ task : Task,
    ({ layer := .eir } : Setting Unit).Reaches task ∧
      ¬ ∀ m', m'.RootEmpty → task.memory.SameCalls m' →
        ({ layer := .eir } : Setting Unit).BodiesAgree ⟨.empty, 0, ()⟩ task.memory m' := by
  have uniform : ({ layer := .eir } : Setting Unit).Uniform :=
    .of_builtin rfl (fun _ => rfl) (by simp)
  obtain ⟨task, reaches, bound⟩ : ∃ task : Task, ({ layer := .eir } : Setting Unit).Reaches task ∧
      task.memory.heap.get? rootScope = some ⟨[("secret", ⟨.int 3, .mutable⟩)], none⟩ := by
    have start : ({ layer := .eir } : Setting Unit).Reaches (.start
        (.operand (.inline (.declare "secret" (.inline (.lit (.int 3))))) rootScope)
        (.initial entryTask 1)) := .result nofun
    exact ⟨_, start.after (fun _ shared => shared) 6 ⟨.empty, 0, ()⟩ rfl, rfl⟩
  refine ⟨task, reaches, fun agree => ?_⟩
  have empty := (reaches.bodiesAgree_iff uniform ⟨.empty, 0, ()⟩).2.2.mpr agree
  cases bound.symm.trans empty

end LayeredIR
