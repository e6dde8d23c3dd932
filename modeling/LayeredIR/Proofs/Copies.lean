import LayeredIR.Proofs.Copies.Standing
import LayeredIR.Proofs.Openings
import LayeredIR.Proofs.Yields

/-! A document of the first two layers beside the block that assigns its result to a register. The
closures of the one share the scopes they are made in, those of the other take copies along, and no
name is ever rebound. So the two come to the same, up to where their closures look names up. -/
namespace LayeredIR
namespace Copies

variable {σ : Type} {s : Setting σ} (copyable : s.Copyable) (effects : Option (Effects σ))
  (blocks : List Block)

abbrev Memories (s : Setting σ) (effects : Option (Effects σ)) (blocks : List Block) :=
  memories s.layer s.Spare s (s.inBlocks effects blocks)

def Ends (s : Setting σ) (w : Stage) (r r' : Except Fault Value × Shared σ × Memory) : Prop :=
  ∃ w', w ≤ w' ∧ ResultsAlike Eq ((likeness s.layer s.Spare).value w') r.1 r'.1 ∧
    r.2.1 = r'.2.1 ∧ Stands s.layer s.Spare w' r.2.2 r'.2.2

theorem Ends.mono {w w' : Stage} (le : w ≤ w')
    {r r' : Except Fault Value × Shared σ × Memory} (ends : Ends s w' r r') : Ends s w r r' := by
  obtain ⟨last, later, parts⟩ := ends
  exact ⟨last, le.trans later, parts⟩

/-- Once a run has ended, its values are over all the scopes that it leaves. -/
theorem Stands.results {layer : Layer} {reads : String → Prop} {w : Stage}
    {memory memory' : Memory} (stands : Stands layer reads w memory memory')
    {outcome outcome' : Except Fault Value}
    (results : ResultsAlike Eq ((likeness layer reads).value w) outcome outcome') :
    ResultsAlike Eq
      (Value.Copied memory.heap memory.heap.size reads (Arg.Confined layer reads)) outcome
      outcome' := by
  match outcome, outcome', results with
  | .ok v, .ok v', values =>
    have same (a : ScopeId) (_ : a < w.closed) (name : String) :
        memory.heap.lookup a name = w.heap.lookup a name := by rw [stands.heap]
    exact values.mono stands.closed same
  | .error _, .error _, same => exact same

section Runs

variable {w : Stage} {shared shared' : Shared σ} {task task' : Task}
include copyable

/-- The second run takes one step for each of the first, or two where a closure takes a copy. -/
theorem advance
    (tasks : Likeness.Tasks (Memories s effects blocks) w shared task shared' task') :
    Likeness.Steps (Memories s effects blocks) w (task.step s shared)
        (task'.step (s.inBlocks effects blocks) shared') ∨
      ∃ shared₁ task₁, task'.step (s.inBlocks effects blocks) shared' = .running shared₁ task₁ ∧
        Likeness.Steps (Memories s effects blocks) w (task.step s shared)
          (task₁.step (s.inBlocks effects blocks) shared₁) := by
  have like := likeness_settings copyable effects blocks
  by_cases copies : ∃ b next, task'.control = .ask (.flatten b) next
  · obtain ⟨b, next, asked⟩ := copies
    obtain ⟨control, frames, memory⟩ := task
    obtain ⟨control', frames', memory'⟩ := task'
    obtain ⟨plans, waiting, same, stands⟩ := tasks
    cases asked
    cases plans with
    | ask queries _ =>
      cases queries with
      | flatten plain => exact absurd trivial plain
    | copy _ scope rest =>
      obtain ⟨le, stands', captured⟩ := stands.copy scope
      exact .inr ⟨_, _, rfl, .running le
        ⟨rest _ _ _ _ le captured stands.identity, waiting.mono le, same, stands'.fresh⟩⟩
  · exact .inl (Likeness.step_alike _ like (fun _ => rfl) (fun _ _ _ => id)
      (fun b next asked => absurd ⟨b, next, asked⟩ copies) tasks)

/-- Where the run that shares scopes ends, the one that copies them does. -/
theorem run_copies {fuel : Nat} {r : Except Fault Value × Shared σ × Memory}
    (tasks : Likeness.Tasks (Memories s effects blocks) w shared task shared' task')
    (ran : Task.run s fuel shared task = some r) :
    ∃ fuel' r', Task.run (s.inBlocks effects blocks) fuel' shared' task' = some r' ∧
      Ends s w r r' := by
  induction fuel generalizing w shared shared' task task' with
  | zero => cases ran
  | succ fuel ih =>
    have matched {shared₁ : Shared σ} {task₁ : Task}
        (steps : Likeness.Steps (Memories s effects blocks) w (task.step s shared)
          (task₁.step (s.inBlocks effects blocks) shared₁)) :
        ∃ fuel' r', Task.run (s.inBlocks effects blocks) fuel' shared₁ task₁ = some r' ∧
          Ends s w r r' := by
      simp only [Task.run] at ran
      generalize task.step s shared = p at ran steps
      generalize stepped : task₁.step (s.inBlocks effects blocks) shared₁ = p' at steps
      cases steps with
      | running later tasks' =>
        obtain ⟨fuel', r', ran', ends⟩ := ih tasks' ran
        refine ⟨fuel' + 1, r', ?_, ends.mono later⟩
        rwa [Task.run, stepped]
      | ended outcomes memories =>
        cases ran
        have ends : Ends s w (_, _, _) (_, _, _) := ⟨w, le_rfl, outcomes, memories⟩
        refine ⟨1, _, ?_, ends⟩
        rw [Task.run, stepped]
      | waiting flow => exact flow.elim
    rcases advance copyable effects blocks tasks with steps | ⟨_, _, stepped, steps⟩
    · exact matched steps
    · obtain ⟨fuel', r', ran', ends⟩ := matched steps
      refine ⟨fuel' + 1, r', ?_, ends⟩
      rwa [Task.run, stepped]

/-- Where the run that copies scopes ends, the one that shares them does. -/
theorem run_shares {fuel' : Nat} {r' : Except Fault Value × Shared σ × Memory}
    (tasks : Likeness.Tasks (Memories s effects blocks) w shared task shared' task')
    (ran : Task.run (s.inBlocks effects blocks) fuel' shared' task' = some r') :
    ∃ fuel r, Task.run s fuel shared task = some r ∧ Ends s w r r' := by
  -- One step of the run that shares answers up to two of this one, so the fuel may drop by two.
  induction fuel' using Nat.strongRecOn generalizing w shared shared' task task' with
  | _ fuel' ih =>
    have matched {fuel₁ : Nat} {shared₁ : Shared σ} {task₁ : Task} (le : fuel₁ ≤ fuel')
        (steps : Likeness.Steps (Memories s effects blocks) w (task.step s shared)
          (task₁.step (s.inBlocks effects blocks) shared₁))
        (ran : Task.run (s.inBlocks effects blocks) fuel₁ shared₁ task₁ = some r') :
        ∃ fuel r, Task.run s fuel shared task = some r ∧ Ends s w r r' := by
      cases fuel₁ with
      | zero => cases ran
      | succ fuel₁ =>
        simp only [Task.run] at ran
        generalize task₁.step (s.inBlocks effects blocks) shared₁ = p' at ran steps
        generalize stepped : task.step s shared = p at steps
        cases steps with
        | running later tasks' =>
          obtain ⟨fuel, r, ran', ends⟩ := ih fuel₁ le tasks' ran
          refine ⟨fuel + 1, r, ?_, ends.mono later⟩
          rwa [Task.run, stepped]
        | ended outcomes memories =>
          cases ran
          have ends : Ends s w (_, _, _) (_, _, _) := ⟨w, le_rfl, outcomes, memories⟩
          refine ⟨1, _, ?_, ends⟩
          rw [Task.run, stepped]
        | waiting flow => exact flow.elim
    rcases advance copyable effects blocks tasks with steps | ⟨_, _, stepped, steps⟩
    · exact matched (Nat.le_refl _) steps ran
    · cases fuel' with
      | zero => cases ran
      | succ fuel₁ =>
        rw [Task.run, stepped] at ran
        exact matched (Nat.le_succ fuel₁) steps ran

end Runs

def Stage.initial : Stage where
  heap := (Heap.empty.add [] none).2
  closed := 1
  scopes a b := a = rootScope ∧ (b = rootScope ∨ b = registerScope)
  rooted := ⟨rfl, .inl rfl⟩
  opening := none

/-- The root scope binds nothing, and the registers bind the inputs, which no code reads. -/
theorem Stands.initial (s : Setting σ) (maxCallDepth : Nat) :
    Stands s.layer s.Spare .initial (.initial entryTask maxCallDepth)
      (.withRegisters entryTask maxCallDepth s.inputRegisters) := by
  have empty : Heap.empty.Ordered := by rintro _ _ _ ⟨⟩
  have alone (bindings : Bindings) (name : String) {heap : Heap} {a : ScopeId}
      (held : heap.get? a = some ⟨bindings, none⟩) :
      heap.lookup a name = (bindings.find? name).map Binding.value := by
    rw [Heap.lookup, Heap.find?_alone held]
    cases bindings.find? name <;> rfl
  have root (name : String) :
      (Memory.initial entryTask maxCallDepth).heap.lookup rootScope name = none :=
    alone [] name rfl
  refine {
    heap := rfl
    ordered := empty.add [] (by simp)
    ordered' := (empty.add [] (by simp)).add s.inputRegisters (by simp)
    closed := Nat.le_refl 1
    within := ?_
    lookups := ?_
    opening := by rintro _ ⟨⟩
    owner := rfl
    serial := rfl
    stack := rfl
    active := rfl }
  · rintro a b ⟨rfl, rfl | rfl⟩
    · exact ⟨Nat.zero_lt_one, Nat.zero_lt_two⟩
    · exact ⟨Nat.zero_lt_one, Nat.one_lt_two⟩
  · rintro a b ⟨rfl, rfl | rfl⟩ name spare
    · rw [root, alone [] name rfl]
      exact .none
    · rw [root, alone s.inputRegisters name rfl, Setting.inputRegisters, Bindings.find?_ofValues,
        show s.inputs.lookup name = none from spare]
      exact .none

theorem tasks_start {arg : Arg} (confined : arg.Confined s.layer s.Spare) (shared : Shared σ)
    (maxCallDepth : Nat) :
    Likeness.Tasks (Memories s effects blocks) .initial shared
      (.start (.operand arg rootScope) (.initial entryTask maxCallDepth)) shared
      (.start (.operand arg registerScope)
        (.withRegisters entryTask maxCallDepth s.inputRegisters)) where
  control := .done (.job (.operand confined ⟨rfl, .inr rfl⟩))
  frames := .nil
  memory := ⟨rfl, .initial s maxCallDepth⟩

end Copies

section Register

variable {σ : Type} {s : Setting σ} {label register : String} {value : Arg}
  (block : s.block? label = some ⟨label, [.assign register value], .ret (some register)⟩)
include block

/-- A block that assigns a value to a register and returns it. -/
theorem plan_assigned : s.plan (.block label) =
    .eval (.operand value registerScope) fun v =>
      .ask (.define registerScope register v .mutable) fun _ =>
        .ask (.lookup registerScope register) fun found =>
          match found with
          | some value => .done (.value value)
          | none => .raise (.unboundName register) := by
  simp only [Setting.plan, Setting.block, block]
  refine congrArg (Plan.eval _) (funext fun v => congrArg (Plan.ask _) (funext fun _ =>
    congrArg (Plan.ask _) (funext fun found => ?_)))
  cases found <;> rfl

variable {shared shared' : Shared σ} {memory memory' : Memory} {outcome : Except Fault Value}

/-- The block yields what the operand yields, if only there are registers to write to. -/
theorem Setting.Yields.assigned
    (yields : s.Yields shared memory (.done (.job (.operand value registerScope))) outcome shared'
      memory')
    (ordered : memory'.heap.Ordered) (bound : registerScope < memory'.heap.size) :
    ∃ later, s.Yields shared memory (.done (.job (.block label))) outcome shared' later := by
  cases yields with
  | job first =>
    have planned := plan_assigned block
    cases outcome with
    | error fault => exact ⟨memory', .job (planned ▸ .evalFail first)⟩
    | ok v =>
      have found : (memory'.heap.define registerScope register ⟨v, .mutable⟩).lookup registerScope
          register = some v := by
        rw [ordered.lookup_define bound, if_pos rfl]
      refine ⟨{ memory' with heap := memory'.heap.define registerScope register ⟨v, .mutable⟩ },
        .job (planned ▸ .eval first (.ask (.ask ?_)))⟩
      simp only [Setting.serve, Memory.withHeap, found]
      exact .value

theorem Setting.Yields.of_assigned
    (yields : s.Yields shared memory (.done (.job (.block label))) outcome shared' memory') :
    ∃ first shared₁ memory₁, s.Yields shared memory
      (.done (.job (.operand value registerScope))) first shared₁ memory₁ := by
  cases yields with
  | job rest =>
    rw [plan_assigned block] at rest
    cases rest with
    | eval first _ => exact ⟨_, _, _, .job first⟩
    | evalFail first => exact ⟨_, _, _, .job first⟩

end Register

namespace Document

def asBlock (doc : Document) (label register : String) : FlowDocument where
  version := doc.version
  entry := label
  definitions := doc.definitions
  blocks := [⟨label, [.assign register doc.result], .ret (some register)⟩]

variable {σ : Type}

/-- A document of the first two layers without nodes. Neither its code nor that of the definitions
around it names an input as a variable; inputs hold no closures that share scopes, and domains give
like answers on values that are the same up to copies. -/
structure Copyable (doc : Document) (s : Setting σ) : Prop where
  accepted : ∀ declared, doc.layer = some declared → ¬ Layer.cir < declared
  nodes : doc.nodes = []
  result : doc.result.Confined doc.airCirLayer s.Spare
  definitions : ∀ d ∈ doc.definitions, d.body.Confined doc.airCirLayer s.Spare
  callers : ∀ entry ∈ s.definitions.entries, entry.2.body.Confined doc.airCirLayer s.Spare
  inputs : ∀ entry ∈ s.inputs,
    entry.2.Closures (Closure.Independent (Arg.Confined doc.airCirLayer s.Spare))
  domains : ∀ name d, s.domains.find? name = some d → d.Respects (fun w : Heap × Nat =>
    Value.Copied w.1 w.2 s.Spare (Arg.Confined doc.airCirLayer s.Spare)) fun _ => True

namespace Copyable

variable {doc : Document} {s : Setting σ} (copyable : doc.Copyable s)
include copyable

theorem setting : (doc.purely s .empty doc.airCirLayer).Copyable where
  layer := doc.airCirLayer_cases
  nodes _ := rfl
  definitions ns name d found := by
    rcases Definitions.mem_layered (Definitions.mem_of_get? found) with own | around
    · exact copyable.definitions d own
    · exact copyable.callers _ around
  inputs := copyable.inputs
  domains := copyable.domains

theorem finish_eq (fuel : Nat) (host : σ) :
    doc.finishAirCir s fuel host = Task.run (doc.purely s .empty doc.airCirLayer) fuel
      (Opening.fresh host)
      (.start (.operand doc.result rootScope) (.initial entryTask s.config.maxCallDepth)) := by
  refine doc.finishAirCir_eq s fuel host (checkLayer_of_every copyable.accepted ⟨?_, ?_, ?_⟩) ?_
  · rw [copyable.nodes]
    exact List.forall_mem_nil _
  · exact fun d member => (copyable.definitions d member).fits
  · exact copyable.result.fits
  · rw [nodeTable, copyable.nodes]
    rfl

end Copyable

variable (doc : Document) (s : Setting σ) (label register : String)

def blockSetting : Setting σ :=
  (doc.purely s .empty doc.airCirLayer).inBlocks s.effects (doc.asBlock label register).blocks

theorem block?_blockSetting : (doc.blockSetting s label register).block? label =
    some ⟨label, [.assign register doc.result], .ret (some register)⟩ := by
  simp [Setting.block?, blockSetting, Setting.inBlocks, asBlock]

theorem evaluate_asBlock (fuel : Nat) (host : σ) :
    (doc.asBlock label register).evaluate s fuel host =
      (Task.run (doc.blockSetting s label register) fuel (Opening.fresh host) (.start (.block label)
        (.withRegisters entryTask s.config.maxCallDepth s.inputRegisters))).map
        fun (outcome, shared, _) => (outcome, shared.host) := by
  have graph : (doc.asBlock label register).graph =
      .ok ⟨⟨label, [.assign register doc.result], .ret (some register)⟩,
        (doc.asBlock label register).blocks⟩ := by
    simp [FlowDocument.graph, asBlock, FlowDocument.labels, FlowDocument.danglingLabel?,
      firstRepeat, Terminator.successors]
  have sequential : (doc.asBlock label register).needsConcurrency = none := rfl
  unfold FlowDocument.evaluate
  rw [sequential, graph]
  rfl

variable {doc s}

section Agreement

variable (copyable : doc.Copyable s)
include copyable

/-- Where the runs of the result in the root scope and over the registers have ended, the block has
come to the same. -/
theorem evaluate_of_ends {host : σ} {r r' : Except Fault Value × Shared σ × Memory}
    {fuel fuel' : Nat} (ran : doc.finishAirCir s fuel host = some r)
    (ran' : Task.run (doc.blockSetting s label register) fuel' (Opening.fresh host)
      (.start (.operand doc.result registerScope)
        (.withRegisters entryTask s.config.maxCallDepth s.inputRegisters)) = some r')
    (ends : Copies.Ends (doc.purely s .empty doc.airCirLayer) .initial r r') :
    ResultsAlike Eq (Value.Copied r.2.2.heap r.2.2.heap.size s.Spare
        (Arg.Confined doc.airCirLayer s.Spare)) r.1 r'.1 ∧
      ∃ fuel', (doc.asBlock label register).evaluate s fuel' host = some (r'.1, host) := by
  obtain ⟨outcome, shared, memory⟩ := r
  obtain ⟨outcome', shared', memory'⟩ := r'
  obtain ⟨w, le, results, rfl : shared = shared', stands⟩ := ends
  have untouched : shared = Opening.fresh host := by
    rw [copyable.finish_eq] at ran
    exact (Setting.Yields.of_run_alone ran).shared_eq fun _ => rfl
  have bound : registerScope < memory'.heap.size :=
    (stands.within rootScope registerScope (le.scopes _ _ ⟨rfl, .inr rfl⟩)).2
  obtain ⟨later, yields⟩ := Setting.Yields.assigned (doc.block?_blockSetting s label register)
    (.of_run_alone ran') stands.ordered' bound
  obtain ⟨enough, ended⟩ := yields.exists_run
  refine ⟨stands.results results, enough, ?_⟩
  rw [evaluate_asBlock]
  change Option.map _ (Task.run _ enough _ ⟨.done (.job (.block label)), [], _⟩) = _
  rw [ended, untouched]
  rfl

/-- A document without nodes comes to the same as the block that returns its result, and performs no
effect there. Closures of the one look the names up in the scopes they share as those of the other
do in the copies they took. -/
theorem finishAirCir_asBlock (host : σ) :
    (∀ fuel outcome shared memory, doc.finishAirCir s fuel host = some (outcome, shared, memory) →
      ∃ fuel' outcome', (doc.asBlock label register).evaluate s fuel' host = some (outcome', host) ∧
        ResultsAlike Eq (Value.Copied memory.heap memory.heap.size s.Spare
          (Arg.Confined doc.airCirLayer s.Spare)) outcome outcome') ∧
    ∀ fuel' outcome' host', (doc.asBlock label register).evaluate s fuel' host =
        some (outcome', host') →
      host' = host ∧ ∃ fuel outcome shared memory,
        doc.finishAirCir s fuel host = some (outcome, shared, memory) ∧
        ResultsAlike Eq (Value.Copied memory.heap memory.heap.size s.Spare
          (Arg.Confined doc.airCirLayer s.Spare)) outcome outcome' := by
  have tasks := Copies.tasks_start (s := doc.purely s .empty doc.airCirLayer) s.effects
    (doc.asBlock label register).blocks copyable.result (Opening.fresh host) s.config.maxCallDepth
  constructor
  · intro fuel outcome shared memory ran
    have begun := ran
    rw [copyable.finish_eq] at begun
    obtain ⟨_, r', ran', ends⟩ := Copies.run_copies copyable.setting s.effects _ tasks begun
    obtain ⟨results, fuel', ended⟩ := evaluate_of_ends label register copyable ran ran' ends
    exact ⟨fuel', r'.1, ended, results⟩
  · intro fuel' outcome' host' ended
    rw [evaluate_asBlock] at ended
    obtain ⟨⟨last, shared', memory'⟩, ran', parts⟩ := Option.map_eq_some_iff.mp ended
    cases parts
    have yields := Setting.Yields.of_run_alone ran'
    obtain ⟨_, _, _, operand⟩ := yields.of_assigned (doc.block?_blockSetting s label register)
    obtain ⟨_, ran₁⟩ := operand.exists_run
    obtain ⟨fuel, r, ran, ends⟩ :=
      Copies.run_shares copyable.setting s.effects _ tasks ran₁
    rw [← copyable.finish_eq] at ran
    obtain ⟨results, _, again⟩ := evaluate_of_ends label register copyable ran ran₁ ends
    rw [evaluate_asBlock] at again
    obtain ⟨_, ran₂, same⟩ := Option.map_eq_some_iff.mp again
    obtain ⟨rfl, rfl, -⟩ := yields.unique (.of_run_alone ran₂)
    cases same
    exact ⟨rfl, fuel, _, _, _, ran, results⟩

end Agreement

def adder : Document where
  version := "1.0.0"
  layer := none
  definitions := [⟨"m", "twice", ["x"], .inline (.call none "add" [.id "x", .id "x"]), none⟩]
  nodes := []
  result := .inline (.letIn "k" (.inline (.airRef "m" "twice" [.inline (.input "start")]))
    (.inline (.apply
      (.inline (.lambda ["n"] (.inline (.lambda ["x"] (.inline (.call none "add"
        [.id "n", .inline (.call none "mul" [.id "x", .inline (.var "k")])]))))))
      [.inline (.lit (.int 7))])))

def three : Setting Unit := { inputs := [("start", .int 3)] }

theorem copyable_adder : adder.Copyable three where
  accepted := by rintro _ ⟨⟩
  nodes := rfl
  result := by
    refine ⟨Arg.every_iff.mpr ?_, Arg.every_iff.mpr ?_, by rintro _ ⟨⟩⟩
    · simp [adder, Arg.preorder, Expr.preorder_eq]
      decide
    · simp [adder, Arg.preorder, Expr.preorder_eq, Expr.ReadsOnly, Setting.Spare, Setting.input?,
        three, List.lookup_cons]
  definitions d member := by
    obtain rfl := List.mem_singleton.mp member
    refine ⟨Arg.every_iff.mpr ?_, Arg.every_iff.mpr ?_, by rintro _ ⟨⟩⟩
    · simp [Arg.preorder, Expr.preorder_eq]
      decide
    · simp [Arg.preorder, Expr.preorder_eq, Expr.ReadsOnly, Setting.Spare, Setting.input?, three,
        List.lookup_cons]
  callers := List.forall_mem_nil _
  inputs entry member := by
    obtain rfl := List.mem_singleton.mp member
    exact .literal (.int 3)
  domains _ _ found :=
    (Resemblance.copies Prod.fst Prod.snd three.Spare (Arg.Confined adder.airCirLayer
      three.Spare)).builtin_respects Resemblance.copies_comparable _ found

/-- The function takes along what it sees in the scope around it and in the one around that. -/
theorem finishAirCir_asBlock_adder :
    adder.Copyable three ∧
    ∃ fuel c entries, (adder.asBlock "entry" "r").evaluate three fuel () =
        some (.ok (.closure c), ()) ∧ c.captured = .frozen entries ∧
      entries.lookup "n" = some (.int 7) ∧ entries.lookup "k" = some (.int 6) := by
  have alone : ∃ c shared memory,
      adder.finishAirCir three 100 () = some (.ok (.closure c), shared, memory) ∧
        c.captured = .shared 3 ∧ memory.heap.lookup 3 "n" = some (.int 7) ∧
          memory.heap.lookup 3 "k" = some (.int 6) := ⟨_, _, _, rfl, rfl, rfl, rfl⟩
  refine ⟨copyable_adder, ?_⟩
  obtain ⟨c, shared, memory, ran, captured, n, k⟩ := alone
  obtain ⟨fuel, outcome', ended, results⟩ :=
    (finishAirCir_asBlock "entry" "r" copyable_adder ()).1 100 _ _ _ ran
  cases outcome' with
  | error fault => exact results.elim
  | ok v =>
    obtain ⟨c', entries, rfl, -, -, -, kept, lookups⟩ := results.of_shared captured
    have leaf (name : String) (spare : three.Spare name) {v : Value} (plain : v.isLeaf)
        (held : memory.heap.lookup 3 name = some v) : entries.lookup name = some v := by
      have same := lookups name spare
      rw [held] at same
      generalize entries.lookup name = found at same
      obtain ⟨same⟩ | ⟨⟩ := same
      rw [same.eq_of_isLeaf plain]
    exact ⟨fuel, c', entries, ended, kept, leaf "n" rfl rfl n, leaf "k" rfl rfl k⟩

def declaredBelow : Document where
  version := "1.0.0"
  layer := some .air
  definitions := []
  nodes := []
  result := .inline (.apply (.inline (.lambda [] (.inline (.lit (.int 1))))) [])

def askingCapture : Document where
  version := "1.0.0"
  layer := none
  definitions := []
  nodes := []
  result := .inline (.call (some "scopes") "shares"
    [.inline (.lambda [] (.inline (.lit .void)))])

def scopeReader : Domain where
  name := "scopes"
  construct := .list
  iterate value := .error (.typeMismatch "scopes" value.kind)
  extra op args :=
    match op, args with
    | "shares", [.closure ⟨_, _, _, .shared _, _⟩] => some (.ok (.bool true))
    | "shares", _ => some (.ok (.bool false))
    | _, _ => none

def withScopeReader : Setting Unit := { domains := Domains.empty.register scopeReader }

/-- A document of the second layer without nodes and definitions that comes to one outcome where its
block comes to another. -/
def Parted (doc : Document) (s : Setting Unit) (outcome outcome' : Except Fault Value) : Prop :=
  doc.nodes = [] ∧ doc.definitions = [] ∧ s.definitions = .empty ∧
    doc.result.Confined .cir s.Spare ∧ doc.evaluateAirCir s 20 () = some (outcome, ()) ∧
    (doc.asBlock "entry" "r").evaluate s 20 () = some (outcome', ())

/-- The two part where the document declares too low a layer, where a function among the inputs has
a body above the layer, and where a domain sees how functions capture. -/
theorem finishAirCir_asBlock_parted :
    declaredBelow.Parted three (.error (.ofCause (.layerViolation .air "apply" "result")))
        (.ok (.int 1)) ∧
      applyingInput.Parted givenSequencing
        (.error ⟨.layerViolation .cir "seq" "<closure>", some ⟨["<closure>"]⟩⟩) (.ok .void) ∧
      askingCapture.Parted withScopeReader (.ok (.bool true)) (.ok (.bool false)) := by
  refine ⟨⟨rfl, rfl, rfl, ⟨?_, ?_, nofun⟩, rfl, rfl⟩, ⟨rfl, rfl, rfl, ⟨?_, ?_, nofun⟩, rfl, rfl⟩,
    ⟨rfl, rfl, rfl, ⟨?_, ?_, nofun⟩, rfl, rfl⟩⟩
  all_goals
    refine Arg.every_iff.mpr ?_
    simp [declaredBelow, applyingInput, askingCapture, Arg.preorder, Expr.preorder_eq,
      Expr.ReadsOnly]
  all_goals decide

end Document
end LayeredIR
