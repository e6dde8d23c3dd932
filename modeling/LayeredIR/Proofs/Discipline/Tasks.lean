import LayeredIR.Proofs.Bodies
import LayeredIR.Proofs.Discipline.Forms
import LayeredIR.Proofs.NodeCache.Simulation
import LayeredIR.Proofs.Rules.Memories

/-! Tasks that heed a discipline. A memory that stands as the discipline says answers the queries of
a plan that heeds it as the plan expects, and a task that waits for such plans goes on to heed it
with every step. The run is followed from any point of a task on: what waits below that point is
left alone until the run comes back to it. -/
namespace LayeredIR

structure Heap.Shaped (base : Nat) (w : Shape) (heap : Heap) : Prop where
  size : heap.size = base + w.length
  parents : ∀ i parent, w[i]? = some parent →
    ∃ bindings, heap.get? (base + i) = some ⟨bindings, parent⟩

namespace Heap.Shaped

variable {base : Nat} {w : Shape} {heap : Heap} (shaped : heap.Shaped base w)
include shaped

theorem add (bindings : Bindings) (parent : Option ScopeId) :
    (heap.add bindings parent).2.Shaped base (w ++ [parent]) where
  size := by
    rw [Heap.size_add, shaped.size, List.length_append]
    rfl
  parents i outer found := by
    rw [Heap.get?_add, shaped.size]
    rcases Nat.lt_or_ge i w.length with old | new
    · have other : base + i ≠ base + w.length := by omega
      rw [if_neg other]
      exact shaped.parents i outer (List.getElem?_append_left old ▸ found)
    · have only : i = w.length := by
        obtain ⟨bound, -⟩ := List.getElem?_eq_some_iff.mp found
        rw [List.length_append, List.length_singleton] at bound
        exact Nat.le_antisymm (Nat.le_of_lt_succ bound) new
      subst only
      rw [List.getElem?_concat_length] at found
      cases found
      exact ⟨bindings, if_pos rfl⟩

theorem define (place : ScopeId) (name : String) (binding : Binding) :
    (heap.define place name binding).Shaped base w where
  size := (heap.size_define place name binding).trans shaped.size
  parents i outer found := by
    obtain ⟨bindings, held⟩ := shaped.parents i outer found
    rw [Heap.get?_define, held]
    split
    · exact ⟨_, rfl⟩
    · exact ⟨bindings, rfl⟩

theorem assign (place : ScopeId) (name : String) (v : Value) :
    (heap.assign place name v).2.Shaped base w := by
  unfold Heap.assign
  split
  · exact shaped
  · exact shaped
  · exact shaped.define _ name _

end Heap.Shaped

theorem Heap.All.mono {P Q : Value → Prop} (more : ∀ v, P v → Q v) {heap : Heap}
    (all : heap.All P) : heap.All Q :=
  fun place scope found entry member => more _ (all place scope found entry member)

def Progress.memory {σ : Type} : Progress σ → Memory
  | .running _ task | .waiting _ task => task.memory
  | .ended _ _ memory => memory

def Progress.fault? {σ : Type} : Progress σ → Option Fault
  | .running _ ⟨.fail fault, _, _⟩ | .ended (.error fault) _ _ => some fault
  | _ => none

namespace Discipline

variable {σ : Type} {s : Setting σ} (D : Discipline s)

inductive Change (w : Shape) (heap : Heap) : Heap → Prop
  | same : Change w heap heap
  | child {a} (outer : D.outer w a) : Change w heap (heap.child a).2
  | enter {f : Closure} (function : D.value w (.closure f)) :
    Change w heap ((heap.captured f.captured).2.child (heap.captured f.captured).1).2
  | define {a name v} (mutability : Mutability) (allowed : D.define w a name v)
    (held : D.value w v) : Change w heap (heap.define a name ⟨v, mutability⟩)
  | assign {a name v} (allowed : D.assign w a name v) (held : D.value w v) :
    Change w heap (heap.assign a name v).2

structure Stands (w : Shape) (c : List CallSite) (memory : Memory) : Prop where
  shape : memory.heap.Shaped D.base w
  bindings : memory.heap.All (D.value w)
  kept : ∀ entry ∈ memory.kept, D.value w entry.2
  calls : D.calls c memory.stack memory.active

variable {D} {w : Shape} {c : List CallSite}

theorem Laws.shares_mono (laws : D.Laws) {w' : Shape} (le : w <+: w') {futures : Futures}
    {host : σ} (shares : D.Shares w futures host) : D.Shares w' futures host :=
  ⟨fun id v settled => laws.value_mono le (shares.settled id v settled),
    fun f kept => laws.closure_mono le (shares.kept f kept)⟩

/-- Before a run, only the host may hold closures. -/
theorem Shares.empty {host : σ} (none : ∀ c, ¬ D.kept host c) : D.Shares w .empty host :=
  ⟨fun _ _ => nofun, fun c held => absurd held (none c)⟩

namespace Stands

variable {memory : Memory} (stands : D.Stands w c memory)
include stands

theorem withHeap {w' : Shape} (laws : D.Laws) (le : w <+: w') {heap : Heap}
    (shape : heap.Shaped D.base w') (bindings : heap.All (D.value w')) :
    D.Stands w' c { memory with heap := heap } :=
  ⟨shape, bindings, fun entry member => laws.value_mono le (stands.kept entry member),
    stands.calls⟩

theorem add (laws : D.Laws) {bindings : Bindings} (parent : Option ScopeId)
    (held : bindings.All (D.value w)) :
    D.Stands (w ++ [parent]) c { memory with heap := (memory.heap.add bindings parent).2 } := by
  have le := List.prefix_append w [parent]
  have grown := (stands.bindings.add held parent).mono fun _ => laws.value_mono le
  exact stands.withHeap laws le (stands.shape.add bindings parent) grown

theorem enterScope (laws : D.Laws) {f : Closure} (function : D.value w (.closure f))
    (shared : Shared σ) :
    ∃ w', w <+: w' ∧
      D.Answers c w (.enter f.captured) w' (s.serve (.enter f.captured) shared memory).1 ∧
      D.Stands w' c (s.serve (.enter f.captured) shared memory).2.2 := by
  obtain ⟨id, params, body, captured, isFix⟩ := f
  cases captured with
  | shared outer =>
    refine ⟨w ++ [some outer], List.prefix_append _ _, ⟨rfl, stands.shape.size⟩, ?_⟩
    exact stands.add laws (some outer) .nil
  | frozen entries =>
    have copied := stands.add laws none
      (.ofValues .immutable (Value.Closures.captured function rfl))
    have place : (memory.heap.add (.ofValues .immutable entries) none).1 = D.next w :=
      stands.shape.size
    have grown := copied.add laws (some (D.next w)) .nil
    refine ⟨w ++ [none] ++ [some (D.next w)], ?_, ⟨rfl, copied.shape.size⟩, ?_⟩
    · rw [List.append_assoc]
      exact List.prefix_append _ _
    · rw [← place] at grown ⊢
      exact grown

/-- A memory answers the queries of a plan as the plan expects, and goes on to stand. -/
theorem serve (laws : D.Laws) {shared : Shared σ} (shares : D.Shares w shared.futures shared.host)
    {q : Query} (queries : D.Queries w q) :
    ∃ w', D.Answers c w q w' (s.serve q shared memory).1 ∧
      D.Shares w' (s.serve q shared memory).2.1.futures (s.serve q shared memory).2.1.host ∧
      D.Stands w' c (s.serve q shared memory).2.2 ∧
      D.Change w memory.heap (s.serve q shared memory).2.2.heap := by
  cases q with
  | lookup a name =>
    exact ⟨w, ⟨rfl, fun v found => stands.bindings.lookup found⟩, shares, stands, .same⟩
  | define a name v mutability =>
    have defined := stands.withHeap laws (List.prefix_refl w)
      (stands.shape.define a name ⟨v, mutability⟩) (stands.bindings.define a name queries.2)
    exact ⟨w, rfl, shares, defined, .define mutability queries.1 queries.2⟩
  | assign a name v =>
    have assigned := stands.withHeap laws (List.prefix_refl w) (stands.shape.assign a name v)
      (stands.bindings.assign a name queries.2)
    exact ⟨w, rfl, shares, assigned, .assign queries.1 queries.2⟩
  | child a =>
    exact ⟨w ++ [some a], ⟨rfl, stands.shape.size⟩,
      laws.shares_mono (List.prefix_append _ _) shares, stands.add laws (some a) .nil,
      .child queries⟩
  | enter captured =>
    obtain ⟨f, rfl, function⟩ := queries
    obtain ⟨w', le, answers, entered⟩ := stands.enterScope laws function shared
    exact ⟨w', answers, laws.shares_mono le shares, entered, .enter function⟩
  | flatten a =>
    exact ⟨w, ⟨rfl, stands.bindings.flatten a⟩, shares, stands, .same⟩
  | fresh =>
    exact ⟨w, rfl, shares, ⟨stands.shape, stands.bindings, stands.kept, stands.calls⟩, .same⟩
  | isActive key =>
    exact ⟨w, ⟨rfl, laws.idle stands.calls⟩, shares, stands, .same⟩
  | innermost => exact ⟨w, rfl, shares, stands, .same⟩
  | recollect id =>
    refine ⟨w, ⟨rfl, fun v found => ?_⟩, shares, stands, .same⟩
    obtain ⟨before, after, split, -⟩ := List.lookup_eq_some_iff.mp found
    exact stands.kept (id, v) (by simp [split])
  | remember id v =>
    have kept : ∀ entry ∈ (id, v) :: memory.kept, D.value w entry.2 :=
      List.forall_mem_cons.mpr ⟨queries, stands.kept⟩
    exact ⟨w, rfl, shares, ⟨stands.shape, stands.bindings, kept, stands.calls⟩, .same⟩
  | compute op args =>
    refine ⟨w, ⟨rfl, fun v computed => ?_, fun cause failed => ?_⟩, shares, stands, .same⟩
    · exact .of_from (Operator.compute_conserves computed) queries
    · exact laws.cause_own ((op.compute_operational args).unrefused.of_error failed)
  | dispatch d op args =>
    obtain ⟨⟨name, found⟩, held⟩ := queries
    exact ⟨w, ⟨rfl, laws.domain _ op args found held⟩, shares, stands, .same⟩
  | perform effect args =>
    obtain ⟨effects, held⟩ := queries
    unfold Setting.serve
    dsimp only
    cases found : s.handler? effect with
    | none =>
      refine ⟨w, ⟨rfl, fun _ => nofun, fun fault failed => ?_⟩, shares, stands, .same⟩
      cases failed
      exact laws.cause_own nofun
    | some handler =>
      obtain ⟨values, causes, after⟩ := laws.handler effects found rfl held shares
      exact ⟨w, ⟨rfl, values, causes⟩, after, stands, .same⟩

theorem enter (laws : D.Laws) (site : CallSite) (free : memory.stack.isFull = false) :
    D.Stands w (site :: c) (memory.enter site) :=
  ⟨stands.shape, stands.bindings, stands.kept, laws.enter stands.calls free⟩

end Stands

theorem Stands.leave (laws : D.Laws) {site : CallSite} {memory : Memory}
    (stands : D.Stands w (site :: c) memory) : D.Stands w c (memory.leave site.isDefinition) :=
  ⟨stands.shape, stands.bindings, stands.kept, laws.leave stands.calls⟩

variable (D) in
inductive Waits (bottom : List Frame) (c₀ : List CallSite) (w : Shape) :
    List CallSite → List Frame → Prop
  | bottom : Waits bottom c₀ w c₀ bottom
  | resume {c next frames}
    (rest : ∀ w' v, w <+: w' → D.value w' v → (next v).Heeds D c (D.Nexts c) w')
    (later : Waits bottom c₀ w c frames) : Waits bottom c₀ w c (.resume next :: frames)
  | leave {c site frames} (later : Waits bottom c₀ w c frames) :
    Waits bottom c₀ w (site :: c) (.leave site.isDefinition :: frames)

theorem Waits.mono {w' : Shape} (le : w <+: w') {bottom frames : List Frame}
    {c₀ : List CallSite} (waits : D.Waits bottom c₀ w c frames) :
    D.Waits bottom c₀ w' c frames := by
  induction waits with
  | bottom => exact .bottom
  | resume rest _ ih => exact .resume (fun w'' v le' => rest w'' v (le.trans le')) ih
  | leave _ ih => exact .leave ih

variable (D) in
structure Runs (bottom : List Frame) (c₀ : List CallSite) (w : Shape) (c : List CallSite)
    (task : Task) : Prop where
  control : task.control.Heeds D c (D.Nexts c) w
  frames : D.Waits bottom c₀ w c task.frames
  memory : D.Stands w c task.memory

variable (D) in
inductive Results (w : Shape) : Plan Next → Prop
  | value {v} (held : D.value w v) : Results w (.done (.value v))
  | fault {fault} (allowed : D.cause fault.cause) : Results w (.fail fault)

variable (D) in
inductive Steps (bottom : List Frame) (c₀ : List CallSite) (w : Shape) (shared : Shared σ)
    (task : Task) : Prop
  | finished (surfaced : task.frames = bottom) (results : D.Results w task.control)
    (memory : D.Stands w c₀ task.memory)
  | running {w' c' shared' task'} (stepped : task.step s shared = .running shared' task')
    (later : w <+: w') (shares : D.Shares w' shared'.futures shared'.host)
    (runs : D.Runs bottom c₀ w' c' task')
    (change : D.Change w task.memory.heap task'.memory.heap)
  | waiting (flow : D.flow) (stepped : task.step s shared = .waiting shared task)

section Steps

variable {bottom : List Frame} {c₀ : List CallSite} {shared : Shared σ}
  (shares : D.Shares w shared.futures shared.host)
include shares

theorem deliver_steps (laws : D.Laws) {v : Value} {frames : List Frame} {memory : Memory}
    (held : D.value w v) (waits : D.Waits bottom c₀ w c frames) (stands : D.Stands w c memory) :
    D.Steps bottom c₀ w shared ⟨.done (.value v), frames, memory⟩ := by
  cases waits with
  | bottom => exact .finished rfl (.value held) stands
  | resume rest later =>
    exact .running rfl (List.prefix_refl w) shares
      ⟨rest w v (List.prefix_refl w) held, later, stands⟩ .same
  | leave later =>
    exact .running rfl (List.prefix_refl w) shares
      ⟨.done (.value held), later, stands.leave laws⟩ .same

theorem unwind_steps (laws : D.Laws) {fault : Fault} {frames : List Frame} {memory : Memory}
    (allowed : D.cause fault.cause) (waits : D.Waits bottom c₀ w c frames)
    (stands : D.Stands w c memory) : D.Steps bottom c₀ w shared ⟨.fail fault, frames, memory⟩ := by
  cases waits with
  | bottom => exact .finished rfl (.fault allowed) stands
  | resume rest later =>
    exact .running rfl (List.prefix_refl w) shares ⟨.fail allowed, later, stands⟩ .same
  | leave later =>
    have attached : D.cause (memory.stack.attach fault).cause := by
      rw [CallStack.attach_cause]
      exact allowed
    exact .running rfl (List.prefix_refl w) shares
      ⟨.fail attached, later, stands.leave laws⟩ .same

theorem Runs.step (laws : D.Laws) {task : Task} (runs : D.Runs bottom c₀ w c task) :
    D.Steps bottom c₀ w shared task := by
  obtain ⟨control, frames, memory⟩ := task
  obtain ⟨heeds, waits, stands⟩ := runs
  simp only at heeds waits stands
  have here := List.prefix_refl w
  cases heeds with
  | done wanted =>
    -- where a value or a failure goes is up to the frames, and what a job comes to, to its plan
    cases wanted with
    | value held => exact deliver_steps shares laws held waits stands
    | job jobs => exact .running rfl here shares ⟨s.plan_heeds laws jobs, waits, stands⟩ .same
  | fail allowed => exact unwind_steps shares laws allowed waits stands
  | eval jobs rest =>
    exact .running rfl here shares ⟨s.plan_heeds laws jobs, .resume (.resumed rest) waits, stands⟩
      .same
  | @call _ site job next permitted rest =>
    obtain ⟨⟨arg, code⟩, jobs⟩ := permitted
    cases full : memory.stack.isFull with
    | true =>
      exact .running (Task.step_full full) here shares
        ⟨.fail (laws.full stands.calls code full), waits, stands⟩ .same
    | false =>
      exact .running (Task.step_free full) here shares ⟨s.plan_heeds laws jobs,
        .leave (.resume (.resumed rest) waits), stands.enter laws site full⟩ .same
  | ask queries rest =>
    obtain ⟨w', answers, after, served, change⟩ := stands.serve laws shares queries
    exact .running rfl (prefix_of_answers answers) after
      ⟨rest w' _ answers, waits.mono (prefix_of_answers answers), served⟩ change
  | fork permitted _ => exact .waiting permitted.1 rfl
  | await flow _ => exact .waiting flow rfl

end Steps

/-- A task that runs to its end in a discipline ends as the discipline permits. -/
theorem Runs.outcome (laws : D.Laws) {c₀ : List CallSite} {fuel : Nat} {shared shared' : Shared σ}
    {task : Task} {outcome : Except Fault Value} {memory : Memory}
    (runs : D.Runs [] c₀ w c task) (shares : D.Shares w shared.futures shared.host)
    (ran : Task.run s fuel shared task = some (outcome, shared', memory)) :
    ∃ w', (∀ v, outcome = .ok v → D.value w' v) ∧
      ∀ fault, outcome = .error fault → D.cause fault.cause := by
  induction fuel generalizing w c shared task with
  | zero => cases ran
  | succ fuel ih =>
    unfold Task.run at ran
    cases runs.step shares laws with
    | finished surfaced results =>
      obtain ⟨control, frames, own⟩ := task
      subst surfaced
      cases results with
      | value held =>
        cases ran
        refine ⟨w, fun v same => ?_, by rintro _ ⟨⟩⟩
        cases same
        exact held
      | fault allowed =>
        cases ran
        refine ⟨w, by rintro _ ⟨⟩, fun fault same => ?_⟩
        cases same
        exact allowed
    | running stepped _ shares' runs' =>
      rw [stepped] at ran
      exact ih runs' shares' ran
    | waiting _ stepped =>
      rw [stepped] at ran
      cases ran

/-- The heaps of a task that runs in a discipline are as the changes that it permits leave them. -/
theorem Runs.after (laws : D.Laws) {P : Heap → Prop}
    (changed : ∀ w heap heap', heap.Shaped D.base w → P heap → D.Change w heap heap' → P heap')
    {c₀ : List CallSite} {task : Task} {shared : Shared σ} (runs : D.Runs [] c₀ w c task)
    (shares : D.Shares w shared.futures shared.host) (holds : P task.memory.heap) (n : Nat) :
    ∃ w', (task.after s (fun _ shared => shared) n shared).memory.heap.All (D.value w') ∧
      P (task.after s (fun _ shared => shared) n shared).memory.heap := by
  induction n generalizing w c shared task with
  | zero => exact ⟨w, runs.memory.bindings, holds⟩
  | succ n ih =>
    simp only [Task.after]
    cases runs.step shares laws with
    | finished surfaced results memory =>
      obtain ⟨control, frames, own⟩ := task
      subst surfaced
      cases results <;> exact ⟨w, memory.bindings, holds⟩
    | running stepped _ shares' runs' change =>
      rw [stepped]
      exact ih runs' shares' (changed w _ _ runs.memory.shape holds change)
    | waiting _ stepped =>
      rw [stepped]
      exact ⟨w, runs.memory.bindings, holds⟩

/-- No step of a task that runs in a discipline leads to a failure that the discipline forbids. -/
theorem Runs.raised (laws : D.Laws) {c₀ : List CallSite} {task : Task} {shared : Shared σ}
    (runs : D.Runs [] c₀ w c task) (shares : D.Shares w shared.futures shared.host) {n : Nat}
    {fault : Fault}
    (raised : (task.after s (fun _ shared => shared) n shared).fault? = some fault) :
    D.cause fault.cause := by
  induction n generalizing w c shared task with
  | zero =>
    obtain ⟨control, frames, own⟩ := task
    have heeds := runs.control
    cases heeds with
    | fail allowed =>
      cases raised
      exact allowed
    | _ => cases raised
  | succ n ih =>
    simp only [Task.after] at raised
    cases runs.step shares laws with
    | finished surfaced results =>
      obtain ⟨control, frames, own⟩ := task
      subst surfaced
      cases results with
      | value _ => cases raised
      | fault allowed =>
        cases raised
        exact allowed
    | running stepped _ shares' runs' =>
      rw [stepped] at raised
      exact ih runs' shares' raised
    | waiting _ stepped =>
      rw [stepped] at raised
      exact absurd raised (by simp [Progress.fault?])

/-- The task that a document without blocks opens with. -/
theorem runs_start {maxCallDepth : Nat} {owner : Identity} {arg : Arg} (base : D.base = 1)
    (code : D.code [] arg) (scope : D.scope [] rootScope)
    (calls : D.calls [] (.empty maxCallDepth) []) :
    D.Runs [] [] [] [] (.start (.operand arg rootScope) (.initial owner maxCallDepth)) where
  control := .done (.job (.operand code scope))
  frames := .bottom
  memory := by
    have empty := Memory.Holds.initial (P := D.value []) owner maxCallDepth
    refine ⟨⟨?_, fun _ _ => nofun⟩, empty.heap, empty.kept, calls⟩
    rw [base]
    rfl

end Discipline
end LayeredIR
