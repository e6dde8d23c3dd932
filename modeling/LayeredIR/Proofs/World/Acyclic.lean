import LayeredIR.Proofs.Keeping
import LayeredIR.Proofs.World.Precedence
import LayeredIR.Proofs.World.Runs

/-! No run of forked tasks comes to a standstill. Futures travel with registers, with closures and
with the outcomes of other tasks; wherever one is held, it precedes what its holder may still make
in the tree of forks. So no task ever waits for itself or for a task that waits for it. -/
namespace LayeredIR
namespace World

variable {σ : Type} {s : Setting σ} {operation : String → Prop}

def known (futures : Futures) (who : Identity) (n : Nat) : Set Identity :=
  { id | (futures.get? id).isSome ∧ id.Precedes (n :: who) }

def Holds (operation : String → Prop) (futures : Futures) (who : Identity) (n : Nat) (v : Value) :
    Prop := v.All (Knowledge.Permits operation ⟨known futures who n, 0⟩)

structure Acyclic (operation : String → Prop) (w : World σ) : Prop where
  tidy : w.Tidy
  tasks : ∀ who phase task, (who, phase) ∈ w.tasks → phase.task? = some task →
    ∃ scope, task.Keeps operation ⟨known w.shared.futures who (task.memory.serial + 1), scope⟩
  ended : ∀ who phase v, (who, phase) ∈ w.tasks → phase.outcome? = some (.ok v) →
    ∃ n, Holds operation w.shared.futures who n v
  results : ∀ id v, w.shared.futures.outcome? id = some (.ok v) →
    ∃ n, Holds operation w.shared.futures id n v

theorem known_mono {futures futures' : Futures} {who : Identity} {n n' : Nat} (le : n ≤ n')
    (more : ∀ id, (futures.get? id).isSome → (futures'.get? id).isSome) :
    ∀ id ∈ known futures who n, id ∈ known futures' who n' :=
  fun id held => ⟨more id held.1, held.2.raise le⟩

theorem Holds.mono {futures futures' : Futures} {who : Identity} {n : Nat} {v : Value}
    (more : ∀ id, (futures.get? id).isSome → (futures'.get? id).isSome)
    (holds : Holds operation futures who n v) : Holds operation futures' who n v := by
  have le : (⟨known futures who n, 0⟩ : Knowledge) ≤ ⟨known futures' who n, 0⟩ :=
    ⟨known_mono (Nat.le_refl n) more, Nat.le_refl _⟩
  exact Value.All.mono (Knowledge.Permits.mono le) holds

theorem Holds.received {futures : Futures} {who id : Identity} {n m : Nat} {v : Value}
    (holds : Holds operation futures id m v) (knows : id ∈ known futures who n) :
    Holds operation futures who n v := by
  have le : (⟨known futures id m, 0⟩ : Knowledge) ≤ ⟨known futures who n, 0⟩ :=
    ⟨fun other held => ⟨held.1, held.2.trans knows.2⟩, Nat.le_refl _⟩
  exact Value.All.mono (Knowledge.Permits.mono le) holds

section Step

variable (closed : s.Closed operation) {before after : List (Identity × Phase)} {who : Identity}
  {phase phase' : Phase} {shared shared' : Shared σ} {n n' number : Nat}
  {outcome outcome' : Option (Except Fault Value)}

include closed in
/-- What the step of one task leaves to be shown: that what the task then holds precedes what it may
make, and that so does a result. -/
theorem Acyclic.advance {tasks tasks' : List (Identity × Phase)}
    (acyclic : Acyclic operation ⟨shared, tasks, n, outcome⟩)
    (tidy : Tidy ⟨shared', tasks', n', outcome'⟩)
    (more : ∀ id, (shared.futures.get? id).isSome → (shared'.futures.get? id).isSome)
    (running : ∀ who phase task, (who, phase) ∈ tasks' → phase.task? = some task →
      (who, phase) ∈ tasks ∨ ∃ scope,
        task.Keeps operation ⟨known shared'.futures who (task.memory.serial + 1), scope⟩)
    (ended : ∀ who phase v, (who, phase) ∈ tasks' → phase.outcome? = some (.ok v) →
      (who, phase) ∈ tasks ∨ ∃ n, Holds operation shared'.futures who n v)
    (results : ∀ id v, shared'.futures.outcome? id = some (.ok v) →
      shared.futures.outcome? id = some (.ok v) ∨ ∃ n, Holds operation shared'.futures id n v) :
    Acyclic operation ⟨shared', tasks', n', outcome'⟩ where
  tidy := tidy
  tasks who phase task member runs := by
    rcases running who phase task member runs with old | new
    · obtain ⟨scope, keeps⟩ := acyclic.tasks who phase task old runs
      exact ⟨scope, keeps.mono closed (known_mono (Nat.le_refl _) more)⟩
    · exact new
  ended who phase v member ends := by
    rcases ended who phase v member ends with old | new
    · obtain ⟨m, holds⟩ := acyclic.ended who phase v old ends
      exact ⟨m, holds.mono more⟩
    · exact new
  results id v settled := by
    rcases results id v settled with old | new
    · obtain ⟨m, holds⟩ := acyclic.results id v old
      exact ⟨m, holds.mono more⟩
    · exact new

theorem mem_of_replaced {other : Identity} {p : Phase}
    (member : (other, p) ∈ before ++ [(who, phase')] ++ after) :
    (other, p) ∈ before ++ [(who, phase)] ++ after ∨ other = who ∧ p = phase' := by
  rw [mem_replace] at member ⊢
  rcases member with early | same | late
  · exact .inl (.inl early)
  · cases same
    exact .inr ⟨rfl, rfl⟩
  · exact .inl (.inr (.inr late))

theorem mem_of_removed {entry : Identity × Phase} (member : entry ∈ before ++ [] ++ after) :
    entry ∈ before ++ [(who, phase)] ++ after := by
  rw [mem_replace]
  rw [List.append_nil] at member
  exact (List.mem_append.mp member).imp_right .inr

theorem mem_of_doubled {entry first second : Identity × Phase}
    (member : entry ∈ before ++ [first, second] ++ after) :
    entry ∈ before ++ [(who, phase)] ++ after ∨ entry = first ∨ entry = second := by
  rw [mem_replace]
  simp only [List.mem_append, List.mem_cons, List.not_mem_nil, or_false] at member
  tauto

theorem ok_of_settlement {result : Except Fault Value} {v : Value}
    (settles : settlement result = .ok v) : result = .ok v := by
  unfold settlement at settles
  split at settles
  · cases settles
  · cases settles
    rfl
  · cases settles

include closed in
theorem Acyclic.replace (acyclic : Acyclic operation
      ⟨shared, before ++ [(who, phase)] ++ after, n, outcome⟩)
    (tidy : Tidy ⟨shared', before ++ [(who, phase')] ++ after, n', outcome'⟩)
    (same : SameOutcomes shared.futures shared'.futures)
    (running : ∀ task, phase'.task? = some task → ∃ scope,
      task.Keeps operation ⟨known shared.futures who (task.memory.serial + 1), scope⟩)
    (ended : ∀ v, phase'.outcome? = some (.ok v) → ∃ n, Holds operation shared.futures who n v) :
    Acyclic operation ⟨shared', before ++ [(who, phase')] ++ after, n', outcome'⟩ := by
  have more (id : Identity) (known : (shared.futures.get? id).isSome) :
      (shared'.futures.get? id).isSome := by rwa [same.found]
  refine acyclic.advance closed tidy more ?_ ?_ ?_
  · intro other p task member runs
    refine (mem_of_replaced member).imp_right ?_
    intro parts
    obtain ⟨rfl, rfl⟩ := parts
    obtain ⟨scope, keeps⟩ := running task runs
    exact ⟨scope, keeps.mono closed (known_mono (Nat.le_refl _) more)⟩
  · intro other p v member ends
    refine (mem_of_replaced member).imp_right ?_
    intro parts
    obtain ⟨rfl, rfl⟩ := parts
    obtain ⟨m, holds⟩ := ended v ends
    exact ⟨m, holds.mono more⟩
  · intro id v settled
    rw [same.outcome?_eq] at settled
    exact .inl settled

include closed

/-- A task goes on, or is still at the fork that it was at. -/
theorem Acyclic.goOn {task : Task} (acyclic : Acyclic operation
      ⟨shared, before ++ [(who, phase)] ++ after, n, outcome⟩)
    (tidy : Tidy ⟨shared', before ++ [(who, phase')] ++ after, n', outcome'⟩)
    (same : SameOutcomes shared.futures shared'.futures) (runs : phase'.task? = some task)
    (unfinished : phase'.outcome? = none)
    (keeps : ∃ scope,
      task.Keeps operation ⟨known shared.futures who (task.memory.serial + 1), scope⟩) :
    Acyclic operation ⟨shared', before ++ [(who, phase')] ++ after, n', outcome'⟩ := by
  refine acyclic.replace closed tidy same (fun task' runs' => ?_) fun v ends => ?_
  · cases runs.symm.trans runs'
    exact keeps
  · cases unfinished.symm.trans ends

theorem Acyclic.remove (acyclic : Acyclic operation
      ⟨shared, before ++ [(who, phase)] ++ after, n, outcome⟩)
    (tidy : Tidy ⟨shared', before ++ [] ++ after, n', outcome'⟩)
    (more : ∀ id, (shared.futures.get? id).isSome → (shared'.futures.get? id).isSome)
    (results : ∀ id v, shared'.futures.outcome? id = some (.ok v) →
      shared.futures.outcome? id = some (.ok v) ∨ ∃ n, Holds operation shared'.futures id n v) :
    Acyclic operation ⟨shared', before ++ [] ++ after, n', outcome'⟩ :=
  acyclic.advance closed tidy more (fun _ _ _ member _ => .inl (mem_of_removed member))
    (fun _ _ _ member _ => .inl (mem_of_removed member)) results

/-- A forked task knows what the one that forks it knows, as its number comes last. -/
theorem Acyclic.spawn {label : String} {registers : Bindings} {next : Option Identity → Plan Next}
    {frames : List Frame} {memory : Memory}
    (acyclic : Acyclic operation
      ⟨shared, before ++ [(who, .starting label registers next frames memory)] ++ after, n,
        outcome⟩)
    (tidy : Tidy
      ⟨{ shared with futures := shared.futures.add memory.freshIdentity.1 (.pending number) },
        before ++
          [(memory.freshIdentity.1, .running (.atBlock s memory.freshIdentity.1 label registers)),
            (who, .running
              ⟨next (some memory.freshIdentity.1), frames, memory.freshIdentity.2⟩)] ++ after,
        n', outcome'⟩) :
    Acyclic operation
      ⟨{ shared with futures := shared.futures.add memory.freshIdentity.1 (.pending number) },
        before ++
          [(memory.freshIdentity.1, .running (.atBlock s memory.freshIdentity.1 label registers)),
            (who, .running
              ⟨next (some memory.freshIdentity.1), frames, memory.freshIdentity.2⟩)] ++ after,
        n', outcome'⟩ := by
  obtain ⟨scope, keeps⟩ := acyclic.tasks who _ _ (mem_replace.mpr (.inr (.inl rfl))) rfl
  obtain ⟨child, fresh⟩ := acyclic.tidy.fresh ⟨.fork label registers next, frames, memory⟩ rfl
  simp only at child fresh
  have more (id : Identity) (found : (shared.futures.get? id).isSome) :
      ((shared.futures.add memory.freshIdentity.1 (.pending number)).get? id).isSome := by
    rw [Futures.get?_add]
    split
    · rfl
    · exact found
  refine acyclic.advance closed tidy more ?running ?ended ?results
  case running =>
    intro other p task member runs
    refine (mem_of_doubled member).imp_right ?_
    rintro (same | same)
    · cases same
      cases runs
      have le : (⟨known shared.futures who (memory.serial + 1), scope⟩ : Knowledge) ≤
          ⟨known (shared.futures.add memory.freshIdentity.1 (.pending number))
            memory.freshIdentity.1 1, scope⟩ := by
        refine ⟨fun id held => ⟨more id held.1, ?_⟩, Nat.le_refl _⟩
        rw [child]
        exact held.2.child
      have entries := Likeness.entries_mono le keeps.registers
      exact ⟨registerScope, Task.Keeps.atBlock s _ label entries⟩
    · cases same
      cases runs
      refine ⟨scope, keeps.forked closed (fun id held => ?_) ⟨?_, ?_⟩⟩
      · exact ⟨more id held.1, held.2.raise (Nat.le_succ _)⟩
      · rw [Futures.get?_add, if_pos rfl]
        rfl
      · rw [child]
        exact .sibling (Nat.lt_succ_self _)
  case ended =>
    intro other p v member ends
    refine (mem_of_doubled member).imp_right ?_
    rintro (same | same) <;> cases same <;> cases ends
  case results =>
    intro id v settled
    rw [child, Futures.outcome?_add_pending _ _ _ _ fresh] at settled
    exact .inl settled

theorem Acyclic.move {change : Change σ}
    (acyclic : Acyclic operation ⟨shared, before ++ [(who, phase)] ++ after, n, outcome⟩)
    (move : Move s who number shared phase change) :
    Acyclic operation ⟨change.shared, before ++ change.tasks ++ after, n', outcome'⟩ := by
  have tidy : Tidy ⟨change.shared, before ++ change.tasks ++ after, n', outcome'⟩ :=
    acyclic.tidy.move move
  have here : (who, phase) ∈ before ++ [(who, phase)] ++ after :=
    mem_replace.mpr (.inr (.inl rfl))
  have same : SameOutcomes shared.futures shared.futures := .refl _
  cases move with
  | claim => exact acyclic.goOn closed tidy same rfl rfl (acyclic.tasks who _ _ here rfl)
  | refuse =>
    obtain ⟨scope, keeps⟩ := acyclic.tasks who _ _ here rfl
    exact acyclic.goOn closed tidy same rfl rfl ⟨scope, keeps.refused⟩
  | answer settled =>
    obtain ⟨scope, keeps⟩ := acyclic.tasks who _ _ here rfl
    refine acyclic.goOn closed tidy same rfl rfl ⟨scope, keeps.answered fun v equal => ?_⟩
    cases equal
    obtain ⟨m, holds⟩ := acyclic.results _ v settled
    exact holds.received keeps.awaited_mem
  | sleep =>
    exact acyclic.goOn closed tidy (.wait _ _ _) rfl rfl (acyclic.tasks who _ _ here rfl)
  | @go task shared' task' stepped =>
    obtain ⟨host, rfl⟩ := Task.shared_of_running stepped
    obtain ⟨scope, keeps⟩ := acyclic.tasks who _ _ here rfl
    obtain ⟨⟨futures, scope'⟩, rfl, keeps'⟩ := keeps.running closed stepped
    have le : task.memory.serial + 1 ≤ task'.memory.serial + 1 :=
      Nat.succ_le_succ (Task.step_follows stepped).serial
    exact acyclic.goOn closed tidy same rfl rfl
      ⟨scope', keeps'.mono closed (known_mono le fun _ found => found)⟩
  | finish entry stepped =>
    obtain ⟨host, rfl⟩ := Task.shared_of_ended stepped
    exact acyclic.remove closed tidy (fun _ found => found) fun _ _ found => .inl found
  | stop forked stepped =>
    obtain ⟨host, rfl⟩ := Task.shared_of_ended stepped
    refine acyclic.replace closed tidy same nofun fun v ends => ?_
    cases ends
    obtain ⟨scope, keeps⟩ := acyclic.tasks who _ _ here rfl
    exact ⟨_, keeps.ended closed stepped⟩
  | release =>
    refine acyclic.replace closed tidy same nofun fun v ends => ?_
    cases ends
    exact acyclic.ended who _ v here rfl
  | @settle result =>
    have more (id : Identity) (found : (shared.futures.get? id).isSome) :
        ((shared.futures.update who fun future =>
          (future.settle (settlement result)).2).get? id).isSome := by
      rwa [Futures.get?_update, Option.isSome_map]
    refine acyclic.remove closed tidy more fun id v settled => ?_
    rcases shared.futures.outcome?_settle_cases who id settled with old | ⟨rfl, settles⟩
    · exact .inl old
    · obtain ⟨m, holds⟩ := acyclic.ended _ _ v here (congrArg some (ok_of_settlement settles))
      exact .inr ⟨m, holds.mono more⟩
  | spawn => exact acyclic.spawn closed tidy

end Step

theorem Acyclic.step (closed : s.Closed operation) (who : Identity) (w : World σ)
    (acyclic : Acyclic operation w) (awake : w.canStep who) :
    Acyclic operation (w.step s who) := by
  obtain ⟨shared, tasks, forked, outcome⟩ := w
  obtain ⟨before, phase, after, change, rfl, -, -, move, stepped⟩ := exists_move (s := s) awake
  rw [stepped]
  exact acyclic.move closed move

theorem Acyclic.start (closed : s.Closed operation) (entry : String) (host : σ) :
    Acyclic operation (World.start s entry s.inputRegisters host) where
  tidy := .start s entry _ host
  tasks who phase task member runs := by
    cases List.mem_singleton.mp member
    cases runs
    have entries := Bindings.Alike.ofValues .mutable
      (closed.inputs_kept ⟨known .empty entryTask 1, registerScope⟩)
    exact ⟨registerScope, Task.Keeps.atBlock s entryTask entry entries⟩
  ended who phase v member ends := by
    cases List.mem_singleton.mp member
    cases ends
  results _ _ settled := by cases settled

/-- A task that cannot take a step waits for one that comes before it in post-order. -/
theorem Acyclic.blocked {w : World σ} (acyclic : Acyclic operation w) {who : Identity}
    {phase : Phase} (member : (who, phase) ∈ w.tasks)
    (asleep : isAsleep w.shared.futures who phase) :
    ∃ id ∈ w.tasks.map Prod.fst, id.Inner who := by
  unfold isAsleep at asleep
  split at asleep
  · next id next frames memory =>
    obtain ⟨scope, keeps⟩ := acyclic.tasks who _ _ member rfl
    obtain ⟨exists_, precedes⟩ := keeps.awaited_mem
    obtain ⟨future, found⟩ := Option.isSome_iff_exists.mp exists_
    rw [found] at asleep
    simp only at asleep
    have pending : ¬ future.outcome.isSome := by
      intro settled
      rw [acyclic.tidy.woken id future found settled] at asleep
      cases asleep
    rw [acyclic.tidy.settled id future found, not_forall] at pending
    obtain ⟨phase, unfinished⟩ := pending
    exact ⟨id, List.mem_map_of_mem (not_not.mp unfinished), _, precedes⟩
  · cases asleep

/-- As long as there are tasks, one of them can take a step. -/
theorem Acyclic.progress {w : World σ} (acyclic : Acyclic operation w) (unfinished : w.tasks ≠ []) :
    ∃ who, w.canStep who := by
  have some : w.tasks.map Prod.fst ≠ [] := fun none => unfinished (List.map_eq_nil_iff.mp none)
  obtain ⟨who, member, least⟩ := Identity.exists_least some
  obtain ⟨phase, found, member⟩ := exists_lookup member
  refine ⟨who, ?_⟩
  unfold canStep
  rw [found]
  by_contra asleep
  obtain ⟨id, member', inner⟩ := acyclic.blocked member (by simpa using asleep)
  exact least id member' inner

/-- The futures that a value leads to: those in it, in the scopes that its closures share, and in
the values of the settled futures among them. -/
inductive LeadsTo (futures : Futures) (heap : Heap) : Value → Identity → Prop
  | future {id} : LeadsTo futures heap (.future id) id
  | inside {v part id} (inside : part.Inside v) (further : LeadsTo futures heap part id) :
    LeadsTo futures heap v id
  | scope {c place name v id} (captured : c.captured = .shared place)
    (bound : heap.lookup place name = some v) (further : LeadsTo futures heap v id) :
    LeadsTo futures heap (.closure c) id
  | result {other v id} (settled : futures.outcome? other = some (.ok v))
    (further : LeadsTo futures heap v id) : LeadsTo futures heap (.future other) id

/-- What a value leads to is known to whoever holds the value. -/
theorem Acyclic.leadsTo_known {w : World σ} (acyclic : Acyclic operation w) {heap : Heap}
    {v : Value} {id who : Identity} {n : Nat} (leads : LeadsTo w.shared.futures heap v id)
    (holds : Holds operation w.shared.futures who n v) : id ∈ known w.shared.futures who n := by
  induction leads with
  | future => exact holds.self
  | inside inside _ ih => exact ih fun part deeper => holds part (deeper.trans inside)
  | scope captured _ _ _ =>
    obtain ⟨-, entries, copied⟩ := holds.self
    rw [captured] at copied
    cases copied
  | result settled _ ih =>
    obtain ⟨m, result⟩ := acyclic.results _ _ settled
    exact ih (result.received holds.self)

theorem Acyclic.bound {w : World σ} (acyclic : Acyclic operation w) {who : Identity}
    {phase : Phase} {task : Task} (member : (who, phase) ∈ w.tasks)
    (runs : phase.task? = some task) {place : ScopeId} {scope : Scope}
    (found : task.memory.heap.get? place = some scope) {entry : String × Binding}
    (binds : entry ∈ scope.bindings) :
    Holds operation w.shared.futures who (task.memory.serial + 1) entry.2.value := by
  obtain ⟨last, keeps⟩ := acyclic.tasks who phase task member runs
  obtain ⟨heap, sizes, -, -, -, -⟩ := keeps.memory
  have within : place ≤ last := by
    have bound : place < task.memory.heap.size := Heap.lt_size_of_get? found
    have size : last + 1 = task.memory.heap.size := (Prod.ext_iff.mp sizes).1
    rw [← size] at bound
    exact Nat.le_of_lt_succ bound
  have scopes := heap place place ⟨rfl, within⟩
  rw [found] at scopes
  obtain ⟨same⟩ := scopes
  exact (List.forall₂_same.mp same.bindings entry binds).2.1.2

theorem Acyclic.awaits {w : World σ} (acyclic : Acyclic operation w) {who : Identity}
    {phase : Phase} {task : Task} (member : (who, phase) ∈ w.tasks)
    (runs : phase.task? = some task) {id : Identity} {next : Outcome → Plan Next}
    (waits : task.control = .await id next) :
    Holds operation w.shared.futures who (task.memory.serial + 1) (.future id) := by
  obtain ⟨scope, keeps⟩ := acyclic.tasks who phase task member runs
  obtain ⟨control, frames, memory⟩ := task
  cases waits
  exact Value.all_future keeps.awaited_mem

end World

namespace FlowDocument

variable {σ : Type}

/-- However the steps of forked tasks interleave, no task can reach its own future or one of an
ancestor through what it has bound, and none waits for such a future; some task can always take a
step, until all have ended; and no result leads back to its own future. -/
theorem reaches_acyclic (doc : FlowDocument) (s : Setting σ) (host : σ)
    (literal : ∀ entry ∈ s.inputs, ∃ l, entry.2 = Value.ofLiteral l) (conserves : s.Conserves)
    (w : World σ) (reached : doc.Reaches s host w) :
    (∀ who phase task, (who, phase) ∈ w.tasks → phase.task? = some task →
      (∀ place scope, task.memory.heap.get? place = some scope → ∀ entry ∈ scope.bindings,
        ∀ id, World.LeadsTo w.shared.futures task.memory.heap entry.2.value id →
          ¬ id <:+ who) ∧
      ∀ awaited next id, task.control = .await awaited next →
        World.LeadsTo w.shared.futures task.memory.heap (.future awaited) id → ¬ id <:+ who) ∧
    (w.tasks ≠ [] → ∃ who, w.canStep who) ∧
    ∀ id v heap, w.shared.futures.outcome? id = some (.ok v) →
      ¬ World.LeadsTo w.shared.futures heap v id := by
  obtain ⟨graph, schedule, -, path⟩ := reached
  have closed : (doc.setting s graph).Closed fun _ => True :=
    { layer := rfl
      conserves := ⟨conserves.domains, conserves.handlers⟩
      inputs := literal
      calls := .of_forall Permitted.all }
  have acyclic : World.Acyclic (fun _ => True) w :=
    path.invariant (.start closed graph.entry.id host) fun who w acyclic awake =>
      acyclic.step closed who w awake
  refine ⟨fun who phase task member runs => ⟨?_, ?_⟩, acyclic.progress, ?_⟩
  · intro place scope found entry binds id leads
    exact (acyclic.leadsTo_known leads (acyclic.bound member runs found binds)).2.not_suffix
  · intro awaited next id waits leads
    exact (acyclic.leadsTo_known leads (acyclic.awaits member runs waits)).2.not_suffix
  · intro id v heap settled leads
    obtain ⟨m, holds⟩ := acyclic.results id v settled
    exact (acyclic.leadsTo_known leads holds).2.not_suffix (List.suffix_refl id)

theorem reaches_acyclic_forkJoin : ∃ w : World Unit,
    forkJoin.Reaches {} () w ∧ w.tasks.length = 2 ∧ ∃ who, w.canStep who := by
  have conserves : ({} : Setting Unit).Conserves :=
    ⟨fun _ _ found => Domains.builtin_conserves found, fun _ _ found => by cases found⟩
  have structured : forkJoin.graph = .ok ⟨⟨"main", [], .fork "body" "rest" "task"⟩,
      forkJoin.blocks⟩ := by rfl
  obtain ⟨w, reached, two⟩ : ∃ w : World Unit, forkJoin.Reaches {} () w ∧ w.tasks.length = 2 :=
    ⟨_, reaches_run structured {} () 5, by rfl⟩
  refine ⟨w, reached, two, (reaches_acyclic forkJoin {} () (by simp) conserves w reached).2.1 ?_⟩
  intro none
  rw [none] at two
  cases two

end FlowDocument
end LayeredIR
