import LayeredIR.Proofs.Discipline.Tasks
import LayeredIR.Proofs.World.Regime

/-! Disciplines of tasks that run beside each other. Where one governs the tasks of a document, what
they hold, share and end with is permitted in every world that the document comes to, and no heap
changes but as the discipline says. -/
namespace LayeredIR

variable {σ : Type} {s : Setting σ}

namespace Discipline

structure Governs (D : Discipline s) (P : Heap → Prop) : Prop where
  laws : D.Laws
  flow : D.flow
  base : D.base = 2
  calls : D.calls [] (.empty s.config.maxCallDepth) []
  opened : ∀ registers, P ⟨#[⟨[], none⟩, ⟨registers, none⟩]⟩
  changed : ∀ {w heap heap'}, heap.Shaped D.base w → P heap → D.Change w heap heap' → P heap'

def Guides (D : Discipline s) (P : Heap → Prop) (task : Task) : Prop :=
  ∃ w c, D.Runs [] [] w c task ∧ P task.memory.heap

variable {D : Discipline s} {P : Heap → Prop} (governs : D.Governs P)
include governs

namespace Governs

/-- What tasks hold does not depend on the scopes that one of them has made. -/
theorem value {w : Shape} (w' : Shape) {v : Value} (held : D.value w v) : D.value w' v :=
  held.mono fun _ => governs.laws.flow_closure w' governs.flow

theorem shares {w : Shape} (w' : Shape) {futures : Futures} {host : σ}
    (shares : D.Shares w futures host) : D.Shares w' futures host :=
  ⟨fun id v settled => governs.value w' (shares.settled id v settled),
    fun c kept => governs.laws.flow_closure w' governs.flow (shares.kept c kept)⟩

theorem atBlock (who : Identity) (label : String) {registers : Bindings}
    (held : registers.All (D.value [])) : D.Guides P (.atBlock s who label registers) := by
  refine ⟨[], [], ⟨.done (.job (.block governs.flow)), .bottom, ?_⟩, governs.opened registers⟩
  have holds := Memory.Holds.withRegisters who s.config.maxCallDepth held
  refine ⟨⟨?_, fun _ _ => nofun⟩, holds.heap, holds.kept, governs.calls⟩
  rw [governs.base]
  rfl

/-- A task that goes on does so in its discipline. -/
theorem go {task task' : Task} {shared shared' : Shared σ} (guides : D.Guides P task)
    (shares : D.Shares [] shared.futures shared.host)
    (stepped : task.step s shared = .running shared' task') :
    D.Guides P task' ∧ D.Shares [] shared'.futures shared'.host ∧
      ∃ w, task.memory.heap.Shaped D.base w ∧ D.Change w task.memory.heap task'.memory.heap := by
  obtain ⟨w, c, runs, holds⟩ := guides
  cases runs.step (governs.shares w shares) governs.laws with
  | finished surfaced results _ =>
    obtain ⟨control, frames, memory⟩ := task
    cases surfaced
    cases results <;> cases stepped
  | running stepped' _ shares' runs' change =>
    cases stepped.symm.trans stepped'
    exact ⟨⟨_, _, runs', governs.changed runs.memory.shape holds change⟩,
      governs.shares [] shares', w, runs.memory.shape, change⟩
  | waiting _ stepped' => cases stepped.symm.trans stepped'

theorem ended {task : Task} {shared shared' : Shared σ} {outcome : Except Fault Value}
    {memory : Memory} (guides : D.Guides P task) (shares : D.Shares [] shared.futures shared.host)
    (stepped : task.step s shared = .ended outcome shared' memory) :
    (∀ v, outcome = .ok v → D.value [] v) ∧ D.Shares [] shared'.futures shared'.host := by
  obtain ⟨w, c, runs, -⟩ := guides
  cases runs.step (governs.shares w shares) governs.laws with
  | finished surfaced results _ =>
    obtain ⟨control, frames, own⟩ := task
    cases surfaced
    cases results with
    | value held =>
      cases stepped
      refine ⟨fun v same => ?_, shares⟩
      cases same
      exact governs.value [] held
    | fault _ =>
      cases stepped
      exact ⟨fun _ => nofun, shares⟩
  | running stepped' => cases stepped.symm.trans stepped'
  | waiting _ stepped' => cases stepped.symm.trans stepped'

section Waiting

variable {frames : List Frame} {memory : Memory}

theorem answered {id : Identity} {next : Outcome → Plan Next}
    (guides : D.Guides P ⟨.await id next, frames, memory⟩) {outcome : Outcome}
    (held : ∀ v, outcome = .ok v → D.value [] v) :
    D.Guides P ⟨next outcome, frames, memory⟩ := by
  obtain ⟨w, c, ⟨control, waits, stands⟩, holds⟩ := guides
  cases control with
  | await _ rest =>
    exact ⟨w, c, ⟨rest outcome fun v same => governs.value w (held v same), waits, stands⟩, holds⟩

omit governs in
theorem refused {label : String} {registers : Bindings} {next : Option Identity → Plan Next}
    (guides : D.Guides P ⟨.fork label registers next, frames, memory⟩) :
    D.Guides P ⟨next none, frames, memory⟩ := by
  obtain ⟨w, c, ⟨control, waits, stands⟩, holds⟩ := guides
  cases control with
  | fork _ rest => exact ⟨w, c, ⟨rest none, waits, stands⟩, holds⟩

theorem forked {label : String} {registers : Bindings} {next : Option Identity → Plan Next}
    (guides : D.Guides P ⟨.fork label registers next, frames, memory⟩) :
    registers.All (D.value []) ∧
      D.Guides P ⟨next (some memory.freshIdentity.1), frames, memory.freshIdentity.2⟩ := by
  obtain ⟨w, c, ⟨control, waits, stands⟩, holds⟩ := guides
  cases control with
  | fork permitted rest =>
    refine ⟨fun entry member => governs.value [] (permitted.2 entry member), w, c, ?_, holds⟩
    exact ⟨rest _, waits, stands.shape, stands.bindings, stands.kept, stands.calls⟩

end Waiting

def regime (D : Discipline s) (P : Heap → Prop) : Regime σ where
  task := D.Guides P
  shares := D.Shares []
  result outcome := ∀ v, outcome = .ok v → D.value [] v

theorem kept : (regime D P).Kept s where
  go guides shares _ stepped := by
    obtain ⟨guides', shares', -⟩ := governs.go guides shares stepped
    exact ⟨guides', shares'⟩
  ended guides shares _ stepped := governs.ended guides shares stepped
  refused guides := refused guides
  forked guides := by
    obtain ⟨entries, parent⟩ := governs.forked guides
    exact ⟨governs.atBlock _ _ entries, parent⟩
  answered guides shares settled :=
    governs.answered guides fun v same => shares.settled _ v (same ▸ settled)
  waited id who shares := ⟨Futures.All.wait shares.settled id who, shares.kept⟩
  added id number shares := ⟨Futures.All.pending shares.settled id number, shares.kept⟩
  settled who shares result := ⟨Futures.All.settle shares.settled who result, shares.kept⟩

end Governs
end Discipline

namespace World

structure Orderly (D : Discipline s) (P : Heap → Prop) (w : World σ) : Prop where
  tasks : ∀ who phase task, (who, phase) ∈ w.tasks → phase.task? = some task → D.Guides P task
  ended : ∀ who phase v, (who, phase) ∈ w.tasks → phase.outcome? = some (.ok v) → D.value [] v
  shares : D.Shares [] w.shared.futures w.shared.host
  outcome : ∀ v, w.outcome = some (.ok v) → D.value [] v

theorem orderly_iff {D : Discipline s} {P : Heap → Prop} {w : World σ} :
    Orderly D P w ↔ Ruled (Discipline.Governs.regime D P) w :=
  ⟨fun orderly => ⟨orderly.tasks, fun who phase _ member ends v same =>
      orderly.ended who phase v member (same ▸ ends), orderly.shares,
      fun _ ended v same => orderly.outcome v (same ▸ ended)⟩,
    fun ruled => ⟨ruled.tasks, fun who phase v member ends =>
      ruled.ended who phase _ member ends v rfl, ruled.shares,
      fun v ended => ruled.outcome _ ended v rfl⟩⟩

section Step

variable {D : Discipline s} {P : Heap → Prop} (governs : D.Governs P)
  {before after : List (Identity × Phase)} {who : Identity} {phase : Phase} {shared : Shared σ}
  {number : Nat}

include governs in
theorem Orderly.step (who : Identity) (w : World σ) (orderly : Orderly D P w)
    (awake : w.canStep who) : Orderly D P (w.step s who) :=
  orderly_iff.mpr
    (Ruled.step governs.kept who w (orderly_iff.mp orderly) (fun _ _ => trivial) awake)

include governs in
theorem Orderly.start (entry : String) {registers : Bindings} {host : σ}
    (held : registers.All (D.value [])) (kept : ∀ c, ¬ D.kept host c) :
    Orderly D P (World.start s entry registers host) :=
  orderly_iff.mpr (.start (governs.atBlock entryTask entry held) (.empty kept))

/-- The tasks that a step of one of them leaves: itself with the heap that it had, itself after a
step of its own, or a new one. -/
theorem Move.task_cases {change : Change σ} (move : Move s who number shared phase change)
    {id : Identity} {p : Phase} {task' : Task} (member : (id, p) ∈ change.tasks)
    (runs : p.task? = some task') :
    ∃ task, phase.task? = some task ∧
      (id = who ∧ (task'.memory.heap = task.memory.heap ∨
          ∃ shared', task.step s shared = .running shared' task') ∨
        id = task.memory.freshIdentity.1) := by
  cases move with
  | claim | refuse | answer | sleep =>
    cases List.mem_singleton.mp member
    cases runs
    exact ⟨_, rfl, .inl ⟨rfl, .inl rfl⟩⟩
  | go stepped =>
    cases List.mem_singleton.mp member
    cases runs
    exact ⟨_, rfl, .inl ⟨rfl, .inr ⟨_, stepped⟩⟩⟩
  | spawn =>
    rcases List.mem_cons.mp member with same | later
    · cases same
      exact ⟨_, rfl, .inr rfl⟩
    · cases List.mem_singleton.mp later
      cases runs
      exact ⟨_, rfl, .inl ⟨rfl, .inl rfl⟩⟩
  | finish | settle => cases member
  | stop | release =>
    cases List.mem_singleton.mp member
    cases runs

/-- No future is ever removed. -/
theorem Move.found {change : Change σ} (move : Move s who number shared phase change)
    (id : Identity) (found : (shared.futures.get? id).isSome) :
    (change.shared.futures.get? id).isSome := by
  have same {task : Task} {progress : Progress σ}
      (stepped : Task.step s shared task = progress) :
      (progress.shared.futures.get? id).isSome := by
    obtain ⟨host, shared_eq⟩ := Task.step_shared s shared task
    rw [stepped] at shared_eq
    rwa [shared_eq]
  cases move with
  | claim | refuse | answer | release => exact found
  | sleep | settle =>
    simp only [Futures.get?_update, Option.isSome_map]
    exact found
  | go stepped | finish _ stepped | stop _ stepped => exact same stepped
  | spawn =>
    simp only [Futures.get?_add]
    split
    · rfl
    · exact found

/-- What holds of the heap of a task after a step, in terms of the one before, holds of its heaps in
any two worlds of a run. -/
structure Since (Q : Heap → Heap → Prop) (first w : World σ) : Prop where
  found : ∀ id, (first.shared.futures.get? id).isSome → (w.shared.futures.get? id).isSome
  heaps : ∀ who phase task phase' task', (who, phase) ∈ first.tasks → phase.task? = some task →
    (who, phase') ∈ w.tasks → phase'.task? = some task' → Q task.memory.heap task'.memory.heap

end Step

section Since

variable {D : Discipline s} {P : Heap → Prop} (governs : D.Governs P) {Q : Heap → Heap → Prop}

theorem Since.refl (same : ∀ heap, Q heap heap) {w : World σ} (tidy : w.Tidy) : Since Q w w where
  found _ known := known
  heaps who phase task phase' task' member runs member' runs' := by
    cases tidy.unique member member'
    cases runs.symm.trans runs'
    exact same _

include governs in
theorem Since.step {first : World σ} (began : first.Tidy)
    (after : ∀ w heap heap' later, heap'.Shaped D.base w → P heap' → Q heap heap' →
      D.Change w heap' later → Q heap later)
    (who : Identity) (w : World σ) (tidy : w.Tidy) (orderly : Orderly D P w)
    (since : Since Q first w) (awake : w.canStep who) : Since Q first (w.step s who) := by
  obtain ⟨shared, tasks, forked, outcome⟩ := w
  obtain ⟨before, phase, later, change, rfl, -, -, move, stepped⟩ := exists_move (s := s) awake
  rw [stepped]
  refine ⟨fun id known => move.found id (since.found id known), ?_⟩
  intro id phase₀ task₀ phase' task' member runs member' runs'
  have old (among : (id, phase') ∈ before ++ [(who, phase)] ++ later) :
      Q task₀.memory.heap task'.memory.heap :=
    since.heaps id phase₀ task₀ phase' task' member runs among runs'
  rcases List.mem_append.mp member' with early | late
  · rcases List.mem_append.mp early with early | new
    · exact old (mem_replace.mpr (.inl early))
    · obtain ⟨task, here, ⟨rfl, either⟩ | fresh⟩ := move.task_cases new runs'
      · have mine : (id, phase) ∈ before ++ [(id, phase)] ++ later :=
          mem_replace.mpr (.inr (.inl rfl))
        have so_far := since.heaps id phase₀ task₀ phase task member runs mine here
        rcases either with same | ⟨shared', went⟩
        · rwa [same]
        · have guides := orderly.tasks id phase task mine here
          obtain ⟨-, -, w, shaped, changed⟩ := governs.go guides orderly.shares went
          obtain ⟨_, _, _, holds⟩ := guides
          exact after w _ _ _ shaped holds so_far changed
      · -- a task that is new now was not there before, or it would have a future
        obtain ⟨given, unknown⟩ := tidy.fresh task here
        rw [given] at fresh
        subst fresh
        have known := since.found _ (began.registered _ phase₀ member (List.cons_ne_nil _ who))
        simp only at known
        rw [unknown] at known
        cases known
  · exact old (mem_replace.mpr (.inr (.inr late)))

include governs in
/-- In a run, all worlds are orderly, and the heaps of a task in any two of them are related as
those before and after a step are. -/
theorem Path.orderly {first w : World σ} {schedule : List Identity}
    (path : Path s schedule first w) (tidy : first.Tidy) (orderly : Orderly D P first)
    (same : ∀ heap, Q heap heap)
    (after : ∀ w heap heap' later, heap'.Shaped D.base w → P heap' → Q heap heap' →
      D.Change w heap' later → Q heap later) :
    w.Tidy ∧ Orderly D P w ∧ Since Q first w := by
  refine path.invariant (P := fun w => w.Tidy ∧ Orderly D P w ∧ Since Q first w)
    ⟨tidy, orderly, .refl same tidy⟩ ?_
  intro who w holds awake
  obtain ⟨tidy', orderly', since⟩ := holds
  exact ⟨tidy'.step who w awake, orderly'.step governs who w awake,
    since.step governs tidy after who w tidy' orderly' awake⟩

end Since
end World
end LayeredIR
