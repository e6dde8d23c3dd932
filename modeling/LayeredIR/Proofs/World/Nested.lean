import LayeredIR.Proofs.World.Slots
import LayeredIR.Proofs.World.Waits

/-! Documents that join each task where they fork it. The tasks of a run are then one in another:
the innermost one runs, and each of the others only comes to wait for the one in front of it. So
whatever order the tasks take their steps in, the run is the one in place, call by call. -/
namespace LayeredIR

def Phase.called? {σ : Type} (s : Setting σ) : Phase → Option (String × List Value)
  | .running task => task.called? s
  | _ => none

namespace World

variable {σ : Type} (s : Setting σ)

inductive Phase.Serial : Shared σ → Phase → Except Fault Value → Shared σ →
    List (String × List Value) → Nat → Prop
  | running {shared task outcome last calls n}
    (runs : Task.Serial s shared task outcome last calls n) :
    Serial shared (.running task) outcome last calls (n + 2)
  | starting {shared label registers next frames memory outcome last calls n}
    (runs : Task.Serial s shared ⟨.fork label registers next, frames, memory⟩ outcome last calls
      n) :
    Serial shared (.starting label registers next frames memory) outcome last calls (n + 1)
  | releasing {shared outcome} : Serial shared (.releasing outcome) outcome shared [] 2
  | settling {shared outcome} : Serial shared (.settling outcome) outcome shared [] 1

/-- Tasks of which the first one runs, and each other one waits for the one before it, with all that
is before them: how the last one ends, what is shared then, and the calls that are made. -/
inductive Tower : Shared σ → List (Identity × Phase) → Except Fault Value → Shared σ →
    List (String × List Value) → Nat → Prop
  | entry {shared phase outcome last calls n}
    (runs : Phase.Serial s shared phase outcome last calls n) :
    Tower shared [(entryTask, phase)] outcome last calls n
  | forked {shared k parent phase task below result after calls n outcome last more m}
    (runs : Phase.Serial s shared phase result after calls n)
    (awaits : task.Awaits s (k :: parent))
    (rest : Tower { after with
        futures := after.futures.update (k :: parent) fun future =>
          (future.settle (settlement result)).2 }
      ((parent, .running task) :: below) outcome last more m) :
    Tower shared ((k :: parent, phase) :: (parent, .running task) :: below) outcome last
      (calls ++ more) (n + m)

variable {s} {shared last : Shared σ} {outcome : Except Fault Value} {phase : Phase}
  {who : Identity} {before below after tasks : List (Identity × Phase)}
  {calls : List (String × List Value)} {n : Nat}

theorem Phase.Serial.known (serial : Phase.Serial s shared phase outcome last calls n)
    (id : Identity) (known : (shared.futures.get? id).isSome) :
    (last.futures.get? id).isSome := by
  cases serial with
  | running runs | starting runs => exact runs.known id known
  | releasing | settling => exact known

theorem Phase.Serial.pos (serial : Phase.Serial s shared phase outcome last calls n) : 0 < n := by
  cases serial <;> exact Nat.succ_pos _

theorem Phase.Serial.task {task : Task}
    (serial : Phase.Serial s shared (.running task) outcome last calls n) :
    ∃ m, n = m + 2 ∧ Task.Serial s shared task outcome last calls m := by
  cases serial with
  | running runs => exact ⟨_, rfl, runs⟩

def Phase.Passes (s : Setting σ) (shared shared' : Shared σ) (phase phase' : Phase) : Prop :=
  ∀ result after calls n, Phase.Serial s shared phase result after calls n →
    ∃ more, ∃ m < n, calls = (phase.called? s).toList ++ more ∧
      Phase.Serial s shared' phase' result after more m

namespace Phase.Passes

variable {shared' : Shared σ} {task : Task} {frames : List Frame} {memory : Memory}

theorem claim {label : String} {registers : Bindings} {next : Option Identity → Plan Next} :
    Phase.Passes s shared shared (.running ⟨.fork label registers next, frames, memory⟩)
      (.starting label registers next frames memory) := by
  intro result after calls n serial
  obtain ⟨m, rfl, runs⟩ := serial.task
  exact ⟨calls, _, Nat.lt_succ_self _, rfl, .starting runs⟩

theorem answer {id : Identity} {next : Outcome → Plan Next} {known : Outcome}
    (settled : shared.futures.outcome? id = some known) :
    Phase.Passes s shared shared (.running ⟨.await id next, frames, memory⟩)
      (.running ⟨next known, frames, memory⟩) := by
  intro result after calls n serial
  obtain ⟨m, rfl, runs⟩ := serial.task
  obtain ⟨known', m, settled', rfl, rest⟩ := runs.of_await
  cases settled.symm.trans settled'
  exact ⟨calls, _, Nat.lt_succ_self _, rfl, .running rest⟩

theorem go {task' : Task} (stepped : task.step s shared = .running shared' task') :
    Phase.Passes s shared shared' (.running task) (.running task') := by
  intro result after calls n serial
  obtain ⟨m, rfl, runs⟩ := serial.task
  obtain ⟨more, m, rfl, rfl, rest⟩ := runs.of_running stepped
  exact ⟨more, _, Nat.lt_succ_self _, rfl, .running rest⟩

theorem stop {ended : Except Fault Value}
    (stepped : task.step s shared = .ended ended shared' memory) :
    Phase.Passes s shared shared' (.running task) (.releasing ended) := by
  intro result after calls n serial
  obtain ⟨m, rfl, runs⟩ := serial.task
  obtain ⟨rfl, rfl, rfl, rfl⟩ := runs.of_ended stepped
  refine ⟨[], 2, Nat.lt_succ_self _, ?_, .releasing⟩
  simp only [Phase.called?, Task.called?_of_ended stepped, Option.toList_none, List.append_nil]

theorem release {ended : Except Fault Value} :
    Phase.Passes s shared shared (.releasing ended) (.settling ended) := by
  intro result after calls n serial
  cases serial with
  | releasing => exact ⟨[], 1, Nat.lt_succ_self _, rfl, .settling⟩

end Phase.Passes

namespace Tower

theorem known (tower : Tower s shared tasks outcome last calls n) (id : Identity)
    (known : (shared.futures.get? id).isSome) : (last.futures.get? id).isSome := by
  induction tower with
  | entry runs => exact runs.known id known
  | forked runs _ _ ih =>
    refine ih ?_
    rw [Futures.get?_update, Option.isSome_map]
    exact runs.known id known

theorem length_le (tower : Tower s shared tasks outcome last calls n) : tasks.length ≤ n := by
  induction tower with
  | entry runs => exact runs.pos
  | forked runs _ _ ih =>
    have own := runs.pos
    simp only [List.length_cons] at ih ⊢
    omega

theorem exists_first (tower : Tower s shared tasks outcome last calls n) :
    ∃ who phase below, tasks = (who, phase) :: below := by
  cases tower <;> exact ⟨_, _, _, rfl⟩

/-- Each of the tasks that wait has a slot, the entry task apart. -/
theorem slots_below (tower : Tower s shared ((who, phase) :: below) outcome last calls n) :
    slots below + (if who = entryTask then 0 else 1) = who.length := by
  generalize same : (who, phase) :: below = tasks at tower
  induction tower generalizing who phase below with
  | entry runs =>
    cases same
    rfl
  | @forked _ k parent _ task below' _ _ _ _ _ _ _ _ _ _ _ ih =>
    cases same
    have inner := ih rfl
    have whole : slots ((parent, .running task) :: below') =
        (if parent = entryTask then 0 else 1) + slots below' := by simp [slots, Phase.slots]
    have forked : k :: parent ≠ entryTask := List.cons_ne_nil k parent
    rw [whole, if_neg forked, List.length_cons]
    omega

/-- The first task apart from the others. -/
theorem focus (tower : Tower s shared ((who, phase) :: below) outcome last calls n) :
    ∃ result after own m more k, Phase.Serial s shared phase result after own m ∧
      calls = own ++ more ∧ n = m + k ∧
      ∀ {shared' phase' own' m'}, Phase.Serial s shared' phase' result after own' m' →
        Tower s shared' ((who, phase') :: below) outcome last (own' ++ more) (m' + k) := by
  cases tower with
  | entry runs =>
    refine ⟨_, _, _, _, [], 0, runs, (List.append_nil _).symm, rfl, fun runs' => ?_⟩
    rw [List.append_nil]
    exact .entry runs'
  | forked runs awaits rest =>
    exact ⟨_, _, _, _, _, _, runs, rfl, rfl, fun runs' => .forked runs' awaits rest⟩

theorem goOn {shared' : Shared σ} {phase' : Phase}
    (passes : Phase.Passes s shared shared' phase phase')
    (tower : Tower s shared ((who, phase) :: below) outcome last calls n) :
    ∃ more, ∃ m < n, calls = (phase.called? s).toList ++ more ∧
      Tower s shared' ((who, phase') :: below) outcome last more m := by
  obtain ⟨result, after, own, m, others, k, runs, rfl, rfl, back⟩ := tower.focus
  obtain ⟨more, m', less, rfl, runs'⟩ := passes _ _ _ _ runs
  exact ⟨more ++ others, m' + k, by omega, List.append_assoc _ _ _, back runs'⟩

/-- A step that the first task takes by itself. -/
theorem silent {task task' : Task}
    (tower : Tower s shared ((who, .running task) :: below) outcome last calls n)
    (quiet : task.called? s = none) (stepped : task.step s shared = .running shared task') :
    ∃ m < n, Tower s shared ((who, .running task') :: below) outcome last calls m := by
  obtain ⟨more, m, less, rfl, tower'⟩ := tower.goOn (.go stepped)
  rw [show (Phase.running task).called? s = none from quiet]
  exact ⟨m, less, tower'⟩

/-- A task that is not the first one waits, or takes a step by itself on the way to do so. -/
theorem waiting (tower : Tower s shared tasks outcome last calls n)
    (split : tasks = before ++ [(who, phase)] ++ after) (some : before ≠ []) :
    (∃ id next frames memory, phase = .running ⟨.await id next, frames, memory⟩ ∧
      id ∈ before.map Prod.fst) ∨
    ∃ task task', phase = .running task ∧ task.called? s = none ∧
      (∀ shared, task.step s shared = .running shared task') ∧
      ∃ m < n,
        Tower s shared (before ++ [(who, .running task')] ++ after) outcome last calls m := by
  induction tower generalizing before with
  | entry runs =>
    obtain ⟨first, rest, rfl⟩ := List.exists_cons_of_ne_nil some
    simp at split
  | @forked shared k parent phase' task below' result final own i outcome last more j runs awaits
      rest ih =>
    obtain ⟨first, before, rfl⟩ := List.exists_cons_of_ne_nil some
    simp only [List.cons_append, List.cons.injEq] at split
    obtain ⟨rfl, split⟩ := split
    cases before with
    | nil =>
      cases split
      obtain ⟨next, frames, memory, m, silently⟩ := awaits
      cases silently with
      | here => exact .inl ⟨_, next, frames, memory, rfl, by simp⟩
      | step quiet stepped further =>
        obtain ⟨j', less, rest'⟩ := rest.silent quiet (stepped _)
        refine .inr ⟨_, _, rfl, quiet, stepped, i + j', by omega, ?_⟩
        exact .forked runs ⟨next, frames, memory, _, further⟩ rest'
    | cons second before =>
      rcases ih split (List.cons_ne_nil _ _) with
        ⟨id, next, frames, memory, same, listed⟩ |
          ⟨task₁, task₂, same, quiet, stepped, j', less, rest'⟩
      · exact .inl ⟨id, next, frames, memory, same, List.mem_cons_of_mem _ listed⟩
      · refine .inr ⟨task₁, task₂, same, quiet, stepped, i + j', by omega, ?_⟩
        simp only [List.cons_append, List.cons.injEq] at split
        obtain ⟨rfl, -⟩ := split
        exact .forked runs awaits rest'

theorem of_entry (tower : Tower s shared ((who, phase) :: below) outcome last calls n)
    (entry : who = entryTask) :
    below = [] ∧ Phase.Serial s shared phase outcome last calls n := by
  cases tower with
  | entry runs => exact ⟨rfl, runs⟩
  | forked => cases entry

/-- Where the first task forks, it is not as deep as tasks may be. -/
theorem shallow {label : String} {registers : Bindings} {next : Option Identity → Plan Next}
    {frames : List Frame} {memory : Memory} (owner : memory.owner = who)
    (tower : Tower s shared ((who, .running ⟨.fork label registers next, frames, memory⟩) :: below)
      outcome last calls n)
    (deepest : ∀ id, (last.futures.get? id).isSome → id.length ≤ s.config.maxTasks) :
    who.length < s.config.maxTasks := by
  obtain ⟨result, final, own, m, more, k, runs, -, -, back⟩ := tower.focus
  obtain ⟨m, -, runs⟩ := runs.task
  obtain ⟨_, _, _, _, _, _, -, -, forked, rest⟩ := runs.of_fork
  have child := (back (.running rest)).known memory.freshIdentity.1 (by
    rw [Futures.get?_update, Option.isSome_map]
    exact forked.known _ (by simp))
  exact owner ▸ deepest _ child

end Tower

/-- A world in which all is as in the run in place, with the calls and the number of steps that are
before it. -/
inductive Nested (s : Setting σ) (outcome : Except Fault Value) (last : Shared σ) :
    World σ → List (String × List Value) → Nat → Prop
  | runs {w shared calls n} (agrees : w.shared.Agrees shared)
    (count : w.forked = shared.futures.entries.length)
    (tower : Tower s shared w.tasks outcome last calls n) : Nested s outcome last w calls n
  | done {w} (agrees : w.shared.Agrees last) (none : w.tasks = [])
    (ended : w.outcome = some outcome) : Nested s outcome last w [] 0

theorem Phase.called?_event? (phase : Phase) (who : Identity) (shared : Shared σ) :
    (phase.event? s who shared).bind Event.called? = phase.called? s := by
  cases phase with
  | running task => exact task.called?_event? who shared
  | _ => rfl

namespace Nested

theorem awake_le {w : World σ} (nested : Nested s outcome last w calls n) : w.awake ≤ n := by
  cases nested with
  | runs _ _ tower => exact w.awake_le.trans tower.length_le
  | done _ none _ => exact w.awake_le.trans (by simp [none])

variable (layer : s.layer = .lir) (joins : s.JoinsAtOnce)
  (discreet : ∀ name handler, s.handler? name = some handler → handler.Discreet)
  (deepest : ∀ id, (last.futures.get? id).isSome → id.length ≤ s.config.maxTasks)

section First

variable {shared' : Shared σ} {i number : Nat} {result : Option (Except Fault Value)}
  {change : Change σ}

include layer joins discreet deepest in
/-- A step of the innermost task is the next step of the run in place. -/
theorem first (regular : Regular s ⟨shared', (who, phase) :: below, i, result⟩)
    (agrees : shared'.Agrees shared) (count : i = shared.futures.entries.length)
    (tower : Tower s shared ((who, phase) :: below) outcome last calls n)
    (move : Move s who (i + 1) shared' phase change) :
    ∃ more m, calls = (phase.called? s).toList ++ more ∧ m < n ∧
      Nested s outcome last
        ⟨change.shared, change.tasks ++ below, i + change.forked, change.outcome <|> result⟩
        more m := by
  have mine : (who, phase) ∈ (who, phase) :: below := List.mem_cons_self
  have same {task : Task} {progress : Progress σ} (stepped : task.step s shared = progress)
      {after : Shared σ} (left : progress.shared = after) :
      i = after.futures.entries.length := by
    rw [count, futures_of_step stepped left]
  cases move with
  | claim =>
    obtain ⟨more, m, less, told, tower'⟩ := tower.goOn .claim
    exact ⟨more, m, told, less, .runs ⟨agrees.host, agrees.futures⟩ count tower'⟩
  | @refuse label registers next frames memory full =>
    have owner := regular.tidy.owner who _ _ mine rfl
    have live : shared'.live =
        slots [(who, .running ⟨.fork label registers next, frames, memory⟩)] + slots below :=
      regular.counted.live.trans (slots_append [_] below)
    have depth := tower.slots_below
    have within := tower.shallow owner deepest
    rw [slots_singleton, Phase.slots] at live
    omega
  | answer settled =>
    obtain ⟨more, m, less, told, tower'⟩ := tower.goOn (.answer (agrees.outcome? _ ▸ settled))
    exact ⟨more, m, told, less, .runs agrees count tower'⟩
  | @sleep id next frames memory pending =>
    obtain ⟨ended, final, own, m, others, k, runs, -, -, -⟩ := tower.focus
    obtain ⟨m, -, runs⟩ := runs.task
    obtain ⟨known, m, settled, -⟩ := runs.of_await
    cases (agrees.outcome? id ▸ pending).symm.trans settled
  | go stepped =>
    obtain ⟨after', stepped', agrees'⟩ := Task.running_agrees discreet agrees stepped
    obtain ⟨more, m, less, told, tower'⟩ := tower.goOn (.go stepped')
    exact ⟨more, m, told, less, .runs agrees' (same stepped' rfl) tower'⟩
  | finish entry stepped =>
    obtain ⟨after', memory', stepped', agrees'⟩ := Task.ended_agrees discreet agrees stepped
    obtain ⟨rfl, runs⟩ := tower.of_entry entry
    obtain ⟨m, rfl, alone⟩ := runs.task
    obtain ⟨rfl, rfl, rfl, rfl⟩ := alone.of_ended stepped'
    refine ⟨[], 0, ?_, by omega, .done agrees' rfl rfl⟩
    simp only [Phase.called?, Task.called?_of_ended stepped, Option.toList_none, List.append_nil]
  | stop forked stepped =>
    obtain ⟨after', memory', stepped', agrees'⟩ := Task.ended_agrees discreet agrees stepped
    obtain ⟨more, m, less, told, tower'⟩ := tower.goOn (.stop stepped')
    exact ⟨more, m, told, less, .runs agrees' (same stepped' rfl) tower'⟩
  | @spawn label registers next frames memory =>
    obtain rfl := regular.tidy.owner who _ _ mine rfl
    have reached := regular.reached _ _ _ mine rfl
    have registers : registerScope < memory.freshIdentity.2.heap.size := reached.hasRegisters layer
    obtain ⟨future, target, block, silently⟩ :=
      (reached.forksAtEnds layer).control.1.silently joins registers memory.freshIdentity.1 frames
    obtain ⟨ended, final, own, m, others, k, runs, rfl, rfl, back⟩ := tower.focus
    cases runs with
    | starting runs =>
      obtain ⟨_, _, _, _, _, _, rfl, rfl, forked, rest⟩ := runs.of_fork
      have tower' := Tower.forked (.running forked) ⟨_, _, _, _, silently⟩ (back (.running rest))
      refine ⟨_, _, List.append_assoc _ _ _, ?_, .runs ?_ ?_ tower'⟩
      · omega
      · rw [count]
        exact agrees.fork _ _
      · exact congrArg (· + 1) count
  | release =>
    obtain ⟨more, m, less, told, tower'⟩ := tower.goOn .release
    exact ⟨more, m, told, less, .runs ⟨agrees.host, agrees.futures⟩ count tower'⟩
  | @settle ended =>
    cases tower with
    | entry runs => cases regular.counted.entry _ mine
    | @forked _ k parent _ task below' _ _ _ _ _ _ more m runs awaits rest =>
      cases runs with
      | settling =>
        refine ⟨more, m, rfl, by omega, .runs (agrees.settle _ _) ?_ rest⟩
        simpa [Futures.update] using count

/-- A step of another task is one on its way to wait, or the one in which it falls asleep. -/
theorem other (regular : Regular s ⟨shared', before ++ [(who, phase)] ++ after, i, result⟩)
    (agrees : shared'.Agrees shared) (count : i = shared.futures.entries.length)
    (tower : Tower s shared (before ++ [(who, phase)] ++ after) outcome last calls n)
    (some : before ≠ []) (stands : isAsleep shared'.futures who phase = false)
    (move : Move s who (i + 1) shared' phase change) :
    phase.called? s = none ∧
      let w : World σ := ⟨change.shared, before ++ change.tasks ++ after, i + change.forked,
        change.outcome <|> result⟩
      (∃ m < n, Nested s outcome last w calls m) ∨
        Nested s outcome last w calls n ∧
          w.awake < awake ⟨shared', before ++ [(who, phase)] ++ after, i, result⟩ := by
  rcases tower.waiting rfl some with
    ⟨id, next, frames, memory, rfl, listed⟩ | ⟨task, task', rfl, quiet, alone, m, less, tower'⟩
  · refine ⟨rfl, .inr ?_⟩
    obtain ⟨⟨_, ahead⟩, member, rfl⟩ := List.mem_map.mp listed
    cases move with
    | answer settled =>
      obtain ⟨future, found, known⟩ := Option.bind_eq_some_iff.mp settled
      have ended := (regular.tidy.settled _ future found).mp (known ▸ rfl)
      exact absurd (List.mem_append_left _ (List.mem_append_left _ member)) (ended ahead)
    | sleep pending =>
      exact ⟨.runs (agrees.wait _ _) count tower, awake_sleep pending rfl stands⟩
    | go stepped | finish _ stepped | stop _ stepped => cases stepped
  · refine ⟨quiet, .inl ⟨m, less, ?_⟩⟩
    cases move with
    | claim | refuse | answer | sleep => cases alone shared'
    | go stepped =>
      cases (alone shared').symm.trans stepped
      exact .runs agrees count tower'
    | finish _ stepped | stop _ stepped => cases (alone shared').symm.trans stepped

end First

include layer joins discreet deepest in
/-- With every step less is to be done, or as much by fewer tasks that are awake; and the next call
that is made is the next one of the run in place. -/
theorem step {w : World σ} (nested : Nested s outcome last w calls n) (regular : w.Regular s)
    (awake : w.canStep who) :
    ∃ more, calls = ((w.event? s who).bind Event.called?).toList ++ more ∧
      ((∃ m < n, Nested s outcome last (w.step s who) more m) ∨
        Nested s outcome last (w.step s who) more n ∧ (w.step s who).awake < w.awake) := by
  obtain ⟨before, phase, after, change, split, others, stands, move, whole⟩ :=
    exists_move (s := s) awake
  rw [event?_split split others, Phase.called?_event?, whole]
  obtain ⟨shared', tasks, i, result⟩ := w
  subst split
  cases nested with
  | done _ none _ => simp at none
  | runs agrees count tower =>
    cases before with
    | nil =>
      obtain ⟨more, m, same, less, nested⟩ :=
        first layer joins discreet deepest regular agrees count tower move
      exact ⟨more, same, .inl ⟨m, less, nested⟩⟩
    | cons entry before =>
      obtain ⟨quiet, nested⟩ :=
        other regular agrees count tower (List.cons_ne_nil _ _) stands move
      exact ⟨calls, by rw [quiet]; rfl, nested⟩

/-- As long as there are tasks, the innermost one can take a step. -/
theorem ended {w : World σ} (nested : Nested s outcome last w calls n) (regular : w.Regular s)
    (stuck : ∀ who, ¬ w.canStep who) :
    calls = [] ∧ w.result? = some outcome ∧ w.shared.Agrees last := by
  cases nested with
  | done agrees none ended =>
    refine ⟨rfl, ?_, agrees⟩
    rw [result?, none]
    exact ended
  | runs agrees count tower =>
    exfalso
    obtain ⟨who, phase, below, same⟩ := tower.exists_first
    rw [same] at tower
    obtain ⟨result, final, own, m, more, k, runs, -, -, -⟩ := tower.focus
    refine stuck who ((regular.tidy.canStep_iff (same ▸ List.mem_cons_self)).mpr ?_)
    cases phase with
    | running task =>
      obtain ⟨control, frames, memory⟩ := task
      cases control with
      | await id next =>
        obtain ⟨m, -, runs⟩ := runs.task
        obtain ⟨known, m, settled, -⟩ := runs.of_await
        obtain ⟨future, found, ended⟩ :=
          Option.bind_eq_some_iff.mp ((agrees.outcome? id).trans settled)
        have none := regular.tidy.woken id future found (ended ▸ rfl)
        simp [isAsleep, found, none]
      | _ => rfl
    | _ => rfl

end Nested

def Retraces (s : Setting σ) (outcome : Except Fault Value) (last : Shared σ)
    (all : List (String × List Value)) (w : World σ) (past : List Event) : Prop :=
  w.Regular s ∧ ∃ calls n, Nested s outcome last w calls n ∧
    past.filterMap Event.called? ++ calls = all

theorem Retraces.step (layer : s.layer = .lir) (joins : s.JoinsAtOnce)
    (discreet : ∀ name handler, s.handler? name = some handler → handler.Discreet)
    (deepest : ∀ id, (last.futures.get? id).isSome → id.length ≤ s.config.maxTasks)
    {all : List (String × List Value)} (who : Identity) (w : World σ) (past : List Event)
    (retraces : w.Retraces s outcome last all past) (awake : w.canStep who) :
    (w.step s who).Retraces s outcome last all (past ++ (w.event? s who).toList) := by
  obtain ⟨regular, calls, n, nested, rfl⟩ := retraces
  obtain ⟨more, rfl, later⟩ := nested.step layer joins discreet deepest regular awake
  obtain ⟨m, nested'⟩ : ∃ m, Nested s outcome last (w.step s who) more m := by
    rcases later with ⟨m, -, nested'⟩ | ⟨nested', -⟩
    · exact ⟨m, nested'⟩
    · exact ⟨n, nested'⟩
  refine ⟨regular.step layer awake, more, m, nested', ?_⟩
  rw [List.filterMap_append, List.append_assoc]
  congr 2
  cases w.event? s who <;> rfl

end World

namespace FlowDocument

variable {σ : Type}

/-- Every order of steps is finite and comes to what the one thread comes to, with the same calls of
handlers in the same order, if each task is joined where it is forked, no handler can tell who
waits for a future, and there are as many slots as forks are deep. The identity of a task is as long
as its forks are deep, and what handlers answer may depend on all that went before. -/
theorem path_nested (doc : FlowDocument) (graph : FlowGraph) (s : Setting σ) (host : σ)
    (structured : doc.graph = .ok graph) (joins : doc.JoinsAtOnce)
    (discreet : ∀ name handler, s.handler? name = some handler → handler.Discreet)
    (fuel : Nat) {outcome : Except Fault Value} {shared : Shared σ} {memory : Memory}
    (reference : Task.runInPlace (doc.setting s graph) fuel ⟨.empty, 0, host⟩
      (.atBlock (doc.setting s graph) entryTask graph.entry.id s.inputRegisters) =
        some (outcome, shared, memory))
    (deepest : ∀ id, (shared.futures.get? id).isSome → id.length ≤ s.config.maxTasks) :
    ∃ bound, ∀ schedule w,
      World.Path (doc.setting s graph) schedule (doc.start s graph host) w →
        schedule.length ≤ bound ∧
        ((∀ who, ¬ w.canStep who) →
          w.result? = some outcome ∧ w.shared.host = shared.host ∧
          (∀ id, w.shared.futures.outcome? id = shared.futures.outcome? id) ∧
          ((doc.start s graph host).trace (doc.setting s graph) schedule).filterMap Event.called? =
            Task.callsInPlace (doc.setting s graph) fuel ⟨.empty, 0, host⟩
              (.atBlock (doc.setting s graph) entryTask graph.entry.id s.inputRegisters)) := by
  obtain ⟨n, serial⟩ := Task.runInPlace_serial fuel reference
  have joins := joins.setting structured s
  have regular := doc.start_regular graph s host
  have nested : World.Nested (doc.setting s graph) outcome shared (doc.start s graph host) _ _ :=
    .runs ⟨rfl, rfl⟩ rfl (.entry (.running serial))
  refine ⟨(n + 2) * (n + 3) + (doc.start s graph host).awake, fun schedule w path => ⟨?_, ?_⟩⟩
  · refine (path.bounded (P := fun w n => w.Regular (doc.setting s graph) ∧ ∃ calls,
      World.Nested (doc.setting s graph) outcome shared w calls n) ?_ ?_ ⟨regular, _, nested⟩).1
    · exact fun ⟨_, _, nested⟩ => nested.awake_le
    · intro who w n ⟨regular, calls, nested⟩ awake
      have regular' := regular.step rfl awake
      obtain ⟨more, -, ⟨m, less, nested'⟩ | ⟨nested', fewer⟩⟩ :=
        nested.step rfl joins discreet deepest regular awake
      · exact .inl ⟨m, less, regular', more, nested'⟩
      · exact .inr ⟨⟨regular', more, nested'⟩, fewer⟩
  · intro stuck
    have first : (doc.start s graph host).Retraces (doc.setting s graph) outcome shared _ [] :=
      ⟨regular, _, _, nested, rfl⟩
    obtain ⟨regular', calls, m, nested', whole⟩ :=
      path.recorded first (World.Retraces.step rfl joins discreet deepest)
    obtain ⟨rfl, result, agrees⟩ := nested'.ended regular' stuck
    rw [List.append_nil] at whole
    exact ⟨result, agrees.host, agrees.outcome?, whole⟩

def countThrice : FlowDocument where
  version := "1.0.0"
  entry := "main"
  definitions := []
  blocks :=
    [⟨"main", [.effect none "tick" []], .fork "body" "rest" "task"⟩,
      ⟨"body", [.effect (some "n") "tick" []], .ret (some "n")⟩,
      ⟨"rest", [], .join "task" (some "result") "end"⟩,
      ⟨"end", [.effect none "tick" []], .ret (some "result")⟩]

def countThriceGraph : FlowGraph where
  entry := ⟨"main", [.effect none "tick" []], .fork "body" "rest" "task"⟩
  blocks := countThrice.blocks

def tick : Handler Nat := fun _ _ n => (.ok (.int (Int64.ofNat (n + 1))), n + 1)

def counting : Setting Nat where
  effects := some (Effects.empty.register "tick" tick)
  config := { maxTasks := 1 }

theorem path_nested_countThrice : ∃ bound, ∀ schedule w,
    World.Path (countThrice.setting counting countThriceGraph) schedule
        (countThrice.start counting countThriceGraph 0) w →
      schedule.length ≤ bound ∧
      ((∀ who, ¬ w.canStep who) → w.result? = some (.ok (.int 2)) ∧ w.shared.host = 3 ∧
        ((countThrice.start counting countThriceGraph 0).trace
            (countThrice.setting counting countThriceGraph) schedule).filterMap Event.called? =
          [("tick", []), ("tick", []), ("tick", [])]) := by
  have joins : countThrice.JoinsAtOnce := by
    simp [FlowDocument.JoinsAtOnce, countThrice]
  have discreet : ∀ name handler, counting.handler? name = some handler → handler.Discreet := by
    intro name handler found
    obtain ⟨before, after, split, -⟩ := List.lookup_eq_some_iff.mp found
    have member : (name, handler) ∈ (Effects.empty.register "tick" tick).handlers := by simp [split]
    cases List.mem_singleton.mp member
    exact fun _ _ _ => rfl
  obtain ⟨shared, memory, reference, futures, host⟩ : ∃ shared memory,
      Task.runInPlace (countThrice.setting counting countThriceGraph) 60 ⟨.empty, 0, 0⟩
        (.atBlock (countThrice.setting counting countThriceGraph) entryTask "main" []) =
          some (.ok (.int 2), shared, memory) ∧
      shared.futures.entries.map Prod.fst = [[1]] ∧ shared.host = 3 :=
    ⟨_, _, by rfl, by rfl, by rfl⟩
  have deepest : ∀ id, (shared.futures.get? id).isSome → id.length ≤ 1 := by
    intro id known
    obtain ⟨future, found⟩ := Option.isSome_iff_exists.mp known
    obtain ⟨before, after, split, -⟩ := List.lookup_eq_some_iff.mp found
    have member : id ∈ [[1]] := futures ▸ by simp [split]
    cases List.mem_singleton.mp member
    exact Nat.le_refl 1
  obtain ⟨bound, all⟩ := path_nested countThrice countThriceGraph counting 0 (by rfl) joins discreet
    60 reference deepest
  refine ⟨bound, fun schedule w path => (all schedule w path).imp_right fun ends stuck => ?_⟩
  obtain ⟨result, last, -, calls⟩ := ends stuck
  exact ⟨result, last.trans host, calls.trans (by rfl)⟩

end FlowDocument
end LayeredIR
