import LayeredIR.Proofs.Backtraces.Reference
import LayeredIR.Proofs.World.Moves

/-! The entry task among the tasks that it forks. A failure of another task reaches it as an error
value, without a backtrace, so it is enough that the entry task evaluates without a call stack; and
since it takes the same steps, it can do so in the same order of steps of all tasks. -/
namespace LayeredIR

variable {σ : Type} {s : Setting σ} {k : Nat} {task task' : Task} {shared : Shared σ}

namespace Task.Follows

/-- Where one task forks, so does the other; and they go on alike. -/
theorem fork {label : String} {registers : Bindings} {next : Option Identity → Plan Next}
    (follows : task.Follows s (k + 1) task') (asks : task.control = .fork label registers next) :
    ∃ next', task' = ⟨.fork label registers next', [], task.memory.callless⟩ ∧
      ∀ id memory, memory.stack = task.memory.stack → memory.active = task.memory.active →
        Follows s k ⟨next id, task.frames, memory⟩ ⟨next' id, [], memory.callless⟩ := by
  cases follows with
  | @runs plan frames sites rest n memory enough bare continues has =>
    cases asks
    match n, enough, bare with
    | n + 1, enough, .fork _ bare =>
      refine ⟨fun id => s.reference n sites (next id) >>= rest, rfl,
        fun id memory' stack active => ?_⟩
      exact .runs (Nat.le_of_succ_le_succ enough) (bare id) (continues.mono (Nat.le_succ k))
        ⟨stack.trans has.stack, active.trans has.active⟩
  | ends result => cases result <;> cases asks

/-- Where one task waits, the other one waits for the same future. -/
theorem await {future : Identity} {next : Outcome → Plan Next}
    (follows : task.Follows s (k + 1) task') (asks : task.control = .await future next) :
    ∃ next', task' = ⟨.await future next', [], task.memory.callless⟩ ∧
      ∀ outcome,
        Follows s k ⟨next outcome, task.frames, task.memory⟩
          ⟨next' outcome, [], task.memory.callless⟩ := by
  cases follows with
  | @runs plan frames sites rest n memory enough bare continues has =>
    cases asks
    match n, enough, bare with
    | n + 1, enough, .await _ bare =>
      refine ⟨fun outcome => s.reference n sites (next outcome) >>= rest, rfl, fun outcome => ?_⟩
      exact .runs (Nat.le_of_succ_le_succ enough) (bare outcome fun _ _ => trivial)
        (continues.mono (Nat.le_succ k)) has
  | ends result => cases result <;> cases asks

end Task.Follows

inductive Phase.Follows (s : Setting σ) (k : Nat) (who : Identity) : Phase → Phase → Prop
  | same {phase : Phase} (forked : who ≠ entryTask) : Follows s k who phase phase
  | running {task task' : Task} (follows : task.Follows s k task') :
    Follows s k who (.running task) (.running task')
  | starting {label registers next next' frames memory}
    (follows : ∀ id later, later.stack = memory.stack → later.active = memory.active →
      Task.Follows s k ⟨next id, frames, later⟩ ⟨next' id, [], later.callless⟩) :
    Follows s k who (.starting label registers next frames memory)
      (.starting label registers next' [] memory.callless)

namespace World

def FollowAll (s : Setting σ) (k : Nat) :
    List (Identity × Phase) → List (Identity × Phase) → Prop :=
  List.Forall₂ fun entry entry' =>
    entry.1 = entry'.1 ∧ Phase.Follows s k entry.1 entry.2 entry'.2

structure Change.Follows (s : Setting σ) (k : Nat) (change change' : Change σ) : Prop where
  shared : change.shared = change'.shared
  tasks : FollowAll s k change.tasks change'.tasks
  forked : change.forked = change'.forked
  outcome : change.outcome = change'.outcome
  within : ∀ fault, change.outcome = some (.error fault) → fault.Within s.config.maxCallDepth

structure Follows (s : Setting σ) (k : Nat) (w w' : World σ) : Prop where
  shared : w.shared = w'.shared
  tasks : FollowAll s k w.tasks w'.tasks
  forked : w.forked = w'.forked
  outcome : w.outcome = w'.outcome
  within : ∀ fault, w.outcome = some (.error fault) → fault.Within s.config.maxCallDepth

end World

theorem Phase.Follows.mono {j : Nat} {who : Identity} {phase phase' : Phase}
    (follows : Phase.Follows s k who phase phase') (le : j ≤ k) :
    Phase.Follows s j who phase phase' := by
  cases follows with
  | same forked => exact .same forked
  | running follows => exact .running (follows.mono le)
  | starting follows =>
    exact .starting fun id later stack active => (follows id later stack active).mono le

namespace World

theorem FollowAll.mono {j : Nat} {tasks tasks' : List (Identity × Phase)}
    (follow : FollowAll s k tasks tasks') (le : j ≤ k) : FollowAll s j tasks tasks' :=
  List.Forall₂.imp (fun _ _ related => ⟨related.1, related.2.mono le⟩) follow

section Steps

variable {who : Identity} {number : Nat}

theorem stepRunning_running {shared' : Shared σ}
    (stepped : task.step s shared = .running shared' task') :
    stepRunning s who shared task = { shared := shared', tasks := [(who, .running task')] } := by
  obtain ⟨control, frames, memory⟩ := task
  cases control with
  | fork | await => cases stepped
  | _ => simp only [stepRunning, stepped]

theorem stepRunning_ended {outcome : Except Fault Value} {shared' : Shared σ} {memory : Memory}
    (stepped : task.step s shared = .ended outcome shared' memory) :
    stepRunning s who shared task =
      if who = entryTask then { shared := shared', tasks := [], outcome := some outcome }
      else { shared := shared', tasks := [(who, .releasing outcome)] } := by
  obtain ⟨control, frames, memory⟩ := task
  cases control with
  | fork | await => cases stepped
  | _ => simp only [stepRunning, stepped]

/-- The tasks that a forked task leaves in its place are forked ones, and its end is not that of the
run. -/
theorem Move.forked {phase : Phase} {change : Change σ}
    (move : Move s who number shared phase change) (forked : who ≠ entryTask) :
    (∀ entry ∈ change.tasks, entry.1 ≠ entryTask) ∧ change.outcome = none := by
  cases move with
  | finish entry => exact absurd entry forked
  | settle => exact ⟨nofun, rfl⟩
  | spawn =>
    refine ⟨fun entry member => ?_, rfl⟩
    rcases List.mem_pair.mp member with rfl | rfl
    · exact List.cons_ne_nil _ _
    · exact forked
  | _ =>
    refine ⟨fun entry member => ?_, rfl⟩
    cases List.mem_singleton.mp member
    exact forked

theorem FollowAll.of_forked {tasks : List (Identity × Phase)}
    (forked : ∀ entry ∈ tasks, entry.1 ≠ entryTask) : FollowAll s k tasks tasks :=
  List.forall₂_same.mpr fun entry member => ⟨rfl, .same (forked entry member)⟩

theorem Change.Follows.one {phase phase' : Phase} {shared : Shared σ}
    (follows : Phase.Follows s k who phase phase') :
    Change.Follows s k { shared := shared, tasks := [(who, phase)] }
      { shared := shared, tasks := [(who, phase')] } :=
  ⟨rfl, .cons ⟨rfl, follows⟩ .nil, rfl, rfl, nofun⟩

variable (handlers : ∀ name handler, s.handler? name = some handler → handler.Bare)
include handlers

theorem stepRunning_follows (follows : task.Follows s (k + 1) task') :
    Change.Follows s k (stepRunning s who shared task) (stepRunning s who shared task') := by
  have steps := follows.step handlers shared
  generalize stepped : task.step s shared = progress at steps
  generalize stepped' : task'.step s shared = progress' at steps
  cases steps with
  | running follows =>
    rw [stepRunning_running stepped, stepRunning_running stepped']
    exact .one (.running follows)
  | @ended outcome shared₁ memory memory' within =>
    rw [stepRunning_ended stepped, stepRunning_ended stepped']
    split
    · refine ⟨rfl, .nil, rfl, rfl, fun fault same => ?_⟩
      cases same
      exact within fault rfl
    · next forked => exact .one (.same forked)
  | waiting =>
    obtain ⟨control, frames, memory⟩ := task
    rcases Task.waits_of_step stepped with ⟨label, registers, next, rfl⟩ | ⟨future, next, rfl⟩
    · obtain ⟨next', rfl, later⟩ := follows.fork rfl
      simp only [stepRunning]
      split
      · exact .one (.starting later)
      · exact .one (.running (later none memory rfl rfl))
    · obtain ⟨next', rfl, later⟩ := follows.await rfl
      simp only [stepRunning]
      split
      · exact .one (.running (later _))
      · exact .one (.running (follows.mono (Nat.le_succ k)))

theorem stepPhase_follows {phase phase' : Phase}
    (follows : Phase.Follows s (k + 1) who phase phase') :
    Change.Follows s k (stepPhase s who number shared phase)
      (stepPhase s who number shared phase') := by
  cases follows with
  | same forked =>
    obtain ⟨tasks, outcome⟩ := (stepPhase_move s who number shared phase).forked forked
    refine ⟨rfl, .of_forked tasks, rfl, rfl, fun fault same => ?_⟩
    cases outcome.symm.trans same
  | running follows => exact stepRunning_follows handlers follows
  | @starting label registers next next' frames memory follows =>
    have parent := follows (some memory.freshIdentity.1) memory.freshIdentity.2 rfl rfl
    refine ⟨rfl, ?_, rfl, rfl, nofun⟩
    exact .cons ⟨rfl, .same (List.cons_ne_nil _ _)⟩
      (.cons ⟨rfl, .running (parent.mono (Nat.le_succ k))⟩ .nil)

theorem stepAmong_follows {tasks tasks' : List (Identity × Phase)}
    (follow : FollowAll s (k + 1) tasks tasks') :
    Change.Follows s k (stepAmong s who number shared tasks)
      (stepAmong s who number shared tasks') := by
  induction follow with
  | nil => exact ⟨rfl, .nil, rfl, rfl, nofun⟩
  | @cons entry entry' rest rest' head tail ih =>
    obtain ⟨id, phase⟩ := entry
    obtain ⟨id', phase'⟩ := entry'
    obtain ⟨rfl, follows⟩ := head
    have later := FollowAll.mono tail (Nat.le_succ k)
    simp only [stepAmong]
    split
    · next own =>
      subst own
      have change : Change.Follows s k (stepPhase s id number shared phase)
          (stepPhase s id number shared phase') := stepPhase_follows handlers follows
      exact { change with tasks := List.rel_append change.tasks later }
    · exact { ih with tasks := .cons ⟨rfl, follows.mono (Nat.le_succ k)⟩ ih.tasks }

omit handlers in
theorem isAsleep_running (futures : Futures)
    (waits : ∀ future next, task.control ≠ .await future next) :
    isAsleep futures who (.running task) = false := by
  obtain ⟨control, frames, memory⟩ := task
  cases control with
  | await future next => exact absurd rfl (waits future next)
  | _ => rfl

theorem isAsleep_follows {phase phase' : Phase} (shared : Shared σ)
    (follows : Phase.Follows s (k + 1) who phase phase') :
    isAsleep shared.futures who phase = isAsleep shared.futures who phase' := by
  cases follows with
  | same | starting => rfl
  | @running task task' follows =>
    by_cases waits : ∃ future next, task.control = .await future next
    · obtain ⟨future, next, asks⟩ := waits
      obtain ⟨next', rfl, -⟩ := follows.await asks
      obtain ⟨control, frames, memory⟩ := task
      cases asks
      rfl
    · have goes (future : Identity) (next : Outcome → Plan Next) :
          task.control ≠ .await future next := fun asks => waits ⟨future, next, asks⟩
      rw [isAsleep_running _ goes, isAsleep_running]
      intro future next asks
      have stepped' : task'.step s shared = .waiting shared task' := by
        obtain ⟨control, frames, memory⟩ := task'
        cases asks
        rfl
      have steps := follows.step handlers shared
      rw [stepped'] at steps
      generalize stepped : task.step s shared = progress at steps
      cases steps
      rcases Task.waits_of_step stepped with ⟨_, _, _, forks⟩ | ⟨_, _, waits⟩
      · obtain ⟨_, rfl, -⟩ := follows.fork forks
        cases asks
      · exact goes _ _ waits

omit handlers in
theorem FollowAll.lookup {tasks tasks' : List (Identity × Phase)}
    (follow : FollowAll s k tasks tasks') (who : Identity) :
    Option.Rel (Phase.Follows s k who) (tasks.lookup who) (tasks'.lookup who) := by
  induction follow with
  | nil => exact .none
  | @cons entry entry' rest rest' head _ ih =>
    obtain ⟨id, phase⟩ := entry
    obtain ⟨id', phase'⟩ := entry'
    obtain ⟨rfl, follows⟩ := head
    simp only [List.lookup_cons]
    split
    · next same =>
      cases eq_of_beq same
      exact .some follows
    · exact ih

theorem Follows.canStep {w w' : World σ} (follows : w.Follows s (k + 1) w') (who : Identity) :
    w.canStep who = w'.canStep who := by
  unfold World.canStep
  rw [← follows.shared]
  have found := follows.tasks.lookup who
  generalize w.tasks.lookup who = phase at found
  generalize w'.tasks.lookup who = phase' at found
  cases found with
  | none => rfl
  | some phases => exact congrArg not (isAsleep_follows handlers w.shared phases)

theorem Follows.step {w w' : World σ} (follows : w.Follows s (k + 1) w') (who : Identity) :
    (w.step s who).Follows s k (w'.step s who) := by
  obtain ⟨shared, tasks, forked, outcome⟩ := w
  obtain ⟨shared', tasks', forked', outcome'⟩ := w'
  obtain ⟨rfl, follow, rfl, rfl, within⟩ := follows
  have change : Change.Follows s k (stepAmong s who (forked + 1) shared tasks)
      (stepAmong s who (forked + 1) shared tasks') := stepAmong_follows handlers follow
  refine ⟨change.shared, change.tasks, congrArg (forked + ·) change.forked,
    congrArg (· <|> outcome) change.outcome, fun fault failed => ?_⟩
  rcases (Option.orElse_eq_some _ _ _).mp failed with own | ⟨-, old⟩
  · exact change.within fault own
  · exact within fault old

/-- Whatever the order of the steps, both worlds go through it. -/
theorem Follows.path {schedule : List Identity} {w w' v : World σ}
    (follows : w.Follows s (schedule.length + k) w') (path : Path s schedule w v) :
    ∃ v', Path s schedule w' v' ∧ v.Follows s k v' := by
  induction path generalizing w' with
  | @nil w =>
    rw [List.length_nil, Nat.zero_add] at follows
    exact ⟨w', .nil, follows⟩
  | @cons who schedule w v awake _ ih =>
    rw [List.length_cons, Nat.add_right_comm] at follows
    obtain ⟨v', path, follows'⟩ := ih (follows.step handlers who)
    exact ⟨v', .cons ((follows.canStep handlers who).symm.trans awake) path, follows'⟩

theorem Follows.firstAwake {w w' : World σ} (follows : w.Follows s (k + 1) w') :
    w.firstAwake = w'.firstAwake := by
  unfold World.firstAwake
  rw [← follows.shared]
  have tasks := follows.tasks
  generalize w.tasks = tasks, w'.tasks = tasks' at tasks
  induction tasks with
  | nil => rfl
  | @cons entry entry' rest rest' head _ ih =>
    obtain ⟨id, phase⟩ := entry
    obtain ⟨id', phase'⟩ := entry'
    obtain ⟨rfl, phases⟩ := head
    simp only [List.find?_cons, ← isAsleep_follows handlers w.shared phases]
    split
    · rfl
    · exact ih

theorem Follows.run {fuel : Nat} {w w' : World σ} (follows : w.Follows s fuel w') :
    (w.run s fuel).Follows s 0 (w'.run s fuel) := by
  induction fuel generalizing w w' with
  | zero => exact follows
  | succ fuel ih =>
    unfold World.run
    rw [← follows.firstAwake handlers]
    cases w.firstAwake with
    | none => exact { follows with tasks := follows.tasks.mono (Nat.zero_le _) }
    | some who => exact ih (follows.step handlers who)

omit handlers in
theorem Follows.result? {w w' : World σ} (follows : w.Follows s k w') :
    w.result? = w'.result? := by
  unfold World.result?
  rw [← follows.outcome]
  have tasks := follows.tasks
  generalize w.tasks = tasks, w'.tasks = tasks' at tasks
  cases tasks <;> rfl

end Steps
end World
end LayeredIR
