import LayeredIR.Proofs.Heap
import LayeredIR.World

/-! What one step of one task can do to a world, said once for all that is proved about runs. -/
namespace LayeredIR

structure Memory.Follows (memory later : Memory) : Prop where
  owner : later.owner = memory.owner
  serial : memory.serial ≤ later.serial
  heap : memory.heap.size ≤ later.heap.size

namespace Memory.Follows

theorem refl (memory : Memory) : memory.Follows memory := ⟨rfl, Nat.le_refl _, Nat.le_refl _⟩

theorem serve {σ : Type} (s : Setting σ) (q : Query) (shared : Shared σ) (memory : Memory) :
    memory.Follows (s.serve q shared memory).2.2 := by
  cases q with
  | fresh => exact ⟨rfl, Nat.le_succ _, Nat.le_refl _⟩
  | define scope name value mutability =>
    exact ⟨rfl, Nat.le_refl _, Nat.le_of_eq (memory.heap.size_define scope name _).symm⟩
  | assign scope name value =>
    exact ⟨rfl, Nat.le_refl _, Nat.le_of_eq (memory.heap.size_assign scope name value).symm⟩
  | child scope =>
    exact ⟨rfl, Nat.le_refl _, Nat.le_of_lt (memory.heap.size_lt_add [] (some scope))⟩
  | enter captured =>
    refine ⟨rfl, Nat.le_refl _, ?_⟩
    cases captured with
    | shared id => exact Nat.le_of_lt (memory.heap.size_lt_add [] (some id))
    | frozen values =>
      have outer := memory.heap.size_lt_add (.ofValues .immutable values) none
      exact Nat.le_of_lt (Nat.lt_trans outer (Heap.size_lt_add _ [] (some _)))
  | perform effect args =>
    simp only [Setting.serve]
    split
    · exact .refl memory
    · exact .refl memory
  | _ => exact ⟨rfl, Nat.le_refl _, Nat.le_refl _⟩

end Memory.Follows

def Progress.shared {σ : Type} : Progress σ → Shared σ
  | .running shared _ | .ended _ shared _ | .waiting shared _ => shared

namespace Task

variable {σ : Type} {s : Setting σ} {shared shared' : Shared σ} {task task' : Task}

theorem deliver_follows {v : Value} {frames : List Frame} {memory : Memory}
    (stepped : deliver v frames shared memory = .running shared' task') :
    memory.Follows task'.memory := by
  match frames with
  | [] => cases stepped
  | .resume next :: rest =>
    cases stepped
    exact .refl memory
  | .leave isDefinition :: rest =>
    cases stepped
    exact ⟨rfl, Nat.le_refl _, Nat.le_refl _⟩

theorem unwind_follows {fault : Fault} {frames : List Frame} {memory : Memory}
    (stepped : unwind fault frames shared memory = .running shared' task') :
    memory.Follows task'.memory := by
  match frames with
  | [] => cases stepped
  | .resume next :: rest =>
    cases stepped
    exact .refl memory
  | .leave isDefinition :: rest =>
    cases stepped
    exact ⟨rfl, Nat.le_refl _, Nat.le_refl _⟩

theorem serve_shared (s : Setting σ) (q : Query) (shared : Shared σ) (memory : Memory) :
    ∃ host, (s.serve q shared memory).2.1 = { shared with host := host } := by
  cases q with
  | perform effect args =>
    simp only [Setting.serve]
    split
    · exact ⟨_, rfl⟩
    · exact ⟨shared.host, rfl⟩
  | _ => exact ⟨shared.host, rfl⟩

theorem deliver_shared (v : Value) (frames : List Frame) (memory : Memory) :
    (deliver v frames shared memory).shared = shared := by
  match frames with
  | [] | .resume _ :: _ | .leave _ :: _ => rfl

theorem unwind_shared (fault : Fault) (frames : List Frame) (memory : Memory) :
    (unwind fault frames shared memory).shared = shared := by
  match frames with
  | [] | .resume _ :: _ | .leave _ :: _ => rfl

theorem step_shared (s : Setting σ) (shared : Shared σ) (task : Task) :
    ∃ host, (task.step s shared).shared = { shared with host := host } := by
  obtain ⟨control, frames, memory⟩ := task
  cases control with
  | done next =>
    cases next with
    | value v => exact ⟨shared.host, deliver_shared v frames memory⟩
    | job j => exact ⟨shared.host, rfl⟩
  | fail fault => exact ⟨shared.host, unwind_shared fault frames memory⟩
  | call site job next =>
    simp only [step]
    split <;> exact ⟨shared.host, rfl⟩
  | ask q next => exact serve_shared s q shared memory
  | eval job next => exact ⟨shared.host, rfl⟩
  | fork label registers next => exact ⟨shared.host, rfl⟩
  | await id next => exact ⟨shared.host, rfl⟩

/-- A step changes nothing of what tasks share but the host. -/
theorem shared_of_running (stepped : task.step s shared = .running shared' task') :
    ∃ host, shared' = { shared with host := host } := by
  obtain ⟨host, same⟩ := step_shared s shared task
  rw [stepped] at same
  exact ⟨host, same⟩

theorem shared_of_ended {outcome : Except Fault Value} {memory : Memory}
    (stepped : task.step s shared = .ended outcome shared' memory) :
    ∃ host, shared' = { shared with host := host } := by
  obtain ⟨host, same⟩ := step_shared s shared task
  rw [stepped] at same
  exact ⟨host, same⟩

theorem step_follows (stepped : task.step s shared = .running shared' task') :
    task.memory.Follows task'.memory := by
  obtain ⟨control, frames, memory⟩ := task
  cases control with
  | done next =>
    cases next with
    | value v => exact deliver_follows stepped
    | job j =>
      cases stepped
      exact .refl memory
  | fail fault => exact unwind_follows stepped
  | eval job next =>
    cases stepped
    exact .refl memory
  | call site job next =>
    simp only [step] at stepped
    split at stepped
    · cases stepped
      exact .refl memory
    · cases stepped
      exact ⟨rfl, Nat.le_refl _, Nat.le_refl _⟩
  | ask q next =>
    cases stepped
    exact .serve s q shared memory
  | fork label registers next => cases stepped
  | await id next => cases stepped

theorem deliver_ne_waiting (v : Value) (frames : List Frame) (memory : Memory) :
    deliver v frames shared memory ≠ .waiting shared' task' := by
  match frames with
  | [] | .resume _ :: _ | .leave _ :: _ => rintro ⟨⟩

theorem unwind_ne_waiting (fault : Fault) (frames : List Frame) (memory : Memory) :
    unwind fault frames shared memory ≠ .waiting shared' task' := by
  match frames with
  | [] | .resume _ :: _ | .leave _ :: _ => rintro ⟨⟩

theorem waits_of_step (stepped : task.step s shared = .waiting shared' task') :
    (∃ label registers next, task.control = .fork label registers next) ∨
      ∃ id next, task.control = .await id next := by
  obtain ⟨control, frames, memory⟩ := task
  cases control with
  | done next =>
    cases next with
    | value v => exact absurd stepped (deliver_ne_waiting v frames memory)
    | job j => cases stepped
  | fail fault => exact absurd stepped (unwind_ne_waiting fault frames memory)
  | eval job next => cases stepped
  | call site job next =>
    simp only [step] at stepped
    split at stepped <;> cases stepped
  | ask q next => cases stepped
  | fork label registers next => exact .inl ⟨label, registers, next, rfl⟩
  | await id next => exact .inr ⟨id, next, rfl⟩

end Task

def Phase.task? : Phase → Option Task
  | .running task => some task
  | .starting label registers next frames memory =>
    some ⟨.fork label registers next, frames, memory⟩
  | .releasing _ | .settling _ => none

def Phase.outcome? : Phase → Option (Except Fault Value)
  | .running _ | .starting _ _ _ _ _ => none
  | .releasing outcome | .settling outcome => some outcome

namespace World

variable {σ : Type} (s : Setting σ) (who : Identity) (number : Nat) (shared : Shared σ)

inductive Move : Phase → Change σ → Prop
  | claim {label registers next frames memory} (free : shared.live < s.config.maxTasks) :
    Move (.running ⟨.fork label registers next, frames, memory⟩)
      { shared := { shared with live := shared.live + 1 }
        tasks := [(who, .starting label registers next frames memory)] }
  | refuse {label registers next frames memory} (full : ¬ shared.live < s.config.maxTasks) :
    Move (.running ⟨.fork label registers next, frames, memory⟩)
      { shared := shared, tasks := [(who, .running ⟨next none, frames, memory⟩)] }
  | answer {id next frames memory outcome} (settled : shared.futures.outcome? id = some outcome) :
    Move (.running ⟨.await id next, frames, memory⟩)
      { shared := shared, tasks := [(who, .running ⟨next outcome, frames, memory⟩)] }
  | sleep {id next frames memory} (pending : shared.futures.outcome? id = none) :
    Move (.running ⟨.await id next, frames, memory⟩)
      { shared :=
          { shared with futures := shared.futures.update id fun future => (future.wait who).2 }
        tasks := [(who, .running ⟨.await id next, frames, memory⟩)] }
  | go {task shared' task'} (stepped : Task.step s shared task = .running shared' task') :
    Move (.running task) { shared := shared', tasks := [(who, .running task')] }
  | finish {task outcome shared' memory} (entry : who = entryTask)
    (stepped : Task.step s shared task = .ended outcome shared' memory) :
    Move (.running task) { shared := shared', tasks := [], outcome := some outcome }
  | stop {task outcome shared' memory} (forked : who ≠ entryTask)
    (stepped : Task.step s shared task = .ended outcome shared' memory) :
    Move (.running task) { shared := shared', tasks := [(who, .releasing outcome)] }
  | spawn {label registers next frames memory} :
    Move (.starting label registers next frames memory)
      { shared :=
          { shared with futures := shared.futures.add memory.freshIdentity.1 (.pending number) }
        tasks :=
          [(memory.freshIdentity.1, .running (.atBlock s memory.freshIdentity.1 label registers)),
            (who, .running ⟨next (some memory.freshIdentity.1), frames,
              memory.freshIdentity.2⟩)]
        forked := 1 }
  | release {outcome} :
    Move (.releasing outcome)
      { shared := { shared with live := shared.live - 1 }, tasks := [(who, .settling outcome)] }
  | settle {outcome} :
    Move (.settling outcome)
      { shared := { shared with
          futures := shared.futures.update who fun future =>
            (future.settle (settlement outcome)).2 }
        tasks := [] }

theorem stepPhase_move (phase : Phase) :
    Move s who number shared phase (stepPhase s who number shared phase) := by
  cases phase with
  | starting label registers next frames memory => exact .spawn
  | releasing outcome => exact .release
  | settling outcome => exact .settle
  | running task =>
    obtain ⟨control, frames, memory⟩ := task
    cases control with
    | fork label registers next =>
      simp only [stepPhase, stepRunning]
      split
      · exact .claim ‹_›
      · exact .refuse ‹_›
    | await id next =>
      simp only [stepPhase, stepRunning]
      split
      · exact .answer ‹_›
      · exact .sleep ‹_›
    | _ =>
      simp only [stepPhase, stepRunning]
      split
      · exact .go ‹_›
      · rcases Task.waits_of_step ‹_› with ⟨_, _, _, waits⟩ | ⟨_, _, waits⟩ <;> cases waits
      · split
        · exact .finish ‹_› ‹_›
        · exact .stop ‹_› ‹_›

variable {s who number shared}

theorem stepAmong_split {phase : Phase} {before after : List (Identity × Phase)}
    (others : ∀ entry ∈ before, entry.1 ≠ who) :
    stepAmong s who number shared (before ++ (who, phase) :: after) =
      { stepPhase s who number shared phase with
        tasks := before ++ (stepPhase s who number shared phase).tasks ++ after } := by
  induction before with
  | nil => simp only [List.nil_append, stepAmong, if_true]
  | cons entry rest ih =>
    obtain ⟨id, other⟩ := entry
    have different : id ≠ who := others (id, other) (by simp)
    rw [List.cons_append, stepAmong, if_neg different,
      ih fun entry member => others entry (by simp [member])]
    rfl

theorem split_of_lookup {tasks : List (Identity × Phase)} {phase : Phase}
    (found : tasks.lookup who = some phase) :
    ∃ before after, tasks = before ++ (who, phase) :: after ∧
      ∀ entry ∈ before, entry.1 ≠ who := by
  induction tasks with
  | nil => cases found
  | cons entry rest ih =>
    obtain ⟨id, other⟩ := entry
    rw [List.lookup_cons] at found
    split at found
    · next same =>
      cases found
      cases eq_of_beq same
      exact ⟨[], rest, rfl, fun _ member => absurd member List.not_mem_nil⟩
    · next different =>
      obtain ⟨before, after, rfl, others⟩ := ih found
      refine ⟨(id, other) :: before, after, rfl, ?_⟩
      intro entry member
      rcases List.mem_cons.mp member with rfl | member
      · intro equal
        cases equal
        simp at different
      · exact others entry member

theorem lookup_split {phase : Phase} {before after : List (Identity × Phase)}
    (others : ∀ entry ∈ before, entry.1 ≠ who) :
    (before ++ [(who, phase)] ++ after).lookup who = some phase := by
  refine List.lookup_eq_some_iff.mpr ⟨before, after, by simp, fun entry member => ?_⟩
  simpa using (others entry member).symm

/-- A step that a task can take is one of its moves, the other tasks staying as they are. -/
theorem exists_move {w : World σ} (awake : w.canStep who) :
    ∃ before phase after change, w.tasks = before ++ [(who, phase)] ++ after ∧
      (∀ entry ∈ before, entry.1 ≠ who) ∧ isAsleep w.shared.futures who phase = false ∧
      Move s who (w.forked + 1) w.shared phase change ∧
      w.step s who = ⟨change.shared, before ++ change.tasks ++ after, w.forked + change.forked,
        change.outcome <|> w.outcome⟩ := by
  obtain ⟨shared, tasks, forked, outcome⟩ := w
  unfold canStep at awake
  split at awake
  · next phase found =>
    obtain ⟨before, after, rfl, others⟩ := split_of_lookup found
    refine ⟨before, phase, after, _, by simp, others, by simpa using awake,
      stepPhase_move s who _ shared phase, ?_⟩
    simp only [step, stepAmong_split others]
  · cases awake

variable (s)

/-- The worlds that tasks lead to, each step being one of a task that can take it. The list names
the tasks in the order of their steps. -/
inductive Path : List Identity → World σ → World σ → Prop
  | nil {w} : Path [] w w
  | cons {who schedule w w'} (awake : w.canStep who) (rest : Path schedule (w.step s who) w') :
    Path (who :: schedule) w w'

variable {s}

theorem Path.invariant {P : World σ → Prop} {schedule : List Identity} {w w' : World σ}
    (path : Path s schedule w w') (first : P w)
    (step : ∀ who w, P w → w.canStep who → P (w.step s who)) : P w' := by
  induction path with
  | nil => exact first
  | cons awake _ ih => exact ih (step _ _ first awake)

end World
end LayeredIR
