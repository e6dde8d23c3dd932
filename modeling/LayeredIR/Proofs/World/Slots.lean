import LayeredIR.Proofs.World.Forks
import LayeredIR.Proofs.World.Outcomes
import Mathlib.Algebra.GroupWithZero.Nat
import Mathlib.Data.List.Perm.Subperm

/-! The slots of forked tasks. A task has its slot from when it is about to be forked until after
its body has ended, so the number of slots in use is known from the phases of the tasks; and a task
gives its slot back before its future is settled, so whoever learns of the outcome finds the
slot free. -/
namespace LayeredIR

def Phase.isStarting : Phase → Bool
  | .starting _ _ _ _ _ => true
  | _ => false

/-- The slots that a task keeps in use: its own, unless it is the entry task or has given it back,
and the one for the task that it is about to fork. -/
def Phase.slots (who : Identity) : Phase → Nat
  | .running _ | .releasing _ => if who = entryTask then 0 else 1
  | .starting _ _ _ _ _ => (if who = entryTask then 0 else 1) + 1
  | .settling _ => 0

def Phase.takesSlot (live maxTasks : Nat) : Phase → Bool
  | .running ⟨.fork _ _ _, _, _⟩ => live < maxTasks
  | _ => false

def Phase.givesSlot : Phase → Bool
  | .releasing _ => true
  | _ => false

namespace World

variable {σ : Type} (s : Setting σ)

def takesSlot (w : World σ) (who : Identity) : Bool :=
  (w.tasks.lookup who).any (Phase.takesSlot w.shared.live s.config.maxTasks)

def givesSlot (w : World σ) (who : Identity) : Bool := (w.tasks.lookup who).any Phase.givesSlot

def steppers (test : World σ → Identity → Bool) (w : World σ) : List Identity → List Identity
  | [] => []
  | who :: schedule =>
    let rest := steppers test (w.step s who) schedule
    if test w who then who :: rest else rest

def takers (w : World σ) (schedule : List Identity) : List Identity :=
  w.steppers s (takesSlot s) schedule

def givers (w : World σ) (schedule : List Identity) : List Identity :=
  w.steppers s givesSlot schedule

/-- The number of forked tasks whose futures are not settled. A task counts from when there is a
slot for it. -/
def unsettled (w : World σ) : Nat :=
  w.shared.futures.entries.countP (fun entry => entry.2.outcome.isNone) +
    w.tasks.countP fun entry => entry.2.isStarting

def slots (tasks : List (Identity × Phase)) : Nat :=
  (tasks.map fun entry => entry.2.slots entry.1).sum

theorem slots_append (tasks tasks' : List (Identity × Phase)) :
    slots (tasks ++ tasks') = slots tasks + slots tasks' := by
  simp [slots]

theorem slots_singleton (who : Identity) (phase : Phase) :
    slots [(who, phase)] = phase.slots who := by
  simp [slots]

variable {s}

theorem takesSlot_of_step {task : Task} {shared : Shared σ} {progress : Progress σ}
    (stepped : task.step s shared = progress)
    (goes : ∀ shared' task', progress ≠ .waiting shared' task') (live maxTasks : Nat) :
    (Phase.running task).takesSlot live maxTasks = false := by
  obtain ⟨control, frames, memory⟩ := task
  cases control with
  | fork label registers next => exact absurd stepped.symm (goes _ _)
  | _ => rfl

variable (s)

structure Counted (w : World σ) : Prop where
  live : w.shared.live = slots w.tasks
  within : w.shared.live ≤ s.config.maxTasks
  entry : ∀ phase, (entryTask, phase) ∈ w.tasks → phase.outcome? = none

variable {s}

theorem Move.entry {who : Identity} {number : Nat} {shared : Shared σ} {phase : Phase}
    {change : Change σ} (move : Move s who number shared phase change)
    (own : who = entryTask → phase.outcome? = none) {other : Phase}
    (new : (entryTask, other) ∈ change.tasks) : other.outcome? = none := by
  cases move with
  | claim | refuse | answer | sleep | go =>
    cases List.mem_singleton.mp new
    rfl
  | spawn =>
    rcases List.mem_cons.mp new with new | new
    · cases new
    · cases List.mem_singleton.mp new
      rfl
  | stop forked =>
    cases List.mem_singleton.mp new
    exact absurd rfl forked
  | release =>
    cases List.mem_singleton.mp new
    cases own rfl
  | finish | settle => cases new

/-- What one step does to the number of slots in use, `others` being those that other tasks keep. -/
theorem Move.live {who : Identity} {number others : Nat} {shared : Shared σ} {phase : Phase}
    {change : Change σ} (move : Move s who number shared phase change)
    (live : shared.live = others + phase.slots who) (within : shared.live ≤ s.config.maxTasks)
    (entry : who = entryTask → phase.outcome? = none) :
    change.shared.live = others + slots change.tasks ∧
      change.shared.live ≤ s.config.maxTasks ∧
      change.shared.live + (if phase.givesSlot then 1 else 0) =
        shared.live + if phase.takesSlot shared.live s.config.maxTasks then 1 else 0 := by
  have same {task : Task} {shared' : Shared σ} {progress : Progress σ}
      (stepped : task.step s shared = progress) (left : progress.shared = shared') :
      shared'.live = shared.live := by
    obtain ⟨host, shared_eq⟩ := Task.step_shared s shared task
    rw [← left, ← stepped, shared_eq]
  cases move with
  | claim free =>
    simp [slots, Phase.slots, Phase.givesSlot, Phase.takesSlot, free] at live ⊢
    omega
  | refuse full =>
    simp [slots, Phase.slots, Phase.givesSlot, Phase.takesSlot, full] at live ⊢
    omega
  | answer | sleep =>
    simp [slots, Phase.slots, Phase.givesSlot, Phase.takesSlot] at live ⊢
    omega
  | @go task shared' task' stepped =>
    have kept : shared'.live = shared.live := same stepped rfl
    have still := takesSlot_of_step stepped nofun shared.live s.config.maxTasks
    simp [slots, Phase.slots, Phase.givesSlot, still] at live ⊢
    omega
  | @finish task outcome shared' memory own stepped =>
    have kept : shared'.live = shared.live := same stepped rfl
    have still := takesSlot_of_step stepped nofun shared.live s.config.maxTasks
    simp [slots, Phase.slots, Phase.givesSlot, still, own] at live ⊢
    omega
  | @stop task outcome shared' memory forked stepped =>
    have kept : shared'.live = shared.live := same stepped rfl
    have still := takesSlot_of_step stepped nofun shared.live s.config.maxTasks
    simp [slots, Phase.slots, Phase.givesSlot, still] at live ⊢
    omega
  | @spawn _ _ _ _ memory =>
    have child : memory.freshIdentity.1 ≠ entryTask := List.cons_ne_nil _ _
    simp [slots, Phase.slots, Phase.givesSlot, Phase.takesSlot, child] at live ⊢
    omega
  | release =>
    have forked : who ≠ entryTask := fun own => nomatch entry own
    simp [slots, Phase.slots, Phase.givesSlot, Phase.takesSlot, forked] at live ⊢
    omega
  | settle =>
    simp [slots, Phase.slots, Phase.givesSlot, Phase.takesSlot] at live ⊢
    omega

theorem Counted.step {w : World σ} (counted : w.Counted s) {who : Identity}
    (awake : w.canStep who) :
    (w.step s who).Counted s ∧
      (w.step s who).shared.live + (if w.givesSlot who then 1 else 0) =
        w.shared.live + if w.takesSlot s who then 1 else 0 := by
  obtain ⟨before, phase, after, change, split, others, -, move, whole⟩ := exists_move (s := s) awake
  have found : w.tasks.lookup who = some phase := split ▸ lookup_split others
  have own (entry : who = entryTask) : phase.outcome? = none :=
    counted.entry phase (by simp [split, ← entry])
  have live : w.shared.live = slots before + slots after + phase.slots who := by
    rw [counted.live, split, slots_append, slots_append, slots_singleton]
    omega
  obtain ⟨live', within, balance⟩ := move.live live counted.within own
  rw [whole]
  refine ⟨⟨?_, within, fun other member => ?_⟩,
    by simpa [givesSlot, takesSlot, found] using balance⟩
  · simp only [slots_append, live']
    omega
  · simp only [List.mem_append] at member
    rcases member with (early | new) | late
    · exact counted.entry other (by simp [split, early])
    · exact move.entry own new
    · exact counted.entry other (by simp [split, late])

theorem Counted.start (s : Setting σ) (entry : String) (registers : Bindings) (host : σ) :
    (World.start s entry registers host).Counted s where
  live := rfl
  within := Nat.zero_le _
  entry phase member := by
    cases List.mem_singleton.mp member
    rfl

/-- The number of slots in use is that of the slots taken and not given back. -/
theorem Counted.balance {w w' : World σ} {schedule : List Identity} (counted : w.Counted s)
    (path : Path s schedule w w') :
    w'.shared.live + (w.givers s schedule).length =
      w.shared.live + (w.takers s schedule).length := by
  induction path with
  | nil => rfl
  | @cons who schedule w w' awake rest ih =>
    obtain ⟨counted', step⟩ := counted.step awake
    have later := ih counted'
    have given : (w.givers s (who :: schedule)).length =
        ((w.step s who).givers s schedule).length + if w.givesSlot who then 1 else 0 := by
      simp only [givers, steppers]
      split <;> rfl
    have taken : (w.takers s (who :: schedule)).length =
        ((w.step s who).takers s schedule).length + if w.takesSlot s who then 1 else 0 := by
      simp only [takers, steppers]
      split <;> rfl
    omega

/-- A task that has given its slot back, whether or not its future is settled yet. -/
def Released (w : World σ) (id : Identity) : Prop :=
  (w.shared.futures.outcome? id).isSome ∨ ∃ outcome, (id, .settling outcome) ∈ w.tasks

theorem released_of_step {w : World σ} {who id : Identity} (awake : w.canStep who)
    (released : (w.step s who).Released id) : w.Released id ∨ id = who ∧ w.givesSlot who := by
  obtain ⟨before, phase, after, change, split, others, -, move, whole⟩ := exists_move (s := s) awake
  have found : w.tasks.lookup who = some phase := split ▸ lookup_split others
  have mine : (who, phase) ∈ w.tasks := by simp [split]
  rw [whole] at released
  rcases released with settled | ⟨outcome, member⟩
  · obtain ⟨outcome, known⟩ := Option.isSome_iff_exists.mp settled
    rcases move.outcome?_cases known with old | ⟨rfl, result, rfl, -⟩
    · exact .inl (.inl (old ▸ rfl))
    · exact .inl (.inr ⟨result, mine⟩)
  · simp only [List.mem_append] at member
    rcases member with (early | new) | late
    · exact .inl (.inr ⟨outcome, by simp [split, early]⟩)
    · cases move with
      | claim | refuse | answer | sleep | go | stop => cases List.mem_singleton.mp new
      | spawn =>
        rcases List.mem_cons.mp new with new | new
        · cases new
        · cases List.mem_singleton.mp new
      | release =>
        cases List.mem_singleton.mp new
        exact .inr ⟨rfl, by simp [givesSlot, found, Phase.givesSlot]⟩
      | finish | settle => cases new
    · exact .inl (.inr ⟨outcome, by simp [split, late]⟩)

theorem Path.mem_givers {w w' : World σ} {schedule : List Identity} (path : Path s schedule w w')
    {id : Identity} (released : w'.Released id) : w.Released id ∨ id ∈ w.givers s schedule := by
  induction path with
  | nil => exact .inl released
  | @cons who schedule w w' awake rest ih =>
    simp only [givers, steppers]
    rcases ih released with early | later
    · rcases released_of_step awake early with earlier | ⟨rfl, gives⟩
      · exact .inl earlier
      · exact .inr (by simp [gives])
    · refine .inr ?_
      split
      · exact .tail _ later
      · exact later

theorem slots_le (tasks : List (Identity × Phase)) :
    slots tasks ≤ (tasks.countP fun entry => entry.1 ≠ entryTask) +
      tasks.countP fun entry => entry.2.isStarting := by
  induction tasks with
  | nil => exact Nat.le_refl 0
  | cons entry rest ih =>
    obtain ⟨who, phase⟩ := entry
    have first : phase.slots who ≤
        (if who ≠ entryTask then 1 else 0) + if phase.isStarting then 1 else 0 := by
      cases phase <;> simp only [Phase.slots, Phase.isStarting] <;> split <;> simp_all
    have whole : slots ((who, phase) :: rest) = phase.slots who + slots rest := by simp [slots]
    simp only [whole, List.countP_cons, decide_eq_true_eq]
    omega

/-- Every slot in use is that of a forked task whose future is not settled. -/
theorem Counted.live_le_unsettled {w : World σ} (counted : w.Counted s) (tidy : w.Tidy) :
    w.shared.live ≤ w.unsettled := by
  let forked := w.tasks.filter fun entry => entry.1 ≠ entryTask
  let pending := w.shared.futures.entries.filter fun entry => entry.2.outcome.isNone
  have distinct : (forked.map Prod.fst).Nodup :=
    tidy.distinct.sublist (List.filter_sublist.map Prod.fst)
  have registered : forked.map Prod.fst ⊆ pending.map Prod.fst := by
    intro _ listed
    obtain ⟨⟨id, phase⟩, member, rfl⟩ := List.mem_map.mp listed
    obtain ⟨here, other⟩ := List.mem_filter.mp member
    obtain ⟨future, found, unsettled⟩ := tidy.pending here (by simpa using other)
    obtain ⟨before, after, split, -⟩ := List.lookup_eq_some_iff.mp found
    have waiting : (id, future) ∈ pending :=
      List.mem_filter.mpr ⟨by simp [split], by simp [unsettled]⟩
    exact List.mem_map.mpr ⟨_, waiting, rfl⟩
  have fewer : forked.length ≤ pending.length := by
    simpa using (distinct.subperm registered).length_le
  have counts := slots_le w.tasks
  rw [List.countP_eq_length_filter] at counts
  rw [counted.live, unsettled, List.countP_eq_length_filter]
  exact Nat.le_trans counts (Nat.add_le_add_right fewer _)

structure Regular (s : Setting σ) (w : World σ) : Prop where
  tidy : w.Tidy
  counted : w.Counted s
  reached : w.TasksReached s

theorem Regular.step (layer : s.layer = .lir) {w : World σ} {who : Identity}
    (regular : w.Regular s) (awake : w.canStep who) : (w.step s who).Regular s where
  tidy := regular.tidy.step who w awake
  counted := (regular.counted.step awake).1
  reached := regular.reached.step layer awake

/-- What is exact about the slots in a world that a schedule leads to. -/
structure SlotsExact (s : Setting σ) (start : World σ) (schedule : List Identity) (w : World σ) :
    Prop where
  within : w.shared.live ≤ s.config.maxTasks
  balance : w.shared.live + (start.givers s schedule).length = (start.takers s schedule).length
  positive : ∀ who outcome, (who, .releasing outcome) ∈ w.tasks → 0 < w.shared.live
  settled : ∀ id, (w.shared.futures.outcome? id).isSome → id ∈ start.givers s schedule
  room : w.unsettled < s.config.maxTasks → w.shared.live < s.config.maxTasks
  /-- A fork that finds a slot takes it, and then goes on with the future of its task. -/
  granted : ∀ who label registers next frames memory,
    (who, .running ⟨.fork label registers next, frames, memory⟩) ∈ w.tasks →
    w.shared.live < s.config.maxTasks →
    (who, .starting label registers next frames memory) ∈ (w.step s who).tasks ∧
      ∃ future continuation, ∀ id, next (some id) = (do
        Plan.writeRegister future (.future id)
        return .job (.block continuation))
  /-- A fork that finds none fails, and everything else stays as it is. -/
  refused : ∀ who label registers next frames memory,
    (who, .running ⟨.fork label registers next, frames, memory⟩) ∈ w.tasks →
    ¬ w.shared.live < s.config.maxTasks →
    ∃ before after,
      w.tasks = before ++ [(who, .running ⟨.fork label registers next, frames, memory⟩)] ++ after ∧
      w.step s who = { w with
        tasks := before ++ [(who, .running ⟨Plan.raise (.taskSpawnFailed
          (toString s.config.maxTasks ++ " forked tasks already running")), frames, memory⟩)] ++
            after }
  ended : w.tasks = [] → w.shared.live = 0

end World

namespace FlowDocument

variable {σ : Type}

theorem start_regular (doc : FlowDocument) (graph : FlowGraph) (s : Setting σ) (host : σ) :
    (doc.start s graph host).Regular (doc.setting s graph) :=
  ⟨.start _ _ _ _, .start _ _ _ _, .path .nil⟩

/-- The slots of a run are exact, whatever order its tasks take their steps in. -/
theorem slotsExact (doc : FlowDocument) (graph : FlowGraph) (s : Setting σ) (host : σ)
    {schedule : List Identity} {w : World σ}
    (path : World.Path (doc.setting s graph) schedule (doc.start s graph host) w) :
    World.SlotsExact (doc.setting s graph) (doc.start s graph host) schedule w := by
  have first := doc.start_regular graph s host
  obtain ⟨tidy, counted, reached⟩ : w.Regular (doc.setting s graph) :=
    path.invariant first fun _ _ regular awake => regular.step rfl awake
  constructor
  case within => exact counted.within
  case balance => exact (first.counted.balance path).trans (Nat.zero_add _)
  case positive =>
    intro who outcome member
    have forked : who ≠ entryTask := by
      rintro rfl
      cases counted.entry _ member
    obtain ⟨before, after, split⟩ := List.append_of_mem member
    have own : World.slots [(who, .releasing outcome)] = 1 := by
      simp [World.slots, Phase.slots, forked]
    have total := counted.live
    rw [split, List.append_cons, World.slots_append, World.slots_append, own] at total
    omega
  case settled =>
    intro id settled
    refine (path.mem_givers (.inl settled)).resolve_left ?_
    rintro (known | ⟨outcome, member⟩)
    · cases known
    · cases List.mem_singleton.mp member
  case room => exact fun unsettled => Nat.lt_of_le_of_lt (counted.live_le_unsettled tidy) unsettled
  case granted =>
    intro who label registers next frames memory member free
    obtain ⟨before, after, change, -, move, whole⟩ :=
      tidy.exists_move_of_mem (doc.setting s graph) member rfl
    obtain ⟨_, _, continuation, future, -, -, same⟩ :=
      ((reached who _ _ member rfl).forksAtEnds rfl).control.1
    refine ⟨?_, future, continuation, fun id => same ▸ rfl⟩
    cases move with
    | claim => simp [whole]
    | refuse full => exact absurd free full
    | go stepped | finish _ stepped | stop _ stepped => cases stepped
  case refused =>
    intro who label registers next frames memory member full
    obtain ⟨before, after, change, split, move, whole⟩ :=
      tidy.exists_move_of_mem (doc.setting s graph) member rfl
    obtain ⟨_, _, continuation, future, -, -, same⟩ :=
      ((reached who _ _ member rfl).forksAtEnds rfl).control.1
    refine ⟨before, after, split, ?_⟩
    rw [whole]
    cases move with
    | claim free => exact absurd free full
    | refuse =>
      rw [same]
      rfl
    | go stepped | finish _ stepped | stop _ stepped => cases stepped
  case ended =>
    intro none
    rw [counted.live, none]
    rfl

theorem slotsExact_forkJoin : ∃ graph schedule, ∃ w : World Unit,
    forkJoin.graph = .ok graph ∧
      World.Path (forkJoin.setting {} graph) schedule (forkJoin.start {} graph ()) w ∧
      w.shared.live = 1 ∧
      ((forkJoin.start {} graph ()).takers (forkJoin.setting {} graph) schedule).length =
        ((forkJoin.start {} graph ()).givers (forkJoin.setting {} graph) schedule).length + 1 := by
  let graph : FlowGraph := ⟨⟨"main", [], .fork "body" "rest" "task"⟩, forkJoin.blocks⟩
  let start := forkJoin.start ({} : Setting Unit) graph ()
  have structured : forkJoin.graph = .ok graph := by rfl
  obtain ⟨schedule, path⟩ := (World.Tidy.start (forkJoin.setting {} graph) graph.entry.id
    ({} : Setting Unit).inputRegisters ()).path_run (s := forkJoin.setting {} graph) 5
  have one : (start.run (forkJoin.setting {} graph) 5).shared.live = 1 := by rfl
  have balance := (slotsExact forkJoin graph {} () path).balance
  refine ⟨graph, schedule, _, structured, path, one, ?_⟩
  exact balance.symm.trans ((congrArg (· + _) one).trans (Nat.add_comm 1 _))

end FlowDocument
end LayeredIR
