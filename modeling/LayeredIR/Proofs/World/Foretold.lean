import LayeredIR.Proofs.World.Acyclic
import LayeredIR.Proofs.World.Blind

/-! Runs of tasks whose outcomes are told beforehand. Where a task is sure to come to its end, with
the outcomes told for the tasks that it forks and waits for, no order of steps can make it come to
another one: a fork only adds a task of which the same is known, and a wait only delays. What is
left to be done becomes less with every step, apart from those in which a task falls asleep. -/
namespace LayeredIR

/-- The run of a task that gets a slot for each task it forks, and the told outcome of each task it
waits for: how it ends, in how many steps at most, counting those of the forked tasks, and which
tasks are forked. -/
inductive Task.Foretold {σ : Type} (s : Setting σ) (told : Identity → Option Outcome) :
    Task → Except Fault Value → Nat → List Identity → Prop
  | ended {task outcome} (stepped : ∀ shared, (task.step s shared).outlook = .ended outcome) :
    Foretold s told task outcome 1 []
  | running {task task' outcome n forks}
    (stepped : ∀ shared, (task.step s shared).outlook = .running task')
    (rest : Foretold s told task' outcome n forks) : Foretold s told task outcome (n + 1) forks
  | fork {label registers next frames memory child later result outcome n m forks more}
    (fresh : Memory.freshIdentity memory = (child, later))
    (forked : Foretold s told (.atBlock s child label registers) result n forks)
    (settles : told child = some (settlement result))
    (rest : Foretold s told ⟨next (some child), frames, later⟩ outcome m more) :
    Foretold s told ⟨.fork label registers next, frames, memory⟩ outcome (n + m + 4)
      (child :: forks ++ more)
  | await {id next frames memory result outcome n forks} (settles : told id = some result)
    (rest : Foretold s told ⟨next result, frames, memory⟩ outcome n forks) :
    Foretold s told ⟨.await id next, frames, memory⟩ outcome (n + 1) forks

namespace Task.Foretold

variable {σ : Type} {s : Setting σ} {told : Identity → Option Outcome} {task task' : Task}
  {outcome result : Except Fault Value} {n : Nat} {forks : List Identity}
  {shared shared' : Shared σ} {memory : Memory}

theorem of_running (foretold : task.Foretold s told outcome n forks)
    (stepped : task.step s shared = .running shared' task') :
    ∃ m, n = m + 1 ∧ task'.Foretold s told outcome m forks := by
  cases foretold with
  | ended stepped' =>
    have clash := stepped' shared
    rw [stepped] at clash
    cases clash
  | running stepped' rest =>
    have same := stepped' shared
    rw [stepped] at same
    cases same
    exact ⟨_, rfl, rest⟩
  | fork fresh forked settles rest => cases stepped
  | await settles rest => cases stepped

theorem of_ended (foretold : task.Foretold s told outcome n forks)
    (stepped : task.step s shared = .ended result shared' memory) :
    n = 1 ∧ forks = [] ∧ result = outcome := by
  cases foretold with
  | ended stepped' =>
    have same := stepped' shared
    rw [stepped] at same
    cases same
    exact ⟨rfl, rfl, rfl⟩
  | running stepped' rest =>
    have clash := stepped' shared
    rw [stepped] at clash
    cases clash
  | fork fresh forked settles rest => cases stepped
  | await settles rest => cases stepped

end Task.Foretold

namespace World

variable {σ : Type} (s : Setting σ) (told : Identity → Option Outcome) (last : Except Fault Value)

def Ends (who : Identity) (outcome : Except Fault Value) : Prop :=
  if who = entryTask then outcome = last else told who = some (settlement outcome)

/-- What a task has before it: at most so many steps, forks for so many of which it has no slot
yet, and the tasks forked in them. -/
inductive Prospect : Identity → Phase → Nat → Nat → List Identity → Prop
  | running {who task outcome n forks} (foretold : Task.Foretold s told task outcome n forks)
    (ends : Ends told last who outcome) :
    Prospect who (.running task) (n + 2) forks.length forks
  | starting {who label registers next frames memory child later result outcome n m forks more}
    (fresh : Memory.freshIdentity memory = (child, later))
    (forked : Task.Foretold s told (.atBlock s child label registers) result n forks)
    (settles : told child = some (settlement result))
    (rest : Task.Foretold s told ⟨next (some child), frames, later⟩ outcome m more)
    (ends : Ends told last who outcome) :
    Prospect who (.starting label registers next frames memory) (n + m + 5)
      (forks.length + more.length) (child :: forks ++ more)
  | releasing {who outcome} (forked : who ≠ entryTask)
    (settles : told who = some (settlement outcome)) : Prospect who (.releasing outcome) 2 0 []
  | settling {who outcome} (forked : who ≠ entryTask)
    (settles : told who = some (settlement outcome)) : Prospect who (.settling outcome) 1 0 []

inductive Prospects : List (Identity × Phase) → Nat → Nat → List Identity → Prop
  | nil : Prospects [] 0 0 []
  | cons {who phase tasks n m slots more forks ids}
    (first : Prospect s told last who phase n slots forks)
    (rest : Prospects tasks m more ids) :
    Prospects ((who, phase) :: tasks) (n + m) (slots + more) (forks ++ ids)

variable {s told last} {who : Identity} {phase : Phase} {tasks others : List (Identity × Phase)}
  {n m slots more : Nat} {forks ids : List Identity}

namespace Prospects

theorem single (first : Prospect s told last who phase n slots forks) :
    Prospects s told last [(who, phase)] n slots forks := by
  have alone := cons first .nil
  rwa [List.append_nil] at alone

theorem append (front : Prospects s told last tasks n slots forks)
    (back : Prospects s told last others m more ids) :
    Prospects s told last (tasks ++ others) (n + m) (slots + more) (forks ++ ids) := by
  induction front with
  | nil =>
    rw [Nat.zero_add, Nat.zero_add]
    exact back
  | cons first rest ih =>
    rw [Nat.add_assoc, Nat.add_assoc, List.append_assoc]
    exact cons first ih

theorem split (whole : Prospects s told last (tasks ++ others) n slots forks) :
    ∃ n₁ n₂ slots₁ slots₂ forks₁ forks₂, n = n₁ + n₂ ∧ slots = slots₁ + slots₂ ∧
      forks = forks₁ ++ forks₂ ∧ Prospects s told last tasks n₁ slots₁ forks₁ ∧
      Prospects s told last others n₂ slots₂ forks₂ := by
  induction tasks generalizing n slots forks with
  | nil =>
    exact ⟨0, n, 0, slots, [], forks, (Nat.zero_add n).symm, (Nat.zero_add slots).symm, rfl, .nil,
      whole⟩
  | cons entry rest ih =>
    cases whole with
    | cons first tail =>
      obtain ⟨_, _, _, _, _, _, rfl, rfl, rfl, front, back⟩ := ih tail
      exact ⟨_, _, _, _, _, _, (Nat.add_assoc ..).symm, (Nat.add_assoc ..).symm,
        (List.append_assoc ..).symm, cons first front, back⟩

/-- A task has a step before it as long as it is there. -/
theorem length_le (prospects : Prospects s told last tasks n slots forks) : tasks.length ≤ n := by
  induction prospects with
  | nil => exact Nat.le_refl 0
  | cons first rest ih =>
    rw [List.length_cons, Nat.add_comm]
    refine Nat.add_le_add ?_ ih
    cases first <;> omega

/-- The prospect of one task, and what comes of the whole when others take its place. -/
theorem focus {before after : List (Identity × Phase)}
    (whole : Prospects s told last (before ++ [(who, phase)] ++ after) n slots forks) :
    ∃ (k a : Nat) (own : List Identity) (k₀ a₀ : Nat) (rest : List Identity),
      n = k + k₀ ∧ slots = a + a₀ ∧ (∀ id ∈ forks, id ∈ own ∨ id ∈ rest) ∧
      Prospect s told last who phase k a own ∧
      ∀ tasks k' a' own', Prospects s told last tasks k' a' own' →
        ∃ ids, Prospects s told last (before ++ tasks ++ after) (k' + k₀) (a' + a₀) ids ∧
          ∀ id, id ∈ own' ∨ id ∈ rest → id ∈ ids := by
  obtain ⟨_, n₃, _, a₃, _, ids₃, rfl, rfl, rfl, both, back⟩ := whole.split
  obtain ⟨n₁, _, a₁, _, ids₁, _, rfl, rfl, rfl, front, alone⟩ := both.split
  cases alone with
  | cons first none =>
    cases none
    refine ⟨_, _, _, n₁ + n₃, a₁ + a₃, ids₁ ++ ids₃, by omega, by omega, ?_, first, ?_⟩
    · intro id member
      simp only [List.mem_append, List.append_nil] at member ⊢
      tauto
    · intro tasks k' a' own' new
      refine ⟨ids₁ ++ own' ++ ids₃, ?_, ?_⟩
      · have replaced := (front.append new).append back
        rwa [Nat.add_comm n₁, Nat.add_comm a₁, Nat.add_assoc, Nat.add_assoc] at replaced
      · intro id member
        simp only [List.mem_append] at member ⊢
        tauto

end Prospects

namespace Prospect

variable {task : Task} {label : String} {registers : Bindings} {frames : List Frame}
  {memory : Memory} {result : Except Fault Value} {shared shared' : Shared σ}

/-- A task that gets a slot has the same forks before it, and needs one slot less. -/
theorem claim {next : Option Identity → Plan Next} (shared : Shared σ)
    (prospect : Prospect s told last who (.running ⟨.fork label registers next, frames, memory⟩)
      n slots forks) :
    ∃ m < n, ∃ fewer < slots,
      Prospect s told last who (.starting label registers next frames memory) m fewer forks := by
  cases prospect with
  | running foretold ends =>
    cases foretold with
    | ended stepped => cases stepped shared
    | running stepped _ => cases stepped shared
    | fork fresh forked settles rest =>
      refine ⟨_, by omega, _, ?_, .starting fresh forked settles rest ends⟩
      simp only [List.cons_append, List.length_cons, List.length_append]
      omega

theorem answer {id : Identity} {next : Outcome → Plan Next} {known : Outcome} (shared : Shared σ)
    (settles : told id = some known)
    (prospect : Prospect s told last who (.running ⟨.await id next, frames, memory⟩)
      n slots forks) :
    ∃ m < n, Prospect s told last who (.running ⟨next known, frames, memory⟩) m slots forks := by
  cases prospect with
  | running foretold ends =>
    cases foretold with
    | ended stepped => cases stepped shared
    | running stepped _ => cases stepped shared
    | await settles' rest =>
      cases settles.symm.trans settles'
      exact ⟨_, by omega, .running rest ends⟩

theorem go {task' : Task} (stepped : task.step s shared = .running shared' task')
    (prospect : Prospect s told last who (.running task) n slots forks) :
    ∃ m < n, Prospect s told last who (.running task') m slots forks := by
  cases prospect with
  | running foretold ends =>
    obtain ⟨m, rfl, rest⟩ := foretold.of_running stepped
    exact ⟨_, by omega, .running rest ends⟩

theorem finish (entry : who = entryTask)
    (stepped : task.step s shared = .ended result shared' memory)
    (prospect : Prospect s told last who (.running task) n slots forks) :
    0 < n ∧ forks = [] ∧ result = last := by
  cases prospect with
  | running foretold ends =>
    obtain ⟨rfl, rfl, rfl⟩ := foretold.of_ended stepped
    exact ⟨by omega, rfl, (if_pos entry).mp ends⟩

theorem stop (forked : who ≠ entryTask)
    (stepped : task.step s shared = .ended result shared' memory)
    (prospect : Prospect s told last who (.running task) n slots forks) :
    ∃ m < n, Prospect s told last who (.releasing result) m slots forks := by
  cases prospect with
  | running foretold ends =>
    obtain ⟨rfl, rfl, rfl⟩ := foretold.of_ended stepped
    exact ⟨_, by omega, .releasing forked ((if_neg forked).mp ends)⟩

/-- The task that is forked takes over those of the forks that are its own. -/
theorem spawn {next : Option Identity → Plan Next}
    (prospect : Prospect s told last who (.starting label registers next frames memory)
      n slots forks) :
    ∃ m < n, ∃ rest, forks = memory.freshIdentity.1 :: rest ∧
      Prospects s told last
        [(memory.freshIdentity.1, .running (.atBlock s memory.freshIdentity.1 label registers)),
          (who, .running ⟨next (some memory.freshIdentity.1), frames, memory.freshIdentity.2⟩)]
        m slots rest := by
  cases prospect with
  | starting fresh forked settles rest ends =>
    cases fresh
    have child : Ends told last _ _ := (if_neg (List.cons_ne_nil _ _)).mpr settles
    exact ⟨_, by omega, _, rfl, .cons (.running forked child) (.single (.running rest ends))⟩

theorem release (prospect : Prospect s told last who (.releasing result) n slots forks) :
    ∃ m < n, Prospect s told last who (.settling result) m slots forks := by
  cases prospect with
  | releasing forked settles => exact ⟨_, by omega, .settling forked settles⟩

theorem settle (prospect : Prospect s told last who (.settling result) n slots forks) :
    0 < n ∧ forks = [] ∧ who ≠ entryTask ∧ told who = some (settlement result) := by
  cases prospect with
  | settling forked settles => exact ⟨by omega, rfl, forked, settles⟩

end Prospect

variable (s told last) in
/-- A world whose tasks come to the told outcomes in at most so many steps, if none is lost to
sleep. There are slots for all of their forks. -/
structure Course (w : World σ) (n : Nat) : Prop where
  prospects : ∃ slots forks, Prospects s told last w.tasks n slots forks ∧
    w.shared.live + slots ≤ s.config.maxTasks ∧
    ∀ id, (told id).isSome → (w.shared.futures.get? id).isSome ∨ id ∈ forks
  settled : ∀ id outcome, w.shared.futures.outcome? id = some outcome → told id = some outcome
  entry : w.outcome = some last ∨ entryTask ∈ w.tasks.map Prod.fst

namespace Course

variable {before after : List (Identity × Phase)} {shared shared' : Shared σ} {total i i' : Nat}
  {outcome outcome' : Option (Except Fault Value)}

theorem advance (course : Course s told last ⟨shared, before ++ [(who, phase)] ++ after, i, outcome⟩
      total)
    (more : ∀ id, (shared.futures.get? id).isSome → (shared'.futures.get? id).isSome)
    (step : ∀ k a own, Prospect s told last who phase k a own →
      shared.live + a ≤ s.config.maxTasks →
      (∃ k' a' own', Prospects s told last tasks k' a' own' ∧ k' < k ∧
        shared'.live + a' ≤ shared.live + a ∧
        ∀ id ∈ own, (shared'.futures.get? id).isSome ∨ id ∈ own') ∧
      (∀ id outcome, shared'.futures.outcome? id = some outcome →
        shared.futures.outcome? id = some outcome ∨ told id = some outcome) ∧
      (outcome = some last → outcome' = some last) ∧
      (who = entryTask → outcome' = some last ∨ entryTask ∈ tasks.map Prod.fst)) :
    ∃ m < total, Course s told last ⟨shared', before ++ tasks ++ after, i', outcome'⟩ m := by
  obtain ⟨⟨slots, forks, whole, free, covered⟩, settled, entry⟩ := course
  obtain ⟨k, a, own, k₀, a₀, rest, rfl, rfl, among, prospect, others⟩ := whole.focus
  simp only at free covered settled entry
  obtain ⟨⟨k', a', own', new, fewer, slots, given⟩, outcomes, ended, entered⟩ :=
    step k a own prospect (by omega)
  obtain ⟨ids, whole', has⟩ := others tasks k' a' own' new
  refine ⟨k' + k₀, by omega, ⟨⟨a' + a₀, ids, whole', ?_, ?_⟩, ?_, ?_⟩⟩
  · simp only
    omega
  · intro id forked
    rcases covered id forked with old | old
    · exact .inl (more id old)
    · rcases among id old with mine | other
      · exact (given id mine).imp_right fun mine' => has id (.inl mine')
      · exact .inr (has id (.inr other))
  · intro id outcome found
    exact (outcomes id outcome found).elim (settled id outcome) fun told => told
  · rcases entry with known | unfinished
    · exact .inl (ended known)
    · by_cases same : who = entryTask
      · refine (entered same).imp_right fun member => ?_
        simp only [List.map_append, List.mem_append]
        exact .inl (.inr member)
      · right
        simp only [List.map_append, List.mem_append, List.map_cons, List.mem_singleton,
          List.map_nil] at unfinished ⊢
        rcases unfinished with (early | here) | late
        · exact .inl (.inl early)
        · exact absurd here.symm same
        · exact .inr late

/-- A task goes on in another phase, with the same forks before it. -/
theorem goOn {phase' : Phase}
    (course : Course s told last ⟨shared, before ++ [(who, phase)] ++ after, i, outcome⟩ total)
    (same : shared'.futures = shared.futures)
    (step : ∀ k a own, Prospect s told last who phase k a own → ∃ k' < k, ∃ a',
      Prospect s told last who phase' k' a' own ∧ shared'.live + a' ≤ shared.live + a) :
    ∃ m < total,
      Course s told last ⟨shared', before ++ [(who, phase')] ++ after, i', outcome⟩ m := by
  refine course.advance (fun id found => by rwa [same]) fun k a own prospect _ => ?_
  obtain ⟨k', less, a', prospect', free⟩ := step k a own prospect
  refine ⟨⟨k', a', own, .single prospect', less, free, fun _ member => .inr member⟩,
    fun id result found => .inl ?_, fun known => known, fun entry => .inr ?_⟩
  · rwa [same] at found
  · rw [entry]
    exact List.mem_singleton_self entryTask

theorem move {number : Nat} {change : Change σ}
    (course : Course s told last ⟨shared, before ++ [(who, phase)] ++ after, i, outcome⟩ total)
    (move : Move s who number shared phase change) :
    (∃ m < total, Course s told last
      ⟨change.shared, before ++ change.tasks ++ after, i', change.outcome <|> outcome⟩ m) ∨
    ∃ id next frames memory, phase = .running ⟨.await id next, frames, memory⟩ ∧
      shared.futures.outcome? id = none ∧
      change =
        { shared :=
            { shared with futures := shared.futures.update id fun future => (future.wait who).2 }
          tasks := [(who, phase)] } := by
  cases move with
  | sleep pending => exact .inr ⟨_, _, _, _, rfl, pending, rfl⟩
  | claim free =>
    refine .inl (course.goOn rfl fun k a own prospect => ?_)
    obtain ⟨k', less, a', fewer, prospect'⟩ := prospect.claim shared
    exact ⟨k', less, a', prospect', by simp only; omega⟩
  | refuse full =>
    refine .inl (course.advance (fun _ found => found) fun k a own prospect slots => ?_)
    -- a task that is to fork has a slot kept for it
    obtain ⟨-, -, a', fewer, -⟩ := prospect.claim shared
    exact absurd (by omega) full
  | answer settled =>
    refine .inl (course.goOn rfl fun k a own prospect => ?_)
    obtain ⟨k', less, prospect'⟩ := prospect.answer shared (course.settled _ _ settled)
    exact ⟨k', less, a, prospect', Nat.le_refl _⟩
  | go stepped =>
    obtain ⟨host, rfl⟩ := Task.shared_of_running stepped
    refine .inl (course.goOn rfl fun k a own prospect => ?_)
    obtain ⟨k', less, prospect'⟩ := prospect.go stepped
    exact ⟨k', less, a, prospect', Nat.le_refl _⟩
  | finish entry stepped =>
    obtain ⟨host, rfl⟩ := Task.shared_of_ended stepped
    refine .inl (course.advance (fun _ found => found) fun k a own prospect _ => ?_)
    obtain ⟨busy, rfl, rfl⟩ := prospect.finish entry stepped
    exact ⟨⟨0, 0, [], .nil, busy, Nat.le_add_right _ a, nofun⟩, fun _ _ found => .inl found,
      fun _ => rfl, fun _ => .inl rfl⟩
  | stop forked stepped =>
    obtain ⟨host, rfl⟩ := Task.shared_of_ended stepped
    refine .inl (course.goOn rfl fun k a own prospect => ?_)
    obtain ⟨k', less, prospect'⟩ := prospect.stop forked stepped
    exact ⟨k', less, a, prospect', Nat.le_refl _⟩
  | @spawn label registers next frames memory =>
    have child (id : Identity) :=
      shared.futures.get?_add memory.freshIdentity.1 id (.pending number)
    refine .inl (course.advance (fun id found => ?_) fun k a own prospect _ => ?_)
    · rw [child]
      split
      · rfl
      · exact found
    obtain ⟨k', less, rest, rfl, prospects⟩ := prospect.spawn
    refine ⟨⟨k', a, rest, prospects, less, Nat.le_refl _, fun id member => ?_⟩,
      fun id result found => .inl ?_, fun known => known, fun same => .inr ?_⟩
    · refine (List.mem_cons.mp member).imp_left fun here => ?_
      rw [child, if_pos here]
      rfl
    · simp only [Futures.outcome?, child] at found ⊢
      split at found
      · cases found
      · exact found
    · rw [same]
      exact List.mem_cons_of_mem _ (List.mem_singleton_self entryTask)
  | release =>
    refine .inl (course.goOn rfl fun k a own prospect => ?_)
    obtain ⟨k', less, prospect'⟩ := prospect.release
    exact ⟨k', less, a, prospect', Nat.add_le_add_right (Nat.sub_le _ 1) a⟩
  | settle =>
    refine .inl (course.advance (fun id found => ?_) fun k a own prospect _ => ?_)
    · rwa [Futures.get?_update, Option.isSome_map]
    obtain ⟨busy, rfl, forked, settles⟩ := prospect.settle
    refine ⟨⟨0, 0, [], .nil, busy, Nat.le_add_right _ a, nofun⟩, fun id result found => ?_,
      fun known => known, fun same => absurd same forked⟩
    rcases shared.futures.outcome?_settle_cases who id found with old | ⟨rfl, settled⟩
    · exact .inl old
    · exact .inr (settled ▸ settles)

end Course

def awake (w : World σ) : Nat :=
  w.tasks.countP fun entry => !isAsleep w.shared.futures entry.1 entry.2

theorem isAsleep_wait {futures : Futures} {other id : Identity}
    (asleep : isAsleep futures other phase) :
    isAsleep (futures.update id fun future => (future.wait who).2) other phase := by
  unfold isAsleep at asleep
  split at asleep
  · next target next frames memory =>
    unfold isAsleep
    simp only
    rw [Futures.get?_update]
    cases found : futures.get? target with
    | none => rfl
    | some future =>
      rw [found] at asleep
      simp only [Option.map_some] at asleep ⊢
      split
      · exact future.sleepers_wait who asleep
      · exact asleep
  · cases asleep

theorem isAsleep_of_wait {futures : Futures} {id : Identity} {next : Outcome → Plan Next}
    {frames : List Frame} {memory : Memory} (pending : futures.outcome? id = none) :
    isAsleep (futures.update id fun future => (future.wait who).2) who
      (.running ⟨.await id next, frames, memory⟩) := by
  unfold isAsleep
  simp only
  rw [Futures.get?_update]
  cases found : futures.get? id with
  | none => rfl
  | some future =>
    simp only [Option.map_some, if_true]
    refine Future.contains_wait ?_ who
    rwa [Futures.outcome?, found] at pending

theorem awake_le (w : World σ) : w.awake ≤ w.tasks.length := List.countP_le_length

theorem awake_sleep {before after : List (Identity × Phase)} {shared : Shared σ} {i i' : Nat}
    {outcome outcome' : Option (Except Fault Value)} {id : Identity} {next : Outcome → Plan Next}
    {frames : List Frame} {memory : Memory} (pending : shared.futures.outcome? id = none)
    (phase_eq : phase = .running ⟨.await id next, frames, memory⟩)
    (stands : isAsleep shared.futures who phase = false) :
    awake ⟨{ shared with futures := shared.futures.update id fun future => (future.wait who).2 },
        before ++ [(who, phase)] ++ after, i', outcome'⟩ <
      awake ⟨shared, before ++ [(who, phase)] ++ after, i, outcome⟩ := by
  have others (tasks : List (Identity × Phase)) :
      tasks.countP (fun entry => !isAsleep (shared.futures.update id fun future =>
        (future.wait who).2) entry.1 entry.2) ≤
      tasks.countP fun entry => !isAsleep shared.futures entry.1 entry.2 := by
    refine List.countP_mono_left fun entry _ awake => ?_
    rw [Bool.not_eq_true'] at awake ⊢
    rw [Bool.eq_false_iff] at awake ⊢
    exact fun asleep => awake (isAsleep_wait asleep)
  have mine : isAsleep (shared.futures.update id fun future => (future.wait who).2) who phase :=
    phase_eq ▸ isAsleep_of_wait pending
  simp only [World.awake, List.countP_append, List.countP_singleton, mine, stands]
  have early := others before
  have late := others after
  simp only [Bool.not_true, Bool.not_false, if_true, Bool.false_eq_true, if_false]
  omega

/-- An order of steps is finite if with every step less is to be done, or as much by fewer tasks
that are awake. Each of the steps to be done may wake all the tasks there are, and each of these may
fall asleep before the next one. -/
theorem Path.bounded {P : World σ → Nat → Prop} (few : ∀ {w total}, P w total → w.awake ≤ total)
    (step : ∀ {who w total}, P w total → w.canStep who → (∃ m < total, P (w.step s who) m) ∨
      P (w.step s who) total ∧ (w.step s who).awake < w.awake)
    {schedule : List Identity} {w w' : World σ} {total : Nat} (path : Path s schedule w w')
    (first : P w total) :
    schedule.length ≤ total * (total + 1) + w.awake ∧ ∃ m, P w' m := by
  induction path generalizing total with
  | nil => exact ⟨Nat.zero_le _, total, first⟩
  | @cons who schedule w w' awake rest ih =>
    rw [List.length_cons]
    rcases step first awake with ⟨m, less, after⟩ | ⟨after, fewer⟩
    · obtain ⟨bound, ends⟩ := ih after
      refine ⟨?_, ends⟩
      have awakes := few after
      have square : (m + 1) * (m + 1) ≤ total * total := Nat.mul_le_mul less less
      have expand : (m + 1) * (m + 1) = m * (m + 1) + (m + 1) := Nat.succ_mul m (m + 1)
      have widen : total * total ≤ total * (total + 1) := Nat.mul_le_mul_left _ (Nat.le_succ _)
      omega
    · obtain ⟨bound, ends⟩ := ih after
      refine ⟨?_, ends⟩
      omega

namespace Course

theorem sleep {before after : List (Identity × Phase)} {shared : Shared σ} {total i i' : Nat}
    {outcome : Option (Except Fault Value)} {id : Identity}
    (course : Course s told last ⟨shared, before ++ [(who, phase)] ++ after, i, outcome⟩ total) :
    Course s told last
      ⟨{ shared with futures := shared.futures.update id fun future => (future.wait who).2 },
        before ++ [(who, phase)] ++ after, i', outcome⟩ total := by
  obtain ⟨⟨slots, forks, whole, free, covered⟩, settled, entry⟩ := course
  refine ⟨⟨slots, forks, whole, free, fun id forked => ?_⟩, fun id outcome found => ?_, entry⟩
  · refine (covered id forked).imp_left fun old => ?_
    rwa [Futures.get?_update, Option.isSome_map]
  · refine settled id outcome ?_
    rwa [Futures.outcome?_wait] at found

/-- With every step less is to be done, or as much by fewer tasks that are awake. -/
theorem step {w : World σ} {total : Nat} (course : Course s told last w total)
    (awake : w.canStep who) :
    (∃ m < total, Course s told last (w.step s who) m) ∨
      Course s told last (w.step s who) total ∧ (w.step s who).awake < w.awake := by
  obtain ⟨shared, tasks, forked, outcome⟩ := w
  obtain ⟨before, phase, after, change, rfl, -, stands, move, stepped⟩ := exists_move (s := s) awake
  rw [stepped]
  refine (course.move move).imp_right ?_
  intro parts
  obtain ⟨id, next, frames, memory, phase_eq, pending, rfl⟩ := parts
  exact ⟨course.sleep, awake_sleep pending phase_eq stands⟩

theorem awake_le {w : World σ} {total : Nat} (course : Course s told last w total) :
    w.awake ≤ total := by
  obtain ⟨⟨slots, forks, whole, -, -⟩, -, -⟩ := course
  exact Nat.le_trans w.awake_le whole.length_le

/-- Every order of steps is finite. -/
theorem path {schedule : List Identity} {w w' : World σ} {total : Nat}
    (path : Path s schedule w w') (course : Course s told last w total) :
    schedule.length ≤ total * (total + 1) + w.awake ∧ ∃ m, Course s told last w' m :=
  path.bounded awake_le (fun course awake => course.step awake) course

/-- Once all tasks have ended, everything is as it was told. -/
theorem ended {w : World σ} {total : Nat} (course : Course s told last w total) (tidy : w.Tidy)
    (empty : w.tasks = []) :
    w.result? = some last ∧ ∀ id, w.shared.futures.outcome? id = told id := by
  obtain ⟨⟨slots, forks, whole, -, covered⟩, settled, entry⟩ := course
  rw [empty] at whole entry
  cases whole
  refine ⟨?_, fun id => ?_⟩
  · unfold result?
    rw [empty]
    exact entry.resolve_right fun unfinished => by cases unfinished
  · cases found : w.shared.futures.outcome? id with
    | some outcome => exact (settled id outcome found).symm
    | none =>
      symm
      by_contra forked
      have given := (covered id (Option.isSome_iff_ne_none.mpr forked)).resolve_right
        List.not_mem_nil
      obtain ⟨future, get⟩ := Option.isSome_iff_exists.mp given
      have outcome := (tidy.settled id future get).mpr fun phase member => by
        rw [empty] at member
        cases member
      rw [Futures.outcome?, get, Option.bind_some] at found
      rw [found] at outcome
      cases outcome

end Course

end World
end LayeredIR
