import LayeredIR.Proofs.World.Acyclic

/-! What every task of a run keeps to by itself, all of them keep to. A regime says what holds of
tasks, of what they share and of how they end. It is enough that a single step keeps it, that a fork
and an answer do, and that what is shared stands the futures that come and settle. -/
namespace LayeredIR

def Futures.All (P : Value → Prop) (futures : Futures) : Prop :=
  ∀ id v, futures.outcome? id = some (.ok v) → P v

namespace Futures.All

variable {P : Value → Prop} {futures : Futures} (all : futures.All P)
include all

theorem wait (id who : Identity) :
    (futures.update id fun future => (future.wait who).2).All P := by
  intro other v settled
  rw [outcome?_wait] at settled
  exact all other v settled

theorem pending (id : Identity) (number : Nat) : (futures.add id (.pending number)).All P := by
  intro other v settled
  unfold outcome? at settled
  rw [get?_add] at settled
  split at settled
  · cases settled
  · exact all other v settled

theorem settle (who : Identity) {result : Except Fault Value}
    (held : ∀ v, result = .ok v → P v) :
    (futures.update who fun future => (future.settle (settlement result)).2).All P := by
  intro other v settled
  rcases outcome?_settle_cases _ who other settled with old | ⟨-, settles⟩
  · exact all other v old
  · exact held v (World.ok_of_settlement settles)

end Futures.All

structure Regime (σ : Type) where
  task : Task → Prop
  shares : Futures → σ → Prop
  result : Except Fault Value → Prop
  heard : Shared σ → Task → Prop := fun _ _ => True

structure Regime.Kept {σ : Type} (G : Regime σ) (s : Setting σ) : Prop where
  go : ∀ {task task' shared shared'}, G.task task → G.shares shared.futures shared.host →
    G.heard shared task → Task.step s shared task = .running shared' task' →
    G.task task' ∧ G.shares shared'.futures shared'.host
  ended : ∀ {task shared shared' outcome memory}, G.task task →
    G.shares shared.futures shared.host → G.heard shared task →
    Task.step s shared task = .ended outcome shared' memory →
    G.result outcome ∧ G.shares shared'.futures shared'.host
  refused : ∀ {label registers next frames memory},
    G.task ⟨.fork label registers next, frames, memory⟩ → G.task ⟨next none, frames, memory⟩
  forked : ∀ {label registers next frames memory},
    G.task ⟨.fork label registers next, frames, memory⟩ →
    G.task (.atBlock s memory.freshIdentity.1 label registers) ∧
      G.task ⟨next (some memory.freshIdentity.1), frames, memory.freshIdentity.2⟩
  answered : ∀ {id next frames memory futures host outcome},
    G.task ⟨.await id next, frames, memory⟩ → G.shares futures host →
    futures.outcome? id = some outcome → G.task ⟨next outcome, frames, memory⟩
  waited : ∀ {futures host} id who, G.shares futures host →
    G.shares (futures.update id fun future => (future.wait who).2) host
  added : ∀ {futures host} id number, G.shares futures host →
    G.shares (futures.add id (.pending number)) host
  settled : ∀ {futures host result} who, G.shares futures host → G.result result →
    G.shares (futures.update who fun future => (future.settle (settlement result)).2) host

namespace World

variable {σ : Type} {s : Setting σ} {G : Regime σ}

structure Ruled (G : Regime σ) (w : World σ) : Prop where
  tasks : ∀ who phase task, (who, phase) ∈ w.tasks → phase.task? = some task → G.task task
  ended : ∀ who phase result, (who, phase) ∈ w.tasks → phase.outcome? = some result →
    G.result result
  shares : G.shares w.shared.futures w.shared.host
  outcome : ∀ result, w.outcome = some result → G.result result

section Step

variable {before after : List (Identity × Phase)} {who : Identity} {phase phase' : Phase}
  {shared shared' : Shared σ} {n n' number : Nat} {outcome : Option (Except Fault Value)}

theorem Ruled.replace
    (ruled : Ruled G ⟨shared, before ++ [(who, phase)] ++ after, n, outcome⟩)
    (running : ∀ task, phase'.task? = some task → G.task task)
    (ended : ∀ result, phase'.outcome? = some result → G.result result)
    (shares : G.shares shared'.futures shared'.host) :
    Ruled G ⟨shared', before ++ [(who, phase')] ++ after, n', outcome⟩ where
  tasks other p task member runs := by
    rcases mem_of_replaced member with old | ⟨rfl, rfl⟩
    · exact ruled.tasks other p task old runs
    · exact running task runs
  ended other p result member ends := by
    rcases mem_of_replaced member with old | ⟨rfl, rfl⟩
    · exact ruled.ended other p result old ends
    · exact ended result ends
  shares := shares
  outcome := ruled.outcome

theorem Ruled.remove {outcome' : Option (Except Fault Value)}
    (ruled : Ruled G ⟨shared, before ++ [(who, phase)] ++ after, n, outcome⟩)
    (shares : G.shares shared'.futures shared'.host)
    (results : ∀ result, outcome' = some result → G.result result) :
    Ruled G ⟨shared', before ++ [] ++ after, n', outcome'⟩ where
  tasks other p task member := ruled.tasks other p task (mem_of_removed member)
  ended other p result member := ruled.ended other p result (mem_of_removed member)
  shares := shares
  outcome := results

theorem Ruled.move {change : Change σ} (kept : G.Kept s)
    (ruled : Ruled G ⟨shared, before ++ [(who, phase)] ++ after, n, outcome⟩)
    (heard : ∀ task, phase = .running task → G.heard shared task)
    (move : Move s who number shared phase change) :
    Ruled G ⟨change.shared, before ++ change.tasks ++ after, n', change.outcome <|> outcome⟩ := by
  have here : (who, phase) ∈ before ++ [(who, phase)] ++ after :=
    mem_replace.mpr (.inr (.inl rfl))
  have own (task : Task) (runs : phase.task? = some task) : G.task task :=
    ruled.tasks who phase task here runs
  have shares := ruled.shares
  cases move with
  | claim => exact ruled.replace own (fun _ => nofun) shares
  | refuse =>
    refine ruled.replace (fun _ runs => ?_) (fun _ => nofun) shares
    cases runs
    exact kept.refused (own _ rfl)
  | answer settled =>
    refine ruled.replace (fun _ runs => ?_) (fun _ => nofun) shares
    cases runs
    exact kept.answered (own _ rfl) shares settled
  | sleep => exact ruled.replace own (fun _ => nofun) (kept.waited _ _ shares)
  | go stepped =>
    obtain ⟨task, shares'⟩ := kept.go (own _ rfl) shares (heard _ rfl) stepped
    refine ruled.replace (fun _ runs => ?_) (fun _ => nofun) shares'
    cases runs
    exact task
  | finish _ stepped =>
    obtain ⟨result, shares'⟩ := kept.ended (own _ rfl) shares (heard _ rfl) stepped
    refine ruled.remove shares' fun _ same => ?_
    cases same
    exact result
  | stop _ stepped =>
    obtain ⟨result, shares'⟩ := kept.ended (own _ rfl) shares (heard _ rfl) stepped
    refine ruled.replace (fun _ => nofun) (fun _ ends => ?_) shares'
    cases ends
    exact result
  | release =>
    exact ruled.replace (fun _ => nofun) (fun _ ends => ruled.ended who _ _ here ends) shares
  | settle =>
    exact ruled.remove (kept.settled who shares (ruled.ended who _ _ here rfl)) ruled.outcome
  | @spawn label registers next frames memory =>
    obtain ⟨child, parent⟩ := kept.forked (own _ rfl)
    refine ⟨fun other p task member runs => ?_, fun other p result member ends => ?_,
      kept.added _ _ shares, ruled.outcome⟩
    · rcases mem_of_doubled member with old | same | same
      · exact ruled.tasks other p task old runs
      · cases same
        cases runs
        exact child
      · cases same
        cases runs
        exact parent
    · rcases mem_of_doubled member with old | same | same
      · exact ruled.ended other p result old ends
      · cases same
        cases ends
      · cases same
        cases ends

theorem Ruled.step (kept : G.Kept s) (who : Identity) (w : World σ) (ruled : Ruled G w)
    (heard : ∀ task, (who, .running task) ∈ w.tasks → G.heard w.shared task)
    (awake : w.canStep who) : Ruled G (w.step s who) := by
  obtain ⟨shared, tasks, forked, outcome⟩ := w
  obtain ⟨before, phase, after, change, rfl, -, -, move, stepped⟩ := exists_move (s := s) awake
  rw [stepped]
  refine ruled.move kept (fun task runs => heard task ?_) move
  subst runs
  exact mem_replace.mpr (.inr (.inl rfl))

theorem Ruled.single {task : Task} (held : G.task task)
    (shares : G.shares shared.futures shared.host) :
    Ruled G ⟨shared, [(entryTask, .running task)], 0, none⟩ where
  tasks who phase other member runs := by
    cases List.mem_singleton.mp member
    cases runs
    exact held
  ended who phase result member ends := by
    cases List.mem_singleton.mp member
    cases ends
  shares := shares
  outcome _ ended := by cases ended

theorem Ruled.start {entry : String} {registers : Bindings} {host : σ}
    (task : G.task (.atBlock s entryTask entry registers)) (shares : G.shares .empty host) :
    Ruled G (World.start s entry registers host) := .single task shares

end Step

/-- A run keeps to a regime for as many steps as are heard. -/
theorem Path.ruled {schedule : List Identity} {w w' : World σ} (path : Path s schedule w w')
    (kept : G.Kept s) (ruled : Ruled G w)
    (heard : ∀ before who after w₁ task, schedule = before ++ who :: after → Path s before w w₁ →
      (who, .running task) ∈ w₁.tasks → G.heard w₁.shared task) : Ruled G w' := by
  induction path with
  | nil => exact ruled
  | @cons who schedule w w' awake rest ih =>
    refine ih (ruled.step kept who w (fun task => heard [] who schedule w task rfl .nil) awake) ?_
    intro before other after w₁ task split path
    exact heard (who :: before) other after w₁ task (congrArg _ split) (.cons awake path)

/-- A run keeps to a regime throughout where what tasks share is enough to be heard. -/
theorem Path.ruled_of_shares {schedule : List Identity} {w w' : World σ}
    (path : Path s schedule w w') (kept : G.Kept s) (ruled : Ruled G w)
    (heard : ∀ shared task, G.shares shared.futures shared.host → G.heard shared task) :
    Ruled G w' := by
  induction path with
  | nil => exact ruled
  | @cons who schedule w w' awake rest ih =>
    exact ih (ruled.step kept who w (fun task _ => heard w.shared task ruled.shares) awake)

end World
end LayeredIR
