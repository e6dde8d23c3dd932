import LayeredIR.Proofs.World.Foretold

/-! One thread for all tasks. Where a task forks, the other one runs to its end first, its future is
settled, and only then the task goes on. Whatever comes of this comes of every order of steps, as
long as there is a slot for each of the forks. -/
namespace LayeredIR

def Value.Blind (v : Value) : Prop := v.All (Knowledge.Permits withoutOf ⟨Set.univ, 0⟩)

/-- A task with those that it forks, each run to its end where it is forked. A wait for a future
that no one has settled by then has no end, and there are no limits on forks. -/
def Task.runInPlace {σ : Type} (s : Setting σ) :
    Nat → Shared σ → Task → Option (Except Fault Value × Shared σ × Memory)
  | 0, _, _ => none
  | fuel + 1, shared, task =>
    match task.step s shared with
    | .running shared task => runInPlace s fuel shared task
    | .ended outcome shared memory => some (outcome, shared, memory)
    | .waiting shared ⟨.fork label registers next, frames, memory⟩ =>
      let (child, memory) := memory.freshIdentity
      let number := shared.futures.entries.length + 1
      let forked := { shared with futures := shared.futures.add child (.pending number) }
      match runInPlace s fuel forked (.atBlock s child label registers) with
      | none => none
      | some (outcome, shared, _) =>
        let futures := shared.futures.update child fun future =>
          (future.settle (settlement outcome)).2
        runInPlace s fuel { shared with futures := futures } ⟨next (some child), frames, memory⟩
    | .waiting shared ⟨.await id next, frames, memory⟩ =>
      match shared.futures.outcome? id with
      | none => none
      | some outcome => runInPlace s fuel shared ⟨next outcome, frames, memory⟩
    | .waiting _ _ => none

namespace World

variable {σ : Type} {s : Setting σ}

def Room (futures : Futures) (owner : Identity) (serial : Nat) : Prop :=
  ∀ id, (futures.get? id).isSome → ∀ n, (n :: owner) <:+ id → n ≤ serial

structure Grown (owner : Identity) (forks : List Identity) (futures futures' : Futures) :
    Prop where
  kept : ∀ id, (futures.get? id).isSome → futures'.get? id = futures.get? id
  found : ∀ id, (futures'.get? id).isSome → (futures.get? id).isSome ∨ id ∈ forks
  under : ∀ id ∈ forks, owner <:+ id
  count : futures'.entries.length = futures.entries.length + forks.length

namespace Grown

variable {owner : Identity} {forks more : List Identity} {futures futures' futures'' : Futures}

theorem refl (owner : Identity) (futures : Futures) : Grown owner [] futures futures where
  kept _ _ := rfl
  found _ old := .inl old
  under _ member := absurd member List.not_mem_nil
  count := rfl

theorem trans (first : Grown owner forks futures futures')
    (second : Grown owner more futures' futures'') :
    Grown owner (forks ++ more) futures futures'' where
  kept id old := by
    have same := first.kept id old
    rw [second.kept id (by rwa [same]), same]
  found id new := by
    rw [List.mem_append]
    rcases second.found id new with mid | late
    · exact (first.found id mid).imp_right .inl
    · exact .inr (.inr late)
  under id member := (List.mem_append.mp member).elim (first.under id) (second.under id)
  count := by
    rw [second.count, first.count, List.length_append, Nat.add_assoc]

theorem outcome? (grown : Grown owner forks futures futures') {id : Identity} {outcome : Outcome}
    (settled : futures.outcome? id = some outcome) : futures'.outcome? id = some outcome := by
  have old : (futures.get? id).isSome := by
    cases found : futures.get? id with
    | none =>
      rw [Futures.outcome?, found] at settled
      cases settled
    | some future => rfl
  rwa [Futures.outcome?, grown.kept id old]

end Grown

theorem cons_suffix_inj {id owner : Identity} {n m : Nat} (first : (n :: owner) <:+ id)
    (second : (m :: owner) <:+ id) : n = m := by
  have within := List.suffix_of_suffix_length_le first second (Nat.le_refl _)
  exact (List.cons.inj (within.eq_of_length rfl)).1

namespace Room

variable {owner : Identity} {serial number : Nat} {forks : List Identity}
  {futures futures' : Futures}

theorem mono {later : Nat} (le : serial ≤ later) (room : Room futures owner serial) :
    Room futures owner later :=
  fun id old n within => Nat.le_trans (room id old n within) le

theorem fresh (room : Room futures owner serial) : futures.get? ((serial + 1) :: owner) = none := by
  by_contra old
  have given := room _ (Option.isSome_iff_ne_none.mpr old) (serial + 1) (List.suffix_refl _)
  exact Nat.not_succ_le_self _ given

theorem child (room : Room futures owner serial) :
    Room (futures.add ((serial + 1) :: owner) (.pending number)) ((serial + 1) :: owner) 0 := by
  intro id known n within
  exfalso
  rw [Futures.get?_add] at known
  split at known
  · next same =>
    have longer := within.length_le
    rw [same, List.length_cons] at longer
    exact Nat.not_succ_le_self _ longer
  · have given := room id known (serial + 1) ((List.suffix_cons n _).trans within)
    exact Nat.not_succ_le_self _ given

theorem forked (room : Room futures owner serial)
    (grown : Grown ((serial + 1) :: owner) forks
      (futures.add ((serial + 1) :: owner) (.pending number)) futures') :
    Room futures' owner (serial + 1) := by
  intro id known n within
  rcases grown.found id known with old | new
  · rw [Futures.get?_add] at old
    split at old
    · next same => exact Nat.le_of_eq (cons_suffix_inj within (same ▸ List.suffix_refl _))
    · exact Nat.le_succ_of_le (room id old n within)
  · exact Nat.le_of_eq (cons_suffix_inj within (grown.under id new))

end Room

theorem Grown.settle {owner child : Identity} {number : Nat} {forks : List Identity}
    {futures futures' : Futures} (under : owner <:+ child) (fresh : futures.get? child = none)
    (grown : Grown child forks (futures.add child (.pending number)) futures')
    (outcome : Outcome) :
    Grown owner (child :: forks) futures
        (futures'.update child fun future => (future.settle outcome).2) ∧
      futures'.outcome? child = none ∧
      ∀ id, (futures'.update child fun future => (future.settle outcome).2).outcome? id =
        if id = child then some outcome else futures'.outcome? id := by
  have pending : futures'.get? child = some (.pending number) := by
    rw [grown.kept child (by simp), Futures.get?_add, if_pos rfl]
  have older (id : Identity) (old : (futures.get? id).isSome) : id ≠ child := by
    intro equal
    cases equal
    rw [fresh] at old
    cases old
  refine ⟨⟨?_, ?_, ?_, ?_⟩, ?_, fun id => futures'.outcome?_settle child id outcome pending rfl⟩
  · intro id old
    have first := grown.kept id
    rw [Futures.get?_add, if_neg (older id old)] at first
    rw [Futures.get?_update, first old]
    cases futures.get? id with
    | none => rfl
    | some future => simp only [if_neg (older id old), Option.map_some]
  · intro id new
    rw [Futures.get?_update, Option.isSome_map] at new
    rw [List.mem_cons]
    rcases grown.found id new with old | later
    · rw [Futures.get?_add] at old
      split at old
      · next same => exact .inr (.inl same)
      · exact .inl old
    · exact .inr (.inr later)
  · intro id member
    rcases List.mem_cons.mp member with rfl | member
    · exact under
    · exact under.trans (grown.under id member)
  · have count := grown.count
    simp only [Futures.update, List.length_map, List.length_cons, Futures.add] at count ⊢
    omega
  · rw [Futures.outcome?, pending]
    rfl

end World

namespace Task

variable {σ : Type} {s : Setting σ}

theorem eq_of_waiting {shared shared' : Shared σ} {task task' : Task}
    (stepped : task.step s shared = .waiting shared' task') : shared' = shared ∧ task' = task := by
  obtain ⟨control, frames, memory⟩ := task
  rcases waits_of_step stepped with ⟨label, registers, next, rfl⟩ | ⟨id, next, rfl⟩
  all_goals
    cases stepped
    exact ⟨rfl, rfl⟩

/-- What a run in place knows of a task that it has come to the end of: no closure that is left has
a call of `of`, each fork has left a future, and the task is sure to come to the same outcome if
the futures are told as they are left. -/
structure Foreseen (s : Setting σ) (futures futures' : Futures) (task : Task)
    (outcome : Except Fault Value) : Prop where
  blind : ∀ v, outcome = .ok v → v.Blind
  results : ∀ id v, futures'.outcome? id = some (.ok v) → v.Blind
  foretold : ∃ forks, World.Grown task.memory.owner forks futures futures' ∧
    ∀ told : Identity → Option Outcome,
      (∀ id outcome, futures'.outcome? id = some outcome → told id = some outcome) →
      ∃ n, task.Foretold s told outcome n forks

namespace Foreseen

variable {futures futures' futures'' : Futures} {task task' : Task} {memory : Memory}
  {frames : List Frame} {outcome result : Except Fault Value} {number : Nat}

theorem ended (stepped : ∀ shared, (task.step s shared).outlook = .ended outcome)
    (blind : ∀ v, outcome = .ok v → v.Blind)
    (results : ∀ id v, futures.outcome? id = some (.ok v) → v.Blind) :
    Foreseen s futures futures task outcome :=
  ⟨blind, results, [], .refl _ _, fun _ _ => ⟨1, .ended stepped⟩⟩

theorem running (foreseen : Foreseen s futures futures' task' outcome)
    (stepped : ∀ shared, (task.step s shared).outlook = .running task')
    (owner : task'.memory.owner = task.memory.owner) :
    Foreseen s futures futures' task outcome := by
  obtain ⟨blind, results, forks, grown, foretold⟩ := foreseen
  refine ⟨blind, results, forks, owner ▸ grown, fun told agrees => ?_⟩
  obtain ⟨n, rest⟩ := foretold told agrees
  exact ⟨n + 1, .running stepped rest⟩

theorem await {id : Identity} {next : Outcome → Plan Next} {known : Outcome}
    (settled : futures.outcome? id = some known)
    (foreseen : Foreseen s futures futures' ⟨next known, frames, memory⟩ outcome) :
    Foreseen s futures futures' ⟨.await id next, frames, memory⟩ outcome := by
  obtain ⟨blind, results, forks, grown, foretold⟩ := foreseen
  refine ⟨blind, results, forks, grown, fun told agrees => ?_⟩
  obtain ⟨n, rest⟩ := foretold told agrees
  exact ⟨n + 1, .await (agrees id known (grown.outcome? settled)) rest⟩

section Fork

variable {label : String} {registers : Bindings}
  (forked : Foreseen s (futures.add ((memory.serial + 1) :: memory.owner) (.pending number))
    futures' (.atBlock s ((memory.serial + 1) :: memory.owner) label registers) result)
  (room : World.Room futures memory.owner memory.serial)
include forked room

theorem settled_blind (id : Identity) (v : Value)
    (found : (futures'.update ((memory.serial + 1) :: memory.owner) fun future =>
      (future.settle (settlement result)).2).outcome? id = some (.ok v)) : v.Blind := by
  obtain ⟨blind, results, forks, grown, -⟩ := forked
  rw [(grown.settle (List.suffix_cons _ memory.owner) room.fresh _).2.2] at found
  split at found
  · exact blind v (World.ok_of_settlement (Option.some.inj found))
  · exact results id v found

theorem settled_room : World.Room (futures'.update ((memory.serial + 1) :: memory.owner)
    fun future => (future.settle (settlement result)).2) memory.owner (memory.serial + 1) := by
  obtain ⟨-, -, forks, grown, -⟩ := forked
  intro id known n within
  rw [Futures.get?_update, Option.isSome_map] at known
  exact room.forked grown id known n within

/-- A forked task has come to its end before the one that forks it goes on. -/
theorem fork {next : Option Identity → Plan Next}
    (rest : Foreseen s
      (futures'.update ((memory.serial + 1) :: memory.owner) fun future =>
        (future.settle (settlement result)).2) futures''
      ⟨next (some memory.freshIdentity.1), frames, memory.freshIdentity.2⟩ outcome) :
    Foreseen s futures futures'' ⟨.fork label registers next, frames, memory⟩ outcome := by
  obtain ⟨-, -, own, grown, child⟩ := forked
  obtain ⟨blind, results, more, grown', foretold⟩ := rest
  obtain ⟨whole, unsettled, settled⟩ :=
    grown.settle (List.suffix_cons _ memory.owner) room.fresh (settlement result)
  refine ⟨blind, results, _, whole.trans grown', fun told agrees => ?_⟩
  have settles : told ((memory.serial + 1) :: memory.owner) = some (settlement result) := by
    refine agrees _ _ (grown'.outcome? ?_)
    rw [settled, if_pos rfl]
  obtain ⟨n, inner⟩ := child told fun id outcome found => by
    refine agrees id outcome (grown'.outcome? ?_)
    rw [settled]
    split
    · next same =>
      rw [same, unsettled] at found
      cases found
    · exact found
  obtain ⟨m, outer⟩ := foretold told agrees
  exact ⟨_, .fork rfl inner settles outer⟩

end Fork
end Foreseen

/-- What a run in place comes to, it is sure to come to, the outcomes of futures being those that it
leaves. -/
theorem runInPlace_foreseen (closed : s.Closed withoutOf)
    (oblivious : ∀ name handler, s.handler? name = some handler → handler.Oblivious) (fuel : Nat)
    {shared shared' : Shared σ} {task : Task} {outcome : Except Fault Value} {memory' : Memory}
    (ran : runInPlace s fuel shared task = some (outcome, shared', memory'))
    (keeps : ∃ scope, task.Keeps withoutOf ⟨Set.univ, scope⟩)
    (results : ∀ id v, shared.futures.outcome? id = some (.ok v) → v.Blind)
    (room : World.Room shared.futures task.memory.owner task.memory.serial) :
    task.Foreseen s shared.futures shared'.futures outcome := by
  induction fuel generalizing shared shared' task outcome memory' with
  | zero => cases ran
  | succ fuel ih =>
    obtain ⟨scope, keeps⟩ := keeps
    unfold runInPlace at ran
    split at ran
    · next shared₁ task₁ stepped =>
      obtain ⟨⟨_, scope₁⟩, rfl, keeps₁⟩ := keeps.running closed stepped
      have follows := step_follows stepped
      obtain ⟨host, rfl⟩ := shared_of_running stepped
      have room₁ : World.Room shared.futures task₁.memory.owner task₁.memory.serial :=
        follows.owner ▸ room.mono follows.serial
      refine (ih ran ⟨scope₁, keeps₁⟩ results room₁).running (fun other => ?_) follows.owner
      rw [step_blind oblivious keeps other shared, stepped]
      rfl
    · next result shared₁ memory stepped =>
      cases ran
      obtain ⟨host, rfl⟩ := shared_of_ended stepped
      refine .ended (fun other => ?_) (fun v equal => ?_) results
      · rw [step_blind oblivious keeps other shared, stepped]
        rfl
      · cases equal
        exact keeps.ended closed stepped
    · next shared₁ label registers next frames memory stepped =>
      obtain ⟨rfl, rfl⟩ := eq_of_waiting stepped
      simp only [Memory.freshIdentity] at ran
      split at ran
      · cases ran
      · next result shared₂ memory₂ inner =>
        have forked := ih inner ⟨registerScope, .atBlock s _ label keeps.registers⟩
          (fun id v settled => by
            rw [Futures.outcome?_add_pending _ _ _ _ room.fresh] at settled
            exact results id v settled) room.child
        exact forked.fork room (ih ran
          ⟨scope, keeps.forked closed (fun _ known => known) (Set.mem_univ _)⟩
          (forked.settled_blind room) (forked.settled_room room))
    · next shared₁ id next frames memory stepped =>
      obtain ⟨rfl, rfl⟩ := eq_of_waiting stepped
      split at ran
      · cases ran
      · next result settled =>
        have answered : (Task.mk (next result) frames memory).Keeps withoutOf ⟨Set.univ, scope⟩ :=
          keeps.answered fun v same => results id v (same ▸ settled)
        exact (ih ran ⟨scope, answered⟩ results room).await settled
    · cases ran

end Task

namespace FlowDocument

variable {σ : Type}

/-- Every order of steps is finite and comes to what the one thread comes to, with the same outcomes
of all futures, if the code never calls `of`, handlers look at their arguments alone, and neither
they nor domains bring references of their own. Each fork of the one thread leaves a future, so
there are as many forks as futures. -/
theorem path_inPlace (doc : FlowDocument) (graph : FlowGraph) (s : Setting σ) (host : σ)
    (literal : ∀ entry ∈ s.inputs, ∃ l, entry.2 = Value.ofLiteral l) (conserves : s.Conserves)
    (oblivious : ∀ name handler, s.handler? name = some handler → handler.Oblivious)
    (calls : (doc.setting s graph).CallsOnly (Permitted (fun _ => True) withoutOf))
    (fuel : Nat) {outcome : Except Fault Value} {shared : Shared σ} {memory : Memory}
    (reference : Task.runInPlace (doc.setting s graph) fuel ⟨.empty, 0, host⟩
      (.atBlock (doc.setting s graph) entryTask graph.entry.id s.inputRegisters) =
        some (outcome, shared, memory))
    (enough : shared.futures.entries.length ≤ s.config.maxTasks) :
    ∃ bound, ∀ schedule w,
      World.Path (doc.setting s graph) schedule (doc.start s graph host) w →
        schedule.length ≤ bound ∧
        ((∀ who, ¬ w.canStep who) →
          w.result? = some outcome ∧
          ∀ id, w.shared.futures.outcome? id = shared.futures.outcome? id) := by
  have closed : (doc.setting s graph).Closed withoutOf :=
    { layer := rfl
      conserves := ⟨conserves.domains, conserves.handlers⟩
      inputs := literal
      calls := calls }
  have entries := Bindings.Alike.ofValues .mutable
    (closed.inputs_kept ⟨Set.univ, registerScope⟩)
  obtain ⟨-, -, forks, grown, foretold⟩ := Task.runInPlace_foreseen closed oblivious fuel reference
    ⟨registerScope, .atBlock _ entryTask _ entries⟩ (fun _ _ settled => by cases settled)
    (fun _ old => by cases old)
  obtain ⟨n, foretold⟩ := foretold shared.futures.outcome? fun _ _ settled => settled
  have course : World.Course (doc.setting s graph) shared.futures.outcome? outcome
      (doc.start s graph host) (n + 2) := by
    have ends : World.Ends shared.futures.outcome? outcome entryTask outcome :=
      (if_pos rfl).mpr rfl
    refine ⟨⟨_, forks, .single (.running foretold ends), ?_, fun id told => .inr ?_⟩, ?_,
      .inr (List.mem_singleton_self _)⟩
    · have count := grown.count
      simp only [Futures.empty, List.length_nil, Nat.zero_add] at count
      change 0 + forks.length ≤ s.config.maxTasks
      omega
    · refine (grown.found id ?_).resolve_left Bool.false_ne_true
      cases found : shared.futures.get? id with
      | none =>
        rw [Futures.outcome?, found] at told
        cases told
      | some future => rfl
    · intro _ _ settled
      cases settled
  refine ⟨(n + 2) * (n + 3) + (doc.start s graph host).awake, fun schedule w path => ?_⟩
  obtain ⟨bound, m, ends⟩ := course.path path
  refine ⟨bound, fun stuck => ends.ended ?_ ?_⟩
  · exact path.invariant (.start _ _ _ host) fun who w tidy awake => tidy.step who w awake
  · by_contra unfinished
    have acyclic : World.Acyclic withoutOf w :=
      path.invariant (.start closed graph.entry.id host) fun who w acyclic awake =>
        acyclic.step closed who w awake
    obtain ⟨who, awake⟩ := acyclic.progress unfinished
    exact stuck who awake

theorem path_inPlace_forkJoin : ∃ bound, ∀ schedule (w : World Unit),
    World.Path (forkJoin.setting {} ⟨⟨"main", [], .fork "body" "rest" "task"⟩, forkJoin.blocks⟩)
        schedule (forkJoin.start {} ⟨⟨"main", [], .fork "body" "rest" "task"⟩, forkJoin.blocks⟩ ())
        w →
      schedule.length ≤ bound ∧
      ((∀ who, ¬ w.canStep who) →
        w.result? = some (.ok .void) ∧ w.shared.futures.outcome? [1] = some (.ok .void)) := by
  have conserves : ({} : Setting Unit).Conserves :=
    ⟨fun _ _ found => Domains.builtin_conserves found, fun _ _ found => by cases found⟩
  have calls : (forkJoin.setting ({} : Setting Unit)
      ⟨⟨"main", [], .fork "body" "rest" "task"⟩, forkJoin.blocks⟩).CallsOnly
        (Permitted (fun _ => True) withoutOf) := by
    refine ⟨fun _ _ found => ?_, fun _ _ _ found => ?_, ?_⟩
    · cases found
    · cases found
    · simp [forkJoin, FlowDocument.setting]
  obtain ⟨bound, all⟩ := path_inPlace forkJoin
    ⟨⟨"main", [], .fork "body" "rest" "task"⟩, forkJoin.blocks⟩ {} () (by simp) conserves
    (fun _ _ found => by cases found) calls 20 (by rfl) (by decide)
  refine ⟨bound, fun schedule w path => (all schedule w path).imp_right fun ends stuck => ?_⟩
  obtain ⟨result, outcomes⟩ := ends stuck
  exact ⟨result, outcomes [1]⟩

end FlowDocument
end LayeredIR
