import LayeredIR.Proofs.Heap
import LayeredIR.Proofs.Rules
import LayeredIR.Task

/-! Memories that hold permitted values only. Where operators, domains and handlers make permitted
values of permitted ones, such a memory answers the queries of a plan that obeys the rules with
permitted values, and goes on to hold no others. -/
namespace LayeredIR

def Bindings.All (P : Value → Prop) (bindings : Bindings) : Prop :=
  ∀ entry ∈ bindings, P entry.2.value

namespace Bindings.All

variable {P : Value → Prop} {bindings near far : Bindings}

theorem nil : Bindings.All P [] := by simp [Bindings.All]

theorem set (all : bindings.All P) (name : String) {binding : Binding} (new : P binding.value) :
    (bindings.set name binding).All P := by
  induction bindings with
  | nil => simpa [Bindings.set, Bindings.All] using new
  | cons entry rest ih =>
    have first : P entry.2.value := all entry (by simp)
    have others : Bindings.All P rest := fun entry member => all entry (by simp [member])
    simp only [Bindings.set]
    split
    · exact List.forall_mem_cons.mpr ⟨new, others⟩
    · exact List.forall_mem_cons.mpr ⟨first, ih others⟩

theorem merge (nears : near.All P) (fars : far.All P) : (near.merge far).All P := by
  intro entry member
  rcases List.mem_append.mp member with early | late
  · exact nears entry early
  · exact fars entry (List.mem_filter.mp late).1

theorem ofValues (mutability : Mutability) {entries : List (String × Value)}
    (all : ∀ entry ∈ entries, P entry.2) : (Bindings.ofValues mutability entries).All P := by
  intro entry member
  obtain ⟨given, among, rfl⟩ := List.mem_map.mp member
  exact all given among

theorem find? (all : bindings.All P) {name : String} {binding : Binding}
    (found : bindings.find? name = some binding) : P binding.value := by
  obtain ⟨before, after, split, -⟩ := List.lookup_eq_some_iff.mp found
  exact all (name, binding) (by simp [split])

end Bindings.All

def Heap.All (P : Value → Prop) (heap : Heap) : Prop :=
  ∀ place scope, heap.get? place = some scope → scope.bindings.All P

namespace Heap.All

variable {P : Value → Prop} {heap : Heap} (all : heap.All P)
include all

theorem add {bindings : Bindings} (new : bindings.All P) (parent : Option ScopeId) :
    (heap.add bindings parent).2.All P := by
  intro place scope found
  rw [Heap.get?_add] at found
  split at found
  · cases found
    exact new
  · exact all place scope found

theorem define (place : ScopeId) (name : String) {binding : Binding} (new : P binding.value) :
    (heap.define place name binding).All P := by
  intro other scope found
  rw [Heap.get?_define] at found
  split at found
  · obtain ⟨old, held, rfl⟩ := Option.map_eq_some_iff.mp found
    exact (all other old held).set name new
  · exact all other scope found

theorem assign (place : ScopeId) (name : String) {v : Value} (new : P v) :
    (heap.assign place name v).2.All P := by
  unfold Heap.assign
  split
  · exact all
  · exact all
  · exact all.define _ name new

theorem lookup {place : ScopeId} {name : String} {v : Value}
    (found : heap.lookup place name = some v) : P v := by
  obtain ⟨⟨holder, binding⟩, nearest, rfl⟩ := Option.map_eq_some_iff.mp found
  obtain ⟨scope, held, bound⟩ := Heap.find?_eq_some nearest
  exact (all holder scope held).find? bound

theorem localsOf (place : ScopeId) : (heap.localsOf place).All P := by
  unfold Heap.localsOf
  split
  · exact all _ _ ‹_›
  · exact .nil

theorem flatten (place : ScopeId) : (heap.flatten place).All P := by
  have merged (places : List ScopeId) (near : Bindings) (nears : near.All P) :
      Bindings.All P
        (places.foldl (fun near place => Bindings.merge near (heap.localsOf place)) near) := by
    induction places generalizing near with
    | nil => exact nears
    | cons place rest ih => exact ih _ (nears.merge (all.localsOf place))
  exact merged _ [] .nil

theorem captured {c : Captured} (permitted : c.All P) : (heap.captured c).2.All P := by
  cases c with
  | shared place => exact all
  | frozen entries => exact all.add (.ofValues .immutable permitted) none

end Heap.All

structure Memory.Holds (P : Value → Prop) (memory : Memory) : Prop where
  heap : memory.heap.All P
  kept : ∀ entry ∈ memory.kept, P entry.2

namespace Memory.Holds

variable {P : Value → Prop} {memory : Memory}

theorem initial (owner : Identity) (maxCallDepth : Nat) :
    (Memory.initial owner maxCallDepth).Holds P where
  heap := by
    intro place scope found
    obtain ⟨within, rfl⟩ := Array.getElem?_eq_some_iff.mp found
    have only : place = 0 := Nat.lt_one_iff.mp within
    subst only
    exact .nil
  kept := by simp [Memory.initial]

theorem withRegisters (owner : Identity) (maxCallDepth : Nat) {registers : Bindings}
    (all : registers.All P) : (Memory.withRegisters owner maxCallDepth registers).Holds P where
  heap := by
    intro place scope found
    match place, found with
    | 0, found =>
      cases found
      exact .nil
    | 1, found =>
      cases found
      exact all
    | place + 2, found => cases found
  kept := by simp [Memory.withRegisters, Memory.initial]

theorem enter (holds : memory.Holds P) (site : CallSite) : (memory.enter site).Holds P :=
  ⟨holds.heap, holds.kept⟩

theorem leave (holds : memory.Holds P) (isDefinition : Bool) :
    (memory.leave isDefinition).Holds P := ⟨holds.heap, holds.kept⟩

end Memory.Holds

structure Rules.Closed (r : Rules) {σ : Type} (s : Setting σ) : Prop where
  operator : ∀ op args v, (∀ arg ∈ args, r.value arg) → Operator.compute op args = .ok v →
    r.value v
  domain : ∀ d typeOf op args v, r.domain d → (∀ arg ∈ args, r.value arg) →
    Domain.call d typeOf op args = .ok v → r.value v
  handler : ∀ name handler futures args host v, s.handler? name = some handler →
    (∀ arg ∈ args, r.value arg) → (handler futures args host).1 = .ok v → r.value v

theorem Rules.Closed.serve {r : Rules} {σ : Type} {s : Setting σ} (closed : r.Closed s) {q : Query}
    (shared : Shared σ) {memory : Memory} (permitted : r.Queries q)
    (holds : memory.Holds r.value) :
    (s.serve q shared memory).2.2.Holds r.value ∧ r.Answers q (s.serve q shared memory).1 := by
  cases q with
  | lookup place name => exact ⟨holds, fun v found => holds.heap.lookup found⟩
  | define place name v mutability =>
    exact ⟨⟨holds.heap.define place name permitted, holds.kept⟩, nofun⟩
  | assign place name v => exact ⟨⟨holds.heap.assign place name permitted, holds.kept⟩, nofun⟩
  | child place => exact ⟨⟨holds.heap.add .nil (some place), holds.kept⟩, nofun⟩
  | enter captured => exact ⟨⟨(holds.heap.captured permitted).add .nil _, holds.kept⟩, nofun⟩
  | flatten place =>
    refine ⟨holds, ?_⟩
    rintro _ ⟨entry, member, rfl⟩
    exact holds.heap.flatten place entry member
  | fresh => exact ⟨⟨holds.heap, holds.kept⟩, nofun⟩
  | isActive key => exact ⟨holds, nofun⟩
  | innermost => exact ⟨holds, nofun⟩
  | recollect id =>
    refine ⟨holds, fun v found => ?_⟩
    obtain ⟨before, after, split, -⟩ := List.lookup_eq_some_iff.mp found
    exact holds.kept (id, v) (by simp [split])
  | remember id v =>
    exact ⟨⟨holds.heap, List.forall_mem_cons.mpr ⟨permitted, holds.kept⟩⟩, nofun⟩
  | compute op args => exact ⟨holds, fun v => closed.operator op args v permitted⟩
  | dispatch d op args =>
    exact ⟨holds, fun v => closed.domain d _ op args v permitted.1 permitted.2⟩
  | perform effect args =>
    simp only [Setting.serve]
    cases found : s.handler? effect with
    | none => exact ⟨holds, nofun⟩
    | some handler =>
      exact ⟨holds, fun v => closed.handler effect handler _ args _ v found permitted⟩

end LayeredIR
