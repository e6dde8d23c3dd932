import LayeredIR.Proofs.Bodies.Twins

/-! Bodies write to no scope that was there before them. Where the root scope binds nothing, no name
that they can rebind stands in an older scope. -/
namespace LayeredIR

def Query.Spares (n : Nat) (heap : Heap) : Query → Prop
  | .define place _ _ _ => n ≤ place
  | .assign id name _ => ∀ place binding, heap.find? id name = some (place, binding) → n ≤ place
  | _ => True

theorem Query.Spares.serve {σ : Type} (s : Setting σ) (shared : Shared σ) {memory : Memory}
    {base : Heap} {n : Nat} {q : Query} (spares : q.Spares n memory.heap)
    (extends_ : base.Extends n memory.heap) :
    base.Extends n (s.serve q shared memory).2.2.heap := by
  have le := extends_.size
  cases q with
  | define place name v mutability =>
    exact extends_.trans (.define memory.heap name _ spares le) (Nat.le_refl n)
  | assign id name v => exact extends_.trans (.assign v spares le) (Nat.le_refl n)
  | child outer => exact extends_.trans (.add memory.heap [] _ le) (Nat.le_refl n)
  | enter c =>
    have captured := extends_.trans (.captured memory.heap c le) (Nat.le_refl n)
    exact captured.trans (.add _ [] _ captured.size) (Nat.le_refl n)
  | perform effect args =>
    simp only [Setting.serve]
    split <;> exact extends_
  | _ => exact extends_

namespace Likeness

variable {σ : Type} {s : Setting σ} {m m' : Memory} {alike : m.CallsAlike m'}

theorem twins_spare {uniform : s.Uniform} {n : Nat} {stacked : CallStack → CallStack → Prop}
    {memory memory' : Memory}
    (aligned : (twins alike).Aligned (twinsRegular uniform alike).extent stacked n memory memory')
    (old : m.heap.Extends m.heap.size memory.heap) {q q' : Query}
    (queries : (twins alike).Queries n q q') :
    q.Spares m.heap.size memory.heap ∧ q'.Spares m'.heap.size memory'.heap := by
  have empty : memory.RootEmpty := (old.same rootScope alike.size).trans alike.empty
  have unbound {id : ScopeId} {name : String} {binding : Binding}
      (found : memory.heap.find? id name = some (rootScope, binding)) : False := by
    obtain ⟨scope, here, bound⟩ := Heap.find?_eq_some found
    cases empty.symm.trans here
    cases bound
  cases queries with
  | define writable _ _ =>
    obtain ⟨k, -, rfl, rfl⟩ := writable
    exact ⟨Nat.le_add_right _ k, Nat.le_add_right _ k⟩
  | @assign a b name _ _ _ scope _ =>
    have found := aligned.heap.find? name (.inr scope)
    simp only [Query.Spares]
    generalize held : memory.heap.find? a name = p, held' : memory'.heap.find? b name = p' at found
    cases found with
    | none => exact ⟨fun _ _ => nofun, fun _ _ => nofun⟩
    | @some p p' pair =>
      obtain ⟨place, binding⟩ := p
      obtain ⟨place', binding'⟩ := p'
      obtain ⟨⟨rfl : place = rootScope, -⟩ | ⟨k, -, rfl, rfl⟩, -⟩ := pair
      · exact (unbound held).elim
      · constructor
        · intro _ _ impossible
          cases impossible
          exact Nat.le_add_right _ k
        · intro _ _ impossible
          cases impossible
          exact Nat.le_add_right _ k
  | _ => exact ⟨trivial, trivial⟩

def bodyMemories (uniform : s.Uniform) (alike : m.CallsAlike m') : (twins alike).Memories s s where
  alike n calls shared memory shared' memory' :=
    (memories (twinsRegular uniform alike)).alike n calls shared memory shared' memory' ∧
      m.heap.Extends m.heap.size memory.heap ∧ m'.heap.Extends m'.heap.size memory'.heap
  later := (memories (twinsRegular uniform alike)).later
  le_of_later := (memories (twinsRegular uniform alike)).le_of_later
  later_self := (memories (twinsRegular uniform alike)).later_self
  serve := by
    intro n calls shared memory shared' memory' q q' parts queries
    obtain ⟨⟨rfl, aligned⟩, old, old'⟩ := parts
    obtain ⟨spares, spares'⟩ := twins_spare aligned old queries
    obtain ⟨w, later, together, answers⟩ :=
      (memories (twinsRegular uniform alike)).serve ⟨rfl, aligned⟩ queries
    exact ⟨w, later, ⟨together, spares.serve s shared old, spares'.serve s shared old'⟩, answers⟩
  full same := (memories (twinsRegular uniform alike)).full same.1
  enter site same := ⟨(memories (twinsRegular uniform alike)).enter site same.1, same.2⟩
  leave isDefinition same :=
    ⟨(memories (twinsRegular uniform alike)).leave isDefinition same.1, same.2⟩
  attach same faults := (memories (twinsRegular uniform alike)).attach same.1 faults

end Likeness

end LayeredIR
