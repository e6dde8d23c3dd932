import LayeredIR.Proofs.References.Forms
import LayeredIR.Task

/-! Memories in which only the code of closures differs. They answer like requests alike. -/
namespace LayeredIR

section Recoded

variable (code : Arg → Arg → Prop)

structure Scope.Recoded (scope scope' : Scope) : Prop where
  bindings : Bindings.Alike (Value.Recoded code) scope.bindings scope'.bindings
  parent : scope.parent = scope'.parent

structure Heap.Recoded (heap heap' : Heap) : Prop where
  size : heap.size = heap'.size
  scopes : ∀ id, Option.Rel (Scope.Recoded code) (heap.get? id) (heap'.get? id)

structure Memory.Recoded (memory memory' : Memory) : Prop where
  owner : memory.owner = memory'.owner
  heap : memory.heap.Recoded code memory'.heap
  serial : memory.serial = memory'.serial
  stack : memory.stack = memory'.stack
  active : memory.active = memory'.active
  kept : List.Forall₂ (fun entry entry' => entry.1 = entry'.1 ∧
    Value.Recoded code entry.2 entry'.2) memory.kept memory'.kept

end Recoded

variable {code : Arg → Arg → Prop}

namespace Heap.Recoded

variable {heap heap' : Heap} (heaps : heap.Recoded code heap')
include heaps

theorem findWithin (name : String) (fuel : Nat) (id : ScopeId) :
    Option.Rel (fun p p' => p.1 = p'.1 ∧ Binding.Alike (Value.Recoded code) p.2 p'.2)
      (heap.findWithin name fuel id) (heap'.findWithin name fuel id) := by
  induction fuel generalizing id with
  | zero => exact .none
  | succ fuel ih =>
    have scopes := heaps.scopes id
    simp only [Heap.findWithin]
    generalize heap.get? id = scope, heap'.get? id = scope' at scopes
    cases scopes with
    | none => exact .none
    | @some scope scope' same =>
      have bindings := same.bindings.find? name
      simp only [← same.parent]
      generalize scope.bindings.find? name = own, scope'.bindings.find? name = own' at bindings
      cases bindings with
      | some pair => exact .some ⟨rfl, pair⟩
      | none =>
        cases scope.parent with
        | none => exact .none
        | some parent => exact ih parent

theorem find? (name : String) (id : ScopeId) :
    Option.Rel (fun p p' => p.1 = p'.1 ∧ Binding.Alike (Value.Recoded code) p.2 p'.2)
      (heap.find? id name) (heap'.find? id name) :=
  heaps.findWithin name (id + 1) id

theorem lookup (name : String) (id : ScopeId) :
    Option.Rel (Value.Recoded code) (heap.lookup id name) (heap'.lookup id name) := by
  have found := heaps.find? name id
  unfold Heap.lookup
  generalize heap.find? id name = p, heap'.find? id name = p' at found
  cases found with
  | none => exact .none
  | some pair => exact .some pair.2.1

theorem add {bindings bindings' : Bindings}
    (entries : Bindings.Alike (Value.Recoded code) bindings bindings') (parent : Option ScopeId) :
    (heap.add bindings parent).2.Recoded code (heap'.add bindings' parent).2 := by
  refine ⟨by rw [size_add, size_add, heaps.size], fun id => ?_⟩
  rw [get?_add, get?_add, heaps.size]
  split
  · exact .some ⟨entries, rfl⟩
  · exact heaps.scopes id

theorem define (place : ScopeId) (name : String) (mutability : Mutability) {v v' : Value}
    (values : Value.Recoded code v v') :
    (heap.define place name ⟨v, mutability⟩).Recoded code
      (heap'.define place name ⟨v', mutability⟩) := by
  refine ⟨by rw [size_define, size_define, heaps.size], fun id => ?_⟩
  rw [get?_define, get?_define]
  have scopes := heaps.scopes id
  split
  · generalize heap.get? id = scope, heap'.get? id = scope' at scopes
    cases scopes with
    | none => exact .none
    | some same => exact .some ⟨same.bindings.set name mutability values, same.parent⟩
  · exact scopes

theorem assign (id : ScopeId) (name : String) {v v' : Value} (values : Value.Recoded code v v') :
    (heap.assign id name v).1 = (heap'.assign id name v').1 ∧
      (heap.assign id name v).2.Recoded code (heap'.assign id name v').2 := by
  have found := heaps.find? name id
  unfold Heap.assign
  generalize heap.find? id name = p, heap'.find? id name = p' at found
  cases found with
  | none => exact ⟨rfl, heaps⟩
  | @some p p' pair =>
    obtain ⟨place, u, mutability⟩ := p
    obtain ⟨place', u', mutability'⟩ := p'
    obtain ⟨rfl : place = place', -, rfl : mutability = mutability'⟩ := pair
    cases mutability with
    | immutable => exact ⟨rfl, heaps⟩
    | mutable => exact ⟨rfl, heaps.define place name .mutable values⟩

theorem captured {c c' : Captured} (captures : Captured.Recoded code c c') :
    (heap.captured c).1 = (heap'.captured c').1 ∧
      (heap.captured c).2.Recoded code (heap'.captured c').2 := by
  cases captures with
  | shared a => exact ⟨rfl, heaps⟩
  | frozen same => exact ⟨heaps.size, heaps.add (.ofValues .immutable same) none⟩

end Heap.Recoded

theorem Memory.Recoded.refl (same : ∀ arg, code arg arg) (memory : Memory) :
    memory.Recoded code memory := by
  refine ⟨rfl, ⟨rfl, fun id => ?_⟩, rfl, rfl, rfl, ?_⟩
  · cases memory.heap.get? id with
    | none => exact .none
    | some scope =>
      exact .some ⟨List.forall₂_same.mpr fun _ _ => ⟨rfl, .refl same _, rfl⟩, rfl⟩
  · exact List.forall₂_same.mpr fun _ _ => ⟨rfl, .refl same _⟩

theorem Futures.typeOf_recoded (futures : Futures) {v v' : Value}
    (values : Value.Recoded code v v') : futures.typeOf v = futures.typeOf v' := by
  cases values <;> rfl

/-- A handler that does not read the code of closures: on values that differ in this code only, and
with hosts that stand for each other, it gives such values and leaves such hosts. -/
def Handler.Respects {σ : Type} (value : Value → Value → Prop) (hosts : σ → σ → Prop)
    (handler : Handler σ) : Prop :=
  ∀ futures args args' host host', List.Forall₂ value args args' → hosts host host' →
    ResultsAlike Eq value (handler futures args host).1 (handler futures args' host').1 ∧
      hosts (handler futures args host).2 (handler futures args' host').2

section Serving

variable {σ : Type} {hosts : σ → σ → Prop}

structure Shared.Respelled (hosts : σ → σ → Prop) (shared shared' : Shared σ) : Prop where
  futures : shared.futures = shared'.futures
  live : shared.live = shared'.live
  host : hosts shared.host shared'.host

variable {s : Setting σ} {nodes : Nodes} {definitions : Definitions}

structure Setting.Served (hosts : σ → σ → Prop) (s : Setting σ) {A A' : Type}
    (answers : A → A' → Prop) (served : A × Shared σ × Memory) (served' : A' × Shared σ × Memory) :
    Prop where
  answer : answers served.1 served'.1
  shared : served.2.1.Respelled hosts served'.2.1
  memory : served.2.2.Recoded (Arg.Respelled s.nodes s.layer) served'.2.2

theorem Setting.serve_respelled
    (handlers : ∀ name handler, s.handler? name = some handler →
      handler.Respects (Value.Respelled s.nodes s.layer) hosts)
    {shared shared' : Shared σ} {memory memory' : Memory}
    (shares : shared.Respelled hosts shared')
    (memories : memory.Recoded (Arg.Respelled s.nodes s.layer) memory') {q q' : Query}
    (queries : (Likeness.respelled s.nodes s.layer).Queries () q q') :
    s.Served hosts ((Likeness.respelled s.nodes s.layer).Answers () q q')
      (s.serve q shared memory)
      ((s.withCode nodes definitions).serve q' shared' memory') := by
  obtain ⟨owner, heap, serial, stack, active, kept⟩ := memory
  obtain ⟨owner', heap', serial', stack', active', kept'⟩ := memory'
  have unchanged := memories
  obtain ⟨rfl, heaps, rfl, rfl, rfl, keeps⟩ := memories
  cases queries with
  | @lookup a _ name reads scope =>
    obtain rfl := scope
    exact ⟨heaps.lookup name a, shares, unchanged⟩
  | @define a _ name v v' m _ writable mutabilities values =>
    obtain rfl := writable
    obtain rfl := mutabilities
    exact ⟨rfl, shares, ⟨rfl, heaps.define a name m values, rfl, rfl, rfl, keeps⟩⟩
  | @assign a _ name v v' _ scope values =>
    obtain rfl := scope
    obtain ⟨result, assigned⟩ := heaps.assign a name values
    exact ⟨result, shares, ⟨rfl, assigned, rfl, rfl, rfl, keeps⟩⟩
  | @child a _ outer =>
    obtain rfl := outer
    refine ⟨⟨heaps.size, heaps.size, heaps.size⟩, shares, ⟨rfl, ?_, rfl, rfl, rfl, keeps⟩⟩
    exact heaps.add .nil (some a)
  | enter none | flatten _ none => exact none.elim
  | fresh => exact ⟨rfl, shares, ⟨rfl, heaps, rfl, rfl, rfl, keeps⟩⟩
  | isActive | innermost => exact ⟨rfl, shares, unchanged⟩
  | @recollect id => exact ⟨lookup_related keeps id, shares, unchanged⟩
  | remember _ _ values =>
    exact ⟨trivial, shares, ⟨rfl, heaps, rfl, rfl, rfl, .cons ⟨rfl, values⟩ keeps⟩⟩
  | compute _ operands =>
    refine ⟨?_, shares, unchanged⟩
    exact Resemblance.compute_alike _
      (fun _ => (Resemblance.recoded_distinguishes Arg.Respelled.refl).comparable) operands
  | @dispatch domain op args args' known _ operands =>
    refine ⟨?_, shares, unchanged⟩
    refine known () op _ _ args args' trivial (fun v v' values => ?_) operands
    rw [shares.futures]
    exact Futures.typeOf_recoded _ values
  | @perform effect args args' _ operands =>
    obtain ⟨futures, live, host⟩ := shared
    obtain ⟨futures', live', host'⟩ := shared'
    obtain ⟨rfl : futures = futures', rfl : live = live', same : hosts host host'⟩ := shares
    change s.Served hosts _ (s.serve (.perform effect args) _ _)
      (s.serve (.perform effect args') _ _)
    simp only [serve]
    cases found : s.handler? effect with
    | none => exact ⟨rfl, ⟨rfl, rfl, same⟩, unchanged⟩
    | some handler =>
      obtain ⟨results, left⟩ := handlers effect handler found futures args args' _ _ operands same
      exact ⟨results, ⟨rfl, rfl, left⟩, unchanged⟩

/-- A closure is entered in the same new scope. -/
theorem Setting.serve_enter_respelled {shared shared' : Shared σ} {memory memory' : Memory}
    (shares : shared.Respelled hosts shared')
    (memories : memory.Recoded (Arg.Respelled s.nodes s.layer) memory') {c c' : Captured}
    (captures : Captured.Recoded (Arg.Respelled s.nodes s.layer) c c') :
    s.Served hosts Eq (s.serve (.enter c) shared memory)
      ((s.withCode nodes definitions).serve (.enter c') shared' memory') := by
  obtain ⟨owner, heap, serial, stack, active, kept⟩ := memory
  obtain ⟨owner', heap', serial', stack', active', kept'⟩ := memory'
  obtain ⟨rfl, heaps, rfl, rfl, rfl, keeps⟩ := memories
  obtain ⟨outer, opened⟩ := heaps.captured captures
  have inner : Heap.Recoded (Arg.Respelled s.nodes s.layer)
      ((heap.captured c).2.child (heap.captured c).1).2
      ((heap'.captured c').2.child (heap'.captured c').1).2 := by
    rw [outer]
    exact opened.add .nil _
  exact ⟨opened.size, shares, ⟨rfl, inner, rfl, rfl, rfl, keeps⟩⟩

end Serving

end LayeredIR
