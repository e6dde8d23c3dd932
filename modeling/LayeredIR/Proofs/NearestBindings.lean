import LayeredIR.Proofs.Lookups
import Mathlib.Logic.Relation

/-! The nearest binding of a name, as a relation: the search outwards stops at the first scope with
a binding of its own. It depends only on what the scopes bind that it passes. -/
namespace LayeredIR.Heap

variable {heap later : Heap}

def own (heap : Heap) (a : ScopeId) (name : String) : Option Binding :=
  (heap.get? a).bind fun scope => scope.bindings.find? name

def parent? (heap : Heap) (a : ScopeId) : Option ScopeId :=
  (heap.get? a).bind Scope.parent

inductive Nearest (heap : Heap) (name : String) : ScopeId → ScopeId → Binding → Prop
  | here {a binding} (bound : heap.own a name = some binding) : Nearest heap name a a binding
  | outward {a outer place binding} (free : heap.own a name = none)
    (around : heap.parent? a = some outer) (further : Nearest heap name outer place binding) :
    Nearest heap name a place binding

def Within (heap : Heap) : ScopeId → ScopeId → Prop :=
  Relation.ReflTransGen fun a outer => heap.parent? a = some outer

theorem own_add (heap : Heap) (bindings : Bindings) (parent : Option ScopeId) (a : ScopeId)
    (name : String) :
    (heap.add bindings parent).2.own a name =
      if a = heap.size then bindings.find? name else heap.own a name := by
  unfold own
  rw [get?_add]
  split <;> rfl

theorem parent?_add (heap : Heap) (bindings : Bindings) (parent : Option ScopeId) (a : ScopeId) :
    (heap.add bindings parent).2.parent? a = if a = heap.size then parent else heap.parent? a := by
  unfold parent?
  rw [get?_add]
  split <;> rfl

theorem own_define {a : ScopeId} (bound : a < heap.size) (name : String) (binding : Binding)
    (b : ScopeId) (other : String) :
    (heap.define a name binding).own b other =
      if b = a ∧ other = name then some binding else heap.own b other := by
  obtain ⟨scope, found⟩ : ∃ scope, heap.get? a = some scope := ⟨_, Array.getElem?_eq_getElem bound⟩
  unfold own
  rw [get?_define]
  by_cases here : a = b
  · subst here
    simp [found, Bindings.find?_set]
  · simp [here, Ne.symm here]

@[simp] theorem parent?_define (heap : Heap) (a : ScopeId) (name : String) (binding : Binding)
    (b : ScopeId) : (heap.define a name binding).parent? b = heap.parent? b := by
  unfold parent?
  rw [get?_define]
  split
  · cases heap.get? b <;> rfl
  · rfl

theorem lt_size_of_own {a : ScopeId} {name : String} {binding : Binding}
    (bound : heap.own a name = some binding) : a < heap.size := by
  obtain ⟨scope, found, -⟩ := Option.bind_eq_some_iff.mp bound
  exact lt_size_of_get? found

theorem findWithin_succ (heap : Heap) (name : String) (fuel : Nat) (a : ScopeId) :
    heap.findWithin name (fuel + 1) a =
      match heap.own a name with
      | some binding => some (a, binding)
      | none => (heap.parent? a).bind (heap.findWithin name fuel) := by
  rw [findWithin, own, parent?]
  cases heap.get? a with
  | none => rfl
  | some scope =>
    simp only [Option.bind_some]
    cases scope.bindings.find? name with
    | some binding => rfl
    | none => cases scope.parent <;> rfl

theorem Ordered.lt_of_parent? (ordered : heap.Ordered) {a outer : ScopeId}
    (around : heap.parent? a = some outer) : outer < a := by
  obtain ⟨scope, found, parent⟩ := Option.bind_eq_some_iff.mp around
  exact ordered a scope outer found parent

namespace Nearest

variable {name : String} {a place : ScopeId} {binding : Binding}

theorem own (nearest : heap.Nearest name a place binding) :
    heap.own place name = some binding := by
  induction nearest with
  | here bound => exact bound
  | outward _ _ _ ih => exact ih

theorem within (nearest : heap.Nearest name a place binding) : heap.Within a place := by
  induction nearest with
  | here => exact .refl
  | outward _ around _ ih => exact .head around ih

/-- A heap with the same bindings of a name, but for what they hold, has it bound nearest at the
same places. -/
theorem rebound (nearest : heap.Nearest name a place binding)
    (parents : ∀ b, later.parent? b = heap.parent? b)
    (shape : ∀ b, later.own b name = none ↔ heap.own b name = none) :
    ∃ new, later.own place name = some new ∧ later.Nearest name a place new := by
  induction nearest with
  | @here a binding bound =>
    obtain ⟨new, rebound⟩ : ∃ new, later.own a name = some new := by
      rw [← Option.ne_none_iff_exists', Ne, shape, bound]
      exact Option.some_ne_none binding
    exact ⟨new, rebound, .here rebound⟩
  | outward free around _ ih =>
    obtain ⟨new, rebound, nearest⟩ := ih
    exact ⟨new, rebound, .outward ((shape _).mpr free) ((parents _).trans around) nearest⟩

/-- The search for a name sees no scope but those that it starts within. -/
theorem of_agree (nearest : heap.Nearest name a place binding)
    (agree : ∀ b, heap.Within a b →
      later.own b name = heap.own b name ∧ later.parent? b = heap.parent? b) :
    later.Nearest name a place binding := by
  induction nearest with
  | here bound => exact .here ((agree _ .refl).1.trans bound)
  | outward free around _ ih =>
    obtain ⟨own, parent⟩ := agree _ .refl
    exact .outward (own.trans free) (parent.trans around) (ih fun b within =>
      agree b (.head around within))

end Nearest

namespace Ordered

variable (ordered : heap.Ordered)
include ordered

theorem findWithin_eq_some_iff {name : String} {fuel : Nat} {a place : ScopeId}
    {binding : Binding} (enough : a < fuel) :
    heap.findWithin name fuel a = some (place, binding) ↔
      heap.Nearest name a place binding := by
  induction fuel generalizing a with
  | zero => exact absurd enough (Nat.not_lt_zero a)
  | succ fuel ih =>
    rw [findWithin_succ]
    constructor
    · intro found
      cases bound : heap.own a name with
      | some own =>
        simp only [bound, Option.some.injEq, Prod.mk.injEq] at found
        obtain ⟨rfl, rfl⟩ := found
        exact .here bound
      | none =>
        simp only [bound] at found
        obtain ⟨outer, around, further⟩ := Option.bind_eq_some_iff.mp found
        have older := Nat.lt_of_lt_of_le (ordered.lt_of_parent? around) (Nat.le_of_lt_succ enough)
        exact .outward bound around ((ih older).mp further)
    · rintro (bound | ⟨free, around, further⟩)
      · simp [bound]
      · have older := Nat.lt_of_lt_of_le (ordered.lt_of_parent? around) (Nat.le_of_lt_succ enough)
        simpa [free, around] using (ih older).mpr further

/-- The search of the heap finds the nearest binding. -/
theorem find?_eq_some_iff {name : String} {a place : ScopeId} {binding : Binding} :
    heap.find? a name = some (place, binding) ↔ heap.Nearest name a place binding :=
  ordered.findWithin_eq_some_iff (Nat.lt_succ_self a)

theorem find?_eq_none_iff {name : String} {a : ScopeId} :
    heap.find? a name = none ↔ ∀ place binding, ¬ heap.Nearest name a place binding := by
  simp [Option.eq_none_iff_forall_ne_some, ← ordered.find?_eq_some_iff]

theorem lookup_eq_some_iff {name : String} {a : ScopeId} {v : Value} :
    heap.lookup a name = some v ↔
      ∃ place mutability, heap.Nearest name a place ⟨v, mutability⟩ := by
  simp only [← ordered.find?_eq_some_iff]
  constructor
  · intro looked
    obtain ⟨⟨place, u, mutability⟩, found, rfl⟩ := Option.map_eq_some_iff.mp looked
    exact ⟨place, mutability, found⟩
  · rintro ⟨place, mutability, found⟩
    simp [lookup, found]

theorem within_le {a b : ScopeId} (within : heap.Within a b) : b ≤ a := by
  induction within with
  | refl => exact Nat.le_refl a
  | tail _ around ih => exact Nat.le_trans (Nat.le_of_lt (ordered.lt_of_parent? around)) ih

theorem lookup_of_agree (ordered' : later.Ordered) {a : ScopeId} {name : String}
    (agree : ∀ b, heap.Within a b →
      later.own b name = heap.own b name ∧ later.parent? b = heap.parent? b) :
    later.lookup a name = heap.lookup a name := by
  -- a chain is the same in both heaps, so each is searched as the other
  have chain {b : ScopeId} (within : later.Within a b) : heap.Within a b := by
    induction within with
    | refl => exact .refl
    | tail _ around ih => exact ih.tail ((agree _ ih).2.symm.trans around)
  ext v
  rw [ordered'.lookup_eq_some_iff, ordered.lookup_eq_some_iff]
  constructor
  · rintro ⟨place, mutability, nearest⟩
    exact ⟨place, mutability, nearest.of_agree fun b within =>
      ⟨(agree b (chain within)).1.symm, (agree b (chain within)).2.symm⟩⟩
  · rintro ⟨place, mutability, nearest⟩
    exact ⟨place, mutability, nearest.of_agree agree⟩

end Ordered

end LayeredIR.Heap
