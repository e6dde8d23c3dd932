import LayeredIR.Scope
import Mathlib.Data.List.Forall2

/-! Heaps that stand for each other. Scopes that correspond bind the same names to values that
correspond and lie within scopes that correspond, so that what is visible in them corresponds
too. -/
namespace LayeredIR

theorem rel_imp {α β : Type} {R S : α → β → Prop} (weaker : ∀ a b, R a b → S a b) {a : Option α}
    {b : Option β} (same : Option.Rel R a b) : Option.Rel S a b := by
  cases same with
  | none => exact .none
  | some related => exact .some (weaker _ _ related)

theorem lookup_related {α β : Type} {R : α → β → Prop} {table : List (String × α)}
    {table' : List (String × β)}
    (same : List.Forall₂ (fun entry entry' => entry.1 = entry'.1 ∧ R entry.2 entry'.2) table table')
    (key : String) : Option.Rel R (table.lookup key) (table'.lookup key) := by
  induction same with
  | nil => exact .none
  | @cons entry entry' rest rest' head _ ih =>
    obtain ⟨name, a⟩ := entry
    obtain ⟨name', b⟩ := entry'
    obtain ⟨rfl, related⟩ := head
    simp only [List.lookup_cons]
    split
    · exact .some related
    · exact ih

/-- A table in which every value is related to itself. -/
theorem lookup_self {α : Type} {R : α → α → Prop} {table : List (String × α)}
    (all : ∀ entry ∈ table, R entry.2 entry.2) (key : String) :
    Option.Rel R (table.lookup key) (table.lookup key) :=
  lookup_related (List.forall₂_same.mpr fun entry member => ⟨rfl, all entry member⟩) key

def Binding.Alike (value : Value → Value → Prop) (b b' : Binding) : Prop :=
  value b.value b'.value ∧ b.mutability = b'.mutability

def Bindings.Alike (value : Value → Value → Prop) : Bindings → Bindings → Prop :=
  List.Forall₂ fun entry entry' => entry.1 = entry'.1 ∧ Binding.Alike value entry.2 entry'.2

structure Scope.Alike (value : Value → Value → Prop) (related : ScopeId → ScopeId → Prop)
    (a b : ScopeId) (scope scope' : Scope) : Prop where
  bindings : Bindings.Alike value scope.bindings scope'.bindings
  parent : Option.Rel (fun p q => related p q ∧ p < a ∧ q < b) scope.parent scope'.parent

def Heap.Alike (value : Value → Value → Prop) (related : ScopeId → ScopeId → Prop)
    (heap heap' : Heap) : Prop :=
  ∀ a b, related a b → Option.Rel (Scope.Alike value related a b) (heap.get? a) (heap'.get? b)

variable {value value' : Value → Value → Prop} {related related' : ScopeId → ScopeId → Prop}

namespace Bindings.Alike

variable {near near' far far' : Bindings}

theorem mono (more : ∀ v v', value v v' → value' v v') (alike : Bindings.Alike value near near') :
    Bindings.Alike value' near near' :=
  alike.imp fun _ _ same => ⟨same.1, more _ _ same.2.1, same.2.2⟩

theorem find? (alike : Bindings.Alike value near near') (name : String) :
    Option.Rel (Binding.Alike value) (near.find? name) (near'.find? name) :=
  lookup_related (R := Binding.Alike value) alike name

theorem set (alike : Bindings.Alike value near near') (name : String) {v v' : Value}
    (mutability : Mutability) (values : value v v') :
    Bindings.Alike value (near.set name ⟨v, mutability⟩) (near'.set name ⟨v', mutability⟩) := by
  induction alike with
  | nil => exact .cons ⟨rfl, values, rfl⟩ .nil
  | @cons entry entry' rest rest' head tail ih =>
    simp only [Bindings.set, head.1]
    split
    · exact .cons ⟨rfl, values, rfl⟩ tail
    · exact .cons head ih

theorem merge (nears : Bindings.Alike value near near') (fars : Bindings.Alike value far far') :
    Bindings.Alike value (near.merge far) (near'.merge far') := by
  refine List.rel_append nears (List.rel_filter ?_ fars)
  intro parts parts' parts''
  obtain ⟨name, binding⟩ := parts
  obtain ⟨name', binding'⟩ := parts'
  obtain ⟨rfl, -⟩ := parts''
  have found := nears.find? name
  simp only
  generalize near.find? name = b, near'.find? name = b' at found
  cases found <;> simp

theorem values (alike : Bindings.Alike value near near') :
    List.Forall₂ (fun entry entry' => entry.1 = entry'.1 ∧ value entry.2 entry'.2)
      near.values near'.values := by
  simp only [Bindings.values, List.forall₂_map_left_iff, List.forall₂_map_right_iff]
  exact alike.imp fun _ _ same => ⟨same.1, same.2.1⟩

theorem ofValues (mutability : Mutability) {entries entries' : List (String × Value)}
    (same : List.Forall₂ (fun entry entry' => entry.1 = entry'.1 ∧ value entry.2 entry'.2)
      entries entries') :
    Bindings.Alike value (.ofValues mutability entries) (.ofValues mutability entries') := by
  simp only [Bindings.Alike, Bindings.ofValues, List.forall₂_map_left_iff,
    List.forall₂_map_right_iff]
  exact same.imp fun _ _ entry => ⟨entry.1, entry.2, rfl⟩

end Bindings.Alike

theorem Scope.Alike.mono (more : ∀ v v', value v v' → value' v v')
    (wider : ∀ a b, related a b → related' a b) {a b : ScopeId} {scope scope' : Scope}
    (alike : Scope.Alike value related a b scope scope') :
    Scope.Alike value' related' a b scope scope' := by
  obtain ⟨bindings, parents⟩ := alike
  exact ⟨bindings.mono more, rel_imp (fun _ _ around => ⟨wider _ _ around.1, around.2⟩) parents⟩

namespace Heap

theorem get?_add (heap : Heap) (bindings : Bindings) (parent : Option ScopeId) (id : ScopeId) :
    (heap.add bindings parent).2.get? id =
      if id = heap.size then some ⟨bindings, parent⟩ else heap.get? id := Array.getElem?_push

theorem get?_define (heap : Heap) (place : ScopeId) (name : String) (binding : Binding)
    (id : ScopeId) :
    (heap.define place name binding).get? id = if place = id then
      (heap.get? id).map fun scope => { scope with bindings := scope.bindings.set name binding }
    else heap.get? id := Array.getElem?_modify

/-- Binding a name moves no scope to another one. -/
theorem parent_define {heap : Heap} {place : ScopeId} {name : String} {binding : Binding}
    {id : ScopeId} {scope : Scope} (found : (heap.define place name binding).get? id = some scope) :
    ∃ old, heap.get? id = some old ∧ old.parent = scope.parent := by
  rw [get?_define] at found
  split at found
  · obtain ⟨old, held, rfl⟩ := Option.map_eq_some_iff.mp found
    exact ⟨old, held, rfl⟩
  · exact ⟨scope, found, rfl⟩

theorem size_add (heap : Heap) (bindings : Bindings) (parent : Option ScopeId) :
    (heap.add bindings parent).2.size = heap.size + 1 := Array.size_push _

theorem size_lt_add (heap : Heap) (bindings : Bindings) (parent : Option ScopeId) :
    heap.size < (heap.add bindings parent).2.size := by
  rw [size_add]
  exact Nat.lt_succ_self _

theorem size_define (heap : Heap) (place : ScopeId) (name : String) (binding : Binding) :
    (heap.define place name binding).size = heap.size := Array.size_modify

theorem size_assign (heap : Heap) (id : ScopeId) (name : String) (value : Value) :
    (heap.assign id name value).2.size = heap.size := by
  unfold assign
  split
  · rfl
  · rfl
  · exact heap.size_define _ name _

theorem lt_size_of_get? {heap : Heap} {id : ScopeId} {scope : Scope}
    (found : heap.get? id = some scope) : id < heap.size := by
  obtain ⟨bound, -⟩ := Array.getElem?_eq_some_iff.mp found
  exact bound

theorem find?_eq_some {heap : Heap} {id place : ScopeId} {name : String} {binding : Binding}
    (found : heap.find? id name = some (place, binding)) :
    ∃ scope, heap.get? place = some scope ∧ scope.bindings.find? name = some binding := by
  unfold find? at found
  generalize id + 1 = fuel at found
  induction fuel generalizing id with
  | zero => cases found
  | succ fuel ih =>
    simp only [findWithin] at found
    split at found
    · cases found
    · next scope here =>
      split at found
      · next own bound =>
        cases found
        exact ⟨scope, here, bound⟩
      · split at found
        · cases found
        · exact ih found

end Heap

structure Heap.Extends (n : Nat) (heap later : Heap) : Prop where
  size : n ≤ later.size
  same : ∀ i < n, later.get? i = heap.get? i

namespace Heap.Extends

variable {n m : Nat} {heap later last : Heap}

theorem refl (heap : Heap) (within : n ≤ heap.size) : heap.Extends n heap :=
  ⟨within, fun _ _ => rfl⟩

theorem restrict (extends_ : heap.Extends n later) (le : m ≤ n) : heap.Extends m later :=
  ⟨Nat.le_trans le extends_.size, fun i bound => extends_.same i (Nat.lt_of_lt_of_le bound le)⟩

theorem trans (first : heap.Extends n later) (second : later.Extends m last) (le : n ≤ m) :
    heap.Extends n last :=
  ⟨Nat.le_trans le second.size, fun i bound =>
    (second.same i (Nat.lt_of_lt_of_le bound le)).trans (first.same i bound)⟩

theorem add (heap : Heap) (bindings : Bindings) (parent : Option ScopeId) (le : n ≤ heap.size) :
    heap.Extends n (heap.add bindings parent).2 := by
  refine ⟨?_, fun i bound => ?_⟩
  · rw [Heap.size_add]
    exact Nat.le_succ_of_le le
  · rw [Heap.get?_add, if_neg (Nat.ne_of_lt (Nat.lt_of_lt_of_le bound le))]

theorem define (heap : Heap) {place : ScopeId} (name : String) (binding : Binding)
    (fence : n ≤ place) (le : n ≤ heap.size) : heap.Extends n (heap.define place name binding) := by
  refine ⟨?_, fun i bound => ?_⟩
  · rwa [Heap.size_define]
  · rw [Heap.get?_define, if_neg (Nat.ne_of_gt (Nat.lt_of_lt_of_le bound fence))]

theorem assign {heap : Heap} {id : ScopeId} {name : String} (v : Value)
    (spares : ∀ place binding, heap.find? id name = some (place, binding) → n ≤ place)
    (le : n ≤ heap.size) : heap.Extends n (heap.assign id name v).2 := by
  unfold Heap.assign
  cases found : heap.find? id name with
  | none => exact .refl heap le
  | some held =>
    obtain ⟨place, u, mutability⟩ := held
    cases mutability with
    | immutable => exact .refl heap le
    | mutable => exact .define heap name _ (spares place _ found) le

theorem captured (heap : Heap) (c : Captured) (le : n ≤ heap.size) :
    heap.Extends n (heap.captured c).2 := by
  cases c with
  | shared a => exact .refl heap le
  | frozen entries => exact .add heap _ none le

end Heap.Extends

namespace Heap.Alike

variable {heap heap' : Heap} (alike : Heap.Alike value related heap heap') {a b : ScopeId}
include alike

theorem scope_cases (same : related a b) :
    heap.get? a = none ∧ heap'.get? b = none ∨
      ∃ scope scope', heap.get? a = some scope ∧ heap'.get? b = some scope' ∧
        Scope.Alike value related a b scope scope' := by
  have scopes := alike a b same
  generalize heap.get? a = found, heap'.get? b = found' at scopes ⊢
  cases scopes with
  | none => exact .inl ⟨rfl, rfl⟩
  | some scopes => exact .inr ⟨_, _, rfl, rfl, scopes⟩

theorem mono (more : ∀ v v', value v v' → value' v v') :
    Heap.Alike value' related heap heap' := fun a b same =>
  rel_imp (fun _ _ scopes => scopes.mono more fun _ _ outer => outer) (alike a b same)

def Found (value : Value → Value → Prop) (related : ScopeId → ScopeId → Prop)
    (p p' : ScopeId × Binding) : Prop :=
  related p.1 p'.1 ∧ Binding.Alike value p.2 p'.2

theorem findWithin (name : String) {fuel fuel' : Nat} (enough : a < fuel) (enough' : b < fuel')
    (same : related a b) :
    Option.Rel (Found value related) (heap.findWithin name fuel a)
      (heap'.findWithin name fuel' b) := by
  induction fuel generalizing fuel' a b with
  | zero => exact absurd enough (Nat.not_lt_zero a)
  | succ fuel ih =>
    obtain ⟨fuel', rfl⟩ := Nat.exists_eq_succ_of_ne_zero (Nat.ne_zero_of_lt enough')
    simp only [Heap.findWithin]
    rcases alike.scope_cases same with ⟨none, none'⟩ | ⟨scope, scope', found, found', scopes⟩
    · rw [none, none']
      exact .none
    · rw [found, found']
      simp only
      have bindings := scopes.bindings.find? name
      have parents := scopes.parent
      generalize scope.bindings.find? name = own, scope'.bindings.find? name = own'
        at bindings ⊢
      generalize scope.parent = around, scope'.parent = around' at parents ⊢
      cases bindings with
      | some pair => exact .some ⟨same, pair⟩
      | none =>
        cases parents with
        | none => exact .none
        | some parents =>
          obtain ⟨same', older, older'⟩ := parents
          exact ih (Nat.lt_of_lt_of_le older (Nat.le_of_lt_succ enough))
            (Nat.lt_of_lt_of_le older' (Nat.le_of_lt_succ enough')) same'

theorem find? (name : String) (same : related a b) :
    Option.Rel (Found value related) (heap.find? a name) (heap'.find? b name) :=
  alike.findWithin name (Nat.lt_succ_self a) (Nat.lt_succ_self b) same

theorem lookup (name : String) (same : related a b) :
    Option.Rel value (heap.lookup a name) (heap'.lookup b name) := by
  have found := alike.find? name same
  unfold Heap.lookup
  generalize heap.find? a name = p, heap'.find? b name = p' at found ⊢
  cases found with
  | none => exact .none
  | some pair => exact .some pair.2.1

theorem chainWithin {fuel fuel' : Nat} (enough : a < fuel) (enough' : b < fuel')
    (same : related a b) :
    List.Forall₂ related (heap.chainWithin fuel a) (heap'.chainWithin fuel' b) := by
  induction fuel generalizing fuel' a b with
  | zero => exact absurd enough (Nat.not_lt_zero a)
  | succ fuel ih =>
    obtain ⟨fuel', rfl⟩ := Nat.exists_eq_succ_of_ne_zero (Nat.ne_zero_of_lt enough')
    simp only [Heap.chainWithin]
    rcases alike.scope_cases same with ⟨none, none'⟩ | ⟨scope, scope', found, found', scopes⟩
    · rw [none, none']
      exact .nil
    · rw [found, found']
      have parents := scopes.parent
      simp only
      generalize scope.parent = around, scope'.parent = around' at parents ⊢
      cases parents with
      | none => exact .cons same .nil
      | some parents =>
        obtain ⟨same', older, older'⟩ := parents
        exact .cons same (ih (Nat.lt_of_lt_of_le older (Nat.le_of_lt_succ enough))
          (Nat.lt_of_lt_of_le older' (Nat.le_of_lt_succ enough')) same')

theorem localsOf (same : related a b) :
    Bindings.Alike value (heap.localsOf a) (heap'.localsOf b) := by
  unfold Heap.localsOf
  rcases alike.scope_cases same with ⟨none, none'⟩ | ⟨scope, scope', found, found', scopes⟩
  · rw [none, none']
    exact .nil
  · rw [found, found']
    exact scopes.bindings

theorem flatten (same : related a b) :
    Bindings.Alike value (heap.flatten a) (heap'.flatten b) := by
  have chains : List.Forall₂ related (heap.chain a) (heap'.chain b) :=
    alike.chainWithin (Nat.lt_succ_self a) (Nat.lt_succ_self b) same
  exact List.rel_foldl (P := Bindings.Alike value) (R := related)
    (fun _ _ nears _ _ places => nears.merge (alike.localsOf places)) .nil chains

theorem add {bindings bindings' : Bindings} {parent parent' : Option ScopeId}
    (more : ∀ v v', value v v' → value' v v')
    (wider : ∀ a b, related a b → related' a b)
    (new : ∀ a b, related' a b → a = heap.size ∧ b = heap'.size ∨
      a ≠ heap.size ∧ b ≠ heap'.size ∧ related a b)
    (entries : Bindings.Alike value' bindings bindings')
    (parents : Option.Rel (fun p q => related' p q ∧ p < heap.size ∧ q < heap'.size)
      parent parent') :
    Heap.Alike value' related' (heap.add bindings parent).2 (heap'.add bindings' parent').2 := by
  intro a b same
  rw [get?_add, get?_add]
  rcases new a b same with ⟨rfl, rfl⟩ | ⟨old, old', same'⟩
  · rw [if_pos rfl, if_pos rfl]
    exact .some ⟨entries, parents⟩
  · rw [if_neg old, if_neg old']
    exact rel_imp (fun _ _ scopes => scopes.mono more wider) (alike a b same')

theorem define (name : String) (mutability : Mutability) {v v' : Value}
    (only : ∀ a' b', related a' b' → (a = a' ↔ b = b')) (values : value v v') :
    Heap.Alike value related (heap.define a name ⟨v, mutability⟩)
      (heap'.define b name ⟨v', mutability⟩) := by
  intro a' b' same
  rw [get?_define, get?_define]
  have scopes := alike a' b' same
  by_cases here : a = a'
  · rw [if_pos here, if_pos ((only a' b' same).mp here)]
    generalize heap.get? a' = scope, heap'.get? b' = scope' at scopes ⊢
    cases scopes with
    | none => exact .none
    | some scopes => exact .some ⟨scopes.bindings.set name mutability values, scopes.parent⟩
  · rw [if_neg here, if_neg fun there => here ((only a' b' same).mpr there)]
    exact scopes

theorem assign (name : String) {v v' : Value} (same : related a b)
    (only : ∀ a b a' b', related a b → related a' b' → (a = a' ↔ b = b')) (values : value v v') :
    (heap.assign a name v).1 = (heap'.assign b name v').1 ∧
      Heap.Alike value related (heap.assign a name v).2 (heap'.assign b name v').2 := by
  have found := alike.find? name same
  unfold Heap.assign
  generalize heap.find? a name = p, heap'.find? b name = p' at found ⊢
  cases found with
  | none => exact ⟨rfl, alike⟩
  | @some p p' pair =>
    obtain ⟨place, u, mutability⟩ := p
    obtain ⟨place', u', mutability'⟩ := p'
    obtain ⟨places, -, rfl : mutability = mutability'⟩ := pair
    cases mutability with
    | immutable => exact ⟨rfl, alike⟩
    | mutable => exact ⟨rfl, alike.define name .mutable (only _ _ · · places) values⟩

end Heap.Alike
end LayeredIR
