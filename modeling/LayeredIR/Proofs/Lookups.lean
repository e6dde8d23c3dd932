import LayeredIR.Proofs.Heap

/-! What names look up. All that is visible in a scope, put into one scope, looks up as it does
there; and no lookup sees past the scopes that a scope lies in. -/
namespace LayeredIR

namespace Bindings

theorem find?_merge (near far : Bindings) (name : String) :
    (near.merge far).find? name = (near.find? name).or (far.find? name) := by
  unfold merge
  simp only [find?, List.lookup_append]
  cases bound : List.lookup name near with
  | some binding => rfl
  | none =>
    simp only [Option.none_or]
    induction far with
    | nil => rfl
    | cons entry rest ih =>
      obtain ⟨key, binding⟩ := entry
      by_cases same : name = key
      · subst same
        simp [bound]
      · rw [List.lookup_cons, beq_eq_false_iff_ne.mpr same, ← ih, List.filter_cons]
        split
        · rw [List.lookup_cons, beq_eq_false_iff_ne.mpr same]
        · rfl

theorem lookup_values (bindings : Bindings) (name : String) :
    bindings.values.lookup name = (bindings.find? name).map Binding.value := by
  unfold values find?
  induction bindings with
  | nil => rfl
  | cons entry rest ih =>
    obtain ⟨key, binding⟩ := entry
    simp only [List.map_cons, List.lookup_cons]
    cases name == key with
    | true => rfl
    | false => exact ih

theorem find?_ofValues (mutability : Mutability) (values : List (String × Value)) (name : String) :
    (ofValues mutability values).find? name =
      (values.lookup name).map fun v => ⟨v, mutability⟩ := by
  unfold ofValues find?
  induction values with
  | nil => rfl
  | cons entry rest ih =>
    obtain ⟨key, v⟩ := entry
    simp only [List.map_cons, List.lookup_cons]
    cases name == key with
    | true => rfl
    | false => exact ih

theorem mem_of_find? {bindings : Bindings} {name : String} {binding : Binding}
    (found : bindings.find? name = some binding) : (name, binding) ∈ bindings := by
  obtain ⟨before, after, split, -⟩ := List.lookup_eq_some_iff.mp found
  rw [split]
  exact List.mem_append_right before (.head after)

theorem mem_set {bindings : Bindings} {name : String} {binding : Binding}
    {entry : String × Binding} (member : entry ∈ bindings.set name binding) :
    entry = (name, binding) ∨ entry ∈ bindings := by
  induction bindings with
  | nil => exact .inl (List.mem_singleton.mp member)
  | cons first rest ih =>
    simp only [set] at member
    split at member
    · exact (List.mem_cons.mp member).imp_right (.tail _)
    · rcases List.mem_cons.mp member with rfl | later
      · exact .inr (.head _)
      · exact (ih later).imp_right (.tail _)

theorem find?_set_of_ne (bindings : Bindings) {name other : String} (differs : other ≠ name)
    (binding : Binding) : (bindings.set name binding).find? other = bindings.find? other := by
  unfold find?
  induction bindings with
  | nil => simp [set, List.lookup_cons, beq_eq_false_iff_ne.mpr differs]
  | cons first rest ih =>
    obtain ⟨key, old⟩ := first
    simp only [set]
    split
    · next same =>
      subst same
      simp only [List.lookup_cons, beq_eq_false_iff_ne.mpr differs]
    · simp only [List.lookup_cons, ih]

theorem find?_set (bindings : Bindings) (name : String) (binding : Binding) (other : String) :
    (bindings.set name binding).find? other =
      if other = name then some binding else bindings.find? other := by
  by_cases same : other = name
  · subst same
    rw [if_pos rfl]
    unfold find?
    induction bindings with
    | nil => simp [set]
    | cons first rest ih =>
      obtain ⟨key, old⟩ := first
      simp only [set]
      split
      · simp
      · next differs => simpa [List.lookup_cons, beq_eq_false_iff_ne.mpr (Ne.symm differs)] using ih
  · rw [if_neg same, bindings.find?_set_of_ne same binding]

end Bindings

namespace Heap

variable (heap : Heap)

theorem find?_foldl_merge (near : Bindings) (fuel : Nat) (a : ScopeId) (name : String) :
    ((heap.chainWithin fuel a).foldl (fun near place => near.merge (heap.localsOf place))
        near).find? name =
      (near.find? name).or ((heap.findWithin name fuel a).map Prod.snd) := by
  induction fuel generalizing near a with
  | zero => simp [chainWithin, findWithin]
  | succ fuel ih =>
    simp only [chainWithin, findWithin]
    cases found : heap.get? a with
    | none => simp
    | some scope =>
      obtain ⟨bindings, parent⟩ := scope
      have locals : heap.localsOf a = bindings := by simp [localsOf, found]
      cases parent with
      | none =>
        simp only [List.foldl_cons, List.foldl_nil, locals, Bindings.find?_merge]
        cases bindings.find? name <;> rfl
      | some parent =>
        simp only [List.foldl_cons, locals, ih, Bindings.find?_merge, Option.or_assoc]
        cases bindings.find? name <;> rfl

/-- What is visible in a scope binds a name as the scope nearest to it does. -/
theorem find?_flatten (a : ScopeId) (name : String) :
    (heap.flatten a).find? name = (heap.find? a name).map Prod.snd := by
  rw [flatten, chain, find?_foldl_merge]
  rfl

/-- What is visible in a scope has the values that names look up there. -/
theorem lookup_flatten (a : ScopeId) (name : String) :
    (heap.flatten a).values.lookup name = heap.lookup a name := by
  rw [Bindings.lookup_values, find?_flatten, lookup]
  cases heap.find? a name <;> rfl

variable {heap}

/-- A new scope within one that lies in no other looks names up as that one does. -/
theorem lookup_child {outer : ScopeId} {bindings : Bindings} (name : String)
    (around : heap.get? outer = some ⟨bindings, none⟩) :
    (heap.child outer).2.lookup heap.size name = (bindings.find? name).map Binding.value := by
  have bound := lt_size_of_get? around
  obtain ⟨size, same⟩ := Nat.exists_eq_succ_of_ne_zero (Nat.ne_zero_of_lt bound)
  have outside : (heap.child outer).2.get? outer = some ⟨bindings, none⟩ := by
    rw [child, get?_add, if_neg (Nat.ne_of_lt bound), around]
  have inside : (heap.child outer).2.get? heap.size = some ⟨[], some outer⟩ := by
    rw [child, get?_add, if_pos rfl]
  have near : (heap.child outer).2.find? heap.size name =
      (heap.child outer).2.findWithin name heap.size outer := by
    rw [find?, findWithin, inside]
    rfl
  rw [lookup, near, same, findWithin, outside]
  simp only
  cases bindings.find? name <;> rfl

/-- A name looks up in a copy of some values as it does among them. -/
theorem lookup_frozen (heap : Heap) (entries : List (String × Value)) (name : String) :
    let copied := heap.captured (.frozen entries)
    (copied.2.child copied.1).2.lookup copied.2.size name = entries.lookup name := by
  intro copied
  have around : copied.2.get? copied.1 = some ⟨.ofValues .immutable entries, none⟩ :=
    (get?_add heap _ none heap.size).trans (if_pos rfl)
  rw [lookup_child name around, Bindings.find?_ofValues]
  cases entries.lookup name <;> rfl

/-- Whatever is in a heap, a name looks up in a copy of what was visible in a scope as it did
there. -/
theorem lookup_copied (later : Heap) (a : ScopeId) (name : String) :
    let copied := later.captured (.frozen (heap.flatten a).values)
    (copied.2.child copied.1).2.lookup copied.2.size name = heap.lookup a name :=
  (later.lookup_frozen _ name).trans (heap.lookup_flatten a name)

def Ordered (heap : Heap) : Prop :=
  ∀ place scope outer, heap.get? place = some scope → scope.parent = some outer → outer < place

theorem Ordered.le_of_mem_chain (ordered : heap.Ordered) {place a : ScopeId}
    (member : place ∈ heap.chain a) : place ≤ a := by
  unfold chain at member
  generalize a + 1 = fuel at member
  induction fuel generalizing a with
  | zero => cases member
  | succ fuel ih =>
    simp only [chainWithin] at member
    split at member
    · cases member
    · next scope found =>
      split at member
      · exact Nat.le_of_eq (List.mem_singleton.mp member)
      · next outer around =>
        rcases List.mem_cons.mp member with rfl | further
        · exact Nat.le_refl _
        · exact Nat.le_trans (ih further) (Nat.le_of_lt (ordered a scope outer found around))

theorem Ordered.add (ordered : heap.Ordered) (bindings : Bindings) {parent : Option ScopeId}
    (older : ∀ outer, parent = some outer → outer < heap.size) :
    (heap.add bindings parent).2.Ordered := by
  intro place scope outer found around
  rw [get?_add] at found
  split at found
  · next new =>
    cases found
    exact new ▸ older outer around
  · exact ordered place scope outer found around

theorem Ordered.define (ordered : heap.Ordered) (a : ScopeId) (name : String) (binding : Binding) :
    (heap.define a name binding).Ordered := by
  intro place scope outer found around
  obtain ⟨old, held, same⟩ := parent_define found
  exact ordered place old outer held (same.trans around)

section Ordered

variable (ordered : heap.Ordered)
include ordered

/-- A lookup passes from a scope to older ones, so it sees of a later heap what it saw before. -/
theorem Ordered.findWithin_eq {later : Heap} {n : Nat} (extends_ : heap.Extends n later)
    (name : String) {fuel fuel' : Nat} {a : ScopeId} (bound : a < n) (enough : a < fuel)
    (enough' : a < fuel') :
    later.findWithin name fuel a = heap.findWithin name fuel' a := by
  induction fuel generalizing fuel' a with
  | zero => exact absurd enough (Nat.not_lt_zero a)
  | succ fuel ih =>
    obtain ⟨fuel', rfl⟩ := Nat.exists_eq_succ_of_ne_zero (Nat.ne_zero_of_lt enough')
    simp only [findWithin, extends_.same a bound]
    cases found : heap.get? a with
    | none => rfl
    | some scope =>
      cases around : scope.parent with
      | none => simp [around]
      | some outer =>
        have older := ordered a scope outer found around
        have further : later.findWithin name fuel outer = heap.findWithin name fuel' outer :=
          ih (Nat.lt_trans older bound) (Nat.lt_of_lt_of_le older (Nat.le_of_lt_succ enough))
            (Nat.lt_of_lt_of_le older (Nat.le_of_lt_succ enough'))
        simp only [around, further]

theorem Ordered.lookup_eq {later : Heap} {n : Nat} (extends_ : heap.Extends n later)
    {a : ScopeId} (bound : a < n) (name : String) :
    later.lookup a name = heap.lookup a name := by
  simp only [lookup, find?,
    ordered.findWithin_eq extends_ name bound (Nat.lt_succ_self a) (Nat.lt_succ_self a)]

/-- A new scope looks names up as the scope around it does. -/
theorem Ordered.lookup_child {outer : ScopeId} (bound : outer < heap.size) (name : String) :
    (heap.child outer).2.lookup heap.size name = heap.lookup outer name := by
  have inside : (heap.child outer).2.get? heap.size = some ⟨[], some outer⟩ := by
    rw [child, get?_add, if_pos rfl]
  have around := ordered.findWithin_eq (.add heap [] (some outer) (Nat.le_refl _)) name bound bound
    (Nat.lt_succ_self outer)
  simp only [lookup, find?]
  rw [findWithin, inside]
  exact congrArg _ around

/-- Binding a name in a scope changes what that name looks up there, and nothing else. -/
theorem Ordered.lookup_define {a : ScopeId} (bound : a < heap.size) (name : String)
    (binding : Binding) (other : String) :
    (heap.define a name binding).lookup a other =
      if other = name then some binding.value else heap.lookup a other := by
  obtain ⟨scope, found⟩ : ∃ scope, heap.get? a = some scope := ⟨_, Array.getElem?_eq_getElem bound⟩
  have changed : (heap.define a name binding).get? a =
      some { scope with bindings := scope.bindings.set name binding } := by
    rw [get?_define, if_pos rfl, found]
    rfl
  simp only [lookup, find?, findWithin, changed, found, Bindings.find?_set]
  by_cases same : other = name
  · simp [same]
  · simp only [if_neg same]
    cases scope.bindings.find? other with
    | some held => rfl
    | none =>
      cases around : scope.parent with
      | none => rfl
      | some outer =>
        have older := ordered a scope outer found around
        have kept : heap.Extends a (heap.define a name binding) :=
          .define heap name binding (Nat.le_refl a) (Nat.le_of_lt bound)
        simp only [ordered.findWithin_eq kept other older older older]

end Ordered

structure NewScope (heap later : Heap) (a : ScopeId) (look : String → Option Value) : Prop where
  extends_ : heap.Extends heap.size later
  ordered : later.Ordered
  last : later.size = a + 1
  new : heap.size ≤ a
  lookups : ∀ name, later.lookup a name = look name

theorem Ordered.newScope_child (ordered : heap.Ordered) {outer : ScopeId}
    (bound : outer < heap.size) :
    heap.NewScope (heap.child outer).2 heap.size (heap.lookup outer) where
  extends_ := .add heap [] (some outer) (Nat.le_refl _)
  ordered := ordered.add [] fun _ same => Option.some.inj same ▸ bound
  last := heap.size_add [] (some outer)
  new := Nat.le_refl _
  lookups := ordered.lookup_child bound

def lookupCaptured (heap : Heap) : Captured → String → Option Value
  | .shared a => heap.lookup a
  | .frozen entries => (entries.lookup ·)

theorem Ordered.newScope_captured (ordered : heap.Ordered) {c : Captured}
    (bound : ∀ a, c = .shared a → a < heap.size) :
    heap.NewScope ((heap.captured c).2.child (heap.captured c).1).2 (heap.captured c).2.size
      (heap.lookupCaptured c) := by
  cases c with
  | shared a => exact ordered.newScope_child (bound a rfl)
  | frozen entries =>
    have copied : heap.size < (heap.captured (.frozen entries)).2.size := heap.size_lt_add _ none
    have older : heap.Extends heap.size (heap.captured (.frozen entries)).2 :=
      .captured heap _ (Nat.le_refl _)
    exact {
      extends_ := older.trans (.add _ [] (some heap.size) (Nat.le_refl _)) (Nat.le_of_lt copied)
      ordered := (ordered.add (.ofValues .immutable entries) (by simp)).add []
        fun _ same => Option.some.inj same ▸ copied
      last := size_add _ [] (some heap.size)
      new := Nat.le_of_lt copied
      lookups := heap.lookup_frozen entries }

/-- A scope that lies in no other looks names up in itself. -/
theorem find?_alone {a : ScopeId} {bindings : Bindings}
    (alone : heap.get? a = some ⟨bindings, none⟩) (name : String) :
    heap.find? a name = (bindings.find? name).map fun binding => (a, binding) := by
  simp only [find?, findWithin, alone]
  cases bindings.find? name <;> rfl

end Heap
end LayeredIR
