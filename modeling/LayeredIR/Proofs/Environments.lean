import LayeredIR.Proofs.NearestBindings

/-! Forests of scopes. What is done through a handle is seen through those handles alone whose
scopes lie within the one that is touched. So the copy of a scope, which lies in no other, and the
scope that it was copied from never learn of one another, whatever is done to either. -/
namespace LayeredIR.Heap

variable {heap later : Heap}

inductive Call
  | new
  | child (outer : ScopeId)
  | define (a : ScopeId) (name : String) (binding : Binding)
  | assign (a : ScopeId) (name : String) (value : Value)
  | snapshot (a : ScopeId)
  | frozen (a : ScopeId)

namespace Call

def handle? : Call → Option ScopeId
  | .new => none
  | .child a | .define a _ _ | .assign a _ _ | .snapshot a | .frozen a => some a

def written? : Call → Option ScopeId
  | .define a _ _ | .assign a _ _ => some a
  | .new | .child _ | .snapshot _ | .frozen _ => none

def run (heap : Heap) : Call → Heap
  | .new => (heap.add [] none).2
  | .child outer => (heap.child outer).2
  | .define a name binding => heap.define a name binding
  | .assign a name value => (heap.assign a name value).2
  | .snapshot a => (heap.snapshot a).2
  | .frozen a => (heap.frozen a).2

end Call

inductive Runs (allowed : Heap → Call → Prop) (heap : Heap) : Heap → Prop
  | refl : Runs allowed heap heap
  | call {later : Heap} (call : Call) (before : Runs allowed heap later)
    (present : ∀ a, call.handle? = some a → a < later.size) (may : allowed later call) :
    Runs allowed heap (call.run later)

def Forest (heap : Heap) : Prop := Runs (fun _ _ => True) empty heap

def ThroughSide (c : ScopeId) (inside : Prop) (heap : Heap) (call : Call) : Prop :=
  ∀ a, call.written? = some a → (heap.Within a c ↔ inside)

/-- A call either adds a scope to those there are, or binds a name in one that the handle which it
writes through lies within. -/
theorem Call.run_cases (heap : Heap) (call : Call)
    (present : ∀ a, call.handle? = some a → a < heap.size) :
    (∃ bindings parent, call.run heap = (heap.add bindings parent).2 ∧
      ∀ outer, parent = some outer → outer < heap.size) ∨
    call.run heap = heap ∨
    ∃ a place name binding, call.written? = some a ∧ place < heap.size ∧
      (heap.Ordered → heap.Within a place) ∧ call.run heap = heap.define place name binding := by
  cases call with
  | new => exact .inl ⟨[], none, rfl, by simp⟩
  | child outer => exact .inl ⟨[], some outer, rfl, by simpa [handle?] using present⟩
  | snapshot a => exact .inl ⟨_, none, rfl, by simp⟩
  | frozen a => exact .inl ⟨_, none, rfl, by simp⟩
  | define a name binding =>
    exact .inr (.inr ⟨a, a, name, binding, rfl, present a rfl, fun _ => .refl, rfl⟩)
  | assign a name v =>
    simp only [run, Heap.assign]
    cases found : heap.find? a name with
    | none => exact .inr (.inl rfl)
    | some held =>
      obtain ⟨place, u, mutability⟩ := held
      cases mutability with
      | immutable => exact .inr (.inl rfl)
      | mutable =>
        obtain ⟨scope, held, -⟩ := find?_eq_some found
        exact .inr (.inr ⟨a, place, name, _, rfl, lt_size_of_get? held,
          fun ordered => (ordered.find?_eq_some_iff.mp found).within, rfl⟩)

namespace Ordered

variable (ordered : heap.Ordered) {call : Call}
  (present : ∀ a, call.handle? = some a → a < heap.size)
include ordered present

theorem run : (call.run heap).Ordered := by
  rcases call.run_cases heap present with
    ⟨bindings, parent, same, older⟩ | same | ⟨-, place, name, binding, -, -, -, same⟩
  · exact same ▸ ordered.add bindings older
  · rwa [same]
  · exact same ▸ ordered.define place name binding

omit ordered in
theorem size_le_run : heap.size ≤ (call.run heap).size := by
  rcases call.run_cases heap present with
    ⟨bindings, parent, same, -⟩ | same | ⟨-, place, name, binding, -, -, -, same⟩
  · rw [same, size_add]
    exact Nat.le_succ _
  · exact Nat.le_of_eq (by rw [same])
  · exact Nat.le_of_eq (by rw [same, size_define])

omit ordered in
theorem parent?_run {b : ScopeId} (old : b < heap.size) :
    (call.run heap).parent? b = heap.parent? b := by
  rcases call.run_cases heap present with
    ⟨bindings, parent, same, -⟩ | same | ⟨-, place, name, binding, -, -, -, same⟩
  · rw [same, parent?_add, if_neg (Nat.ne_of_lt old)]
  · rw [same]
  · rw [same, parent?_define]

/-- A scope keeps its bindings when nothing is written through a handle within it. -/
theorem own_run {b : ScopeId} (old : b < heap.size) (name : String)
    (outside : ∀ a, call.written? = some a → ¬ heap.Within a b) :
    (call.run heap).own b name = heap.own b name := by
  rcases call.run_cases heap present with
    ⟨bindings, parent, same, -⟩ | same | ⟨a, place, bound, binding, through, inside, within, same⟩
  · rw [same, own_add, if_neg (Nat.ne_of_lt old)]
  · rw [same]
  · have elsewhere : b ≠ place := by
      rintro rfl
      exact outside a through (within ordered)
    rw [same, own_define inside, if_neg fun here => elsewhere here.1]

end Ordered

section Within

variable {a b c : ScopeId}

/-- Scopes within a common one lie in the same trees: both within a scope that is in no other, or
neither. -/
theorem Within.together {common : ScopeId} (alone : heap.parent? c = none)
    (first : heap.Within a common) (second : heap.Within b common) :
    heap.Within a c ↔ heap.Within b c := by
  have functional : Relator.RightUnique fun a outer => heap.parent? a = some outer :=
    fun _ _ _ around around' => Option.some.inj (around.symm.trans around')
  suffices passes : ∀ {a b}, heap.Within a common → heap.Within b common → heap.Within a c →
      heap.Within b c from ⟨passes first second, passes second first⟩
  intro a b first second inside
  rcases Relation.ReflTransGen.total_of_right_unique functional first inside with below | above
  · exact second.trans below
  · rcases above.cases_head with rfl | ⟨outer, around, -⟩
    · exact second
    · cases alone.symm.trans around

theorem Within.lt_size (within : heap.Within a b) (ordered : heap.Ordered)
    (bound : a < heap.size) : b < heap.size :=
  Nat.lt_of_le_of_lt (ordered.within_le within) bound

/-- What a scope lies within stays when the scopes of a heap keep their parents. -/
theorem Ordered.within_iff (ordered : heap.Ordered)
    (parents : ∀ b < heap.size, later.parent? b = heap.parent? b) (bound : a < heap.size) :
    later.Within a c ↔ heap.Within a c := by
  constructor
  · intro within
    induction within with
    | refl => exact .refl
    | tail _ around ih => exact ih.tail ((parents _ (ih.lt_size ordered bound)).symm.trans around)
  · intro within
    induction within with
    | refl => exact .refl
    | tail inner around ih =>
      exact ih.tail ((parents _ (Within.lt_size inner ordered bound)).trans around)

end Within

namespace Runs

variable {allowed : Heap → Call → Prop}

theorem ordered (run : heap.Runs allowed later) (first : heap.Ordered) : later.Ordered := by
  induction run with
  | refl => exact first
  | call _ _ present _ ih => exact ih.run present

theorem size_le (run : heap.Runs allowed later) : heap.size ≤ later.size := by
  induction run with
  | refl => exact Nat.le_refl _
  | call _ _ present _ ih => exact Nat.le_trans ih (Ordered.size_le_run present)

theorem parent? (run : heap.Runs allowed later) {b : ScopeId} (old : b < heap.size) :
    later.parent? b = heap.parent? b := by
  induction run with
  | refl => rfl
  | call _ before present _ ih =>
    exact (Ordered.parent?_run present (Nat.lt_of_lt_of_le old before.size_le)).trans ih

/-- No calls that write on one side only change what is looked up on the other. -/
theorem isolated (first : heap.Ordered) {c : ScopeId} (there : c < heap.size)
    (alone : heap.parent? c = none) {inside : Prop}
    (run : heap.Runs (ThroughSide c inside) later) {b : ScopeId} (old : b < heap.size)
    (across : heap.Within b c ↔ ¬ inside) (name : String) :
    later.lookup b name = heap.lookup b name := by
  induction run with
  | refl => rfl
  | @call later call before present may ih =>
    have ordered := before.ordered first
    have still : later.Within b c ↔ heap.Within b c :=
      first.within_iff (fun _ bound => before.parent? bound) old
    rw [← ih]
    apply ordered.lookup_of_agree (ordered.run present)
    intro place within
    have bound := within.lt_size ordered (Nat.lt_of_lt_of_le old before.size_le)
    refine ⟨ordered.own_run present bound name fun a through touched => ?_,
      Ordered.parent?_run present bound⟩
    have together := Within.together ((before.parent? there).trans alone) touched within
    have side := may a through
    tauto

end Runs

/-- A name has got another value in the scope that binds it, and nowhere else. -/
structure Rebound (heap : Heap) (name : String) (place : ScopeId) (v : Value)
    (later : Heap) : Prop where
  own : ∀ b other, later.own b other =
    if b = place ∧ other = name then some ⟨v, .mutable⟩ else heap.own b other
  parent? : ∀ b, later.parent? b = heap.parent? b
  seen : ∀ b binding, heap.Nearest name b place binding → later.lookup b name = some v
  unseen : ∀ b other, (other = name → ∀ binding, ¬ heap.Nearest name b place binding) →
    later.lookup b other = heap.lookup b other

theorem Ordered.rebound (ordered : heap.Ordered) {a place : ScopeId} {name : String}
    {binding : Binding} (nearest : heap.Nearest name a place binding) (v : Value) :
    heap.Rebound name place v (heap.define place name ⟨v, .mutable⟩) := by
  have bound := lt_size_of_own nearest.own
  have own := own_define bound name ⟨v, .mutable⟩
  have ordered' := ordered.define place name ⟨v, .mutable⟩
  have shape (other : String) (b : ScopeId) :
      (heap.define place name ⟨v, .mutable⟩).own b other = none ↔ heap.own b other = none := by
    rw [own]
    split
    · next here =>
      obtain ⟨rfl, rfl⟩ := here
      simp [nearest.own]
    · rfl
  refine ⟨own, parent?_define heap place name _, fun b held near => ?_, fun b other unseen => ?_⟩
  · obtain ⟨new, holds, near'⟩ := near.rebound (parent?_define heap place name _) (shape name)
    rw [own, if_pos ⟨rfl, rfl⟩] at holds
    cases holds
    exact ordered'.lookup_eq_some_iff.mpr ⟨place, .mutable, near'⟩
  · -- the nearest binding of the other name is where it was, and it is not the one that changed
    have kept {q : ScopeId} {old : Binding} (near : heap.Nearest other b q old) :
        (heap.define place name ⟨v, .mutable⟩).Nearest other b q old := by
      obtain ⟨new, holds, near'⟩ := near.rebound (parent?_define heap place name _) (shape other)
      have elsewhere : ¬ (q = place ∧ other = name) := by
        rintro ⟨rfl, rfl⟩
        exact unseen rfl old near
      rw [own, if_neg elsewhere, near.own] at holds
      cases holds
      exact near'
    cases looked : heap.lookup b other with
    | some u =>
      obtain ⟨q, mutability, near⟩ := ordered.lookup_eq_some_iff.mp looked
      exact ordered'.lookup_eq_some_iff.mpr ⟨q, mutability, kept near⟩
    | none =>
      rw [Option.eq_none_iff_forall_ne_some]
      intro u looked'
      obtain ⟨q, mutability, near⟩ := ordered'.lookup_eq_some_iff.mp looked'
      obtain ⟨old, -, near'⟩ := near.rebound (fun b => (parent?_define heap place name _ b).symm)
        fun b => (shape other b).symm
      have := ordered.lookup_eq_some_iff.mpr ⟨q, old.mutability, near'⟩
      simp [looked] at this

/-- A scope with all that another one looks up, their bindings each as mutable as is kept. It lies
in no scope and no earlier one lies in it, and from then on neither side writes to the other. -/
structure Copied (heap : Heap) (a : ScopeId) (kept : Mutability → Mutability)
    (copy : ScopeId × Heap) : Prop where
  size : copy.1 = heap.size ∧ copy.2.size = heap.size + 1
  parent? : copy.2.parent? copy.1 = none
  own : ∀ name binding, copy.2.own copy.1 name = some binding ↔
    ∃ place held, heap.Nearest name a place held ∧ ⟨held.value, kept held.mutability⟩ = binding
  lookup : ∀ name, copy.2.lookup copy.1 name = heap.lookup a name
  apart : ∀ b < heap.size, ¬ copy.2.Within b copy.1
  earlier : ∀ b < heap.size, ∀ name, copy.2.lookup b name = heap.lookup b name
  isolated : ∀ before later inside, copy.2.Runs (fun _ _ => True) before →
    before.Runs (ThroughSide copy.1 inside) later →
    ∀ b < before.size, (before.Within b copy.1 ↔ ¬ inside) →
      ∀ name, later.lookup b name = before.lookup b name

theorem Ordered.copied (ordered : heap.Ordered) {a : ScopeId} {kept : Mutability → Mutability}
    {bindings : Bindings}
    (binds : ∀ name, bindings.find? name = (heap.find? a name).map fun held =>
      ⟨held.2.value, kept held.2.mutability⟩) :
    heap.Copied a kept (heap.add bindings none) := by
  have size : (heap.add bindings none).2.size = heap.size + 1 := size_add heap bindings none
  have ordered' : (heap.add bindings none).2.Ordered := ordered.add bindings (by simp)
  have own (name : String) :
      (heap.add bindings none).2.own heap.size name = bindings.find? name := by
    rw [own_add, if_pos rfl]
  have alone : (heap.add bindings none).2.parent? heap.size = none := by
    rw [parent?_add, if_pos rfl]
  exact {
    size := ⟨rfl, size⟩
    parent? := alone
    own := by
      intro name binding
      change (heap.add bindings none).2.own heap.size name = some binding ↔ _
      simp only [own, binds, Option.map_eq_some_iff, Prod.exists, ordered.find?_eq_some_iff]
    lookup := by
      intro name
      have found : (heap.add bindings none).2.find? heap.size name =
          (bindings.find? name).map fun binding => (heap.size, binding) :=
        find?_alone (by rw [get?_add, if_pos rfl]) name
      change (heap.add bindings none).2.lookup heap.size name = _
      simp only [Heap.lookup, found, binds, Option.map_map]
      rfl
    apart := fun b old within => Nat.not_le_of_gt old (ordered'.within_le within)
    earlier := fun b old name =>
      ordered.lookup_eq (.add heap bindings none (Nat.le_refl _)) old name
    isolated := by
      intro before later inside first run b old across name
      have there : heap.size < (heap.add bindings none).2.size := size_lt_add heap bindings none
      exact run.isolated (first.ordered ordered') (Nat.lt_of_lt_of_le there first.size_le)
        ((first.parent? there).trans alone) old across name }

/-- What any calls build has an order. -/
theorem Forest.ordered (forest : heap.Forest) : heap.Ordered :=
  Runs.ordered forest fun _ _ _ found => by simp [get?, empty] at found

/-- In whatever calls have built, a name is looked up in the nearest scope that binds it. It is
assigned there, once it is bound and if it may be, and then all who find it there see the new value
and nobody sees anything else change. The copies of a scope look up what it does, with bindings as
mutable as there or not at all, and lie apart from all scopes there are: later writes on either
side of a copy are not seen on the other. -/
theorem Forest.scopes_nested (forest : heap.Forest) (a : ScopeId) (name : String) :
    (∀ v, heap.lookup a name = some v ↔
      ∃ place mutability, heap.Nearest name a place ⟨v, mutability⟩) ∧
    (∀ v place u, heap.Nearest name a place ⟨u, .mutable⟩ →
      (heap.assign a name v).1 = .ok () ∧ heap.Rebound name place v (heap.assign a name v).2) ∧
    (∀ v place u, heap.Nearest name a place ⟨u, .immutable⟩ →
      heap.assign a name v = (.error .immutable, heap)) ∧
    (∀ v, (∀ place binding, ¬ heap.Nearest name a place binding) →
      heap.assign a name v = (.error .undefined, heap)) ∧
    heap.Copied a id (heap.snapshot a) ∧
    heap.Copied a (fun _ => .immutable) (heap.frozen a) := by
  have ordered := forest.ordered
  refine ⟨fun v => ordered.lookup_eq_some_iff, fun v place u nearest => ?_,
    fun v place u nearest => ?_, fun v free => ?_, ordered.copied fun other => ?_,
    ordered.copied fun other => ?_⟩
  · simp only [assign, ordered.find?_eq_some_iff.mpr nearest]
    exact ⟨trivial, ordered.rebound nearest v⟩
  · simp only [assign, ordered.find?_eq_some_iff.mpr nearest]
  · simp only [assign, ordered.find?_eq_none_iff.mpr free]
  · rw [find?_flatten]
    rfl
  · rw [Bindings.find?_ofValues, Bindings.lookup_values, find?_flatten, Option.map_map,
      Option.map_map]
    rfl

def sample : Heap :=
  [.new, .define 0 "x" ⟨.bool false, .mutable⟩, .child 0].foldl Call.run empty

theorem Forest.scopes_nested_sample :
    sample.Forest ∧ (sample.assign 1 "x" (.bool true)).1 = .ok () ∧
      (sample.assign 1 "x" (.bool true)).2.lookup 0 "x" = some (.bool true) ∧
      (sample.snapshot 1).2.lookup 2 "x" = some (.bool false) := by
  have forest : sample.Forest :=
    .call (.child 0) (.call (.define 0 "x" _) (.call .new .refl (by simp [Call.handle?]) trivial)
      (by simp [Call.handle?, Call.run, add, size]) trivial)
      (by simp [Call.handle?, Call.run, add, define, size]) trivial
  have outer : sample.Nearest "x" 0 0 ⟨.bool false, .mutable⟩ := .here rfl
  have nearest : sample.Nearest "x" 1 0 ⟨.bool false, .mutable⟩ := .outward rfl rfl outer
  obtain ⟨looked, assigned, -, -, copied, -⟩ := Forest.scopes_nested forest 1 "x"
  obtain ⟨done, rebound⟩ := assigned (.bool true) 0 _ nearest
  exact ⟨forest, done, rebound.seen 0 _ outer,
    (copied.lookup "x").trans ((looked _).mpr ⟨0, .mutable, nearest⟩)⟩

end LayeredIR.Heap
