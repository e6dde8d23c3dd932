import LayeredIR.Proofs.Copies.Stage
import LayeredIR.Proofs.Likeness.Tasks

/-! Memories of a run in which closures share scopes and of one in which they copy them. Both serve
like queries alike; and where a closure is made, all names that code may read look up in the copy as
they do in the scope. -/
namespace LayeredIR
namespace Copies

def Stage.grow (w : Stage) (heap : Heap) (a b : ScopeId) : Stage where
  heap := heap
  closed := a
  scopes x y := w.scopes x y ∨ x = a ∧ y = b
  rooted := .inl w.rooted
  opening := some b

def Stage.rebind (w : Stage) (heap : Heap) : Stage := { w with heap := heap }

def Stage.close (w : Stage) : Stage := { w with closed := w.heap.size, opening := none }

section Looks

variable (layer : Layer) (reads : String → Prop)

def Looks (w : Stage) (look look' : String → Option Value) : Prop :=
  ∀ name, reads name → Option.Rel ((likeness layer reads).value w) (look name) (look' name)

/-- The memory of a run that shares scopes beside that of a run that copies them. -/
structure Stands (w : Stage) (memory memory' : Memory) : Prop where
  heap : w.heap = memory.heap
  ordered : memory.heap.Ordered
  ordered' : memory'.heap.Ordered
  closed : w.closed ≤ memory.heap.size
  within : ∀ a b, w.scopes a b → a < memory.heap.size ∧ b < memory'.heap.size
  lookups : ∀ a b, w.scopes a b → Looks layer reads w (memory.heap.lookup a) (memory'.heap.lookup b)
  opening : ∀ b, w.opening = some b → memory.heap.size = w.closed + 1 ∧
    memory'.heap.size = b + 1 ∧ ∀ a' b', w.scopes a' b' → (a' = w.closed ↔ b' = b)
  owner : memory.owner = memory'.owner
  serial : memory.serial = memory'.serial
  stack : memory.stack = memory'.stack
  active : memory.active = memory'.active

end Looks

variable {layer : Layer} {reads : String → Prop}

theorem Looks.mono {w w' : Stage} (le : w ≤ w') {look look' : String → Option Value}
    (looks : Looks layer reads w look look') : Looks layer reads w' look look' :=
  fun name may => rel_imp (fun _ _ => (likeness layer reads).value_mono le) (looks name may)

namespace Stands

variable {w : Stage} {memory memory' : Memory} (stands : Stands layer reads w memory memory')
include stands

theorem fresh : Stands layer reads w memory.freshIdentity.2 memory'.freshIdentity.2 :=
  { stands with serial := congrArg (· + 1) stands.serial }

theorem identity : memory.freshIdentity.1 = memory'.freshIdentity.1 := by
  simp only [Memory.freshIdentity, stands.serial, stands.owner]

theorem enterCall (site : CallSite) :
    Stands layer reads w (memory.enter site) (memory'.enter site) :=
  { stands with
    stack := congrArg (CallStack.grow · site.name) stands.stack
    active := by simp only [Memory.enter, stands.active] }

theorem leaveCall (isDefinition : Bool) :
    Stands layer reads w (memory.leave isDefinition) (memory'.leave isDefinition) :=
  { stands with
    stack := congrArg CallStack.pop stands.stack
    active := by simp only [Memory.leave, stands.active] }

/-- New scopes that look names up alike. -/
theorem grow {heap heap' : Heap} {a b : ScopeId} {look look' : String → Option Value}
    (first : memory.heap.NewScope heap a look) (second : memory'.heap.NewScope heap' b look')
    (looks : Looks layer reads w look look') :
    w ≤ w.grow heap a b ∧
      Stands layer reads (w.grow heap a b) { memory with heap := heap }
        { memory' with heap := heap' } := by
  have kept (x : ScopeId) (bound : x < memory.heap.size) (name : String) :
      heap.lookup x name = memory.heap.lookup x name :=
    stands.ordered.lookup_eq first.extends_ bound name
  have kept' (y : ScopeId) (bound : y < memory'.heap.size) (name : String) :
      heap'.lookup y name = memory'.heap.lookup y name :=
    stands.ordered'.lookup_eq second.extends_ bound name
  have le : w ≤ w.grow heap a b := by
    refine ⟨Nat.le_trans stands.closed first.new, fun x older name => ?_, fun _ _ => .inl⟩
    rw [stands.heap]
    exact kept x (Nat.lt_of_lt_of_le older stands.closed) name
  refine ⟨le, { stands with
    heap := rfl
    ordered := first.ordered
    ordered' := second.ordered
    closed := first.last ▸ Nat.le_succ a
    within := ?_
    lookups := ?_
    opening := ?_ }⟩
  · intro x y either
    rcases either with old | ⟨rfl, rfl⟩
    · obtain ⟨bound, bound'⟩ := stands.within x y old
      exact ⟨Nat.lt_of_lt_of_le bound first.extends_.size,
        Nat.lt_of_lt_of_le bound' second.extends_.size⟩
    · exact ⟨first.last ▸ Nat.lt_succ_self x, second.last ▸ Nat.lt_succ_self y⟩
  · intro x y either name may
    rcases either with old | ⟨rfl, rfl⟩
    · obtain ⟨bound, bound'⟩ := stands.within x y old
      change Option.Rel _ (heap.lookup x name) (heap'.lookup y name)
      rw [kept x bound, kept' y bound']
      exact (stands.lookups x y old).mono le name may
    · change Option.Rel _ (heap.lookup x name) (heap'.lookup y name)
      rw [first.lookups, second.lookups]
      exact looks.mono le name may
  · intro _ same
    cases same
    refine ⟨first.last, second.last, fun x y either => ?_⟩
    rcases either with old | ⟨rfl, rfl⟩
    · obtain ⟨bound, bound'⟩ := stands.within x y old
      exact iff_of_false (Nat.ne_of_lt (Nat.lt_of_lt_of_le bound first.new))
        (Nat.ne_of_lt (Nat.lt_of_lt_of_le bound' second.new))
    · exact iff_of_true rfl rfl

omit stands in
theorem made (w : Stage) (heap : Heap) (a b : ScopeId) :
    (likeness layer reads).Made (w.grow heap a b) a b :=
  ⟨.inr ⟨rfl, rfl⟩, .inr ⟨rfl, rfl⟩, rfl, rfl⟩

theorem child {a b : ScopeId} (scope : w.scopes a b) :
    let w' := w.grow (memory.heap.child a).2 memory.heap.size memory'.heap.size
    w ≤ w' ∧ Stands layer reads w' { memory with heap := (memory.heap.child a).2 }
      { memory' with heap := (memory'.heap.child b).2 } :=
  stands.grow (stands.ordered.newScope_child (stands.within a b scope).1)
    (stands.ordered'.newScope_child (stands.within a b scope).2) (stands.lookups a b scope)

theorem enter {c c' : Captured} (captured : (likeness layer reads).captured w c c') :
    let heap := (memory.heap.captured c).2
    let heap' := (memory'.heap.captured c').2
    let w' := w.grow (heap.child (memory.heap.captured c).1).2 heap.size heap'.size
    w ≤ w' ∧ Stands layer reads w'
      { memory with heap := (heap.child (memory.heap.captured c).1).2 }
      { memory' with heap := (heap'.child (memory'.heap.captured c').1).2 } := by
  refine stands.grow (stands.ordered.newScope_captured fun a same => ?_)
    (stands.ordered'.newScope_captured fun b same => ?_) fun name may => ?_
  · cases captured with
    | independent => cases same
    | copied older =>
      cases same
      exact Nat.lt_of_lt_of_le older stands.closed
  · cases captured <;> cases same
  · cases captured with
    | independent all =>
      exact lookup_self (fun entry member => .of_independent entry.2 (all entry member)) name
    | copied _ lookups =>
      rw [← stands.heap]
      exact lookups name may

/-- Names are bound in the last scopes. There they look up what they are bound to. -/
theorem define {b : ScopeId} (opening : w.opening = some b) (name : String) (m m' : Mutability)
    {v v' : Value} (values : (likeness layer reads).value w v v') :
    let w' := w.rebind (memory.heap.define w.closed name ⟨v, m⟩)
    w ≤ w' ∧ Stands layer reads w'
      { memory with heap := memory.heap.define w.closed name ⟨v, m⟩ }
      { memory' with heap := memory'.heap.define b name ⟨v', m'⟩ } := by
  intro w'
  obtain ⟨last, last', only⟩ := stands.opening b opening
  have extends_ : memory.heap.Extends w.closed (memory.heap.define w.closed name ⟨v, m⟩) :=
    .define _ _ _ (Nat.le_refl _) stands.closed
  have extends_' : memory'.heap.Extends b (memory'.heap.define b name ⟨v', m'⟩) :=
    .define _ _ _ (Nat.le_refl _) (last' ▸ Nat.le_succ b)
  have le : w ≤ w' := by
    refine ⟨Nat.le_refl _, fun a older other => ?_, fun _ _ same => same⟩
    rw [stands.heap]
    exact stands.ordered.lookup_eq extends_ older other
  refine ⟨le, { stands with
    heap := rfl
    ordered := stands.ordered.define _ _ _
    ordered' := stands.ordered'.define _ _ _
    closed := (memory.heap.size_define ..).symm ▸ stands.closed
    within := ?_
    lookups := ?_
    opening := ?_ }⟩
  · simp only [Heap.size_define]
    exact stands.within
  · intro x y same other may
    obtain ⟨bound, bound'⟩ := stands.within x y same
    have before := (stands.lookups x y same).mono le other may
    by_cases here : x = w.closed
    · obtain rfl := (only x y same).mp here
      subst here
      rw [stands.ordered.lookup_define bound, stands.ordered'.lookup_define bound']
      split
      · exact .some ((likeness layer reads).value_mono le values)
      · exact before
    · have there : y ≠ b := fun equal => here ((only x y same).mpr equal)
      rw [last] at bound
      rw [last'] at bound'
      have older : x < w.closed := Nat.lt_of_le_of_ne (Nat.le_of_lt_succ bound) here
      have older' : y < b := Nat.lt_of_le_of_ne (Nat.le_of_lt_succ bound') there
      rw [stands.ordered.lookup_eq extends_ older, stands.ordered'.lookup_eq extends_' older']
      exact before
  · simp only [Heap.size_define]
    exact stands.opening

/-- A closure that shares a scope beside one that takes a copy of the scope that stands for it. -/
theorem copy {a b : ScopeId} (scope : w.scopes a b) :
    w ≤ w.close ∧ Stands layer reads w.close memory memory' ∧
      (likeness layer reads).captured w.close (.shared a)
        (.frozen (memory'.heap.flatten b).values) := by
  have closed : w.closed ≤ w.heap.size := stands.heap ▸ stands.closed
  have le : w ≤ w.close := ⟨closed, fun _ _ _ => rfl, fun _ _ same => same⟩
  have lookups (x y : ScopeId) (same : w.scopes x y) :
      Looks layer reads w.close (memory.heap.lookup x) (memory'.heap.lookup y) :=
    (stands.lookups x y same).mono le
  refine ⟨le, { stands with
    closed := Nat.le_of_eq (congrArg Heap.size stands.heap)
    lookups := lookups
    opening := fun _ => nofun }, .copied ?_ fun name may => ?_⟩
  · exact Nat.lt_of_lt_of_eq (stands.within a b scope).1 (congrArg Heap.size stands.heap.symm)
  · rw [Heap.lookup_flatten]
    have same := lookups a b scope name may
    rwa [← stands.heap] at same

end Stands

section Serve

variable {σ : Type} {s s' : Setting σ} {shared : Shared σ} {w : Stage} {memory memory' : Memory}

theorem Stands.serve (stands : Stands layer reads w memory memory') {q q' : Query}
    (queries : (likeness layer reads).Queries w q q') :
    ∃ w', w ≤ w' ∧ ((s.serve q shared memory).2.1 = (s'.serve q' shared memory').2.1 ∧
        Stands layer reads w' (s.serve q shared memory).2.2 (s'.serve q' shared memory').2.2) ∧
      (likeness layer reads).Answers w' q q' (s.serve q shared memory).1
        (s'.serve q' shared memory').1 := by
  cases queries with
  | lookup may scope => exact ⟨w, le_rfl, ⟨rfl, stands⟩, stands.lookups _ _ scope _ may⟩
  | define writable _ values =>
    obtain ⟨rfl, opening⟩ := writable
    obtain ⟨le, stands'⟩ := stands.define opening _ _ _ values
    exact ⟨_, le, ⟨rfl, stands'⟩, rfl, opening⟩
  | assign mutation => exact mutation.elim
  | child outer =>
    obtain ⟨le, stands'⟩ := stands.child outer
    exact ⟨_, le, ⟨rfl, stands'⟩, Stands.made ..⟩
  | enter _ captured =>
    obtain ⟨le, stands'⟩ := stands.enter captured
    exact ⟨_, le, ⟨rfl, stands'⟩, Stands.made ..⟩
  | flatten plain => exact absurd trivial plain
  | fresh => exact ⟨w, le_rfl, ⟨rfl, stands.fresh⟩, stands.identity⟩
  | isActive => exact ⟨w, le_rfl, ⟨rfl, stands⟩, congrArg (List.contains · _) stands.active⟩
  | innermost => exact ⟨w, le_rfl, ⟨rfl, stands⟩, congrArg CallStack.top? stands.stack⟩
  | recollect plain => exact absurd trivial plain
  | remember plain => exact absurd trivial plain
  | compute _ operands =>
    exact ⟨w, le_rfl, ⟨rfl, stands⟩, (likeness layer reads).compute_alike
      (fun _ => Resemblance.copies_comparable) operands⟩
  | dispatch known _ operands =>
    exact ⟨w, le_rfl, ⟨rfl, stands⟩, known (w.heap, w.closed) _ _ _ _ _ trivial
      (fun _ _ values => values.typeOf_eq shared.futures) operands⟩
  | perform effects => exact effects.elim

variable (layer reads s s') in
def memories : (likeness layer reads).Memories s s' where
  alike w _ shared memory shared' memory' := shared = shared' ∧ Stands layer reads w memory memory'
  later := (· ≤ ·)
  le_of_later le := le
  later_self _ := le_rfl
  serve := by
    intro w _ shared memory _ memory' q q' parts queries
    obtain ⟨rfl, stands⟩ := parts
    exact stands.serve queries
  full alike := by simp only [alike.2.stack, and_self]
  enter site alike := ⟨alike.1, alike.2.enterCall site⟩
  leave isDefinition alike := ⟨alike.1, alike.2.leaveCall isDefinition⟩
  attach := by
    intro w _ _ memory _ memory' fault fault' alike same
    cases same
    exact congrArg (CallStack.attach · fault) alike.2.stack

end Serve
end Copies
end LayeredIR
