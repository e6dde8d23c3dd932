import LayeredIR.Proofs.NodeCache.Tracks
import LayeredIR.Proofs.Yields

/-! Memories of a run with the node cache and of one without. The two runs serve queries alike, and
enter and leave calls together; a value that is kept is taken for one that the second run has just
made. -/
namespace LayeredIR

namespace NodeCache

/-- What kept values rest on, given how many scopes are not written to any more. It is not lost as
long as those scopes stay as they are. -/
structure Warrant where
  holds : Nat → Heap → List (String × Value) → Prop
  mono : ∀ {fence fence' heap heap' kept}, rootScope < fence → holds fence heap kept →
    fence ≤ fence' → heap.Extends fence heap' → holds fence' heap' kept

def Stage.fence (w : Stage) (heap : Heap) : Nat :=
  match w.opening with
  | some (a, _) => a
  | none => heap.size

def Stage.fence' (w : Stage) (heap : Heap) : Nat :=
  match w.opening with
  | some (_, b) => b
  | none => heap.size

theorem Stage.fence_of_opening {w : Stage} {a b : ScopeId} (opening : w.opening = some (a, b))
    (heap : Heap) : w.fence heap = a ∧ w.fence' heap = b := by
  unfold fence fence'
  rw [opening]
  exact ⟨rfl, rfl⟩

/-- The fence of the first run stands within the heap, behind the root scope. -/
theorem Stage.fence_bounds {w : Stage} {heap : Heap}
    (opening : ∀ a b, w.opening = some (a, b) → a ≠ rootScope ∧ a < heap.size)
    (root : rootScope < heap.size) : rootScope < w.fence heap ∧ w.fence heap ≤ heap.size := by
  unfold fence
  split
  · next a b writable =>
    obtain ⟨inner, bound⟩ := opening a b writable
    exact ⟨Nat.pos_of_ne_zero inner, Nat.le_of_lt bound⟩
  · exact ⟨root, Nat.le_refl _⟩

/-- The fence of the second run likewise. -/
theorem Stage.fence'_bounds {w : Stage} {heap : Heap}
    (opening : ∀ a b, w.opening = some (a, b) → b ≠ rootScope ∧ b < heap.size)
    (root : rootScope < heap.size) : rootScope < w.fence' heap ∧ w.fence' heap ≤ heap.size := by
  unfold fence'
  split
  · next a b writable =>
    obtain ⟨inner, bound⟩ := opening a b writable
    exact ⟨Nat.pos_of_ne_zero inner, Nat.le_of_lt bound⟩
  · exact ⟨root, Nat.le_refl _⟩

def Stage.grow (w : Stage) (a b : ScopeId) : Stage where
  scopes x y := w.scopes x y ∨ x = a ∧ y = b
  rooted := .inl w.rooted
  opening := some (a, b)
  idle := w.idle
  exact := w.exact

def Stage.bare : Stage where
  scopes a b := a = rootScope ∧ b = rootScope
  rooted := ⟨rfl, rfl⟩
  opening := none
  idle := True
  exact := False

def Stage.join (w : Stage) (scopes : ScopeId → ScopeId → Prop) : Stage where
  scopes a b := w.scopes a b ∨ scopes a b
  rooted := .inl w.rooted
  opening := none
  idle := w.idle
  exact := w.exact

def Stage.within (w : Stage) (site : CallSite) : Stage :=
  if site.isDefinition then { w with idle := False } else w

def Stage.back (w : Stage) (idle : Prop) : Stage := { w with idle := idle }

section Standing

variable {σ : Type} (s : Setting σ) (code : Arg → Prop) (reads : String → Prop) (K : Warrant)

structure Stands (w : Stage) (memory memory' : Memory) : Prop where
  heap : Tracks s code reads w.scopes memory.heap memory'.heap
  opening : ∀ a b, w.opening = some (a, b) → w.scopes a b ∧ a ≠ rootScope ∧
    ∀ a' b', w.scopes a' b' → (a = a' ↔ b = b')
  stack : w.exact → memory.stack = memory'.stack
  active : memory.active = memory'.active
  idle : w.idle → memory'.active = []
  kept : K.holds (w.fence memory.heap) memory.heap memory.kept

structure Moves (w : Stage) (memory memory' : Memory) (w₁ : Stage) (later later' : Memory) :
    Prop where
  le : w ≤ w₁
  stands : Stands s code reads K w₁ later later'
  first : memory.heap.Extends (w.fence memory.heap) later.heap
  second : memory'.heap.Extends (w.fence' memory'.heap) later'.heap
  fence : w.fence memory.heap ≤ w₁.fence later.heap
  fence' : w.fence' memory'.heap ≤ w₁.fence' later'.heap

end Standing

variable {σ : Type} {s : Setting σ} {code : Arg → Prop} {reads : String → Prop} {K : Warrant}

theorem Moves.trans {w w₁ w₂ : Stage} {memory memory' later later' last last' : Memory}
    (moves : Moves s code reads K w memory memory' w₁ later later')
    (further : Moves s code reads K w₁ later later' w₂ last last') :
    Moves s code reads K w memory memory' w₂ last last' where
  le := moves.le.trans further.le
  stands := further.stands
  first := moves.first.trans further.first moves.fence
  second := moves.second.trans further.second moves.fence'
  fence := Nat.le_trans moves.fence further.fence
  fence' := Nat.le_trans moves.fence' further.fence'

namespace Stands

section

variable {w : Stage} {memory memory' : Memory} (stands : Stands s code reads K w memory memory')
include stands

theorem fence_bounds : rootScope < w.fence memory.heap ∧ w.fence memory.heap ≤ memory.heap.size :=
  Stage.fence_bounds (fun a b opening =>
    have opened := stands.opening a b opening
    ⟨opened.2.1, (stands.heap.within a b opened.1).1⟩) stands.heap.root_lt.1

theorem fence'_bounds :
    rootScope < w.fence' memory'.heap ∧ w.fence' memory'.heap ≤ memory'.heap.size :=
  Stage.fence'_bounds (fun a b opening =>
    have opened := stands.opening a b opening
    ⟨fun root => opened.2.1 ((stands.heap.level a b opened.1).mpr root),
      (stands.heap.within a b opened.1).2⟩) stands.heap.root_lt.2

/-- The kept values, once no names are being bound. -/
theorem settled : K.holds memory.heap.size memory.heap memory.kept :=
  K.mono stands.fence_bounds.1 stands.kept stands.fence_bounds.2 (.refl _ stands.fence_bounds.2)

theorem moves_self : Moves s code reads K w memory memory' w memory memory' where
  le := le_rfl
  stands := stands
  first := .refl _ stands.fence_bounds.2
  second := .refl _ stands.fence'_bounds.2
  fence := Nat.le_refl _
  fence' := Nat.le_refl _

end

section Queries

variable {w : Stage} {memory memory' : Memory} (stands : Stands s code reads K w memory memory')
include stands

theorem add {bindings bindings' : Bindings} {parent parent' : Option ScopeId}
    (entries : Bindings.Alike ((resemblanceOf s code).value w.scopes) bindings bindings')
    (parents : Option.Rel w.scopes parent parent') :
    Moves s code reads K w memory memory' (w.grow memory.heap.size memory'.heap.size)
      { memory with heap := (memory.heap.add bindings parent).2 }
      { memory' with heap := (memory'.heap.add bindings' parent').2 } where
  le := ⟨fun _ _ => .inl, Iff.rfl, Iff.rfl⟩
  stands := {
    heap := stands.heap.add entries parents
    opening := by
      rintro _ _ ⟨⟩
      refine ⟨.inr ⟨rfl, rfl⟩, Nat.ne_of_gt stands.heap.root_lt.1, ?_⟩
      rintro a' b' (same | ⟨rfl, rfl⟩)
      · obtain ⟨bound, bound'⟩ := stands.heap.within a' b' same
        exact iff_of_false (Nat.ne_of_gt bound) (Nat.ne_of_gt bound')
      · exact iff_of_true rfl rfl
    stack := stands.stack
    active := stands.active
    idle := stands.idle
    kept := K.mono stands.fence_bounds.1 stands.kept stands.fence_bounds.2
      (.add _ _ _ stands.fence_bounds.2) }
  first := .add _ _ _ stands.fence_bounds.2
  second := .add _ _ _ stands.fence'_bounds.2
  fence := stands.fence_bounds.2
  fence' := stands.fence'_bounds.2

theorem made {operator : Operator → Prop} {operation : String → Prop}
    (codes : Codes operator operation code reads) :
    (likenessOf s codes).Made (w.grow memory.heap.size memory'.heap.size) memory.heap.size
      memory'.heap.size := by
  have first : memory.heap.size ≠ rootScope := Nat.ne_of_gt stands.heap.root_lt.1
  have second : memory'.heap.size ≠ rootScope := Nat.ne_of_gt stands.heap.root_lt.2
  exact ⟨⟨.inr ⟨rfl, rfl⟩, iff_of_false first second, fun root => absurd root first⟩,
    ⟨.inr ⟨rfl, rfl⟩, iff_of_false first second, fun root => absurd root first⟩, rfl⟩

theorem define {a b : ScopeId} (writable : w.opening = some (a, b)) (name : String)
    (mutability : Mutability) {v v' : Value}
    (values : (resemblanceOf s code).value w.scopes v v') :
    Moves s code reads K w memory memory' w
      { memory with heap := memory.heap.define a name ⟨v, mutability⟩ }
      { memory' with heap := memory'.heap.define b name ⟨v', mutability⟩ } := by
  obtain ⟨same, inner, only⟩ := stands.opening a b writable
  have inner' : b ≠ rootScope := fun root => inner ((stands.heap.level a b same).mpr root)
  have fence (heap : Heap) : w.fence heap = a := (Stage.fence_of_opening writable heap).1
  have fence' (heap : Heap) : w.fence' heap = b := (Stage.fence_of_opening writable heap).2
  have first : memory.heap.Extends a (memory.heap.define a name ⟨v, mutability⟩) :=
    .define _ _ _ (Nat.le_refl _) (fence memory.heap ▸ stands.fence_bounds.2)
  have second : memory'.heap.Extends b (memory'.heap.define b name ⟨v', mutability⟩) :=
    .define _ _ _ (Nat.le_refl _) (fence' memory'.heap ▸ stands.fence'_bounds.2)
  have kept := stands.kept
  rw [fence] at kept
  refine ⟨le_rfl, ⟨stands.heap.define inner inner' only name mutability values, stands.opening,
    stands.stack, stands.active, stands.idle, ?_⟩, ?_, ?_, ?_, ?_⟩
  · rw [fence]
    exact K.mono (Nat.pos_of_ne_zero inner) kept (Nat.le_refl _) first
  · rwa [fence]
  · rwa [fence']
  · rw [fence, fence]
  · rw [fence', fence']

theorem enter {operator : Operator → Prop} {operation : String → Prop}
    (codes : Codes operator operation code reads) {c c' : Captured}
    (captured : Captured.Alike (fun _ _ => True) w.scopes code c c')
    (closures : s.layer.hasClosures) :
    ∃ w', Moves s code reads K w memory memory' w'
        { memory with heap := ((memory.heap.captured c).2.child (memory.heap.captured c).1).2 }
        { memory' with
          heap := ((memory'.heap.captured c').2.child (memory'.heap.captured c').1).2 } ∧
      (likenessOf s codes).Made w' ((memory.heap.captured c).2.child (memory.heap.captured c).1).1
        ((memory'.heap.captured c').2.child (memory'.heap.captured c').1).1 := by
  cases captured with
  | shared scopes => exact ⟨_, stands.add .nil (.some scopes), stands.made codes⟩
  | frozen same =>
    rw [← value_of_closures closures] at same
    have copied := stands.add (.ofValues .immutable same) .none
    have inner : (w.grow memory.heap.size memory'.heap.size).scopes memory.heap.size
        memory'.heap.size := .inr ⟨rfl, rfl⟩
    exact ⟨_, copied.trans (copied.stands.add .nil (.some inner)), copied.stands.made codes⟩

theorem serve (codes : Codes (Comparing s) (Dispatching s) code reads) {q q' : Query}
    (queries : (likenessOf s codes).Queries w q q') (shared : Shared σ) :
    ∃ w', Moves s code reads K w memory memory' w' (s.serve q shared memory).2.2
        (s.uncached.serve q' shared memory').2.2 ∧
      (likenessOf s codes).Answers w' q q' (s.serve q shared memory).1
        (s.uncached.serve q' shared memory').1 ∧
      (s.serve q shared memory).2.1 = shared ∧
      (s.uncached.serve q' shared memory').2.1 = shared := by
  have still := stands.moves_self
  cases queries with
  | lookup read scope => exact ⟨w, still, stands.heap.lookup read scope.1, rfl, rfl⟩
  | define writable mutabilities values =>
    obtain rfl := mutabilities
    exact ⟨w, stands.define writable _ _ values, writable, rfl, rfl⟩
  | assign mutation => exact mutation.elim
  | child outer =>
    exact ⟨_, stands.add .nil (.some outer), stands.made codes, rfl, rfl⟩
  | enter closures captured =>
    obtain ⟨w', moves, made⟩ := stands.enter codes captured.2 closures
    exact ⟨w', moves, made, rfl, rfl⟩
  | flatten _ snapshots => exact snapshots.elim
  | fresh =>
    obtain ⟨heap, opening, stack, active, idle, kept⟩ := stands
    exact ⟨w, ⟨le_rfl, ⟨heap, opening, stack, active, idle, kept⟩, still.first, still.second,
      still.fence, still.fence'⟩, trivial, rfl, rfl⟩
  | isActive => exact ⟨w, still, congrArg (List.contains · _) stands.active, rfl, rfl⟩
  | innermost =>
    exact ⟨w, still, fun exact => congrArg CallStack.top? (stands.stack exact), rfl, rfl⟩
  | recollect plain => exact absurd trivial plain
  | remember plain => exact absurd trivial plain
  | compute permitted operands =>
    exact ⟨w, still, (resemblanceOf s code).compute_alike (comparable permitted) operands, rfl, rfl⟩
  | @dispatch domain op args args' _ plain operands =>
    refine ⟨w, still, ?_, rfl, rfl⟩
    change ResultsAlike Eq ((resemblanceOf s code).value w.scopes) _ _
    change List.Forall₂ ((resemblanceOf s code).value w.scopes) args args' at operands
    rw [value_of_plain plain, List.forall₂_eq_eq_eq] at operands
    rw [value_of_plain plain, operands]
    exact .of_eq rfl
  | perform effects => exact effects.elim

end Queries

section Calls

variable {w : Stage} {memory memory' : Memory} (stands : Stands s code reads K w memory memory')
include stands

theorem enterCall (site : CallSite) :
    Stands s code reads K (w.within site) (memory.enter site) (memory'.enter site) := by
  obtain ⟨heap, opening, stack, active, idle, kept⟩ := stands
  obtain ⟨name, isDefinition⟩ := site
  have stack' (exact : w.exact) : memory.stack.grow name = memory'.stack.grow name :=
    congrArg (·.grow name) (stack exact)
  cases isDefinition with
  | true => exact ⟨heap, opening, stack', congrArg (name :: ·) active, False.elim, kept⟩
  | false => exact ⟨heap, opening, stack', active, idle, kept⟩

theorem leaveCall {site : CallSite} {w₁ : Stage} {later later' : Memory}
    (moves : Moves s code reads K (w.within site) (memory.enter site) (memory'.enter site) w₁ later
      later')
    (calls : later.stack = (memory.enter site).stack ∧ later.active = (memory.enter site).active)
    (calls' : later'.stack = (memory'.enter site).stack ∧
      later'.active = (memory'.enter site).active) :
    Moves s code reads K w memory memory' (w₁.back w.idle) (later.leave site.isDefinition)
      (later'.leave site.isDefinition) := by
  obtain ⟨stack, active⟩ := Setting.Yields.leave_enter site later calls.1 calls.2
  obtain ⟨stack', active'⟩ := Setting.Yields.leave_enter site later' calls'.1 calls'.2
  obtain ⟨le, ⟨heap, opening, -, -, -, kept⟩, first, second, fence, fence'⟩ := moves
  have exact : (w₁.back w.idle).exact ↔ w.exact := by
    obtain ⟨name, isDefinition⟩ := site
    cases isDefinition <;> exact le.2.2.symm
  have parts : (w.within site).scopes = w.scopes ∧ (w.within site).fence = w.fence ∧
      (w.within site).fence' = w.fence' := by
    obtain ⟨name, isDefinition⟩ := site
    cases isDefinition <;> exact ⟨rfl, rfl, rfl⟩
  rw [parts.2.1] at first fence
  rw [parts.2.2] at second fence'
  refine ⟨⟨fun a b same => le.1 a b (parts.1 ▸ same), Iff.rfl, exact.symm⟩,
    ⟨heap, opening, fun on => ?_, ?_, fun idle => ?_, kept⟩, first, second, fence, fence'⟩
  · rw [stack, stack', stands.stack (exact.mp on)]
  · rw [active, active', stands.active]
  · rw [active', stands.idle idle]

end Calls

section Kept

/-- Two runs of the code of a node begin, the first at some earlier time. -/
theorem anew {before memory' : Memory} (agree : before.heap.RootsAgree reads memory'.heap)
    (kept : K.holds before.heap.size before.heap before.kept) (inactive : before.active = [])
    (inactive' : memory'.active = []) : Stands s code reads K .bare before memory' where
  heap := .of_roots agree
  opening _ _ := nofun
  stack := False.elim
  active := inactive.trans inactive'.symm
  idle _ := inactive'
  kept := kept

variable {w : Stage} {memory memory' : Memory} (stands : Stands s code reads K w memory memory')
include stands

/-- The first run answers from its node cache. The second run makes what stands for the answer. -/
theorem reuse {reads' : String → Prop} {scopes : ScopeId → ScopeId → Prop} {last' : Memory}
    (further : Tracks s code reads' scopes memory.heap last'.heap)
    (newer : memory'.heap.Extends memory'.heap.size last'.heap)
    (calls : last'.stack = memory'.stack ∧ last'.active = memory'.active) :
    Moves s code reads K w memory memory' (w.join scopes) memory last' where
  le := ⟨fun _ _ => .inl, Iff.rfl, Iff.rfl⟩
  stands := {
    heap := stands.heap.join further newer
    opening := fun _ _ => nofun
    stack := fun exact => (stands.stack exact).trans calls.1.symm
    active := stands.active.trans calls.2.symm
    idle := fun on => calls.2.trans (stands.idle on)
    kept := stands.settled }
  first := .refl _ stands.fence_bounds.2
  second := (Heap.Extends.refl _ stands.fence'_bounds.2).trans newer stands.fence'_bounds.2
  fence := stands.fence_bounds.2
  fence' := Nat.le_trans stands.fence'_bounds.2 newer.size

theorem remember {id : String} {v : Value}
    (held : K.holds memory.heap.size memory.heap ((id, v) :: memory.kept)) :
    Moves s code reads K w memory memory' { w with opening := none }
      { memory with kept := (id, v) :: memory.kept } memory' where
  le := ⟨fun _ _ same => same, Iff.rfl, Iff.rfl⟩
  stands := { stands with opening := fun _ _ => nofun, kept := held }
  first := .refl _ stands.fence_bounds.2
  second := .refl _ stands.fence'_bounds.2
  fence := stands.fence_bounds.2
  fence' := stands.fence'_bounds.2

end Kept

end Stands

end NodeCache
end LayeredIR
