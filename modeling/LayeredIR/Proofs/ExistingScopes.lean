import LayeredIR.Proofs.Charter.Evaluations
import LayeredIR.Proofs.Lookups

/-! What the evaluation of an expression does to the scopes that were there before it. It may
declare names in the scope that it stands in, and rebind what is mutable; it does nothing else to
them, whatever functions it calls and wherever it fails. Below the layers with mutation it does
nothing to them at all. -/
namespace LayeredIR

namespace Bindings

def mutability? (bindings : Bindings) (name : String) : Option Mutability :=
  (bindings.find? name).map Binding.mutability

/-- A name is bound as before, or not at all as before; what is bound to it is another value only if
it is mutable. -/
structure Keeps (before after : Bindings) (name : String) : Prop where
  mutability : after.mutability? name = before.mutability? name
  value : before.mutability? name ≠ some .mutable → after.find? name = before.find? name

/-- Each name is kept, or it has been declared and is mutable. -/
def Framed (declared : String → Prop) (before after : Bindings) : Prop :=
  ∀ name, before.Keeps after name ∨ declared name ∧ after.mutability? name = some .mutable

theorem Framed.refl (declared : String → Prop) (bindings : Bindings) :
    bindings.Framed declared bindings := fun _ => .inl ⟨rfl, fun _ => rfl⟩

/-- Binding a name to what is mutable, where it is declared or was mutable already. -/
theorem Framed.set {declared : String → Prop} {before after : Bindings}
    (framed : before.Framed declared after) (name : String) (v : Value)
    (may : declared name ∨ after.mutability? name = some .mutable) :
    before.Framed declared (after.set name ⟨v, .mutable⟩) := by
  intro other
  by_cases same : other = name
  · subst same
    have now : (after.set other ⟨v, .mutable⟩).mutability? other = some .mutable := by
      simp only [mutability?, find?_set, if_true, Option.map_some]
    rcases may with declares | was
    · exact .inr ⟨declares, now⟩
    · rcases framed other with keeps | ⟨declares, -⟩
      · have mutable := keeps.mutability.symm.trans was
        exact .inl ⟨now.trans mutable.symm, fun immutable => absurd mutable immutable⟩
      · exact .inr ⟨declares, now⟩
  · have still : (after.set name ⟨v, .mutable⟩).find? other = after.find? other := by
      rw [find?_set, if_neg same]
    rcases framed other with keeps | ⟨declares, was⟩
    · exact .inl ⟨by rw [mutability?, still]; exact keeps.mutability, fun immutable =>
        still.trans (keeps.value immutable)⟩
    · exact .inr ⟨declares, by rw [mutability?, still]; exact was⟩

end Bindings

def Heap.Framed (declared : ScopeId → String → Prop) (heap later : Heap) : Prop :=
  ∀ place scope, heap.get? place = some scope → ∃ bindings,
    later.get? place = some ⟨bindings, scope.parent⟩ ∧
      scope.bindings.Framed (declared place) bindings

namespace Heap.Framed

variable {declared : ScopeId → String → Prop} {heap later : Heap}

theorem refl (declared : ScopeId → String → Prop) (heap : Heap) : heap.Framed declared heap :=
  fun _ scope found => ⟨scope.bindings, found, .refl _ _⟩

theorem add (framed : heap.Framed declared later) (grown : heap.size ≤ later.size)
    (bindings : Bindings) (parent : Option ScopeId) :
    heap.Framed declared (later.add bindings parent).2 := by
  intro place scope found
  have old := Nat.lt_of_lt_of_le (lt_size_of_get? found) grown
  rw [get?_add, if_neg (Nat.ne_of_lt old)]
  exact framed place scope found

theorem captured (framed : heap.Framed declared later) (grown : heap.size ≤ later.size)
    (c : Captured) : heap.Framed declared (later.captured c).2 := by
  cases c with
  | shared a => exact framed
  | frozen entries => exact framed.add grown _ none

theorem define_young (framed : heap.Framed declared later) {a : ScopeId} (young : heap.size ≤ a)
    (name : String) (binding : Binding) : heap.Framed declared (later.define a name binding) := by
  intro place scope found
  have old := Nat.lt_of_lt_of_le (lt_size_of_get? found) young
  rw [get?_define, if_neg (Nat.ne_of_gt old)]
  exact framed place scope found

theorem define (framed : heap.Framed declared later) {a : ScopeId} {name : String} (v : Value)
    (may : ∀ bindings parent, later.get? a = some ⟨bindings, parent⟩ →
      declared a name ∨ bindings.mutability? name = some .mutable) :
    heap.Framed declared (later.define a name ⟨v, .mutable⟩) := by
  intro place scope found
  obtain ⟨bindings, held, kept⟩ := framed place scope found
  rw [get?_define, held]
  split
  · next same =>
    subst same
    exact ⟨_, rfl, kept.set name v (may bindings _ held)⟩
  · exact ⟨bindings, rfl, kept⟩

theorem assign (framed : heap.Framed declared later) (a : ScopeId) (name : String) (v : Value) :
    heap.Framed declared (later.assign a name v).2 := by
  unfold Heap.assign
  split
  · exact framed
  · exact framed
  · next place u found =>
    obtain ⟨scope, held, bound⟩ := find?_eq_some found
    refine framed.define v fun bindings parent here => .inr ?_
    cases held.symm.trans here
    simp only [Bindings.mutability?, bound, Option.map_some]

end Heap.Framed

namespace Charter

variable {σ : Type} (s : Setting σ) (base : Nat) (scope : ScopeId → Prop)
  (declared : ScopeId → String → Prop)

def framing : Charter s where
  value _ := True
  cause _ := True
  label _ := False
  base := base
  scope a := scope a ∨ base ≤ a
  declared := declared
  host _ := True

variable {s base scope declared}

theorem framing_laws : (framing s base scope declared).Laws where
  literal _ := trivial
  list _ _ _ := trivial
  future _ := trivial
  closure _ := trivial
  captured {c} _ := by
    cases c.captured with
    | shared _ => trivial
    | frozen _ => exact fun _ _ => trivial
  input _ := trivial
  compute _ _ := trivial
  cause_own _ := trivial
  cause_label known := known.elim
  successor known := known.elim
  registers known := known.elim
  young := .inr

theorem framing_indifferent : (framing s base scope declared).Indifferent where
  shares _ _ := ⟨fun _ _ _ => trivial, trivial⟩
  heard shared task := by
    rintro q next -
    cases q with
    | dispatch d op args => exact fun _ _ => ⟨fun _ _ => trivial, fun _ _ => trivial⟩
    | perform effect args =>
      exact fun _ _ _ => ⟨⟨fun _ _ => trivial, fun _ _ => trivial⟩, trivial⟩
    | _ => trivial

theorem framing_keeps (memory : Memory) :
    (framing s memory.heap.size scope declared).Keeps memory where
  grown := Nat.le_refl _
  holds := ⟨fun _ _ _ _ _ => trivial, fun _ _ => trivial⟩

/-- The changes of such a run leave a heap framed. -/
theorem framing_changed {heap heap' later : Heap}
    (grown : heap.size ≤ heap'.size) (framed : heap.Framed declared heap')
    (change : (framing s heap.size scope declared).Change heap' later) :
    heap.Framed declared later := by
  cases change with
  | same => exact framed
  | child a => exact framed.add grown [] (some a)
  | enter captured =>
    refine (framed.captured grown captured).add (Nat.le_trans grown ?_) [] _
    exact (Heap.Extends.captured heap' captured (Nat.le_refl _)).size
  | define v binds =>
    rcases binds with young | ⟨rfl, declares⟩
    · exact framed.define_young young _ _
    · exact framed.define v fun _ _ _ => .inl declares
  | assign a name v _ => exact framed.assign a name v

/-- Where nothing can be rebound and nothing be declared, a heap is only added to. -/
theorem framing_extends (pure : s.layer.hasMutation = false) {heap heap' later : Heap}
    (grown : heap.size ≤ heap'.size) (extended : heap.Extends heap.size heap')
    (change : (framing s heap.size scope fun _ _ => False).Change heap' later) :
    heap.Extends heap.size later := by
  cases change with
  | same => exact extended
  | child a => exact extended.trans (.add heap' [] _ grown) (Nat.le_refl _)
  | enter captured =>
    have copied := extended.trans (.captured heap' captured grown) (Nat.le_refl _)
    exact copied.trans (.add _ [] _ copied.size) (Nat.le_refl _)
  | define v binds =>
    rcases binds with young | ⟨-, declares⟩
    · exact extended.trans (.define heap' _ _ young grown) (Nat.le_refl _)
    · exact declares.elim
  | assign a name v mutation => exact absurd (pure.symm.trans mutation) Bool.false_ne_true

end Charter

namespace Setting.Evaluation

variable {σ : Type} {s : Setting σ} {bottom : List Frame} {expr : Expr} {env : ScopeId}
  {memory : Memory} {begun : List Job} {task : Task}
  (evaluation : s.Evaluation bottom (.expr expr env) memory begun task)
include evaluation

theorem framed : memory.heap.Framed
    (fun place name => place = env ∧ ∃ value, .expr (.declare name value) env ∈ begun)
    task.memory.heap := by
  let C := Charter.framing s memory.heap.size (fun a => a = env) fun place name =>
    place = env ∧ ∃ value, .expr (.declare name value) env ∈ begun
  have admits (job : Job) (member : job ∈ begun) (jobs : C.Jobs job) : C.Admits job := by
    unfold Charter.Admits
    split
    · next name value a =>
      intro _
      cases jobs with
      | expr scope =>
        rcases scope with rfl | young
        · exact .inr ⟨rfl, value, member⟩
        · exact .inl young
    · trivial
  have first : Job.expr expr env ∈ begun := by
    clear admits
    induction evaluation with
    | start => exact .head _
    | step _ _ _ _ ih => exact List.mem_append_right _ ih
  have jobs : C.Jobs (.expr expr env) := .expr (.inl rfl)
  have begins := s.plan_upholds (C := C) Charter.framing_laws jobs (admits _ first jobs)
  exact (Charter.evaluation Charter.framing_laws Charter.framing_indifferent
    Charter.framing_changed begins (Charter.framing_keeps memory) (.refl _ _) evaluation admits).2

/-- A sequence declares nothing where it stands. -/
theorem framed_seq {body : List Arg} (single : expr = .seq body) :
    memory.heap.Framed (fun _ _ => False) task.memory.heap := by
  subst single
  let C := Charter.framing s memory.heap.size (fun _ => False) fun _ _ => False
  have admits (job : Job) (_ : job ∈ begun) (jobs : C.Jobs job) : C.Admits job := by
    unfold Charter.Admits
    split
    · intro _
      cases jobs with
      | expr scope => exact .inl (scope.resolve_left not_false)
    · trivial
  have begins := s.seq_upholds (C := C) Charter.framing_laws body env
  exact (Charter.evaluation Charter.framing_laws Charter.framing_indifferent
    Charter.framing_changed begins (Charter.framing_keeps memory) (.refl _ _) evaluation admits).2

/-- Without mutation no scope changes that was there before. -/
theorem extends_pure (pure : s.layer.hasMutation = false) :
    memory.heap.Extends memory.heap.size task.memory.heap := by
  let C := Charter.framing s memory.heap.size (fun a => a = env) fun _ _ => False
  have admits (job : Job) : C.Admits job := by
    unfold Charter.Admits
    split
    · exact fun mutation => absurd (pure.symm.trans mutation) Bool.false_ne_true
    · trivial
  have jobs : C.Jobs (.expr expr env) := .expr (.inl rfl)
  have begins := s.plan_upholds (C := C) Charter.framing_laws jobs (admits _)
  exact (Charter.evaluation Charter.framing_laws Charter.framing_indifferent
    (Charter.framing_extends pure) begins (Charter.framing_keeps memory)
    (.refl _ (Nat.le_refl _)) evaluation fun job _ _ => admits job).2

/-- At any point of the evaluation of an expression, the scopes that were there before are as they
were, except for what is declared in the scope that the expression stands in, and for the values of
mutable bindings. A sequence declares nothing there, and in the layers without mutation nothing
changes at all. -/
theorem existing_scopes :
    (memory.heap.Framed
      (fun place name => place = env ∧ ∃ value, .expr (.declare name value) env ∈ begun)
      task.memory.heap) ∧
      (∀ body, expr = .seq body → memory.heap.Framed (fun _ _ => False) task.memory.heap) ∧
      (s.layer = .air ∨ s.layer = .cir →
        memory.heap.Extends memory.heap.size task.memory.heap) := by
  refine ⟨evaluation.framed, fun body => evaluation.framed_seq, fun lower => ?_⟩
  refine evaluation.extends_pure ?_
  rcases lower with air | cir
  · simp [air, Layer.hasMutation]
  · simp [cir, Layer.hasMutation]

omit evaluation in
/-- A declaration whose operand assigns to a mutable name: the one name is added, and the other one
has another value. -/
theorem existing_scopes_declare : ∃ (s : Setting Unit) (memory : Memory) (begun : List Job)
    (task : Task),
    s.Evaluation [] (.expr (.declare "x" (.inline (.assign "y" (.inline (.lit (.int 2)))))) 0)
      memory begun task ∧
    task.control = Plan.ending (.ok .void) ∧
    memory.heap.lookup 0 "x" = none ∧ task.memory.heap.lookup 0 "x" = some .void ∧
    memory.heap.lookup 0 "y" = some (.int 1) ∧ task.memory.heap.lookup 0 "y" = some (.int 2) ∧
    memory.heap.Framed (fun place name => place = 0 ∧ ∃ value,
      .expr (.declare name value) 0 ∈ begun) task.memory.heap := by
  let s : Setting Unit := { layer := .eir }
  let memory : Memory :=
    { Memory.initial entryTask 10 with heap := ⟨#[⟨[("y", ⟨.int 1, .mutable⟩)], none⟩]⟩ }
  let shared : Shared Unit := ⟨.empty, 0, ()⟩
  have declares : s.Evaluation []
      (.expr (.declare "x" (.inline (.assign "y" (.inline (.lit (.int 2)))))) 0) memory _ _ :=
    .start
  have operand := declares.step shared (by rintro (_ | _) ⟨⟩) rfl
  -- with a frame above the bottom nothing has come to its result yet
  have assigns := operand.step shared (fun _ _ => List.cons_ne_nil _ _) rfl
  have literal := assigns.step shared (fun _ _ => List.cons_ne_nil _ _) rfl
  have value := literal.step shared (fun _ _ => List.cons_ne_nil _ _) rfl
  have given := value.step shared (fun _ _ => List.cons_ne_nil _ _) rfl
  have assigned := given.step shared (fun _ _ => List.cons_ne_nil _ _) rfl
  have bound := assigned.step shared (fun _ _ => List.cons_ne_nil _ _) rfl
  have evaluation := bound.step shared (by rintro (_ | _) ⟨⟩) rfl
  exact ⟨s, memory, _, _, evaluation, rfl, rfl, rfl, rfl, rfl, evaluation.existing_scopes.1⟩

end Setting.Evaluation
end LayeredIR
