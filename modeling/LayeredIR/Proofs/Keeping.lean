import LayeredIR.Proofs.Likeness.Alignment
import LayeredIR.Proofs.Value.Parts

/-! What a run keeps. A task is compared with itself: the futures that it holds are among those it
is said to know, and the closures that it holds make no calls but permitted ones. As long as no
operation brings references of its own, this stays so whatever the task does. -/
namespace LayeredIR

theorem forall₂_self_iff {α : Type} {P : α → Prop} {as bs : List α} :
    List.Forall₂ (fun a b => a = b ∧ P a) as bs ↔ as = bs ∧ ∀ a ∈ as, P a := by
  have swapped : (fun a b : α => a = b ∧ P a) = fun a b => P a ∧ a = b := by
    funext a b
    exact propext and_comm
  rw [swapped, List.forall₂_and_left, List.forall₂_eq_eq_eq, and_comm]

namespace Resemblance

def holding {κ : Type} (P : κ → Value → Prop) (plain : ∀ w v, v.isReference = false → P w v) :
    Resemblance κ where
  value w v v' := v = v' ∧ v.All (P w)
  outline_eq same := congrArg Value.outline same.1
  value_literal w l := ⟨rfl, (Value.ofLiteral_plain l).mono (plain w)⟩
  value_list same := by
    obtain ⟨rfl, all⟩ := forall₂_self_iff.mp same
    exact ⟨rfl, Value.all_list (plain _ _ rfl) all⟩
  value_set same := by
    obtain ⟨rfl, all⟩ := forall₂_self_iff.mp same
    exact ⟨rfl, Value.all_set (plain _ _ rfl) all⟩
  value_items {w v v'} same := by
    obtain ⟨rfl, all⟩ := same
    cases held : v.items? with
    | none => exact .none
    | some items => exact .some (forall₂_self_iff.mpr ⟨rfl, all.items held⟩)

theorem holding_comparable {κ : Type} {P : κ → Value → Prop}
    {plain : ∀ w v, v.isReference = false → P w v} : (holding P plain).Comparable := by
  intro w v _ u _ parts parts' floatEq
  obtain ⟨rfl, -⟩ := parts
  obtain ⟨rfl, -⟩ := parts'
  rfl

end Resemblance

/-- An operation asks for the types of its operands only. -/
theorem Domain.call_types {domain : Domain} {typeOf typeOf' : Value → Option Ty} {op : String}
    {args : List Value} (agree : ∀ arg ∈ args, typeOf arg = typeOf' arg) :
    domain.call typeOf op args = domain.call typeOf' op args := by
  unfold Domain.call
  split
  · cases args with
    | nil => rfl
    | cons arg rest => simp only [List.head?_cons, Option.bind_some, agree arg (by simp)]
  all_goals rfl

theorem Domains.builtin_conserves {name : String} {domain : Domain}
    (found : Domains.builtin.find? name = some domain) : domain.Conserves := by
  intro typeOf op args v answered
  let held : Resemblance Unit := .holding
    (fun _ part => part.isReference → ∃ arg ∈ args, part.Inside arg)
    fun _ v plain reference => absurd (plain ▸ reference) Bool.false_ne_true
  have respects := held.builtin_respects Resemblance.holding_comparable (fun _ => True) found
  have operands : List.Forall₂ (held.value ()) args args := by
    refine forall₂_self_iff.mpr ⟨rfl, fun arg member part inside _ => ⟨arg, member, inside⟩⟩
  have results := respects () op typeOf typeOf args args trivial
    (fun _ _ same => congrArg typeOf same.1) operands
  rw [answered] at results
  exact results.2

/-- How far a task has come: the futures that it may know, and its last scope. -/
structure Knowledge where
  futures : Set Identity
  scope : ScopeId

instance : Preorder Knowledge where
  le w w' := (∀ id ∈ w.futures, id ∈ w'.futures) ∧ w.scope ≤ w'.scope
  le_refl w := ⟨fun _ known => known, Nat.le_refl _⟩
  le_trans _ _ _ first second :=
    ⟨fun id known => second.1 id (first.1 id known), Nat.le_trans first.2 second.2⟩

namespace Knowledge

theorem le_iff {w w' : Knowledge} :
    w ≤ w' ↔ (∀ id ∈ w.futures, id ∈ w'.futures) ∧ w.scope ≤ w'.scope := Iff.rfl

def extent (w : Knowledge) : Nat × Nat := (w.scope + 1, w.scope + 1)

variable (operation : String → Prop)

def Permits (w : Knowledge) : Value → Prop
  | .future id => id ∈ w.futures
  | .closure c => c.body.Every (Expr.CallsOnly (Permitted (fun _ => True) operation)) ∧
    ∃ entries, c.captured = .frozen entries
  | _ => True

theorem Permits.plain (w : Knowledge) (v : Value) (plain : v.isReference = false) :
    w.Permits operation v := by
  cases v with
  | closure _ | future _ => cases plain
  | _ => trivial

variable {operation}

theorem Permits.mono {w w' : Knowledge} (le : w ≤ w') (v : Value)
    (permits : w.Permits operation v) : w'.Permits operation v := by
  cases v with
  | future id => exact (le_iff.mp le).1 id permits
  | closure c => exact permits
  | _ => trivial

/-- A value that comes from permitted ones is permitted. -/
theorem Permits.of_from {w : Knowledge} {args : List Value} {v : Value} (conserved : v.From args)
    (all : ∀ arg ∈ args, arg.All (w.Permits operation)) : v.All (w.Permits operation) := by
  intro part inside
  cases reference : part.isReference with
  | false => exact .plain operation w part reference
  | true =>
    obtain ⟨arg, member, within⟩ := conserved part inside reference
    exact all arg member part within

end Knowledge

namespace Likeness

def keeping (operation : String → Prop) : Likeness Knowledge where
  toResemblance := .holding (fun w => w.Permits operation) fun w v => .plain operation w v
  captured w c c' := c = c' ∧
    ∃ entries, c = .frozen entries ∧ ∀ entry ∈ entries, entry.2.All (w.Permits operation)
  identity _ := Eq
  mutability := Eq
  scope w a b := a = b ∧ a ≤ w.scope
  outer w a b := a = b ∧ a ≤ w.scope
  writable w a b := a = b ∧ a ≤ w.scope
  inside w := w
  fault _ := Eq
  place _ := Eq
  operator _ := True
  operation := operation
  allowed := Arg.Every (Expr.CallsOnly (Permitted (fun _ => True) operation))
  reads _ := True
  domain := Domain.Conserves
  applicable := True
  flow := True
  mutation := True
  effects := True
  snapshots := True
  memo := False
  copying := False
  node _ _ := True
  value_mono le same := ⟨same.1, same.2.mono (Knowledge.Permits.mono le)⟩
  captured_mono := by
    intro w w' c _ le parts
    obtain ⟨rfl, entries, copied, all⟩ := parts
    exact ⟨rfl, entries, copied, fun entry member =>
      (all entry member).mono (Knowledge.Permits.mono le)⟩
  scope_mono le same := ⟨same.1, Nat.le_trans same.2 (Knowledge.le_iff.mp le).2⟩
  inside_mono le := le
  scope_root _ same := by rw [same.1]
  outer_root w := ⟨rfl, Nat.zero_le _⟩
  outer_of_scope same := same
  writable_of_scope _ same := same
  mutability_self _ := rfl
  allowed_operand every member := every.operand _ member
  allowed_call every := every.here
  allowed_var _ := trivial
  fault_self _ _ := rfl
  fault_place same _ _ := by rw [same]
  value_closure := by
    intro w id _ params body c _ isFix equal parts allowed
    cases equal
    obtain ⟨rfl, entries, rfl, all⟩ := parts
    refine ⟨rfl, Value.all_closure ⟨allowed, entries, rfl⟩ ?_⟩
    intro _ impossible
    cases impossible
    exact all
  closure_parts := by
    intro w c _ _ parts
    obtain ⟨same, all⟩ := parts
    cases same
    obtain ⟨allowed, entries, copied⟩ := all.self
    exact ⟨rfl, rfl, rfl, rfl, ⟨rfl, entries, copied, all.captured copied⟩, allowed⟩

def keepingRegular {σ : Type} {s : Setting σ} (operation : String → Prop)
    (conserves : s.Conserves) : (keeping operation).Regular s where
  extent := Knowledge.extent
  grow w := { w with scope := w.scope + 1 }
  le_grow w := ⟨fun _ known => known, Nat.le_succ _⟩
  extent_grow _ := rfl
  within := by
    intro w a _ parts
    obtain ⟨rfl, bound⟩ := parts
    exact ⟨Nat.lt_succ_of_le bound, Nat.lt_succ_of_le bound⟩
  unique := by
    intro w a _ a' _ parts parts'
    obtain ⟨rfl, -⟩ := parts
    obtain ⟨rfl, -⟩ := parts'
    exact Iff.rfl
  outer_mono := (keeping operation).scope_mono
  writable_mono := (keeping operation).scope_mono
  identity_mono _ same := same
  outer_grow := by
    intro w a _ parts
    obtain ⟨rfl, bound⟩ := parts
    rcases Nat.lt_or_eq_of_le bound with older | new
    · exact .inr ⟨rfl, Nat.le_of_lt_succ older⟩
    · exact .inl ⟨new, new⟩
  made w := ⟨⟨rfl, Nat.le_refl _⟩, ⟨rfl, Nat.le_refl _⟩, ⟨rfl, Nat.le_refl _⟩⟩
  outer_of_writable same := same
  fault_mono _ same := same
  stacked _ := Eq
  stacked_full same := same ▸ ⟨rfl, rfl⟩
  stacked_grow name same := congrArg (·.grow name) same
  stacked_pop same := congrArg CallStack.pop same
  place_top _ same := congrArg CallStack.top? same
  fault_attach := by
    intro _ _ st _ f _ equal equal'
    cases equal
    cases equal'
    rfl
  captures := by
    intro w c _ parts
    obtain ⟨rfl, entries, rfl, all⟩ := parts
    refine .inr ⟨entries, entries, rfl, rfl, ?_⟩
    exact List.forall₂_same.mpr fun entry member => ⟨rfl, rfl, all entry member⟩
  mutability_eq same := same
  level copying := copying
  comparable := by
    intro w v _ u _ parts parts' floatEq
    obtain ⟨rfl, -⟩ := parts
    obtain ⟨rfl, -⟩ := parts'
    rfl
  types futures same := congrArg futures.typeOf same.1
  domains d conserves w op typeOf typeOf' args args' _ types operands := by
    obtain ⟨rfl, all⟩ := forall₂_self_iff.mp operands
    rw [Domain.call_types fun arg member => types arg arg ⟨rfl, all arg member⟩]
    cases answered : d.call typeOf' op args with
    | error cause => rfl
    | ok v => exact ⟨rfl, .of_from (conserves typeOf' op args v answered) all⟩
  handlers := by
    intro w name handler futures args args' host found operands
    obtain ⟨rfl, all⟩ := forall₂_self_iff.mp operands
    refine ⟨?_, rfl⟩
    cases answered : (handler futures args host).1 with
    | error fault => rfl
    | ok v =>
      exact ⟨rfl, .of_from (conserves.handlers name handler found futures args host v answered) all⟩

end Likeness

structure Setting.Closed {σ : Type} (s : Setting σ) (operation : String → Prop) : Prop where
  layer : s.layer = .lir
  conserves : s.Conserves
  inputs : ∀ entry ∈ s.inputs, ∃ l, entry.2 = .ofLiteral l
  calls : s.CallsOnly (Permitted (fun _ => True) operation)

namespace Setting.Closed

variable {σ : Type} {s : Setting σ} {operation : String → Prop} (closed : s.Closed operation)
include closed

theorem inputs_kept (w : Knowledge) :
    List.Forall₂ (fun entry entry' => entry.1 = entry'.1 ∧
      (Likeness.keeping operation).value w entry.2 entry'.2) s.inputs s.inputs := by
  refine List.forall₂_same.mpr fun entry member => ⟨rfl, ?_⟩
  obtain ⟨l, literal⟩ := closed.inputs entry member
  rw [literal]
  exact (Likeness.keeping operation).value_literal w l

theorem like : (Likeness.keeping operation).Settings s s := by
  have code : (Likeness.keeping operation).Allows s :=
    .of_callsOnly (fun _ every => every) (fun _ _ _ => trivial) (fun _ => trivial) closed.calls
  refine .self (fun memo => memo) (fun copying => copying) (fun _ => trivial)
    (fun w name => lookup_related (closed.inputs_kept w) name) code closed.conserves.domains
    (fun _ => trivial) (fun _ => trivial) (fun _ => trivial) (fun _ => trivial)
    (fun _ => closed.layer)
    (fun shares => ?_) fun w bindings bindings' entries => ?_
  · rw [closed.layer] at shares
    cases shares
  · obtain ⟨same, all⟩ : bindings.values = bindings'.values ∧
        ∀ entry ∈ bindings.values, entry.2.All (w.Permits operation) := by
      refine forall₂_self_iff.mp (entries.values.imp fun entry entry' same => ?_)
      exact ⟨Prod.ext same.1 same.2.1, same.2.2⟩
    exact ⟨congrArg Captured.frozen same, _, rfl, all⟩

end Setting.Closed

structure Task.Keeps (operation : String → Prop) (w : Knowledge) (task : Task) : Prop where
  control : (Likeness.keeping operation).Plans (Likeness.keeping operation).Nexts w task.control
    task.control
  frames : (Likeness.keeping operation).Frames w task.frames task.frames
  memory : (Likeness.keeping operation).Aligned Knowledge.extent Eq w task.memory task.memory

namespace Task.Keeps

variable {σ : Type} {s : Setting σ} {operation : String → Prop} {w : Knowledge} {task : Task}

theorem later_futures {conserves : s.Conserves} {w w' : Knowledge}
    (later : Likeness.Later (Likeness.keepingRegular operation conserves) w w') :
    w'.futures = w.futures := by
  induction later with
  | refl => rfl
  | tail _ grown ih => exact grown ▸ ih

section Steps

variable (closed : s.Closed operation) (keeps : task.Keeps operation w)
include closed keeps

theorem steps (shared : Shared σ) :
    Likeness.Steps (Likeness.memories (Likeness.keepingRegular operation closed.conserves)) w
      (task.step s shared) (task.step s shared) :=
  Likeness.step_alike _ closed.like (fun _ => rfl) (fun _ _ memo => memo.elim)
    (fun _ _ _ copying => copying)
    ⟨keeps.control, keeps.frames, rfl, keeps.memory⟩

theorem running {shared shared' : Shared σ} {task' : Task}
    (stepped : task.step s shared = .running shared' task') :
    ∃ w', w'.futures = w.futures ∧ task'.Keeps operation w' := by
  have steps := keeps.steps closed shared
  rw [stepped] at steps
  cases steps with
  | running later tasks =>
    exact ⟨_, later_futures later, tasks.control, tasks.frames, tasks.memory.2⟩

/-- What a task ends with is permitted. -/
theorem ended {shared shared' : Shared σ} {v : Value} {memory : Memory}
    (stepped : task.step s shared = .ended (.ok v) shared' memory) :
    v.All (w.Permits operation) := by
  have steps := keeps.steps closed shared
  rw [stepped] at steps
  cases steps with
  | ended outcomes _ => exact outcomes.2

end Steps

theorem mono (closed : s.Closed operation) {futures : Set Identity}
    (more : ∀ id ∈ w.futures, id ∈ futures) (keeps : task.Keeps operation w) :
    task.Keeps operation { w with futures := futures } := by
  have le : w ≤ { w with futures := futures } := ⟨more, Nat.le_refl _⟩
  have regular := Likeness.keepingRegular operation closed.conserves
  have values (v v' : Value) (same : (Likeness.keeping operation).value w v v') :
      (Likeness.keeping operation).value { w with futures := futures } v v' :=
    (Likeness.keeping operation).value_mono le same
  refine ⟨Likeness.plans_mono regular le keeps.control, keeps.frames.mono le, ?_⟩
  obtain ⟨heap, sizes, identities, stack, active, kept⟩ := keeps.memory
  exact ⟨heap.mono values, sizes, identities, stack, active,
    fun root => (kept root).imp fun _ _ same => ⟨same.1, values _ _ same.2⟩⟩

section Waiting

variable {frames : List Frame} {memory : Memory}

theorem awaited_mem {id : Identity} {next : Outcome → Plan Next}
    (keeps : (Task.mk (.await id next) frames memory).Keeps operation w) : id ∈ w.futures := by
  obtain ⟨control, -, -⟩ := keeps
  cases control with
  | await _ futures _ => exact futures.2.self

theorem answered {id : Identity} {next : Outcome → Plan Next}
    (keeps : (Task.mk (.await id next) frames memory).Keeps operation w) {outcome : Outcome}
    (permitted : ∀ v, outcome = .ok v → v.All (w.Permits operation)) :
    (Task.mk (next outcome) frames memory).Keeps operation w := by
  obtain ⟨control, waiting, memories⟩ := keeps
  refine ⟨?_, waiting, memories⟩
  cases control with
  | await _ _ rest =>
    refine rest w outcome outcome le_rfl ?_
    cases outcome with
    | ok v => exact ⟨rfl, permitted v rfl⟩
    | error e => rfl

theorem refused {label : String} {registers : Bindings} {next : Option Identity → Plan Next}
    (keeps : (Task.mk (.fork label registers next) frames memory).Keeps operation w) :
    (Task.mk (next none) frames memory).Keeps operation w := by
  obtain ⟨control, waiting, memories⟩ := keeps
  refine ⟨?_, waiting, memories⟩
  cases control with
  | fork _ _ rest => exact rest w none none le_rfl .none

theorem registers {label : String} {registers : Bindings} {next : Option Identity → Plan Next}
    (keeps : (Task.mk (.fork label registers next) frames memory).Keeps operation w) :
    (Likeness.keeping operation).Entries w registers registers := by
  obtain ⟨control, -, -⟩ := keeps
  cases control with
  | fork _ entries _ => exact entries

theorem forked (closed : s.Closed operation) {label : String} {registers : Bindings}
    {next : Option Identity → Plan Next} {child : Identity} {futures : Set Identity}
    (keeps : (Task.mk (.fork label registers next) frames memory).Keeps operation w)
    (more : ∀ id ∈ w.futures, id ∈ futures) (known : child ∈ futures) :
    (Task.mk (next (some child)) frames memory.freshIdentity.2).Keeps operation
      { w with futures := futures } := by
  have le : w ≤ { w with futures := futures } := ⟨more, Nat.le_refl _⟩
  have memories := (keeps.mono closed more).memory
  obtain ⟨control, waiting, -⟩ := keeps
  refine ⟨?_, waiting.mono le, ?_⟩
  · cases control with
    | fork _ _ rest =>
      exact rest _ (some child) (some child) le (.some ⟨rfl, Value.all_future known⟩)
  · obtain ⟨heap, sizes, identities, stack, active, kept⟩ := memories
    exact ⟨heap, sizes, fun _ => rfl, stack, active, kept⟩

theorem atBlock (s : Setting σ) (who : Identity) (label : String)
    {registers : Bindings}
    (entries : (Likeness.keeping operation).Entries w registers registers) :
    (Task.atBlock s who label registers).Keeps operation ⟨w.futures, registerScope⟩ where
  control := .done (.job (.block trivial ⟨rfl, Nat.le_refl _⟩))
  frames := .nil
  memory := by
    refine ⟨?_, rfl, fun _ => rfl, rfl, rfl, fun _ => .nil⟩
    intro a _ parts
    obtain ⟨rfl, bound⟩ := parts
    obtain rfl | rfl := Nat.le_one_iff_eq_zero_or_eq_one.mp bound
    · exact .some ⟨.nil, .none⟩
    · exact .some ⟨entries, .none⟩

end Waiting

end Task.Keeps

end LayeredIR
