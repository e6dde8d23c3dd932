import LayeredIR.Proofs.Likeness.Alignment
import LayeredIR.Proofs.RootScope
import Mathlib.Data.Nat.Basic

/-! The same body in two memories whose root scopes bind nothing. The scopes that the one makes
stand for those that the other makes, in the order in which they are made, and so do identities;
scopes that were there before are out of reach. -/
namespace LayeredIR

theorem Resemblance.upTo_comparable {κ : Type} {identity : κ → Identity → Identity → Prop}
    {scope : κ → ScopeId → ScopeId → Prop} {code : Arg → Prop}
    (one : ∀ w, OneToOne (identity w)) : (Resemblance.upTo identity scope code).Comparable := by
  refine Distinguishes.comparable ⟨fun {w} _ _ _ _ first second => ?_, fun first second => ?_⟩
  · exact one w _ _ _ _ first.parts.2.2.2.1 second.parts.2.2.2.1
  · cases first <;> cases second <;> simp_all

namespace Memory

structure SameCalls (m m' : Memory) : Prop where
  depth : m.stack.depth = m'.stack.depth
  limit : m.stack.limit = m'.stack.limit
  active : m.active = m'.active

structure CallsAlike (m m' : Memory) : Prop extends SameCalls m m' where
  empty : m.RootEmpty
  empty' : m'.RootEmpty

variable (m m' : Memory)

def Ids (id id' : Identity) : Prop :=
  ∃ k, id = (m.serial + k + 1) :: m.owner ∧ id' = (m'.serial + k + 1) :: m'.owner

def NewScopes (n : Nat) (a b : ScopeId) : Prop :=
  ∃ k < n, a = m.heap.size + k ∧ b = m'.heap.size + k

def Scopes (n : Nat) (a b : ScopeId) : Prop :=
  a = rootScope ∧ b = rootScope ∨ m.NewScopes m' n a b

def Stacks (n : Nat) (stack stack' : CallStack) : Prop :=
  ∃ inner : List String, inner.length = n + 1 ∧
    stack.frames.toList = m.stack.frames.toList ++ inner ∧
    stack'.frames.toList = m'.stack.frames.toList ++ inner ∧
    stack.limit = m.stack.limit ∧ stack'.limit = m'.stack.limit

def Faults (fault fault' : Fault) : Prop :=
  fault.cause = fault'.cause ∧ (fault.backtrace = fault'.backtrace ∨
    ∃ inner, fault.backtrace = some ⟨m.stack.frames.toList ++ inner⟩ ∧
      fault'.backtrace = some ⟨m'.stack.frames.toList ++ inner⟩)

abbrev Values (n : Nat) : Value → Value → Prop :=
  Value.Alike (m.Ids m') (m.Scopes m' n) fun _ => True

variable {m m'}

theorem ids_oneToOne : OneToOne (m.Ids m') := by
  intro _ _ _ _ parts parts'
  obtain ⟨k, rfl, rfl⟩ := parts
  obtain ⟨j, rfl, rfl⟩ := parts'
  simp only [List.cons.injEq, and_true, Nat.add_right_cancel_iff, Nat.add_left_cancel_iff]

theorem NewScopes.mono {n n' : Nat} (le : n ≤ n') {a b : ScopeId} (new : m.NewScopes m' n a b) :
    m.NewScopes m' n' a b := by
  obtain ⟨k, bound, places⟩ := new
  exact ⟨k, Nat.lt_of_lt_of_le bound le, places⟩

theorem Scopes.mono {n n' : Nat} (le : n ≤ n') {a b : ScopeId} (scopes : m.Scopes m' n a b) :
    m.Scopes m' n' a b := scopes.imp_right (.mono le)

/-- A fault that leaves a call takes the names of the live calls along in either run. -/
theorem Stacks.attach {n : Nat} {stack stack' : CallStack} (stacked : m.Stacks m' n stack stack')
    {fault fault' : Fault} (faults : m.Faults m' fault fault') :
    m.Faults m' (stack.attach fault) (stack'.attach fault') := by
  obtain ⟨inner, length, frames, frames', -⟩ := stacked
  have attached {stack : CallStack} {outer : List String}
      (frames : stack.frames.toList = outer ++ inner) (cause : Cause) :
      stack.attach ⟨cause, none⟩ = ⟨cause, some ⟨outer ++ inner⟩⟩ := by
    have live : stack.frames.isEmpty = false := by
      rw [← Array.isEmpty_toList, frames]
      cases inner with
      | nil => cases length
      | cons name rest => simp
    simp only [CallStack.attach, live, Fault.withBacktrace, CallStack.capture, frames,
      Option.isSome_none, Bool.or_self, Bool.false_eq_true, if_false]
  have unchanged (stack : CallStack) (cause : Cause) (backtrace : Backtrace) :
      stack.attach ⟨cause, some backtrace⟩ = ⟨cause, some backtrace⟩ := by
    simp only [CallStack.attach, Option.isSome_some, Bool.or_true, if_true]
  obtain ⟨cause, backtrace⟩ := fault
  obtain ⟨cause', backtrace'⟩ := fault'
  obtain ⟨rfl : cause = cause', rfl | ⟨deeper, held, held'⟩⟩ := faults
  · cases backtrace with
    | none =>
      rw [attached frames, attached frames']
      exact ⟨rfl, .inr ⟨inner, rfl, rfl⟩⟩
    | some backtrace =>
      rw [unchanged, unchanged]
      exact ⟨rfl, .inl rfl⟩
  · cases held
    cases held'
    rw [unchanged, unchanged]
    exact ⟨rfl, .inr ⟨deeper, rfl, rfl⟩⟩

namespace CallsAlike

variable (alike : m.CallsAlike m')
include alike

theorem size : rootScope < m.heap.size := Heap.lt_size_of_get? alike.empty

theorem size' : rootScope < m'.heap.size := Heap.lt_size_of_get? alike.empty'

theorem new_ne_root {n : Nat} {a b : ScopeId} (new : m.NewScopes m' n a b) :
    a ≠ rootScope ∧ b ≠ rootScope := by
  obtain ⟨k, -, rfl, rfl⟩ := new
  exact ⟨Nat.ne_of_gt (Nat.lt_of_lt_of_le alike.size (Nat.le_add_right _ _)),
    Nat.ne_of_gt (Nat.lt_of_lt_of_le alike.size' (Nat.le_add_right _ _))⟩

theorem scopes_oneToOne (n : Nat) : OneToOne (m.Scopes m' n) := by
  intro a b a' b' scopes scopes'
  rcases scopes with ⟨rfl, rfl⟩ | new
  · rcases scopes' with ⟨rfl, rfl⟩ | new'
    · exact iff_of_true rfl rfl
    · have others := alike.new_ne_root new'
      exact iff_of_false others.1.symm others.2.symm
  · rcases scopes' with ⟨rfl, rfl⟩ | new'
    · have others := alike.new_ne_root new
      exact iff_of_false others.1 others.2
    · obtain ⟨k, -, rfl, rfl⟩ := new
      obtain ⟨j, -, rfl, rfl⟩ := new'
      rw [Nat.add_left_cancel_iff, Nat.add_left_cancel_iff]

end CallsAlike

end Memory

open Memory

/-- Two runs of a body. Nothing is evaluated in the root scopes, and no name is bound there. -/
def Likeness.twins {m m' : Memory} (alike : m.CallsAlike m') : Likeness Nat where
  toResemblance := .upTo (fun _ => m.Ids m') (m.Scopes m') fun _ => True
  captured n := Captured.Alike (m.Ids m') (m.Scopes m' n) fun _ => True
  identity _ := m.Ids m'
  mutability := Eq
  scope := m.NewScopes m'
  outer := m.Scopes m'
  writable := m.NewScopes m'
  inside n := n
  fault _ := m.Faults m'
  place _ := Eq
  operator _ := True
  operation _ := True
  allowed _ := True
  reads _ := True
  domain d := d.Respects (m.Values m') fun _ => True
  applicable := True
  flow := False
  mutation := True
  effects := True
  snapshots := True
  memo := False
  copying := False
  node _ _ := True
  value_mono le same := same.mono (fun _ _ ids => ids) (fun _ _ => .mono le) fun _ held => held
  captured_mono le same := same.mono (fun _ _ ids => ids) (fun _ _ => .mono le) fun _ held => held
  scope_mono le same := same.mono le
  inside_mono le := le
  scope_root _ same := iff_of_false (alike.new_ne_root same).1 (alike.new_ne_root same).2
  writable_of_scope _ same := same
  outer_root _ := .inl ⟨rfl, rfl⟩
  outer_of_scope same := .inr same
  mutability_self _ := rfl
  allowed_operand _ _ := trivial
  allowed_call {ns name _} _ := .all ns name
  allowed_var _ := trivial
  fault_self _ _ := ⟨rfl, .inl rfl⟩
  fault_place same _ _ := by
    rw [same]
    exact ⟨rfl, .inl rfl⟩
  value_closure ids captured _ := .closure ids trivial captured
  closure_parts := by
    intro _ c c' _ same
    obtain ⟨params, body, isFix, ids, captured, -⟩ := same.parts
    exact ⟨params, body, isFix, ids, captured, trivial⟩

structure Setting.Uniform {σ : Type} (s : Setting σ) : Prop where
  domains : ∀ name d, s.domains.find? name = some d → ∀ identity scope, OneToOne identity →
    d.Respects (fun _ : Unit => Value.Alike identity scope fun _ => True) fun _ => True
  handlers : ∀ name handler, s.handler? name = some handler →
    ∀ identity scope, OneToOne identity → ∀ futures args args' host,
    List.Forall₂ (Value.Alike identity scope fun _ => True) args args' →
    ResultsAlike Eq (Value.Alike identity scope fun _ => True)
        (handler futures args host).1 (handler futures args' host).1 ∧
      (handler futures args host).2 = (handler futures args' host).2
  inputs : ∀ entry ∈ s.inputs, entry.2.ClosureFree

namespace Likeness

variable {σ : Type} {s : Setting σ} (uniform : s.Uniform) {m m' : Memory}
  (alike : m.CallsAlike m')
include uniform

theorem twins_settings : (twins alike).Settings s s := by
  have code : (twins alike).Allows s := .of_callsOnly (fun _ _ => trivial) (fun _ _ _ => trivial)
    (fun _ => trivial) (.of_forall Permitted.all)
  refine .self (fun memo => memo) (fun copying => copying) (fun _ => trivial) (fun n name => ?_)
    code (fun name d found _ => uniform.domains name d found _ _ Memory.ids_oneToOne ())
    (fun _ => trivial) (fun _ => trivial) (fun _ => trivial) (fun _ => trivial) False.elim
    (fun _ _ _ _ same => .shared (.inr same)) fun _ _ _ entries => .frozen entries.values
  exact lookup_self (fun entry member => .of_closureFree entry.2 (uniform.inputs entry member)) name

def twinsRegular : (twins alike).Regular s where
  extent n := (m.heap.size + n, m'.heap.size + n)
  grow n := n + 1
  le_grow n := Nat.le_succ n
  extent_grow _ := rfl
  within := by
    intro n _ _ either
    rcases either with ⟨rfl, rfl⟩ | ⟨k, bound, rfl, rfl⟩
    · exact ⟨Nat.lt_add_right n alike.size, Nat.lt_add_right n alike.size'⟩
    · exact ⟨Nat.add_lt_add_left bound _, Nat.add_lt_add_left bound _⟩
  unique same same' := alike.scopes_oneToOne _ _ _ _ _ same same'
  outer_mono le same := same.mono le
  identity_mono _ same := same
  writable_mono le same := same.mono le
  outer_grow := by
    intro n _ _ either
    rcases either with root | ⟨k, bound, rfl, rfl⟩
    · exact .inr (.inl root)
    · rcases Nat.lt_succ_iff_lt_or_eq.mp bound with older | rfl
      · exact .inr (.inr ⟨k, older, rfl, rfl⟩)
      · exact .inl ⟨rfl, rfl⟩
  made n := by
    have new : m.NewScopes m' (n + 1) (m.heap.size + n) (m'.heap.size + n) :=
      ⟨n, Nat.lt_succ_self n, rfl, rfl⟩
    exact ⟨new, new, new⟩
  outer_of_writable same := .inr same
  fault_mono _ same := same
  stacked := m.Stacks m'
  stacked_full := by
    intro n stack stack' parts
    obtain ⟨inner, -, frames, frames', limit, limit'⟩ := parts
    have limits : stack.limit = stack'.limit := (limit.trans alike.limit).trans limit'.symm
    have sizes : stack.frames.size = stack'.frames.size := by
      have depth : m.stack.frames.size = m'.stack.frames.size := alike.depth
      have size := congrArg List.length frames
      have size' := congrArg List.length frames'
      simp only [List.length_append, Array.length_toList] at size size'
      rw [size, size', depth]
    refine ⟨?_, limits⟩
    simp only [CallStack.isFull, limits, sizes]
  stacked_grow := by
    intro n stack stack' name parts
    obtain ⟨inner, length, frames, frames', limits⟩ := parts
    refine ⟨inner ++ [name], ?_, ?_, ?_, limits⟩
    · rw [List.length_append, length, List.length_singleton]
    · simp only [CallStack.grow, Array.toList_push, frames, List.append_assoc]
    · simp only [CallStack.grow, Array.toList_push, frames', List.append_assoc]
  stacked_pop := by
    intro n stack stack' parts
    obtain ⟨inner, length, frames, frames', limits⟩ := parts
    have held : inner ≠ [] := by
      intro equal
      cases equal
      cases length
    refine ⟨inner.dropLast, ?_, ?_, ?_, limits⟩
    · rw [List.length_dropLast, length, Nat.add_sub_cancel]
    · simp only [CallStack.pop, Array.toList_pop, frames, List.dropLast_append_of_ne_nil held]
    · simp only [CallStack.pop, Array.toList_pop, frames', List.dropLast_append_of_ne_nil held]
  place_top := by
    intro n stack stack' w parts
    obtain ⟨inner, length, frames, frames', -⟩ := parts
    have held : inner ≠ [] := by
      intro equal
      cases equal
      cases length
    change stack.frames.back? = stack'.frames.back?
    rw [← Array.getLast?_toList, ← Array.getLast?_toList, frames, frames',
      List.getLast?_append_of_ne_nil _ held, List.getLast?_append_of_ne_nil _ held]
  fault_attach := by
    intro w n stack stack' fault fault' stacked faults
    exact stacked.attach faults
  captures := by
    intro n _ _ either
    rcases either with scopes | same
    · exact .inl ⟨_, _, rfl, rfl, scopes⟩
    · exact .inr ⟨_, _, rfl, rfl, same⟩
  mutability_eq same := same
  level copying := copying
  comparable := Resemblance.upTo_comparable fun _ => Memory.ids_oneToOne
  types futures same := same.typeOf_eq futures
  domains _ respects := respects
  handlers futures args args' host found operands :=
    uniform.handlers _ _ found _ _ Memory.ids_oneToOne futures args args' host operands

end Likeness

end LayeredIR
