import LayeredIR.Proofs.Borrowing
import LayeredIR.Proofs.Discipline.Within
import LayeredIR.Proofs.Discipline.Worlds
import LayeredIR.Proofs.Lookups

/-! The discipline of control-flow documents. Closures are over copies, and code binds names in the
registers and in scopes that lie in others; a copy lies in none, so nothing is ever bound in it. -/
namespace LayeredIR

def Closure.IsSnapshot (c : Closure) : Prop := ∃ entries, c.captured = .frozen entries

structure Heap.Sealed (heap : Heap) : Prop where
  registers : ∃ bindings, heap.get? registerScope = some ⟨bindings, none⟩
  copies : ∀ place scope, registerScope < place → heap.get? place = some scope →
    scope.parent = none → ∀ entry ∈ scope.bindings, entry.2.mutability = .immutable

def Heap.KeepsCopies (heap later : Heap) : Prop :=
  ∀ place scope, registerScope < place → heap.get? place = some scope → scope.parent = none →
    later.get? place = some scope

namespace Heap

variable {heap later last : Heap}

theorem KeepsCopies.refl (heap : Heap) : heap.KeepsCopies heap := fun _ _ _ found _ => found

theorem KeepsCopies.trans (first : heap.KeepsCopies later) (second : later.KeepsCopies last) :
    heap.KeepsCopies last :=
  fun place scope new found alone =>
    second place scope new (first place scope new found alone) alone

def Advances (heap later : Heap) : Prop := later.Sealed ∧ heap.KeepsCopies later

theorem Advances.trans (first : heap.Advances later) (second : later.Advances last) :
    heap.Advances last := ⟨second.1, first.2.trans second.2⟩

namespace Sealed

variable (sealed_ : heap.Sealed)
include sealed_

theorem add {bindings : Bindings} {parent : Option ScopeId}
    (copy : parent = none → ∀ entry ∈ bindings, entry.2.mutability = .immutable) :
    heap.Advances (heap.add bindings parent).2 := by
  have old {place : ScopeId} {scope : Scope} (found : heap.get? place = some scope) :
      (heap.add bindings parent).2.get? place = some scope := by
    rw [get?_add, if_neg (Nat.ne_of_lt (lt_size_of_get? found)), found]
  obtain ⟨registers, own⟩ := sealed_.registers
  refine ⟨⟨⟨registers, old own⟩, ?_⟩, fun _ _ _ found _ => old found⟩
  intro place scope new found alone
  rw [get?_add] at found
  split at found
  · cases found
    exact copy alone
  · exact sealed_.copies place scope new found alone

/-- Names may be bound in the registers and in scopes that lie in others. -/
theorem define {a : ScopeId} (name : String) (binding : Binding)
    (open_ : ∀ scope, registerScope < a → heap.get? a = some scope → scope.parent ≠ none) :
    heap.Advances (heap.define a name binding) := by
  obtain ⟨registers, own⟩ := sealed_.registers
  refine ⟨⟨?_, fun place scope new found alone => ?_⟩, fun place scope new found alone => ?_⟩
  · rw [get?_define, own]
    split
    · exact ⟨_, rfl⟩
    · exact ⟨registers, rfl⟩
  · rw [get?_define] at found
    split at found
    · next same =>
      subst same
      obtain ⟨old, held, rfl⟩ := Option.map_eq_some_iff.mp found
      exact absurd alone (open_ old new held)
    · exact sealed_.copies place scope new found alone
  · rw [get?_define, if_neg]
    · exact found
    · rintro rfl
      exact open_ scope new found alone

/-- An assignment rebinds what is bound mutably, so it does not go to a copy. -/
theorem assign (a : ScopeId) (name : String) (v : Value) :
    heap.Advances (heap.assign a name v).2 := by
  unfold Heap.assign
  cases found : heap.find? a name with
  | none => exact ⟨sealed_, .refl heap⟩
  | some held =>
    obtain ⟨place, u, mutability⟩ := held
    cases mutability with
    | immutable => exact ⟨sealed_, .refl heap⟩
    | mutable =>
      refine sealed_.define name _ fun scope new held alone => ?_
      obtain ⟨scope', held', bound⟩ := find?_eq_some found
      cases held.symm.trans held'
      cases sealed_.copies place scope new held alone _ (Bindings.mem_of_find? bound)

end Sealed
end Heap

namespace Discipline

variable {σ : Type}

/-- Closures over copies, and scopes in which code may bind names: the registers, where blocks run,
and those of its own scopes that lie in others. -/
def snapshots (s : Setting σ) (kept : σ → Closure → Prop) (base : Nat) (flow : Prop) :
    Discipline s where
  base := base
  closure _ _ captured := ∃ entries, captured = .frozen entries
  scope w a := (flow ∧ a = registerScope) ∨ ∃ i outer, a = base + i ∧ w[i]? = some (some outer)
  outer w a := a = rootScope ∨ (flow ∧ a = registerScope) ∨ base ≤ a ∧ a < base + w.length
  define w a _ _ := (flow ∧ a = registerScope) ∨ ∃ i outer, a = base + i ∧ w[i]? = some (some outer)
  assign w a _ _ := (flow ∧ a = registerScope) ∨ ∃ i outer, a = base + i ∧ w[i]? = some (some outer)
  code _ _ := True
  cause _ := True
  calls _ _ _ := True
  idle _ _ := True
  flow := flow
  kept := kept

variable {s : Setting σ} {kept : σ → Closure → Prop} {base : Nat} {flow : Prop}

theorem snapshots_laws (lir : s.layer = .lir) (borrows : s.Borrows kept) :
    (snapshots s kept base flow).Laws where
  closure_mono _ copied := copied
  scope_mono le := by
    obtain ⟨more, rfl⟩ := le
    refine Or.imp_right ?_
    rintro ⟨i, outer, place, made⟩
    obtain ⟨bound, -⟩ := List.getElem?_eq_some_iff.mp made
    exact ⟨i, outer, place, List.getElem?_append_left bound ▸ made⟩
  outer_root _ := .inl rfl
  outer_scope := by
    rintro w a (registers | ⟨i, outer, rfl, made⟩)
    · exact .inr (.inl registers)
    · obtain ⟨bound, -⟩ := List.getElem?_eq_some_iff.mp made
      exact .inr (.inr ⟨Nat.le_add_right base i, Nat.add_lt_add_left bound base⟩)
  outer_captured := by
    rintro w body a ⟨entries, shared⟩
    cases shared
  outer_copy w := by
    refine .inr (.inr ⟨Nat.le_add_right base _, ?_⟩)
    rw [List.length_append]
    exact Nat.lt_succ_self _
  scope_made {w a} _ := .inr ⟨w.length, a, rfl, List.getElem?_concat_length⟩
  define_made _ _ _ scope := scope
  define_declared _ _ scope _ := scope
  assign_code _ _ scope _ := scope
  code_evaluated _ _ := trivial
  code_node _ _ := trivial
  code_ref _ _ := trivial
  code_definition _ _ _ := trivial
  code_body _ _ _ := trivial
  code_instruction _ _ _ _ := trivial
  closure_shared _ shares := by
    rw [lir] at shares
    cases shares
  closure_frozen entries _ _ := ⟨entries, rfl⟩
  flow_scope _ runs := .inl ⟨runs, rfl⟩
  flow_define _ runs _ := .inl ⟨runs, rfl⟩
  flow_closure _ _ copied := copied
  flow_layer _ := lir
  input _ found := borrows.input found
  domain typeOf op args found held :=
    ⟨fun _ answered => borrows.domain typeOf op found held answered, fun _ _ => trivial⟩
  handler _ found ran held shares := by
    obtain ⟨values, after⟩ := borrows.handler found ran held shares
    exact ⟨values, fun _ _ => trivial, after⟩
  cause_own _ := trivial
  above _ _ _ := trivial
  full _ _ _ := trivial
  enter _ _ := trivial
  leave _ := trivial
  idle _ _ := trivial

/-- A step of a task that heeds the discipline leaves all copies as they are. -/
theorem snapshots_advances {w : Shape} {heap heap' : Heap}
    (shaped : heap.Shaped base w) (sealed_ : heap.Sealed)
    (change : (snapshots s kept base flow).Change w heap heap') : heap.Advances heap' := by
  cases change with
  | same => exact ⟨sealed_, .refl heap⟩
  | child _ => exact sealed_.add nofun
  | @enter f function =>
    obtain ⟨entries, copied⟩ := function.self f rfl
    rw [copied]
    have copy : heap.Advances (heap.captured (.frozen entries)).2 := by
      refine sealed_.add fun _ entry member => ?_
      obtain ⟨given, -, rfl⟩ := List.mem_map.mp member
      rfl
    exact copy.trans (copy.1.add nofun)
  | define mutability allowed _ =>
    refine sealed_.define _ _ fun scope new found => ?_
    rcases allowed with ⟨-, rfl⟩ | ⟨i, outer, rfl, made⟩
    · exact absurd new (Nat.lt_irrefl _)
    · obtain ⟨bindings, held⟩ := shaped.parents i (some outer) made
      cases found.symm.trans held
      nofun
  | assign _ _ => exact sealed_.assign _ _ _

theorem snapshots_governs (lir : s.layer = .lir) (borrows : s.Borrows kept) :
    (snapshots s kept 2 True).Governs Heap.Sealed where
  laws := snapshots_laws lir borrows
  flow := trivial
  base := rfl
  calls := trivial
  opened registers := by
    refine ⟨⟨registers, rfl⟩, fun place scope new found => ?_⟩
    match place, new, found with
    | 0, new, _ | 1, new, _ => exact absurd new (by decide)
    | place + 2, _, found => cases found
  changed shaped sealed_ change := (snapshots_advances shaped sealed_ change).1

end Discipline
end LayeredIR
