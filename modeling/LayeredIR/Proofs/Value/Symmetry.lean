import LayeredIR.Domain.Builtin
import LayeredIR.Proofs.Value.Built

/-! When equality can be turned round. Sets keep apart the two zeros, which are equal, so a set may
hold two equal items; then it equals a set in which one of them has given way to something else,
while that set does not equal it. Apart from such sets the order of a comparison does not matter. -/
namespace LayeredIR

/-- Where some item is not related to a later one, the later one splits the list. -/
theorem exists_split_of_not_pairwise {α : Type} {r : α → α → Prop} {xs : List α}
    (unrelated : ¬ xs.Pairwise r) :
    ∃ before x after, xs = before ++ x :: after ∧ ∃ y ∈ before, ¬ r y x := by
  induction xs with
  | nil => exact absurd .nil unrelated
  | cons first rest ih =>
    by_cases all : ∀ x ∈ rest, r first x
    · obtain ⟨before, x, after, rfl, y, member, apart⟩ :=
        ih fun pairwise => unrelated (.cons all pairwise)
      exact ⟨first :: before, x, after, rfl, y, .tail _ member, apart⟩
    · push Not at all
      obtain ⟨x, member, apart⟩ := all
      obtain ⟨before, after, rfl⟩ := List.append_of_mem member
      exact ⟨first :: before, x, after, rfl, first, .head _, apart⟩

theorem forall_mem_replace {α : Type} {P : α → Prop} {before after : List α} {x y : α}
    (all : ∀ z ∈ before ++ x :: after, P z) (new : P y) : ∀ z ∈ before ++ y :: after, P z := by
  simp only [List.forall_mem_append, List.forall_mem_cons] at all ⊢
  exact ⟨all.1, new, all.2.2⟩

namespace Value

/-- A value in which no set holds two equal items, at any depth, unless it is equal to nothing
because of a NaN. -/
def Unambiguous (v : Value) : Prop := v.equals v = true → v.SetsApart equals

theorem Unambiguous.turn {a b : Value} (left : a.Unambiguous) (same : a.equals b = true) :
    b.equals a = true :=
  floatEquality_ieee.symm_of_apart (left (floatEquality_ieee.equalBy_self same)) same

theorem Unambiguous.equals_comm {a b : Value} (left : a.Unambiguous) (right : b.Unambiguous) :
    a.equals b = b.equals a :=
  Bool.eq_iff_iff.mpr ⟨left.turn, right.turn⟩

def Lacks (text : String) (v : Value) : Prop := v.Throughout (· ≠ .string text)

/-- What stands on the left of an equality has no text that the right does not have. -/
theorem Lacks.of_equalBy {floatEq : Binary64 → Binary64 → Bool} {text : String} {a b : Value}
    (lacks : b.Lacks text) (same : a.equalBy floatEq b = true) : a.Lacks text := by
  induction a using items_induction generalizing b with
  | step a ih =>
    rw [equalBy_iff] at same
    cases same with
    | flat => exact lacks
    | @list of of' xs ys items =>
      refine .list nofun fun x member => ?_
      obtain ⟨i, rfl⟩ := List.get_of_mem member
      have bound : i.val < ys.length := items.length_eq ▸ i.isLt
      have missing : (ys.get ⟨i, bound⟩).Lacks text := lacks.items rfl _ (List.get_mem ys _)
      exact ih xs rfl _ member missing (items.get i.isLt bound)
    | @set of of' xs ys length found =>
      refine .set nofun fun x member => ?_
      obtain ⟨y, among, same⟩ := found x member
      exact ih xs rfl x member (lacks.items rfl y among) same
    | float | closure | error => exact .itemless nofun rfl

theorem exists_texts (v : Value) : ∃ texts : List String, ∀ text ∉ texts, v.Lacks text := by
  induction v using items_induction with
  | step v ih =>
    cases v with
    | string s => exact ⟨[s], fun text other => .itemless (by simpa [eq_comm] using other) rfl⟩
    | list of items | set of items =>
      choose texts lacks using ih items rfl
      refine ⟨items.attach.flatMap fun item => texts item.val item.property, fun text other => ?_⟩
      refine .intro nofun fun _ held item member => ?_
      cases held
      refine lacks item member text fun among => other ?_
      exact List.mem_flatMap.mpr ⟨⟨item, member⟩, List.mem_attach _ _, among⟩
    | _ => exact ⟨[], fun text _ => .itemless nofun rfl⟩

theorem exists_lacks (v : Value) : ∃ text, v.Lacks text := by
  obtain ⟨texts, lacks⟩ := v.exists_texts
  obtain ⟨text, new⟩ := Infinite.exists_notMem_finset texts.toFinset
  exact ⟨text, lacks text (by simpa using new)⟩

section Unreturned

variable {text : String} {of : Ty} {before after : List Value} {x m : Value}

/-- A value with a text that no item of a set has can take the place of an item. -/
theorem SetsApart.replace (apart : (Value.set of (before ++ x :: after)).SetsApart sameElement)
    (lacks : (Value.set of (before ++ x :: after)).Lacks text) (fresh : m.SetsApart sameElement)
    (has : ¬ m.Lacks text) : (Value.set of (before ++ m :: after)).SetsApart sameElement := by
  have differ (z : Value) (member : z ∈ before ++ x :: after) :
      z.sameElement m = false ∧ m.sameElement z = false := by
    have missing : z.Lacks text := lacks.items rfl z member
    constructor
    · refine Bool.eq_false_iff.mpr fun same => ?_
      have turned : m.sameElement z = true :=
        floatEquality_bits.symm_of_apart (apart.items rfl z member) same
      exact has (missing.of_equalBy turned)
    · exact Bool.eq_false_iff.mpr fun same => has (missing.of_equalBy same)
  obtain ⟨front, back, across⟩ := List.pairwise_append.mp apart.pairwise
  refine .set (List.pairwise_append.mpr ⟨front, ?_, fun z early y late => ?_⟩)
    (forall_mem_replace (apart.items rfl) fresh)
  · refine List.pairwise_cons.mpr ⟨fun z late => ?_, (List.pairwise_cons.mp back).2⟩
    exact (differ z (List.mem_append_right _ (.tail _ late))).2
  · rcases List.mem_cons.mp late with rfl | late
    · exact (differ z (List.mem_append_left _ early)).1
    · exact across z early y (.tail _ late)

/-- A set equals what it becomes when a value with such a text takes the place of an item that still
has an equal there. -/
theorem exists_equal_of_replace
    (apart : (Value.set of (before ++ x :: after)).SetsApart sameElement)
    (each : ∀ z ∈ before ++ x :: after, z.equals z = true)
    (lacks : (Value.set of (before ++ x :: after)).Lacks text) (fresh : m.SetsApart sameElement)
    (has : ¬ m.Lacks text) (kept : ∃ y ∈ before ++ m :: after, x.equals y = true) :
    ∃ b : Value, b.SetsApart sameElement ∧
      (Value.set of (before ++ x :: after)).equals b = true ∧ ¬ b.Lacks text := by
  refine ⟨.set of (before ++ m :: after), apart.replace lacks fresh has,
    equalBy_iff.mpr (.set (by simp) fun z member => ?_),
    fun lacks => has (lacks.items rfl m (by simp))⟩
  by_cases same : z = x
  · exact same ▸ kept
  · refine ⟨z, ?_, each z member⟩
    simp only [List.mem_append, List.mem_cons, same, false_or] at member ⊢
    exact member.imp_right .inr

/-- An ambiguous value equals one with a text that it lacks. -/
theorem exists_equal_with_text {a : Value} (apart : a.SetsApart sameElement)
    (self : a.equals a = true) (lacks : a.Lacks text) (ambiguous : ¬ a.SetsApart equals) :
    ∃ b : Value, b.SetsApart sameElement ∧ a.equals b = true ∧ ¬ b.Lacks text := by
  induction a using items_induction with
  | step a ih =>
    cases a with
    | list of items =>
      have each := floatEquality_ieee.item_self self rfl
      obtain ⟨x, member, inner⟩ : ∃ x ∈ items, ¬ x.SetsApart equals := by
        by_contra none
        push Not at none
        exact ambiguous (.list none)
      obtain ⟨y, apart', same, has⟩ := ih items rfl x member (apart.items rfl x member)
        (each x member) (lacks.items rfl x member) inner
      obtain ⟨before, after, rfl⟩ := List.append_of_mem member
      refine ⟨.list of (before ++ y :: after), .list (forall_mem_replace (apart.items rfl) apart'),
        equalBy_iff.mpr (.list ?_), fun lacks => has (lacks.items rfl y (by simp))⟩
      refine List.rel_append (List.forall₂_same.mpr fun z early => ?_) (.cons same ?_)
      · exact each z (List.mem_append_left _ early)
      · exact List.forall₂_same.mpr fun z late => each z (List.mem_append_right _ (.tail _ late))
    | set of items =>
      have each := floatEquality_ieee.item_self self rfl
      by_cases deep : ∀ x ∈ items, x.SetsApart equals
      · -- Two items of this set are equal, so the later one can give way to any text.
        obtain ⟨before, x, after, rfl, y, early, same⟩ :=
          exists_split_of_not_pairwise fun pairwise => ambiguous (.set pairwise deep)
        rw [Bool.not_eq_false] at same
        have turned : x.equals y = true :=
          floatEquality_ieee.symm_of_apart (deep y (List.mem_append_left _ early)) same
        exact exists_equal_of_replace apart each lacks (.itemless rfl)
          (fun lacks => lacks.self rfl) ⟨y, List.mem_append_left _ early, turned⟩
      · push Not at deep
        obtain ⟨x, member, inner⟩ := deep
        obtain ⟨y, apart', same, has⟩ := ih items rfl x member (apart.items rfl x member)
          (each x member) (lacks.items rfl x member) inner
        obtain ⟨before, after, rfl⟩ := List.append_of_mem member
        exact exists_equal_of_replace apart each lacks apart' has ⟨y, by simp, same⟩
    | _ => exact absurd (.itemless rfl) ambiguous

end Unreturned

/-- The values whose equalities can all be turned round. -/
theorem unambiguous_iff {a : Value} (apart : a.SetsApart sameElement) :
    a.Unambiguous ↔
      ∀ b : Value, b.SetsApart sameElement → a.equals b = true → b.equals a = true := by
  refine ⟨fun unambiguous b _ same => unambiguous.turn same, fun turns self => ?_⟩
  by_contra ambiguous
  obtain ⟨text, lacks⟩ := a.exists_lacks
  obtain ⟨b, apart', same, has⟩ := exists_equal_with_text apart self lacks ambiguous
  exact has (lacks.of_equalBy (turns b apart' same))

theorem isReference_eq (v : Value) :
    v.isReference = (v.kind == "closure" || v.kind == "future") := by
  cases v <;> rfl

end Value

def SucceedAlike {ε α : Type} (first second : Except ε α) : Prop :=
  ∀ a, first = .ok a ↔ second = .ok a

namespace SucceedAlike

variable {ε α β : Type} {first second : Except ε α}

theorem of_eq (same : first = second) : SucceedAlike first second := fun _ => same ▸ Iff.rfl

theorem map (alike : SucceedAlike first second) (f : α → β) :
    SucceedAlike (first.map f) (second.map f) := by
  intro b
  have half {first second : Except ε α} (alike : SucceedAlike first second)
      (same : first.map f = .ok b) : second.map f = .ok b := by
    cases first with
    | error e => cases same
    | ok a => rwa [(alike a).mp rfl]
  exact ⟨half alike, half fun a => (alike a).symm⟩

end SucceedAlike

namespace Operator

theorem equality_of_kind_eq {a b : Value} (kinds : a.kind = b.kind) :
    equality a b = if a.isReference then mismatch "comparable value" a.kind
      else .ok (a.equals b) := by
  unfold equality
  rw [if_neg (not_not.mpr kinds)]
  cases a <;> rfl

/-- Values of different kinds are refused in either order, values of one kind compared. -/
theorem equality_swap {a b : Value} (comm : a.equals b = b.equals a) :
    SucceedAlike (equality a b) (equality b a) := by
  by_cases kinds : a.kind = b.kind
  · refine .of_eq ?_
    rw [equality_of_kind_eq kinds, equality_of_kind_eq kinds.symm, a.isReference_eq,
      b.isReference_eq, kinds, comm]
  · intro same
    simp [equality, kinds, Ne.symm kinds, mismatch]

theorem evaluate_pair_eq_ok_iff {op : Operator} (binary : op.arity = 2) {a b v : Value} :
    op.evaluate [a, b] = .ok v ↔
      (a.asError? = none ∧ b.asError? = none) ∧ op.binary a b = .ok v := by
  unfold evaluate check firstError?
  rw [if_neg (by simp [binary])]
  cases left : a.asError? with
  | some e => simp [left]; nofun
  | none =>
    cases right : b.asError? with
    | some e => simp [left, right]; nofun
    | none => simp [left, right]; exact Iff.rfl

/-- Values that are equal in both orders or in neither may change places in a test of equality. -/
theorem evaluate_swap {op : Operator} (tests : op ∈ [Operator.eq, .neq]) {a b : Value}
    (comm : a.equals b = b.equals a) : SucceedAlike (op.evaluate [a, b]) (op.evaluate [b, a]) := by
  intro v
  have answers : SucceedAlike (op.binary a b) (op.binary b a) := by
    simp only [List.mem_cons, List.not_mem_nil, or_false] at tests
    rcases tests with rfl | rfl <;> exact (equality_swap comm).map _
  have binary : op.arity = 2 := by
    revert tests
    cases op <;> decide
  rw [evaluate_pair_eq_ok_iff binary, evaluate_pair_eq_ok_iff binary, answers v,
    @and_comm (a.asError? = none)]

end Operator

/-- So they may in the `eq` of a domain that compares as all others do. -/
theorem Domain.call_eq_swap {domain : Domain} (usual : domain.equals = Value.equals)
    (typeOf : Value → Option Ty) {a b : Value} (comm : a.equals b = b.equals a) :
    SucceedAlike (domain.call typeOf "eq" [a, b]) (domain.call typeOf "eq" [b, a]) := by
  intro v
  have answer (a b : Value) : domain.call typeOf "eq" [a, b] = do
      let _ ← domain.iterate a
      let _ ← domain.iterate b
      return .bool (domain.equals a b) := rfl
  rw [answer, answer, usual, comm]
  cases domain.iterate a <;> cases domain.iterate b <;> first | rfl | exact ⟨nofun, nofun⟩

/-- On unambiguous values equality is symmetric, and neither `eq` and `neq` nor the `eq` of lists
and of sets depend on the order of their operands: they give the same answer or none in either. And
a value whose sets are pairwise distinct, at every depth, is unambiguous if and only if each
equality with such a value that has it on its left holds in the other order as well. -/
theorem Value.equals_symmetric (a : Value) :
    (a.Unambiguous → ∀ b : Value, b.Unambiguous →
      a.equals b = b.equals a ∧
      (∀ op ∈ [Operator.eq, .neq], SucceedAlike (op.evaluate [a, b]) (op.evaluate [b, a])) ∧
      ∀ domain ∈ [Domain.list, Domain.set], ∀ typeOf : Value → Option Ty,
        SucceedAlike (domain.call typeOf "eq" [a, b]) (domain.call typeOf "eq" [b, a])) ∧
    (a.SetsApart sameElement →
      (a.Unambiguous ↔
        ∀ b : Value, b.SetsApart sameElement → a.equals b = true → b.equals a = true)) := by
  refine ⟨fun left b right => ?_, fun apart => unambiguous_iff apart⟩
  have comm := left.equals_comm right
  refine ⟨comm, fun op tests => Operator.evaluate_swap tests comm, fun domain one typeOf => ?_⟩
  have usual : domain.equals = Value.equals := by
    simp only [List.mem_cons, List.not_mem_nil, or_false] at one
    rcases one with rfl | rfl <;> rfl
  exact Domain.call_eq_swap usual typeOf comm

namespace Value

def negativeZero : Binary64 := Binary64.zero.negate

def zeros : Value := .set .float [.float .zero, .float negativeZero]

def zeroAndText : Value := .set .float [.float .zero, .string ""]

def zeroFirst : Value := .set .float [.float .zero, .set .int [.int 1, .int 2]]

def zeroLast : Value := .set (.set .int) [.set .int [.int 2, .int 1], .float negativeZero]

theorem equals_symmetric_zeros :
    (zeroFirst.equals zeroLast = true ∧ zeroLast.equals zeroFirst = true ∧
      Operator.neq.evaluate [zeroLast, zeroFirst] = .ok (.bool false) ∧
      Domain.set.call (fun _ => none) "eq" [zeroLast, zeroFirst] = .ok (.bool true)) ∧
    zeros.SetsApart sameElement ∧ zeros.equals zeroAndText = true ∧
      zeroAndText.equals zeros = false ∧ ¬ zeros.Unambiguous := by
  obtain ⟨symmetric, -⟩ := equals_symmetric zeroFirst
  obtain ⟨-, exact⟩ := equals_symmetric zeros
  have left : zeroFirst.Unambiguous := fun _ => by
    refine .set (by decide) (List.forall_mem_cons.mpr ⟨.itemless rfl, ?_⟩)
    exact List.forall_mem_singleton.mpr (.shallow (by decide) (by simp [items?]))
  have right : zeroLast.Unambiguous := fun _ => by
    refine .set (by decide) (List.forall_mem_cons.mpr ⟨.shallow (by decide) (by simp [items?]), ?_⟩)
    exact List.forall_mem_singleton.mpr (.itemless rfl)
  obtain ⟨comm, operators, domains⟩ := symmetric left zeroLast right
  refine ⟨⟨?_, ?_, ?_, ?_⟩, ?_⟩
  · decide
  · rw [← comm]
    decide
  · exact (operators .neq (by simp) _).mp rfl
  · exact (domains .set (by simp) _ _).mp rfl
  have apart : zeros.SetsApart sameElement :=
    .shallow (by decide) (by simp [items?])
  have other : zeroAndText.SetsApart sameElement :=
    .shallow (by decide) (by simp [items?])
  refine ⟨apart, by decide, by decide, fun unambiguous => ?_⟩
  have turned := (exact apart).mp unambiguous zeroAndText other (by decide)
  exact absurd turned (by decide)

end Value
end LayeredIR
