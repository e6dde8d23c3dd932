import LayeredIR.Value.Equality
import Mathlib.Data.Fintype.EquivFin
import Mathlib.Data.List.Forall2

/-! The two equalities as relations. What an equality of floats is, the equality of values that goes
by it is as well: reflexive, transitive and, where no set has an item twice, symmetric. Sets are
compared in one direction and by their sizes only, so the last is a matter of counting. -/
namespace LayeredIR

section Counting

variable {α β : Type} {r : α → β → Prop} {xs : List α} {ys : List β}

/-- Where no two of the first are related to one of the second, and each of them to some, they can
be given places among the second. -/
theorem exists_places_of_pairwise
    (apart : xs.Pairwise fun x x' => ∀ y ∈ ys, r x y → ¬ r x' y)
    (found : ∀ x ∈ xs, ∃ y ∈ ys, r x y) :
    ∃ place : Fin xs.length → Fin ys.length,
      Function.Injective place ∧ ∀ i, r (xs.get i) (ys.get (place i)) := by
  have placed (i : Fin xs.length) : ∃ j : Fin ys.length, r (xs.get i) (ys.get j) := by
    obtain ⟨y, among, related⟩ := found (xs.get i) (List.get_mem xs i)
    obtain ⟨j, rfl⟩ := List.get_of_mem among
    exact ⟨j, related⟩
  choose place related using placed
  have ordered (i j : Fin xs.length) (less : i < j) : place i ≠ place j := by
    intro same
    have both := List.pairwise_iff_get.mp apart i j less
    exact both _ (List.get_mem _ _) (related i) (same ▸ related j)
  refine ⟨place, fun i j same => ?_, related⟩
  rcases lt_trichotomy i j with less | equal | more
  · exact absurd same (ordered i j less)
  · exact equal
  · exact absurd same.symm (ordered j i more)

theorem length_le_of_pairwise
    (apart : xs.Pairwise fun x x' => ∀ y ∈ ys, r x y → ¬ r x' y)
    (found : ∀ x ∈ xs, ∃ y ∈ ys, r x y) : xs.length ≤ ys.length := by
  obtain ⟨place, injective, -⟩ := exists_places_of_pairwise apart found
  simpa using Fintype.card_le_of_injective place injective

/-- Of two lists of one length, every item of the second then has one of the first that is related
to it. -/
theorem exists_related_of_pairwise (length : xs.length = ys.length)
    (apart : xs.Pairwise fun x x' => ∀ y ∈ ys, r x y → ¬ r x' y)
    (found : ∀ x ∈ xs, ∃ y ∈ ys, r x y) {y : β} (member : y ∈ ys) : ∃ x ∈ xs, r x y := by
  obtain ⟨place, injective, related⟩ := exists_places_of_pairwise apart found
  have bijective := (Fintype.bijective_iff_injective_and_card place).mpr
    ⟨injective, by simpa using length⟩
  obtain ⟨j, rfl⟩ := List.get_of_mem member
  obtain ⟨i, rfl⟩ := bijective.surjective j
  exact ⟨xs.get i, List.get_mem xs i, related i⟩

end Counting

namespace Value

def isFlat : Value → Bool
  | .int _ | .float _ | .bool _ | .string _ | .void | .future _ => true
  | _ => false

theorem sizeOf_item {v : Value} {items : List Value} (held : v.items? = some items) {item : Value}
    (member : item ∈ items) : sizeOf item < sizeOf v := by
  have inner := List.sizeOf_lt_of_mem member
  cases v with
  | list of _ =>
    cases held
    simp only [list.sizeOf_spec]
    omega
  | set of _ =>
    cases held
    simp only [set.sizeOf_spec]
    omega
  | _ => cases held

/-- Induction on values through their items. -/
@[elab_as_elim]
theorem items_induction {motive : Value → Prop}
    (step : ∀ v, (∀ items, v.items? = some items → ∀ item ∈ items, motive item) → motive v)
    (v : Value) : motive v := by
  induction size : sizeOf v using Nat.strong_induction_on generalizing v with
  | _ n ih =>
    subst size
    exact step v fun items held item member => ih _ (sizeOf_item held member) item rfl

inductive Throughout (P : Value → Prop) : Value → Prop
  | intro {v} (self : P v)
    (items : ∀ items, v.items? = some items → ∀ item ∈ items, Throughout P item) : Throughout P v

namespace Throughout

variable {P : Value → Prop} {v : Value}

theorem self (all : v.Throughout P) : P v := by
  cases all
  assumption

theorem items (all : v.Throughout P) {items : List Value} (held : v.items? = some items) :
    ∀ item ∈ items, item.Throughout P := by
  cases all with
  | intro _ deeper => exact deeper items held

theorem itemless (self : P v) (single : v.items? = none) : v.Throughout P :=
  .intro self fun items held => by simp [single] at held

theorem list {of : Ty} {items : List Value} (self : P (.list of items))
    (all : ∀ item ∈ items, item.Throughout P) : (Value.list of items).Throughout P :=
  .intro self fun _ held => Option.some.inj held ▸ all

theorem set {of : Ty} {items : List Value} (self : P (.set of items))
    (all : ∀ item ∈ items, item.Throughout P) : (Value.set of items).Throughout P :=
  .intro self fun _ held => Option.some.inj held ▸ all

end Throughout

def SetsApart (same : Value → Value → Bool) (v : Value) : Prop :=
  v.Throughout fun part =>
    ∀ of items, part = .set of items → items.Pairwise fun a b => same a b = false

namespace SetsApart

variable {same : Value → Value → Bool} {of : Ty} {items : List Value}

theorem list (all : ∀ item ∈ items, item.SetsApart same) : (Value.list of items).SetsApart same :=
  Throughout.list nofun all

theorem set (apart : items.Pairwise fun a b => same a b = false)
    (all : ∀ item ∈ items, item.SetsApart same) : (Value.set of items).SetsApart same := by
  refine Throughout.set ?_ all
  rintro _ _ ⟨⟩
  exact apart

theorem itemless {v : Value} (single : v.items? = none) : v.SetsApart same := by
  refine Throughout.itemless ?_ single
  rintro _ _ rfl
  cases single

/-- A set of items that hold none themselves. -/
theorem shallow (apart : items.Pairwise fun a b => same a b = false)
    (single : ∀ item ∈ items, item.items? = none) : (Value.set of items).SetsApart same :=
  .set apart fun item member => .itemless (single item member)

theorem pairwise (apart : (Value.set of items).SetsApart same) :
    items.Pairwise fun a b => same a b = false := apart.self of items rfl

end SetsApart

variable {floatEq : Binary64 → Binary64 → Bool}

theorem eachFoundBy_iff {xs ys : List Value} :
    eachFoundBy floatEq xs ys = true ↔ ∀ x ∈ xs, ∃ y ∈ ys, x.equalBy floatEq y = true := by
  induction xs with
  | nil => simp [eachFoundBy]
  | cons x rest ih => simp [eachFoundBy, ih]

theorem pairwiseEqualBy_iff {xs ys : List Value} :
    xs.length = ys.length ∧ pairwiseEqualBy floatEq xs ys = true ↔
      List.Forall₂ (fun x y => x.equalBy floatEq y = true) xs ys := by
  induction xs generalizing ys with
  | nil => cases ys <;> simp [pairwiseEqualBy]
  | cons x rest ih =>
    cases ys with
    | nil => simp
    | cons y others =>
      simp only [List.length_cons, Nat.add_right_cancel_iff, pairwiseEqualBy, Bool.and_eq_true,
        List.forall₂_cons, ← ih]
      tauto

inductive Matches (floatEq : Binary64 → Binary64 → Bool) : Value → Value → Prop
  | float {x y} (same : floatEq x y = true) : Matches floatEq (.float x) (.float y)
  | flat {v} (plain : v.isFlat) (exact : ∀ x, v ≠ .float x) : Matches floatEq v v
  | list {of of' xs ys} (items : List.Forall₂ (fun x y => x.equalBy floatEq y = true) xs ys) :
    Matches floatEq (.list of xs) (.list of' ys)
  | set {of of' xs ys} (length : xs.length = ys.length)
    (found : ∀ x ∈ xs, ∃ y ∈ ys, x.equalBy floatEq y = true) :
    Matches floatEq (.set of xs) (.set of' ys)
  | closure {c c'} (id : c.id = c'.id) : Matches floatEq (.closure c) (.closure c')
  | error {e e'} (code : e.code = e'.code) : Matches floatEq (.error e) (.error e')

theorem equalBy_iff {a b : Value} : a.equalBy floatEq b = true ↔ Matches floatEq a b := by
  constructor
  · intro same
    cases a <;> cases b <;> simp only [equalBy, Bool.and_eq_true, beq_iff_eq,
      Bool.false_eq_true] at same
    case float.float => exact .float same
    case list.list => exact .list (pairwiseEqualBy_iff.mp same)
    case set.set => exact .set same.1 (eachFoundBy_iff.mp same.2)
    case closure.closure => exact .closure same
    case error.error => exact .error same
    case void.void => exact .flat rfl (by simp)
    all_goals
      subst same
      exact .flat rfl (by simp)
  · rintro (⟨same⟩ | ⟨plain, exact⟩ | ⟨items⟩ | ⟨length, found⟩ | ⟨id⟩ | ⟨code⟩)
    · simpa [equalBy] using same
    · cases a <;> simp_all [equalBy, isFlat]
    · have both := pairwiseEqualBy_iff.mpr items
      simp [equalBy, both]
    · simp [equalBy, length, eachFoundBy_iff.mpr found]
    · simp [equalBy, id]
    · simp [equalBy, code]

theorem equalBy_refl (refl : ∀ x, floatEq x x = true) (v : Value) : v.equalBy floatEq v = true := by
  induction v using items_induction with
  | step v ih =>
    rw [equalBy_iff]
    cases v with
    | float x => exact .float (refl x)
    | list of items => exact .list (List.forall₂_same.mpr (ih items rfl))
    | set of items => exact .set rfl fun item member => ⟨item, member, ih items rfl item member⟩
    | closure c => exact .closure rfl
    | error e => exact .error rfl
    | _ => exact .flat rfl nofun

/-- An equality of floats that may leave some of them equal to nothing. -/
structure FloatEquality (floatEq : Binary64 → Binary64 → Bool) : Prop where
  symm : ∀ {x y}, floatEq x y = true → floatEq y x = true
  trans : ∀ {x y z}, floatEq x y = true → floatEq y z = true → floatEq x z = true

theorem floatEquality_bits : FloatEquality (· == ·) where
  symm same := by simpa using Eq.symm (by simpa using same)
  trans first second := by simp_all

theorem floatEquality_ieee : FloatEquality Binary64.ieeeEq where
  symm same := by
    simp only [Binary64.ieeeEq, Bool.and_eq_true, beq_iff_eq] at same ⊢
    exact ⟨same.1.symm, same.2.symm⟩
  trans first second := by
    simp only [Binary64.ieeeEq, Bool.and_eq_true, beq_iff_eq] at first second ⊢
    exact ⟨⟨first.1.1, second.1.2⟩, first.2.trans second.2⟩

namespace FloatEquality

variable (equality : FloatEquality floatEq)
include equality

theorem equalBy_trans {a b c : Value} (first : a.equalBy floatEq b = true)
    (second : b.equalBy floatEq c = true) : a.equalBy floatEq c = true := by
  induction a using items_induction generalizing b c with
  | step a ih =>
    rw [equalBy_iff] at first second ⊢
    cases first with
    | float same =>
      cases second with
      | float same' => exact .float (equality.trans same same')
      | flat _ exact => exact absurd rfl (exact _)
    | flat => exact second
    | @list of of' xs ys items =>
      cases second with
      | flat plain => cases plain
      | @list _ _ _ zs others =>
        refine .list (List.forall₂_iff_get.mpr
          ⟨items.length_eq.trans others.length_eq, fun i h h' => ?_⟩)
        have middle := items.length_eq ▸ h
        exact ih xs rfl _ (List.get_mem xs ⟨i, h⟩) (items.get h middle) (others.get middle h')
    | @set of of' xs ys length found =>
      cases second with
      | flat plain => cases plain
      | set length' found' =>
        refine .set (length.trans length') fun x member => ?_
        obtain ⟨y, among, same⟩ := found x member
        obtain ⟨z, within, same'⟩ := found' y among
        exact ⟨z, within, ih xs rfl x member same same'⟩
    | closure id =>
      cases second with
      | flat plain => cases plain
      | closure id' => exact .closure (id.trans id')
    | error code =>
      cases second with
      | flat plain => cases plain
      | error code' => exact .error (code.trans code')

/-- What equals something equals itself. -/
theorem equalBy_self {a b : Value} (same : a.equalBy floatEq b = true) :
    a.equalBy floatEq a = true := by
  induction a using items_induction generalizing b with
  | step a ih =>
    rw [equalBy_iff] at same ⊢
    cases same with
    | float same => exact .float (equality.trans same (equality.symm same))
    | flat plain exact => exact .flat plain exact
    | @list of of' xs ys items =>
      refine .list (List.forall₂_same.mpr fun x member => ?_)
      obtain ⟨i, rfl⟩ := List.get_of_mem member
      exact ih xs rfl _ member (items.get i.isLt (items.length_eq ▸ i.isLt))
    | @set of of' xs ys length found =>
      refine .set rfl fun x member => ⟨x, member, ?_⟩
      obtain ⟨y, -, same⟩ := found x member
      exact ih xs rfl x member same
    | closure => exact .closure rfl
    | error => exact .error rfl

/-- The items of what equals itself do so as well. -/
theorem item_self {a : Value} (self : a.equalBy floatEq a = true) {items : List Value}
    (held : a.items? = some items) : ∀ item ∈ items, item.equalBy floatEq item = true := by
  rw [equalBy_iff] at self
  cases self with
  | flat plain =>
    cases a with
    | list | set => cases plain
    | _ => cases held
  | list each =>
    cases held
    exact List.forall₂_same.mp each
  | set _ found =>
    cases held
    intro item member
    obtain ⟨other, -, same⟩ := found item member
    exact equality.equalBy_self same
  | float | closure | error => cases held

/-- Items of which none is equal to a later one have no equal in common, where their own equalities
can be turned round. -/
theorem unshared {xs ys : List Value}
    (apart : xs.Pairwise fun a b => a.equalBy floatEq b = false)
    (turned : ∀ x ∈ xs, ∀ y ∈ ys, x.equalBy floatEq y = true → y.equalBy floatEq x = true) :
    xs.Pairwise fun x x' => ∀ y ∈ ys, x.equalBy floatEq y = true →
      ¬ x'.equalBy floatEq y = true := by
  refine (List.Pairwise.and_mem.mp apart).imp ?_
  rintro x x' ⟨-, member', differs⟩ y among same same'
  have joined := equality.equalBy_trans same (turned x' member' y among same')
  rw [differs] at joined
  cases joined

/-- An equality can be turned round where the sets on its left have no item twice, at any depth. -/
theorem symm_of_apart {a b : Value} (apart : a.SetsApart (equalBy floatEq))
    (same : a.equalBy floatEq b = true) : b.equalBy floatEq a = true := by
  induction a using items_induction generalizing b with
  | step a ih =>
    rw [equalBy_iff] at same ⊢
    cases same with
    | float same => exact .float (equality.symm same)
    | flat plain exact => exact .flat plain exact
    | @list of of' xs ys items =>
      refine .list (List.forall₂_iff_get.mpr ⟨items.length_eq.symm, fun i h h' => ?_⟩)
      have member := List.get_mem xs ⟨i, h'⟩
      exact ih xs rfl _ member (apart.items rfl _ member) (items.get h' h)
    | @set of of' xs ys length found =>
      have turned (x : Value) (member : x ∈ xs) (y : Value) (_ : y ∈ ys)
          (same : x.equalBy floatEq y = true) : y.equalBy floatEq x = true :=
        ih xs rfl x member (apart.items rfl x member) same
      refine .set length.symm fun y among => ?_
      obtain ⟨x, member, same⟩ := exists_related_of_pairwise length
        (equality.unshared apart.pairwise turned) found among
      exact ⟨x, member, turned x member y among same⟩
    | closure id => exact .closure id.symm
    | error code => exact .error code.symm

/-- Sets without an item twice are equal where each has the items of the other. -/
theorem set_equalBy_iff {of of' : Ty} {xs ys : List Value}
    (left : (Value.set of xs).SetsApart (equalBy floatEq))
    (right : (Value.set of' ys).SetsApart (equalBy floatEq)) :
    (Value.set of xs).equalBy floatEq (.set of' ys) = true ↔
      (∀ x ∈ xs, ∃ y ∈ ys, x.equalBy floatEq y = true) ∧
        ∀ y ∈ ys, ∃ x ∈ xs, y.equalBy floatEq x = true := by
  have fits {of : Ty} {xs ys : List Value} (apart : (Value.set of xs).SetsApart (equalBy floatEq))
      (found : ∀ x ∈ xs, ∃ y ∈ ys, x.equalBy floatEq y = true) : xs.length ≤ ys.length := by
    refine length_le_of_pairwise (equality.unshared apart.pairwise fun x member y _ => ?_) found
    exact equality.symm_of_apart (apart.items rfl x member)
  constructor
  · intro same
    have back := equality.symm_of_apart left same
    rw [equalBy_iff] at same back
    cases same with
    | flat plain => cases plain
    | set _ found =>
      cases back with
      | flat plain => cases plain
      | set _ found' => exact ⟨found, found'⟩
  · intro both
    obtain ⟨found, found'⟩ := both
    exact equalBy_iff.mpr (.set (Nat.le_antisymm (fits left found) (fits right found')) found)

end FloatEquality

/-- Values in which no float stands are compared alike whatever the equality of floats. -/
theorem equalBy_of_floatFree {other : Binary64 → Binary64 → Bool} {a b : Value}
    (free : a.Throughout fun part => ∀ x, part ≠ .float x) :
    a.equalBy floatEq b = a.equalBy other b := by
  have half {floatEq other : Binary64 → Binary64 → Bool}
      (same : a.equalBy floatEq b = true) : a.equalBy other b = true := by
    induction free generalizing b with
    | intro self _ ih =>
      rw [equalBy_iff] at same ⊢
      cases same with
      | float => exact absurd rfl (self _)
      | flat plain exact => exact .flat plain exact
      | @list of of' xs ys items =>
        refine .list (List.forall₂_iff_get.mpr ⟨items.length_eq, fun i h h' => ?_⟩)
        exact ih xs rfl _ (List.get_mem xs ⟨i, h⟩) (items.get h h')
      | @set of of' xs ys length found =>
        refine .set length fun x member => ?_
        obtain ⟨y, among, same⟩ := found x member
        exact ⟨y, among, ih xs rfl x member same⟩
      | closure id => exact .closure id
      | error code => exact .error code
  exact Bool.eq_iff_iff.mpr ⟨half, half⟩

end Value
end LayeredIR
