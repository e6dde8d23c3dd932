import LayeredIR.Value
import Mathlib.Order.WellFoundedSet

/-! The order in which the futures of a run can come to be known. Identities are paths in the tree
of forks. One precedes another where the paths part and the first turns to the smaller number, so
that a task precedes neither itself nor what it has forked. -/
namespace LayeredIR

inductive LeftOf : List Nat → List Nat → Prop
  | part {a b left right} (less : a < b) : LeftOf (a :: left) (b :: right)
  | along {a left right} (later : LeftOf left right) : LeftOf (a :: left) (a :: right)

namespace LeftOf

variable {left middle right : List Nat}

theorem append_right (of : LeftOf left right) (further : List Nat) :
    LeftOf left (right ++ further) := by
  induction of with
  | part less => exact .part less
  | along _ ih => exact .along ih

theorem trans {further : List Nat} (first : LeftOf left (middle ++ further))
    (second : LeftOf middle right) : LeftOf left right := by
  induction second generalizing left with
  | part less =>
    cases first with
    | part less' => exact .part (Nat.lt_trans less' less)
    | along _ => exact .part less
  | along _ ih =>
    cases first with
    | part less => exact .part less
    | along later => exact .along (ih later)

theorem not_prefix (of : LeftOf left right) : ¬ left <+: right := by
  induction of with
  | part less =>
    intro within
    exact absurd (List.cons_prefix_cons.mp within).1 (Nat.ne_of_lt less)
  | along _ ih => exact fun within => ih (List.cons_prefix_cons.mp within).2

theorem last {path : List Nat} {a b : Nat} (less : a < b) :
    LeftOf (path ++ [a]) (path ++ [b]) := by
  induction path with
  | nil => exact .part less
  | cons _ _ ih => exact .along ih

theorem raise {path : List Nat} {a b : Nat} (le : a ≤ b) (of : LeftOf left (path ++ [a])) :
    LeftOf left (path ++ [b]) := by
  induction path generalizing left with
  | nil =>
    cases of with
    | part less => exact .part (Nat.lt_of_lt_of_le less le)
    | along later => cases later
  | cons _ _ ih =>
    cases of with
    | part less => exact .part less
    | along later => exact .along (ih later)

end LeftOf

/-- One identity parts from another to the left, on the way down from the entry task. -/
def Identity.Precedes (id other : Identity) : Prop := LeftOf id.reverse other.reverse

namespace Identity.Precedes

variable {id who other : Identity} {n m : Nat}

theorem raise (le : n ≤ m) (precedes : Precedes id (n :: who)) : Precedes id (m :: who) := by
  unfold Precedes at precedes ⊢
  rw [List.reverse_cons] at precedes ⊢
  exact LeftOf.raise le precedes

/-- A task precedes those that its maker goes on to make. -/
theorem sibling (less : n < m) : Precedes (n :: who) (m :: who) := by
  unfold Precedes
  rw [List.reverse_cons, List.reverse_cons]
  exact LeftOf.last less

theorem child (precedes : Precedes id who) : Precedes id (n :: who) := by
  unfold Precedes
  rw [List.reverse_cons]
  exact LeftOf.append_right precedes _

theorem trans (first : Precedes id (n :: who)) (second : Precedes who other) :
    Precedes id other := by
  unfold Precedes at first
  rw [List.reverse_cons] at first
  exact LeftOf.trans first second

/-- No ancestor of a task, nor the task itself, precedes what the task makes. -/
theorem not_suffix (precedes : Precedes id (n :: who)) : ¬ id <:+ who := by
  intro within
  have further : id.reverse <+: (n :: who).reverse :=
    List.reverse_prefix.mpr (within.trans (List.suffix_cons n who))
  exact LeftOf.not_prefix precedes further

end Identity.Precedes

/-- One task comes before another in post-order: it precedes something that the other may make. -/
def Identity.Inner (id who : Identity) : Prop := ∃ n, id.Precedes (n :: who)

instance : IsStrictOrder Identity Identity.Inner where
  irrefl _ inner := inner.choose_spec.not_suffix (List.suffix_refl _)
  trans := by
    intro id who other parts parts'
    obtain ⟨n, first⟩ := parts
    obtain ⟨m, second⟩ := parts'
    exact ⟨m, first.trans second⟩

/-- Among any tasks there is one before which none of them comes. -/
theorem Identity.exists_least {ids : List Identity} (some : ids ≠ []) :
    ∃ who ∈ ids, ∀ id ∈ ids, ¬ id.Inner who := by
  have founded : Set.WellFoundedOn { id | id ∈ ids } Identity.Inner :=
    (List.finite_toSet ids).wellFoundedOn
  obtain ⟨first, member⟩ := List.exists_mem_of_ne_nil ids some
  obtain ⟨⟨who, member⟩, -, least⟩ :=
    WellFounded.has_min founded Set.univ ⟨⟨first, member⟩, trivial⟩
  exact ⟨who, member, fun id member' => least ⟨id, member'⟩ trivial⟩

end LayeredIR
