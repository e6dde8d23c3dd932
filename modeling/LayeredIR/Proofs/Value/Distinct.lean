import LayeredIR.Proofs.Value.Equality
import LayeredIR.Proofs.Value.Parts

/-! Sets that hold each element once. Whether two sets are the same element is asked in one
direction only, from the items of the one to those of the other; where no item of either occurs
twice, at any depth, this is an equivalence. It is what keeps the items of a set apart however the
set is built. -/
namespace LayeredIR
namespace Value

theorem All.throughout {P : Value → Prop} {v : Value} (all : v.All P) : v.Throughout P := by
  induction v using items_induction with
  | step v ih =>
    exact .intro all.self fun items held item member =>
      ih items held item member (all.items held item member)

theorem sameElement_refl (v : Value) : v.sameElement v = true :=
  equalBy_refl (fun _ => beq_self_eq_true _) v

theorem sameElement_trans {a b c : Value} (first : a.sameElement b = true)
    (second : b.sameElement c = true) : a.sameElement c = true :=
  floatEquality_bits.equalBy_trans first second

/-- Elements added before keep being found where what is looked for is the same as one found. -/
theorem any_sameElement_of_any {kept : List Value} {a b : Value}
    (found : kept.any fun other => other.sameElement a) (same : a.sameElement b = true) :
    kept.any fun other => other.sameElement b := by
  obtain ⟨other, member, like⟩ := List.any_eq_true.mp found
  exact List.any_eq_true.mpr ⟨other, member, sameElement_trans like same⟩

/-- What is found among the items that are kept is found among all of them, and the other way
round. -/
theorem any_foldl_addElement (kept items : List Value) (v : Value) :
    ((items.foldl addElement kept).any fun other => other.sameElement v) =
      ((kept.any fun other => other.sameElement v) ||
        items.any fun other => other.sameElement v) := by
  induction items generalizing kept with
  | nil => simp
  | cons item rest ih =>
    rw [List.foldl_cons, ih, List.any_cons, ← Bool.or_assoc, addElement]
    split
    · next found =>
      cases like : item.sameElement v with
      | false => rw [Bool.or_false]
      | true => rw [any_sameElement_of_any found like, Bool.or_true]
    · simp only [List.any_append, List.any_cons, List.any_nil, Bool.or_false]

/-- Of items that are apart from one another, those are added that are not there already. -/
theorem foldl_addElement_eq (kept : List Value) {items : List Value}
    (apart : items.Pairwise fun a b => a.sameElement b = false) :
    items.foldl addElement kept =
      kept ++ items.filter fun item => !kept.any fun other => other.sameElement item := by
  induction apart generalizing kept with
  | nil => simp
  | @cons item rest differs _ ih =>
    rw [List.foldl_cons, ih, addElement, List.filter_cons]
    split
    · next found => rw [found, Bool.not_true, if_neg Bool.false_ne_true]
    · next new =>
      have same : rest.filter (fun v => !(kept ++ [item]).any fun other => other.sameElement v) =
          rest.filter fun v => !kept.any fun other => other.sameElement v := by
        refine List.filter_congr fun v member => ?_
        simp only [List.any_append, List.any_cons, List.any_nil, differs v member, Bool.or_false]
      rw [same, if_pos (by simpa using new), List.append_assoc, List.singleton_append]

theorem distinct_of_apart {items : List Value}
    (apart : items.Pairwise fun a b => a.sameElement b = false) : distinct items = items := by
  rw [distinct, foldl_addElement_eq [] apart]
  simp

theorem pairwise_addElement {kept : List Value} (item : Value)
    (apart : kept.Pairwise fun a b => a.sameElement b = false) :
    (addElement kept item).Pairwise fun a b => a.sameElement b = false := by
  unfold addElement
  split
  · exact apart
  · next new =>
    refine List.pairwise_append.mpr ⟨apart, List.pairwise_singleton _ _, ?_⟩
    intro other member last among
    rw [List.mem_singleton.mp among]
    simp only [List.any_eq_true, not_exists, not_and, Bool.not_eq_true] at new
    exact new other member

theorem pairwise_distinct (items : List Value) :
    (distinct items).Pairwise fun a b => a.sameElement b = false := by
  have folded (kept : List Value) (apart : kept.Pairwise fun a b => a.sameElement b = false) :
      (items.foldl addElement kept).Pairwise fun a b => a.sameElement b = false := by
    induction items generalizing kept with
    | nil => exact apart
    | cons item rest ih => exact ih _ (pairwise_addElement item apart)
  exact folded [] .nil

theorem SetsApart.setOf (of : Ty) {items : List Value}
    (all : ∀ item ∈ items, item.SetsApart sameElement) :
    (Value.setOf of items).SetsApart sameElement :=
  .set (pairwise_distinct items) fun item member => all item (mem_distinct member)

def Apart (items : List Value) : Prop :=
  items.Pairwise fun a b => a.sameElement b = false ∧ b.sameElement a = false

def SetsDistinct (v : Value) : Prop :=
  v.All fun part => ∀ of items, part = .set of items → Apart items

namespace SetsDistinct

/-- What a closure has taken along plays no part in comparisons. -/
theorem setsApart {v : Value} (distinct : v.SetsDistinct) : v.SetsApart sameElement :=
  All.throughout (distinct.mono fun _ apart of items same =>
    (apart of items same).imp fun differs => differs.1)

/-- Between values whose sets hold each element once, being the same element goes both ways. -/
theorem comm {a b : Value} (left : a.SetsDistinct) (right : b.SetsDistinct) :
    a.sameElement b = b.sameElement a :=
  Bool.eq_iff_iff.mpr ⟨floatEquality_bits.symm_of_apart left.setsApart,
    floatEquality_bits.symm_of_apart right.setsApart⟩

theorem flat {v : Value} (plain : v.isFlat) : v.SetsDistinct := by
  intro part inside
  cases inside <;> first | cases plain | rintro _ _ rfl; cases plain

theorem error (e : ErrorValue) : (Value.error e).SetsDistinct := by
  intro part inside
  cases inside
  nofun

theorem list {of : Ty} {items : List Value} (all : ∀ item ∈ items, item.SetsDistinct) :
    (Value.list of items).SetsDistinct := all_list nofun all

theorem closure {c : Closure}
    (all : ∀ entries, c.captured = .frozen entries → ∀ entry ∈ entries, entry.2.SetsDistinct) :
    (Value.closure c).SetsDistinct := all_closure nofun all

/-- An item is kept only where no earlier one is the same element, which it is then in neither
direction. -/
theorem apart_distinct {items : List Value} (all : ∀ item ∈ items, item.SetsDistinct) :
    Apart (distinct items) := by
  refine (List.Pairwise.and_mem.mp (pairwise_distinct items)).imp ?_
  rintro a b ⟨member, member', differs⟩
  have turned := (all b (mem_distinct member')).comm (all a (mem_distinct member))
  exact ⟨differs, turned.trans differs⟩

theorem setOf (of : Ty) {items : List Value} (all : ∀ item ∈ items, item.SetsDistinct) :
    (Value.setOf of items).SetsDistinct := by
  refine all_set ?_ fun item member => all item (mem_distinct member)
  rintro _ _ ⟨⟩
  exact apart_distinct all

end SetsDistinct
end Value
end LayeredIR
