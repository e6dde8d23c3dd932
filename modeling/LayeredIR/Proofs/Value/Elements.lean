import LayeredIR.Proofs.Value.Built

/-! Being the same element. Among values whose sets hold each element once it is an equivalence, a
NaN being the same element as itself; and where no float is involved it is equality. -/
namespace LayeredIR.Value

def FloatFree (v : Value) : Prop := v.Throughout fun part => ∀ x, part ≠ .float x

/-- On values whose sets are pairwise distinct at every depth, being the same element is an
equivalence; two sets are the same element if and only if each item of either is the same element as
some item of the other. Where one of two values holds no float, being the same element and being
equal are one. -/
theorem sameElement_sound :
    (Equivalence fun a b : {v : Value // v.SetsApart sameElement} =>
      a.val.sameElement b.val = true) ∧
    (∀ of of' xs ys, (Value.set of xs).SetsApart sameElement →
      (Value.set of' ys).SetsApart sameElement →
      ((Value.set of xs).sameElement (.set of' ys) = true ↔
        (∀ x ∈ xs, ∃ y ∈ ys, x.sameElement y = true) ∧
          ∀ y ∈ ys, ∃ x ∈ xs, y.sameElement x = true)) ∧
    ∀ a b : Value, a.FloatFree → a.sameElement b = a.equals b := by
  refine ⟨⟨fun a => a.val.sameElement_refl, ?_, sameElement_trans⟩, ?_,
    fun a b free => equalBy_of_floatFree free⟩
  · intro a b same
    exact floatEquality_bits.symm_of_apart a.property same
  · intro of of' xs ys left right
    exact floatEquality_bits.set_equalBy_iff left right

def nanFirst : Literal := .set .float [.float .nan, .set .int [.int 1, .int 2]]

def nanLast : Literal := .set (.set .int) [.set .int [.int 2, .int 1], .float .nan]

theorem sameElement_sound_nan :
    (ofLiteral nanFirst).sameElement (ofLiteral nanLast) = true ∧
      (ofLiteral nanLast).sameElement (ofLiteral nanFirst) = true ∧
      (ofLiteral nanFirst).equals (ofLiteral nanLast) = false ∧
      (Value.set .int [.int 1]).sameElement (ofLiteral nanFirst) =
        (Value.set .int [.int 1]).equals (ofLiteral nanFirst) := by
  obtain ⟨equivalence, sets, floatFree⟩ := sameElement_sound
  have first : (ofLiteral nanFirst).SetsApart sameElement := .ofLiteral nanFirst
  have last : (ofLiteral nanLast).SetsApart sameElement := .ofLiteral nanLast
  have same : (ofLiteral nanFirst).sameElement (ofLiteral nanLast) = true := by
    refine (sets _ _ _ _ first last).mpr ⟨?_, ?_⟩ <;> decide
  have turned : (ofLiteral nanLast).sameElement (ofLiteral nanFirst) = true :=
    @equivalence.symm ⟨_, first⟩ ⟨_, last⟩ same
  refine ⟨same, turned, rfl, floatFree _ _ (Throughout.set nofun ?_)⟩
  exact List.forall_mem_singleton.mpr (.itemless nofun rfl)

end LayeredIR.Value
