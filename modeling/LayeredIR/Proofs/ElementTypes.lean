import LayeredIR.Proofs.ErrorOperands
import LayeredIR.Proofs.Value.Hereditary

/-! Declared element types. A collection is homogeneous when its items conform to the element type
that it declares, at every depth. Operators, the operations of lists and of sets, and `list`
expressions check what they add to a collection, or take it from one that is homogeneous already.
Only `of` takes the type of its first operand and asks nothing of the others. -/
namespace LayeredIR

namespace Value

def Homogeneous (v : Value) : Prop :=
  v.Throughout fun part => ∀ of items, part.elementTy? = some of → part.items? = some items →
    ∀ item ∈ items, item.conformsTo of = true

namespace Homogeneous

variable {of : Ty} {items : List Value}

theorem itemless {v : Value} (single : v.items? = none) : v.Homogeneous :=
  Throughout.itemless (fun _ _ _ held => by simp [single] at held) single

/-- A collection is homogeneous where its items are, and conform to what it declares. -/
theorem collection_iff {v : Value} (declared : v.elementTy? = some of)
    (held : v.items? = some items) :
    v.Homogeneous ↔ ∀ item ∈ items, item.Homogeneous ∧ item.conformsTo of = true := by
  constructor
  · intro all item member
    exact ⟨all.items held item member, all.self of items declared held item member⟩
  · intro all
    refine .intro (fun of' items' declared' held' => ?_) fun items' held' => ?_
    · cases declared.symm.trans declared'
      cases held.symm.trans held'
      exact fun item member => (all item member).2
    · cases held.symm.trans held'
      exact fun item member => (all item member).1

theorem hereditary : Hereditary (fun v ty => v.conformsTo ty = true) Homogeneous where
  conforming conforms := conforms
  flat {v} plain := by cases v <;> first | exact .itemless rfl | cases plain
  item all declared held := (collection_iff declared held).mp all
  list _ _ all := (collection_iff rfl rfl).mpr all
  setOf _ _ all := (collection_iff rfl rfl).mpr fun item member => all item (mem_distinct member)

end Homogeneous
end Value

namespace Plan

/-- What is left of the evaluation of operands, once some of them have been given. -/
theorem Given.evalAll {a : ScopeId} {args : List Arg} {f : List Value → Plan Next}
    {vs : List Value} {p : Plan Next} (given : (Plan.evalAll a args >>= f).Given vs p)
    (fits : vs.length ≤ args.length) :
    p = Plan.evalAll a (args.drop vs.length) >>= fun ws => f (vs ++ ws) := by
  induction given with
  | none => rfl
  | @evaluated vs job next before v ih =>
    rw [List.length_append, List.length_singleton] at fits ⊢
    have left := ih (by omega)
    rw [List.drop_eq_getElem_cons fits, evalAll_cons] at left
    cases left
    simp only [List.append_assoc, List.singleton_append]
  | @read vs place name next before v ih =>
    rw [List.length_append, List.length_singleton] at fits
    have left := ih (by omega)
    rw [List.drop_eq_getElem_cons fits, evalAll_cons] at left
    cases left

theorem checkItems_cases (of : Ty) (vs : List Value) :
    ((∀ v ∈ vs, v.conformsTo of = true) ∧ checkItems of vs = pure ()) ∨
      (∃ v ∈ vs, v.conformsTo of = false) ∧ ∃ fault, checkItems of vs = .fail fault := by
  induction vs with
  | nil => exact .inl ⟨nofun, rfl⟩
  | cons v vs ih =>
    unfold checkItems
    split
    · next conforms =>
      refine ih.imp (fun all => ⟨List.forall_mem_cons.mpr ⟨conforms, all.1⟩, all.2⟩) fun fails => ?_
      exact ⟨List.exists_mem_cons_of_exists fails.1, fails.2⟩
    · next differs =>
      refine .inr ⟨⟨v, .head _, Bool.eq_false_iff.mpr differs⟩, ?_⟩
      cases v <;> exact ⟨_, rfl⟩

end Plan

/-- A `list` expression, once its operands have been evaluated: a list of them all where each one
conforms to the declared type, and a failure where one does not. -/
theorem Setting.Takes.list {σ : Type} {s : Setting σ} {bottom : List Frame} {of : Ty}
    {items : List Arg} {a : ScopeId} {memory : Memory} {vs : List Value} {task : Task}
    (takes : s.Takes bottom (s.plan (.expr (.list of items) a)) memory vs task)
    (all : vs.length = items.length) :
    (task.control = .done (.value (.list of vs)) ∧ ∀ v ∈ vs, v.conformsTo of = true) ∨
      (∃ v ∈ vs, v.conformsTo of = false) ∧ ∃ fault, task.control = .fail fault := by
  have left := takes.given.1
  have lowest : ¬ s.layer < (Expr.list of items).minLayer := Nat.not_lt_zero _
  have permitted : s.plan (.expr (.list of items) a) = s.form (.list of items) a := by
    simp only [Setting.plan, Setting.expression, if_neg lowest]
  rw [permitted] at left
  have left := Plan.Given.evalAll left all.le
  rw [all, List.drop_length] at left
  change task.control = Plan.checkItems of (vs ++ []) >>= fun _ =>
    pure (Next.value (.list of (vs ++ []))) at left
  rw [List.append_nil] at left
  rcases Plan.checkItems_cases of vs with ⟨conform, passes⟩ | ⟨differs, fault, fails⟩
  · rw [passes] at left
    exact .inl ⟨left, conform⟩
  · rw [fails] at left
    exact .inr ⟨differs, fault, left⟩

namespace Value

/-- On homogeneous operands the answers of operators, of all operations of lists and of sets but
`of`, and of `list` expressions are homogeneous, and a `list` expression answers unless some operand
does not conform. What `of` answers declares the type of its first operand, or that of nothing where
there is none, and is homogeneous if and only if the items that it keeps conform to it. -/
theorem homogeneous_kept {σ : Type} (s : Setting σ) (typeOf : Value → Option Ty) :
    (∀ (op : Operator) args, (∀ arg ∈ args, arg.Homogeneous) →
      ∀ v, op.evaluate args = .ok v → v.Homogeneous) ∧
    (∀ domain ∈ [Domain.list, Domain.set], ∀ op ≠ "of", ∀ args : List Value,
      (∀ arg ∈ args, arg.Homogeneous) →
      ∀ v, domain.call typeOf op args = .ok v → v.Homogeneous) ∧
    (∀ args : List Value, (∀ arg ∈ args, arg.Homogeneous) → ∃ list set : Value,
      Domain.list.call typeOf "of" args = .ok list ∧
      (list.Homogeneous ↔
        ∀ arg ∈ args, arg.conformsTo (Domain.inferredTy typeOf args) = true) ∧
      Domain.set.call typeOf "of" args = .ok set ∧
      (set.Homogeneous ↔
        ∀ arg ∈ distinct args, arg.conformsTo (Domain.inferredTy typeOf args) = true)) ∧
    ∀ bottom of items a memory vs task,
      s.Takes bottom (s.plan (.expr (.list of items) a)) memory vs task →
      vs.length = items.length → (∀ v ∈ vs, v.Homogeneous) →
      (task.control = .done (.value (.list of vs)) ∧ (Value.list of vs).Homogeneous) ∨
        (∃ v ∈ vs, v.conformsTo of = false) ∧ ∃ fault, task.control = .fail fault := by
  refine ⟨fun op args all => ?_, fun domain one op other args all => ?_, fun args all => ?_, ?_⟩
  · exact Operator.evaluate_gives Homogeneous.hereditary op all
  · have down : domain.HandsDown (fun v ty => v.conformsTo ty = true) Homogeneous := by
      simp only [List.mem_cons, List.not_mem_nil, or_false] at one
      rcases one with rfl | rfl
      · exact Domain.list_handsDown Homogeneous.hereditary
      · exact Domain.set_handsDown Homogeneous.hereditary
    exact down.call Homogeneous.hereditary typeOf op all fun same => absurd same other
  · refine ⟨_, _, rfl, (Homogeneous.collection_iff rfl rfl).trans ?_, rfl,
      (Homogeneous.collection_iff rfl rfl).trans ?_⟩
    · exact forall₂_congr fun arg member => and_iff_right (all arg member)
    · exact forall₂_congr fun arg member => and_iff_right (all arg (mem_distinct member))
  · intro bottom of items a memory vs task takes length all
    refine (takes.list length).imp_left fun ⟨done, conform⟩ => ⟨done, ?_⟩
    exact (Homogeneous.collection_iff rfl rfl).mpr fun v member =>
      ⟨all v member, conform v member⟩

def twoNumbers : Expr := .list .int [.inline (.lit (.int 1)), .inline (.lit (.int 2))]

/-- Lists of numbers stay such; `of` makes one of a number and a text. -/
theorem homogeneous_kept_numbers :
    let typeOf := Futures.empty.typeOf
    let one := Value.list .int [.int 1]
    (∃ v, Operator.concat.evaluate [one, one] = .ok v ∧ v.Homogeneous) ∧
    (∃ v, Domain.list.call typeOf "append" [one, .int 2] = .ok v ∧ v.Homogeneous) ∧
    (∃ v, Domain.list.call typeOf "of" [.int 1, .string "x"] = .ok v ∧
      v.elementTy? = some .int ∧ ¬ v.Homogeneous) ∧
    ∃ task : Task,
      sumSetting.Takes [] (sumSetting.plan (.expr twoNumbers rootScope)) (.initial entryTask 1)
        [.int 1, .int 2] task ∧
      task.control = .done (.value (.list .int [.int 1, .int 2])) ∧
      (Value.list .int [.int 1, .int 2]).Homogeneous := by
  intro typeOf one
  obtain ⟨operators, domains, inferred, expressions⟩ := homogeneous_kept sumSetting typeOf
  have number (n : Int64) : (Value.int n).Homogeneous := .itemless rfl
  have word : (Value.string "x").Homogeneous := .itemless rfl
  have held : one.Homogeneous :=
    (Homogeneous.collection_iff rfl rfl).mpr (by simp [number, conformsTo])
  refine ⟨⟨_, rfl, operators .concat [one, one] (by simp [held]) _ rfl⟩, ?_, ?_, ?_⟩
  · exact ⟨_, rfl, domains .list (by simp) "append" (by decide) [one, .int 2]
      (by simp [held, number]) _ rfl⟩
  · obtain ⟨l, -, answers, exact, -⟩ :=
      inferred [.int 1, .string "x"] (by simp [number, word])
    cases answers
    refine ⟨_, rfl, rfl, fun all => ?_⟩
    have conforms := exact.mp all (.string "x") (by simp)
    cases conforms
  · let alone : Shared Unit := ⟨.empty, 0, ()⟩
    have first : sumSetting.Takes [] (sumSetting.plan (.expr twoNumbers rootScope))
        (.initial entryTask 1) [.int 1] _ :=
      .evaluated .start (.step alone .start nofun rfl)
    have second : sumSetting.Takes [] (sumSetting.plan (.expr twoNumbers rootScope))
        (.initial entryTask 1) [.int 1, .int 2] _ :=
      .evaluated first (.step alone .start nofun rfl)
    rcases expressions [] .int _ rootScope _ _ _ second rfl (by simp [number]) with done | failed
    · exact ⟨_, second, done⟩
    · obtain ⟨-, fault, fails⟩ := failed
      cases fails

end Value
end LayeredIR
