import LayeredIR.Value.Equality
import Mathlib.Data.List.Forall2

/-! Values of two runs that resemble each other: of one kind, with the same leaves, and with items
that resemble each other in turn. What becomes of closures and futures is left open. -/
namespace LayeredIR

def Value.outline : Value → Value
  | .list of _ => .list of []
  | .set of _ => .set of []
  | .closure _ => .closure ⟨[], [], .id "", .frozen [], false⟩
  | .future _ => .future []
  | v => v

def Value.isLeaf : Value → Bool
  | .list _ _ | .set _ _ | .closure _ | .future _ => false
  | _ => true

namespace Value

theorem kind_outline (v : Value) : v.outline.kind = v.kind := by cases v <;> rfl

theorem asError?_outline (v : Value) : v.outline.asError? = v.asError? := by cases v <;> rfl

theorem conformsTo_outline (v : Value) (ty : Ty) : v.outline.conformsTo ty = v.conformsTo ty := by
  cases v <;> cases ty <;> rfl

end Value

structure Resemblance (κ : Type) where
  value : κ → Value → Value → Prop
  outline_eq : ∀ {w v v'}, value w v v' → v.outline = v'.outline
  value_literal : ∀ w l, value w (.ofLiteral l) (.ofLiteral l)
  value_list : ∀ {w of vs vs'}, List.Forall₂ (value w) vs vs' →
    value w (.list of vs) (.list of vs')
  value_set : ∀ {w of vs vs'}, List.Forall₂ (value w) vs vs' →
    value w (.set of vs) (.set of vs')
  value_items : ∀ {w v v'}, value w v v' →
    Option.Rel (List.Forall₂ (value w)) v.items? v'.items?

def ResultsAlike {ε ε' α α' : Type} (failure : ε → ε' → Prop) (success : α → α' → Prop) :
    Except ε α → Except ε' α' → Prop
  | .ok a, .ok a' => success a a'
  | .error e, .error e' => failure e e'
  | _, _ => False

theorem ResultsAlike.imp {ε ε' α α' : Type} {failure failure' : ε → ε' → Prop}
    {success : α → α' → Prop} {x : Except ε α} {x' : Except ε' α'}
    (results : ResultsAlike failure success x x') (weaker : ∀ e e', failure e e' → failure' e e') :
    ResultsAlike failure' success x x' := by
  match x, x', results with
  | .ok _, .ok _, related => exact related
  | .error e, .error e', related => exact weaker e e' related

theorem ResultsAlike.refl {ε α : Type} {success : α → α → Prop} (same : ∀ a, success a a)
    (x : Except ε α) : ResultsAlike Eq success x x := by
  cases x with
  | ok a => exact same a
  | error e => exact rfl

theorem ResultsAlike.of_eq {ε α : Type} {x y : Except ε α} (same : x = y) :
    ResultsAlike Eq Eq x y := same ▸ .refl (fun _ => rfl) x

namespace Resemblance

variable {κ : Type} (R : Resemblance κ) {w : κ}

def along {κ' : Type} (stage : κ' → κ) : Resemblance κ' where
  value w := R.value (stage w)
  outline_eq same := R.outline_eq same
  value_literal w l := R.value_literal (stage w) l
  value_list items := R.value_list items
  value_set items := R.value_set items
  value_items same := R.value_items same

theorem kind_eq {v v' : Value} (values : R.value w v v') : v.kind = v'.kind := by
  rw [← v.kind_outline, R.outline_eq values, v'.kind_outline]

theorem asError?_eq {v v' : Value} (values : R.value w v v') : v.asError? = v'.asError? := by
  rw [← v.asError?_outline, R.outline_eq values, v'.asError?_outline]

theorem conformsTo_eq {v v' : Value} (values : R.value w v v') (ty : Ty) :
    v.conformsTo ty = v'.conformsTo ty := by
  rw [← v.conformsTo_outline, R.outline_eq values, v'.conformsTo_outline]

end Resemblance
end LayeredIR
