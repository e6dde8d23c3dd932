import LayeredIR.Proofs.Resemblance.Operations
import LayeredIR.Proofs.Value.Alike

/-! Values that differ in the code of their closures only. Which code stands for which is left
open. -/
namespace LayeredIR

section Recoded

variable (code : Arg → Arg → Prop)

inductive Value.Recoded : Value → Value → Prop
  | leaf {v} (leaf : v.isLeaf) : Recoded v v
  | future (id) : Recoded (.future id) (.future id)
  | list {of vs vs'} (lengths : vs.length = vs'.length)
    (items : ∀ v v', (v, v') ∈ vs.zip vs' → Recoded v v') : Recoded (.list of vs) (.list of vs')
  | set {of vs vs'} (lengths : vs.length = vs'.length)
    (items : ∀ v v', (v, v') ∈ vs.zip vs' → Recoded v v') : Recoded (.set of vs) (.set of vs')
  | shared {id params body body' a isFix} (codes : code body body') :
    Recoded (.closure ⟨id, params, body, .shared a, isFix⟩)
      (.closure ⟨id, params, body', .shared a, isFix⟩)
  | frozen {id params body body' entries entries' isFix} (codes : code body body')
    (names : entries.map Prod.fst = entries'.map Prod.fst)
    (values : ∀ entry entry', (entry, entry') ∈ entries.zip entries' →
      Recoded entry.2 entry'.2) :
    Recoded (.closure ⟨id, params, body, .frozen entries, isFix⟩)
      (.closure ⟨id, params, body', .frozen entries', isFix⟩)

inductive Captured.Recoded : Captured → Captured → Prop
  | shared (a) : Recoded (.shared a) (.shared a)
  | frozen {entries entries'}
    (same : List.Forall₂ (fun entry entry' => entry.1 = entry'.1 ∧
      Value.Recoded code entry.2 entry'.2) entries entries') :
    Recoded (.frozen entries) (.frozen entries')

structure Closure.Recoded (c c' : Closure) : Prop where
  id : c.id = c'.id
  params : c.params = c'.params
  isFix : c.isFix = c'.isFix
  codes : code c.body c'.body
  captured : Captured.Recoded code c.captured c'.captured

end Recoded

variable {code : Arg → Arg → Prop}

theorem Closure.Recoded.value {c c' : Closure} (closures : c.Recoded code c') :
    Value.Recoded code (.closure c) (.closure c') := by
  obtain ⟨id, params, body, captured, isFix⟩ := c
  obtain ⟨id', params', body', captured', isFix'⟩ := c'
  obtain ⟨rfl, rfl, rfl, codes, captures⟩ := closures
  cases captures with
  | shared a => exact .shared codes
  | frozen same =>
    obtain ⟨names, values⟩ := forall₂_entries_iff.mp same
    exact .frozen codes names values

namespace Value.Recoded

theorem of_list {of : Ty} {vs vs' : List Value}
    (items : List.Forall₂ (Value.Recoded code) vs vs') :
    Value.Recoded code (.list of vs) (.list of vs') := by
  obtain ⟨lengths, same⟩ := List.forall₂_iff_zip.mp items
  exact .list lengths fun _ _ member => same member

theorem of_set {of : Ty} {vs vs' : List Value}
    (items : List.Forall₂ (Value.Recoded code) vs vs') :
    Value.Recoded code (.set of vs) (.set of vs') := by
  obtain ⟨lengths, same⟩ := List.forall₂_iff_zip.mp items
  exact .set lengths fun _ _ member => same member

theorem closure {c c' : Closure} (values : Value.Recoded code (.closure c) (.closure c')) :
    c.Recoded code c' := by
  cases values with
  | leaf leaf => cases leaf
  | shared codes => exact ⟨rfl, rfl, rfl, codes, .shared _⟩
  | frozen codes names values =>
    exact ⟨rfl, rfl, rfl, codes, .frozen (forall₂_entries_iff.mpr ⟨names, values⟩)⟩

theorem future_eq {id id' : Identity} (values : Value.Recoded code (.future id) (.future id')) :
    id = id' := by
  cases values <;> rfl

theorem outline_eq {v v' : Value} (values : Value.Recoded code v v') : v.outline = v'.outline := by
  cases values <;> rfl

theorem items {v v' : Value} (values : Value.Recoded code v v') :
    Option.Rel (List.Forall₂ (Value.Recoded code)) v.items? v'.items? := by
  cases values with
  | list lengths same | set lengths same =>
    exact .some (List.forall₂_iff_zip.mpr ⟨lengths, fun member => same _ _ member⟩)
  | @leaf v leaf =>
    cases v with
    | list _ _ | set _ _ => cases leaf
    | _ => exact .none
  | _ => exact .none

mutual

theorem refl (same : ∀ arg, code arg arg) (v : Value) : Value.Recoded code v v := by
  match v with
  | .list of items => exact of_list (refls same items)
  | .set of items => exact of_set (refls same items)
  | .closure ⟨_, _, body, .shared _, _⟩ => exact .shared (same body)
  | .closure ⟨_, _, body, .frozen entries, _⟩ =>
    have captured : Captured.Recoded code (.frozen entries) (.frozen entries) :=
      .frozen (entries_refl same entries)
    exact Closure.Recoded.value ⟨rfl, rfl, rfl, same body, captured⟩
  | .future id => exact .future id
  | .int _ | .float _ | .bool _ | .string _ | .void | .error _ => exact .leaf rfl

theorem refls (same : ∀ arg, code arg arg) (vs : List Value) :
    List.Forall₂ (Value.Recoded code) vs vs := by
  match vs with
  | [] => exact .nil
  | v :: rest => exact .cons (refl same v) (refls same rest)

theorem entries_refl (same : ∀ arg, code arg arg) (entries : List (String × Value)) :
    List.Forall₂ (fun entry entry' => entry.1 = entry'.1 ∧ Value.Recoded code entry.2 entry'.2)
      entries entries := by
  match entries with
  | [] => exact .nil
  | (_, v) :: rest => exact .cons ⟨rfl, refl same v⟩ (entries_refl same rest)

end

end Value.Recoded

def Resemblance.recoded (same : ∀ arg, code arg arg) : Resemblance Unit where
  value _ := Value.Recoded code
  outline_eq values := values.outline_eq
  value_literal _ _ := .refl same _
  value_list items := .of_list items
  value_set items := .of_set items
  value_items values := values.items

/-- Closures are compared by identity, so no comparison reads their code. -/
theorem Resemblance.recoded_distinguishes (same : ∀ arg, code arg arg) :
    (Resemblance.recoded same).Distinguishes where
  closure values others := by rw [values.closure.id, others.closure.id]
  future values others := by rw [values.future_eq, others.future_eq]

end LayeredIR
