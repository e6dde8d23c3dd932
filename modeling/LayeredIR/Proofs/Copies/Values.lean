import LayeredIR.Proofs.Layers
import LayeredIR.Proofs.Lookups
import LayeredIR.Proofs.Resemblance.Operations

/-! Closures that share the scope they were made in, beside closures that took a copy of it along.
Of two such closures, the names that code may read look up the same in the scope and in the copy, up
to closures in turn. -/
namespace LayeredIR

def Expr.ReadsOnly (reads : String → Prop) (expr : Expr) : Prop :=
  (∀ name, expr = .var name → reads name) ∧ ∀ name, Arg.id name ∈ expr.operands → reads name

structure Arg.Confined (layer : Layer) (reads : String → Prop) (arg : Arg) : Prop where
  fits : arg.Every (Expr.Fits layer)
  inner : arg.Every (Expr.ReadsOnly reads)
  self : ∀ name, arg = .id name → reads name

namespace Arg.Confined

variable {layer : Layer} {reads : String → Prop}

theorem operand {expr : Expr} (confined : (Arg.inline expr).Confined layer reads) {arg : Arg}
    (member : arg ∈ expr.operands) : arg.Confined layer reads where
  fits := Expr.Every.operand confined.fits arg member
  inner := Expr.Every.operand confined.inner arg member
  self name same := (Expr.Every.here confined.inner).2 name (same ▸ member)

theorem var {name : String} (confined : (Arg.inline (.var name)).Confined layer reads) :
    reads name :=
  (Expr.Every.here confined.inner).1 name rfl

end Arg.Confined

def Closure.Independent (code : Arg → Prop) (c : Closure) : Prop :=
  code c.body ∧ ∃ entries, c.captured = .frozen entries

section Copied

variable (heap : Heap) (n : Nat) (reads : String → Prop) (code : Arg → Prop)

inductive Value.Copied : Value → Value → Prop
  | leaf {v} (leaf : v.isLeaf) : Copied v v
  | future (id) : Copied (.future id) (.future id)
  | list {of vs vs'} (lengths : vs.length = vs'.length)
    (items : ∀ v v', (v, v') ∈ vs.zip vs' → Copied v v') : Copied (.list of vs) (.list of vs')
  | set {of vs vs'} (lengths : vs.length = vs'.length)
    (items : ∀ v v', (v, v') ∈ vs.zip vs' → Copied v v') : Copied (.set of vs) (.set of vs')
  | independent {c} (all : (Value.closure c).Closures (Closure.Independent code)) :
    Copied (.closure c) (.closure c)
  | copied {id params body a entries isFix} (allowed : code body) (older : a < n)
    (bound : ∀ name, reads name →
      ((heap.lookup a name).isSome ↔ (entries.lookup name).isSome))
    (values : ∀ name v v', reads name → heap.lookup a name = some v →
      entries.lookup name = some v' → Copied v v') :
    Copied (.closure ⟨id, params, body, .shared a, isFix⟩)
      (.closure ⟨id, params, body, .frozen entries, isFix⟩)

inductive Captured.Copied : Captured → Captured → Prop
  | independent {entries : List (String × Value)}
    (all : ∀ entry ∈ entries, entry.2.Closures (Closure.Independent code)) :
    Copied (.frozen entries) (.frozen entries)
  | copied {a entries} (older : a < n)
    (lookups : ∀ name, reads name → Option.Rel (Value.Copied heap n reads code)
      (heap.lookup a name) (entries.lookup name)) : Copied (.shared a) (.frozen entries)

end Copied

theorem optionRel_iff {α β : Type} {R : α → β → Prop} {a : Option α} {b : Option β} :
    Option.Rel R a b ↔
      (a.isSome ↔ b.isSome) ∧ ∀ v v', a = some v → b = some v' → R v v' := by
  constructor
  · intro same
    cases same with
    | none => exact ⟨Iff.rfl, fun _ _ => nofun⟩
    | some related =>
      refine ⟨iff_of_true rfl rfl, ?_⟩
      rintro _ _ ⟨⟩ ⟨⟩
      exact related
  · rintro ⟨bound, values⟩
    match a, b with
    | none, none => exact .none
    | none, some _ => exact absurd (bound.mpr rfl) nofun
    | some _, none => exact absurd (bound.mp rfl) nofun
    | some v, some v' => exact .some (values v v' rfl rfl)

variable {heap heap' : Heap} {n n' : Nat} {reads : String → Prop} {code : Arg → Prop}

namespace Value.Copied

theorem of_list {of : Ty} {vs vs' : List Value}
    (items : List.Forall₂ (Value.Copied heap n reads code) vs vs') :
    Value.Copied heap n reads code (.list of vs) (.list of vs') := by
  obtain ⟨lengths, same⟩ := List.forall₂_iff_zip.mp items
  exact .list lengths fun _ _ member => same member

theorem of_set {of : Ty} {vs vs' : List Value}
    (items : List.Forall₂ (Value.Copied heap n reads code) vs vs') :
    Value.Copied heap n reads code (.set of vs) (.set of vs') := by
  obtain ⟨lengths, same⟩ := List.forall₂_iff_zip.mp items
  exact .set lengths fun _ _ member => same member

theorem items {v v' : Value} (copied : Value.Copied heap n reads code v v') :
    Option.Rel (List.Forall₂ (Value.Copied heap n reads code)) v.items? v'.items? := by
  cases copied with
  | list lengths same | set lengths same =>
    exact .some (List.forall₂_iff_zip.mpr ⟨lengths, fun member => same _ _ member⟩)
  | @leaf v leaf =>
    cases v with
    | list _ _ | set _ _ => cases leaf
    | _ => exact .none
  | _ => exact .none

theorem closure {id : Identity} {params : List String} {body : Arg} {isFix : Bool}
    {c c' : Captured} (allowed : code body) (captured : Captured.Copied heap n reads code c c') :
    Value.Copied heap n reads code (.closure ⟨id, params, body, c, isFix⟩)
      (.closure ⟨id, params, body, c', isFix⟩) := by
  cases captured with
  | @independent entries all =>
    refine .independent (Closures.closure ⟨allowed, entries, rfl⟩ fun _ same => ?_)
    cases same
    exact all
  | copied older lookups =>
    exact .copied allowed older (fun name may => (optionRel_iff.mp (lookups name may)).1)
      fun name v v' may => (optionRel_iff.mp (lookups name may)).2 v v'

theorem parts {c c' : Closure}
    (copied : Value.Copied heap n reads code (.closure c) (.closure c')) :
    c.params = c'.params ∧ c.body = c'.body ∧ c.isFix = c'.isFix ∧ c.id = c'.id ∧
      Captured.Copied heap n reads code c.captured c'.captured ∧ code c.body := by
  cases copied with
  | leaf leaf => cases leaf
  | independent all =>
    obtain ⟨allowed, entries, kept⟩ := all.self c rfl
    refine ⟨rfl, rfl, rfl, rfl, ?_, allowed⟩
    rw [kept]
    exact .independent (all.captured kept)
  | copied allowed older bound values =>
    exact ⟨rfl, rfl, rfl, rfl, .copied older fun name may =>
      optionRel_iff.mpr ⟨bound name may, fun v v' => values name v v' may⟩, allowed⟩

/-- A copy of a closure that shares a scope: it has the same parameters and body, and the names that
code may read look up in what it took along as they do in the scope. -/
theorem of_shared {c : Closure} {v : Value} {a : ScopeId}
    (copied : Value.Copied heap n reads code (.closure c) v) (shares : c.captured = .shared a) :
    ∃ c' entries, v = .closure c' ∧ c.params = c'.params ∧ c.body = c'.body ∧ c.isFix = c'.isFix ∧
      c'.captured = .frozen entries ∧ ∀ name, reads name →
        Option.Rel (Value.Copied heap n reads code) (heap.lookup a name) (entries.lookup name) := by
  cases copied with
  | leaf leaf => cases leaf
  | independent all =>
    obtain ⟨-, entries, kept⟩ := all.self c rfl
    cases shares.symm.trans kept
  | @copied _ _ _ _ entries _ _ _ bound values =>
    cases shares
    exact ⟨_, entries, rfl, rfl, rfl, rfl, rfl, fun name may =>
      optionRel_iff.mpr ⟨bound name may, fun v v' => values name v v' may⟩⟩

theorem eq_of_isLeaf {v v' : Value} (copied : Value.Copied heap n reads code v v')
    (leaf : v.isLeaf) : v' = v := by
  cases copied <;> first | rfl | cases leaf

theorem outline_eq {v v' : Value} (copied : Value.Copied heap n reads code v v') :
    v.outline = v'.outline := by
  cases copied <;> rfl

theorem typeOf_eq (futures : Futures) {v v' : Value}
    (copied : Value.Copied heap n reads code v v') : futures.typeOf v = futures.typeOf v' := by
  cases copied <;> rfl

/-- Values stay copies of each other while names look up in the first scopes as before. -/
theorem mono (le : n ≤ n') (same : ∀ a < n, ∀ name, heap'.lookup a name = heap.lookup a name)
    {v v' : Value} (copied : Value.Copied heap n reads code v v') :
    Value.Copied heap' n' reads code v v' := by
  induction copied with
  | leaf leaf => exact .leaf leaf
  | future id => exact .future id
  | list lengths _ ih => exact .list lengths ih
  | set lengths _ ih => exact .set lengths ih
  | independent all => exact .independent all
  | copied allowed older bound _ ih =>
    refine .copied allowed (Nat.lt_of_lt_of_le older le) (fun name may => ?_)
      fun name v v' may found found' => ?_
    · rw [same _ older]
      exact bound name may
    · rw [same _ older] at found
      exact ih name v v' may found found'

mutual

theorem of_independent (v : Value) (all : v.Closures (Closure.Independent code)) :
    Value.Copied heap n reads code v v := by
  cases v with
  | list of items => exact of_list (of_independents items (All.items all rfl))
  | set of items => exact of_set (of_independents items (All.items all rfl))
  | closure c => exact .independent all
  | future id => exact .future id
  | _ => exact .leaf rfl

theorem of_independents (items : List Value)
    (all : ∀ item ∈ items, item.Closures (Closure.Independent code)) :
    List.Forall₂ (Value.Copied heap n reads code) items items := by
  cases items with
  | nil => exact .nil
  | cons item rest =>
    exact .cons (of_independent item (all item (.head _)))
      (of_independents rest fun other member => all other (.tail _ member))

end

end Value.Copied

theorem Captured.Copied.mono (le : n ≤ n')
    (same : ∀ a < n, ∀ name, heap'.lookup a name = heap.lookup a name) {c c' : Captured}
    (copied : Captured.Copied heap n reads code c c') :
    Captured.Copied heap' n' reads code c c' := by
  cases copied with
  | independent all => exact .independent all
  | copied older lookups =>
    refine .copied (Nat.lt_of_lt_of_le older le) fun name may => ?_
    rw [same _ older]
    exact rel_imp (fun _ _ => .mono le same) (lookups name may)

namespace Resemblance

def copies {κ : Type} (heap : κ → Heap) (n : κ → Nat) (reads : String → Prop)
    (code : Arg → Prop) : Resemblance κ where
  value w := Value.Copied (heap w) (n w) reads code
  outline_eq copied := copied.outline_eq
  value_literal _ l := .of_independent _ (.literal l)
  value_list items := .of_list items
  value_set items := .of_set items
  value_items copied := copied.items

theorem copies_comparable {κ : Type} {heap : κ → Heap} {n : κ → Nat} :
    (copies heap n reads code).Comparable := by
  refine Distinguishes.comparable ⟨fun first second => ?_, fun first second => ?_⟩
  · rw [first.parts.2.2.2.1, second.parts.2.2.2.1]
  · cases first <;> cases second <;> rfl

end Resemblance
end LayeredIR
