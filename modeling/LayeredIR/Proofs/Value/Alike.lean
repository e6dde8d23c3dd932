import LayeredIR.Proofs.Resemblance
import LayeredIR.Proofs.Value.Parts

/-! Values that differ in the identities and the scopes of their closures only. Which identities and
which scopes stand for each other is left open, and so is what is asked of the bodies. -/
namespace LayeredIR

section Alike

variable (identity : Identity → Identity → Prop) (scope : ScopeId → ScopeId → Prop)
  (code : Arg → Prop)

inductive Value.Alike : Value → Value → Prop
  | leaf {v} (leaf : v.isLeaf) : Alike v v
  | future (id) : Alike (.future id) (.future id)
  | list {of vs vs'} (lengths : vs.length = vs'.length)
    (items : ∀ v v', (v, v') ∈ vs.zip vs' → Alike v v') : Alike (.list of vs) (.list of vs')
  | set {of vs vs'} (lengths : vs.length = vs'.length)
    (items : ∀ v v', (v, v') ∈ vs.zip vs' → Alike v v') : Alike (.set of vs) (.set of vs')
  | shared {id id' params body a b isFix} (ids : identity id id') (allowed : code body)
    (scopes : scope a b) :
    Alike (.closure ⟨id, params, body, .shared a, isFix⟩)
      (.closure ⟨id', params, body, .shared b, isFix⟩)
  | frozen {id id' params body entries entries' isFix} (ids : identity id id') (allowed : code body)
    (names : entries.map Prod.fst = entries'.map Prod.fst)
    (values : ∀ entry entry', (entry, entry') ∈ entries.zip entries' → Alike entry.2 entry'.2) :
    Alike (.closure ⟨id, params, body, .frozen entries, isFix⟩)
      (.closure ⟨id', params, body, .frozen entries', isFix⟩)

inductive Captured.Alike : Captured → Captured → Prop
  | shared {a b} (scopes : scope a b) : Alike (.shared a) (.shared b)
  | frozen {entries entries'}
    (same : List.Forall₂ (fun entry entry' => entry.1 = entry'.1 ∧
      Value.Alike identity scope code entry.2 entry'.2) entries entries') :
    Alike (.frozen entries) (.frozen entries')

end Alike

variable {identity identity' : Identity → Identity → Prop} {scope scope' : ScopeId → ScopeId → Prop}
  {code code' : Arg → Prop}

theorem forall₂_entries_iff {P : Value → Value → Prop} {entries entries' : List (String × Value)} :
    List.Forall₂ (fun entry entry' => entry.1 = entry'.1 ∧ P entry.2 entry'.2) entries entries' ↔
      entries.map Prod.fst = entries'.map Prod.fst ∧
        ∀ entry entry', (entry, entry') ∈ entries.zip entries' → P entry.2 entry'.2 := by
  rw [← List.forall₂_eq_eq_eq, List.forall₂_map_left_iff, List.forall₂_map_right_iff]
  simp only [List.forall₂_iff_zip]
  constructor
  · intro parts
    obtain ⟨lengths, same⟩ := parts
    exact ⟨⟨lengths, fun member => (same member).1⟩, fun _ _ member => (same member).2⟩
  · intro parts
    obtain ⟨⟨lengths, names⟩, values⟩ := parts
    exact ⟨lengths, fun member => ⟨names member, values _ _ member⟩⟩

namespace Value.Alike

theorem of_list {of : Ty} {vs vs' : List Value}
    (items : List.Forall₂ (Value.Alike identity scope code) vs vs') :
    Value.Alike identity scope code (.list of vs) (.list of vs') := by
  obtain ⟨lengths, same⟩ := List.forall₂_iff_zip.mp items
  exact .list lengths fun _ _ member => same member

theorem of_set {of : Ty} {vs vs' : List Value}
    (items : List.Forall₂ (Value.Alike identity scope code) vs vs') :
    Value.Alike identity scope code (.set of vs) (.set of vs') := by
  obtain ⟨lengths, same⟩ := List.forall₂_iff_zip.mp items
  exact .set lengths fun _ _ member => same member

theorem mono (ids : ∀ a b, identity a b → identity' a b) (scopes : ∀ a b, scope a b → scope' a b)
    (codes : ∀ arg, code arg → code' arg) {v v' : Value}
    (alike : Value.Alike identity scope code v v') : Value.Alike identity' scope' code' v v' := by
  induction alike with
  | leaf leaf => exact .leaf leaf
  | future id => exact .future id
  | list lengths _ ih => exact .list lengths ih
  | set lengths _ ih => exact .set lengths ih
  | shared same allowed within => exact .shared (ids _ _ same) (codes _ allowed) (scopes _ _ within)
  | frozen same allowed names _ ih => exact .frozen (ids _ _ same) (codes _ allowed) names ih

theorem outline_eq {v v' : Value} (alike : Value.Alike identity scope code v v') :
    v.outline = v'.outline := by
  cases alike <;> rfl

theorem items {v v' : Value} (alike : Value.Alike identity scope code v v') :
    Option.Rel (List.Forall₂ (Value.Alike identity scope code)) v.items? v'.items? := by
  cases alike with
  | list lengths same | set lengths same =>
    exact .some (List.forall₂_iff_zip.mpr ⟨lengths, fun member => same _ _ member⟩)
  | @leaf v leaf =>
    cases v with
    | list _ _ | set _ _ => cases leaf
    | _ => exact .none
  | _ => exact .none

theorem closure {id id' : Identity} {params : List String} {body : Arg} {c c' : Captured}
    {isFix : Bool} (ids : identity id id') (allowed : code body)
    (captured : Captured.Alike identity scope code c c') :
    Value.Alike identity scope code (.closure ⟨id, params, body, c, isFix⟩)
      (.closure ⟨id', params, body, c', isFix⟩) := by
  cases captured with
  | shared scopes => exact .shared ids allowed scopes
  | frozen same =>
    obtain ⟨names, values⟩ := forall₂_entries_iff.mp same
    exact .frozen ids allowed names values

theorem parts {c c' : Closure}
    (alike : Value.Alike identity scope code (.closure c) (.closure c')) :
    c.params = c'.params ∧ c.body = c'.body ∧ c.isFix = c'.isFix ∧ identity c.id c'.id ∧
      Captured.Alike identity scope code c.captured c'.captured ∧ code c.body := by
  cases alike with
  | leaf leaf => cases leaf
  | shared ids allowed scopes => exact ⟨rfl, rfl, rfl, ids, .shared scopes, allowed⟩
  | frozen ids allowed names values =>
    exact ⟨rfl, rfl, rfl, ids, .frozen (forall₂_entries_iff.mpr ⟨names, values⟩), allowed⟩

mutual

theorem ofLiteral (l : Literal) :
    Value.Alike identity scope code (.ofLiteral l) (.ofLiteral l) := by
  cases l with
  | list of items => exact of_list (ofLiterals items)
  | set of items =>
    refine of_set (List.forall₂_same.mpr fun v member => ?_)
    exact List.forall₂_same.mp (ofLiterals items) v (mem_distinct member)
  | _ => exact .leaf rfl

theorem ofLiterals (items : List Literal) :
    List.Forall₂ (Value.Alike identity scope code) (Value.ofLiterals items)
      (Value.ofLiterals items) := by
  cases items with
  | nil => exact .nil
  | cons item rest => exact .cons (ofLiteral item) (ofLiterals rest)

end

end Value.Alike

def Value.ClosureFree (v : Value) : Prop := v.All fun part => ∀ c, part ≠ .closure c

def Closure.Reflects (identity : Identity → Identity → Prop) (scope : ScopeId → ScopeId → Prop)
    (code : Arg → Prop) (c : Closure) : Prop :=
  identity c.id c.id ∧ code c.body ∧ ∀ a, c.captured = .shared a → scope a a

namespace Value.Alike

mutual

theorem self (v : Value)
    (all : v.All fun part => ∀ c, part = .closure c → c.Reflects identity scope code) :
    Value.Alike identity scope code v v := by
  match v with
  | .list of items => exact of_list (selves items (All.items all rfl))
  | .set of items => exact of_set (selves items (All.items all rfl))
  | .closure ⟨id, params, body, .shared a, isFix⟩ =>
    obtain ⟨ids, allowed, scopes⟩ := all.self _ rfl
    exact .shared ids allowed (scopes a rfl)
  | .closure ⟨id, params, body, .frozen entries, isFix⟩ =>
    obtain ⟨ids, allowed, -⟩ := all.self _ rfl
    exact closure ids allowed (.frozen (entries_self entries (All.captured all rfl)))
  | .future id => exact .future id
  | .int _ | .float _ | .bool _ | .string _ | .void | .error _ => exact .leaf rfl

theorem selves (items : List Value) (all : ∀ item ∈ items,
      item.All fun part => ∀ c, part = .closure c → c.Reflects identity scope code) :
    List.Forall₂ (Value.Alike identity scope code) items items := by
  match items with
  | [] => exact .nil
  | item :: rest =>
    exact .cons (self item (all item (.head _)))
      (selves rest fun other member => all other (.tail _ member))

theorem entries_self (entries : List (String × Value)) (all : ∀ entry ∈ entries,
      entry.2.All fun part => ∀ c, part = .closure c → c.Reflects identity scope code) :
    List.Forall₂ (fun entry entry' => entry.1 = entry'.1 ∧
      Value.Alike identity scope code entry.2 entry'.2) entries entries := by
  match entries with
  | [] => exact .nil
  | (name, v) :: rest =>
    exact .cons ⟨rfl, self v (all (name, v) (.head _))⟩
      (entries_self rest fun other member => all other (.tail _ member))

end

theorem of_closureFree (v : Value) (free : v.ClosureFree) :
    Value.Alike identity scope code v v :=
  self v (free.mono fun _ none c same => absurd same (none c))

theorem eq_of_closureFree {v v' : Value} (alike : Value.Alike identity scope code v v')
    (free : v.ClosureFree) : v = v' := by
  induction alike with
  | leaf | future => rfl
  | list lengths _ ih | set lengths _ ih =>
    have items := List.forall₂_iff_zip.mpr ⟨lengths, fun member =>
      ih _ _ member (All.items free rfl _ (List.of_mem_zip member).1)⟩
    rw [List.forall₂_eq_eq_eq] at items
    rw [items]
  | shared | frozen => exact absurd rfl (free.self _)

theorem typeOf_eq (futures : Futures) {v v' : Value}
    (alike : Value.Alike identity scope code v v') : futures.typeOf v = futures.typeOf v' := by
  cases alike <;> rfl

end Value.Alike

def OneToOne {α β : Type} (related : α → β → Prop) : Prop :=
  ∀ a b a' b', related a b → related a' b' → (a = a' ↔ b = b')

theorem Captured.Alike.mono (ids : ∀ a b, identity a b → identity' a b)
    (scopes : ∀ a b, scope a b → scope' a b) (codes : ∀ arg, code arg → code' arg)
    {c c' : Captured} (alike : Captured.Alike identity scope code c c') :
    Captured.Alike identity' scope' code' c c' := by
  cases alike with
  | shared within => exact .shared (scopes _ _ within)
  | frozen same =>
    exact .frozen (same.imp fun _ _ entry => ⟨entry.1, entry.2.mono ids scopes codes⟩)

def Resemblance.same (κ : Type) : Resemblance κ where
  value _ := Eq
  outline_eq same := congrArg Value.outline same
  value_literal _ _ := rfl
  value_list items := by
    rw [List.forall₂_eq_eq_eq] at items
    rw [items]
  value_set items := by
    rw [List.forall₂_eq_eq_eq] at items
    rw [items]
  value_items := by
    intro w v _ equal
    cases equal
    cases v.items? with
    | none => exact .none
    | some items => exact .some (List.forall₂_same.mpr fun _ _ => rfl)

def Resemblance.upTo {κ : Type} (identity : κ → Identity → Identity → Prop)
    (scope : κ → ScopeId → ScopeId → Prop) (code : Arg → Prop) : Resemblance κ where
  value w := Value.Alike (identity w) (scope w) code
  outline_eq same := same.outline_eq
  value_literal _ l := .ofLiteral l
  value_list items := .of_list items
  value_set items := .of_set items
  value_items same := same.items

end LayeredIR
