import LayeredIR.Setting
import Mathlib.Data.List.Forall2

/-! The parts of values. Closures and futures are references: what an operation answers holds none
that it was not given. -/
namespace LayeredIR
namespace Value

inductive Inside (part : Value) : Value → Prop
  | here : Inside part part
  | list {of items item} (member : item ∈ items) (deeper : Inside part item) :
    Inside part (.list of items)
  | set {of items item} (member : item ∈ items) (deeper : Inside part item) :
    Inside part (.set of items)
  | captured {c entries entry} (copied : c.captured = .frozen entries) (member : entry ∈ entries)
    (deeper : Inside part entry.2) : Inside part (.closure c)

theorem Inside.trans {a b c : Value} (inner : a.Inside b) (outer : b.Inside c) : a.Inside c := by
  induction outer with
  | here => exact inner
  | list member _ ih => exact .list member ih
  | set member _ ih => exact .set member ih
  | captured copied member _ ih => exact .captured copied member ih

def isReference : Value → Bool
  | .closure _ | .future _ => true
  | _ => false

def All (P : Value → Prop) (v : Value) : Prop := ∀ part, Inside part v → P part

section All

variable {P Q : Value → Prop}

theorem All.mono (more : ∀ v, P v → Q v) {v : Value} (all : v.All P) : v.All Q :=
  fun part inside => more part (all part inside)

theorem All.self {v : Value} (all : v.All P) : P v := all v .here

theorem all_list {of : Ty} {items : List Value} (self : P (.list of items))
    (all : ∀ item ∈ items, item.All P) : (Value.list of items).All P := by
  intro part inside
  cases inside with
  | here => exact self
  | list member deeper => exact all _ member part deeper

theorem all_set {of : Ty} {items : List Value} (self : P (.set of items))
    (all : ∀ item ∈ items, item.All P) : (Value.set of items).All P := by
  intro part inside
  cases inside with
  | here => exact self
  | set member deeper => exact all _ member part deeper

theorem all_future {id : Identity} (self : P (.future id)) : (Value.future id).All P := by
  intro part inside
  cases inside
  exact self

theorem all_closure {c : Closure} (self : P (.closure c))
    (all : ∀ entries, c.captured = .frozen entries → ∀ entry ∈ entries, entry.2.All P) :
    (Value.closure c).All P := by
  intro part inside
  cases inside with
  | here => exact self
  | captured copied member deeper => exact all _ copied _ member part deeper

theorem All.items {v : Value} (all : v.All P) {items : List Value} (held : v.items? = some items) :
    ∀ item ∈ items, item.All P := by
  intro item member part inside
  cases v with
  | list of _ =>
    cases held
    exact all part (.list member inside)
  | set of _ =>
    cases held
    exact all part (.set member inside)
  | _ => cases held

theorem All.captured {c : Closure} (all : (Value.closure c).All P)
    {entries : List (String × Value)} (copied : c.captured = .frozen entries) :
    ∀ entry ∈ entries, entry.2.All P :=
  fun _ member part inside => all part (.captured copied member inside)

end All

theorem mem_addElement {kept : List Value} {item v : Value} (member : v ∈ addElement kept item) :
    v ∈ kept ∨ v = item := by
  unfold addElement at member
  split at member
  · exact .inl member
  · exact (List.mem_append.mp member).imp_right List.mem_singleton.mp

theorem mem_distinct {items : List Value} {v : Value} (member : v ∈ distinct items) :
    v ∈ items := by
  have kept (seen : List Value) (held : v ∈ items.foldl addElement seen) :
      v ∈ seen ∨ v ∈ items := by
    clear member
    induction items generalizing seen with
    | nil => exact .inl held
    | cons item rest ih =>
      rcases ih (addElement seen item) held with early | late
      · exact (mem_addElement early).imp_right fun same => List.mem_cons.mpr (.inl same)
      · exact .inr (List.mem_cons_of_mem item late)
  exact (kept [] member).resolve_left List.not_mem_nil

mutual

theorem ofLiteral_plain (l : Literal) : (ofLiteral l).All fun part => part.isReference = false := by
  cases l with
  | list of items => exact all_list rfl (ofLiterals_plain items)
  | set of items =>
    exact all_set rfl fun item member => ofLiterals_plain items item (mem_distinct member)
  | _ =>
    intro part inside
    cases inside
    rfl

theorem ofLiterals_plain (items : List Literal) :
    ∀ v ∈ ofLiterals items, v.All fun part => part.isReference = false := by
  cases items with
  | nil => exact fun _ member => absurd member List.not_mem_nil
  | cons item rest =>
    intro v member
    rcases List.mem_cons.mp member with rfl | member
    · exact ofLiteral_plain item
    · exact ofLiterals_plain rest v member

end

def From (args : List Value) (v : Value) : Prop :=
  v.All fun part => part.isReference → ∃ arg ∈ args, part.Inside arg

end Value

/-- The answers of an operation hold no references but those of its operands. -/
def Domain.Conserves (domain : Domain) : Prop :=
  ∀ typeOf op args v, domain.call typeOf op args = .ok v → v.From args

def Handler.Conserves {σ : Type} (handler : Handler σ) : Prop :=
  ∀ futures args host v, (handler futures args host).1 = .ok v → v.From args

structure Setting.Conserves {σ : Type} (s : Setting σ) : Prop where
  domains : ∀ name domain, s.domains.find? name = some domain → domain.Conserves
  handlers : ∀ name handler, s.handler? name = some handler → handler.Conserves

end LayeredIR
