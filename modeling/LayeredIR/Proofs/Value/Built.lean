import LayeredIR.Proofs.Value.Hereditary

/-! What operations build their answers of. A set is put together by the function that drops the
later of two items that are the same element. Where the sets in what is given hold each element
once, those in what is built do. -/
namespace LayeredIR
namespace Value

inductive BuiltFrom (given : Value → Prop) : Value → Prop
  | given {v} (held : given v) : BuiltFrom given v
  | part {v part} (built : BuiltFrom given v) (inside : part.Inside v) : BuiltFrom given part
  | flat {v} (plain : v.isFlat) : BuiltFrom given v
  | error (e) : BuiltFrom given (.error e)
  | list (of) {items} (built : ∀ item ∈ items, BuiltFrom given item) :
    BuiltFrom given (.list of items)
  | setOf (of) {items} (built : ∀ item ∈ items, BuiltFrom given item) :
    BuiltFrom given (setOf of items)
  | closure {c : Closure} (built : ∀ entries, c.captured = .frozen entries →
      ∀ entry ∈ entries, BuiltFrom given entry.2) : BuiltFrom given (.closure c)

namespace BuiltFrom

variable {given given' : Value → Prop}

theorem trans {v : Value} (built : v.BuiltFrom given) (made : ∀ u, given u → u.BuiltFrom given') :
    v.BuiltFrom given' := by
  induction built with
  | given held => exact made _ held
  | part _ inside ih => exact ih.part inside
  | flat plain => exact .flat plain
  | error e => exact .error e
  | list of _ ih => exact .list of ih
  | setOf of _ ih => exact .setOf of ih
  | closure _ ih => exact .closure ih

theorem item {v : Value} (built : v.BuiltFrom given) {items : List Value}
    (held : v.items? = some items) {item : Value} (member : item ∈ items) :
    item.BuiltFrom given := by
  cases v with
  | list of _ =>
    cases held
    exact built.part (.list member .here)
  | set of _ =>
    cases held
    exact built.part (.set member .here)
  | _ => cases held

theorem setsDistinct {v : Value} (built : v.BuiltFrom given)
    (all : ∀ u, given u → u.SetsDistinct) : v.SetsDistinct := by
  induction built with
  | given held => exact all _ held
  | part _ inside ih => exact fun deeper within => ih deeper (within.trans inside)
  | flat plain => exact .flat plain
  | error e => exact .error e
  | list of _ ih => exact .list ih
  | setOf of _ ih => exact .setOf of ih
  | closure _ ih => exact .closure ih

end BuiltFrom

mutual

theorem ofLiteral_built (given : Value → Prop) (l : Literal) :
    (ofLiteral l).BuiltFrom given := by
  cases l with
  | list of items => exact .list of (ofLiterals_built given items)
  | set of items => exact .setOf of (ofLiterals_built given items)
  | error code message => exact .error _
  | _ => exact .flat rfl

theorem ofLiterals_built (given : Value → Prop) (items : List Literal) :
    ∀ v ∈ ofLiterals items, v.BuiltFrom given := by
  cases items with
  | nil => exact fun _ member => absurd member List.not_mem_nil
  | cons item rest =>
    intro v member
    rcases List.mem_cons.mp member with rfl | member
    · exact ofLiteral_built given item
    · exact ofLiterals_built given rest v member

end

theorem SetsDistinct.ofLiteral (l : Literal) : (Value.ofLiteral l).SetsDistinct :=
  (ofLiteral_built (fun _ => False) l).setsDistinct fun _ none => none.elim

theorem SetsApart.ofLiteral (l : Literal) : (Value.ofLiteral l).SetsApart sameElement :=
  (SetsDistinct.ofLiteral l).setsApart

end Value

def Builds {ε : Type} (given : Value → Prop) (result : Except ε Value) : Prop :=
  ∀ v, result = .ok v → v.BuiltFrom given

theorem Builds.ok {ε : Type} {given : Value → Prop} {v : Value} (built : v.BuiltFrom given) :
    Builds given (.ok v : Except ε Value) := Gives.ok built

/-- Whatever the element types. -/
theorem Value.BuiltFrom.hereditary (given : Value → Prop) :
    Value.Hereditary (fun _ _ => True) (BuiltFrom given) where
  conforming _ := trivial
  flat := .flat
  item built _ held _ member := ⟨built.item held member, trivial⟩
  list of _ all := .list of fun _ member => (all _ member).1
  setOf of _ all := .setOf of fun _ member => (all _ member).1

theorem Operator.compute_builds (op : Operator) (args : List Value) :
    Builds (· ∈ args) (compute op args) :=
  compute_gives (Value.BuiltFrom.hereditary _) op fun _ => .given

structure Domain.BuildsSets (domain : Domain) : Prop where
  construct : ∀ of items, (domain.construct of items).BuiltFrom (· ∈ items)
  iterate : ∀ v items, domain.iterate v = .ok items → ∀ item ∈ items, item.BuiltFrom (· = v)
  extra : ∀ op args result, domain.extra op args = some result → Builds (· ∈ args) result

namespace Domain

variable {domain : Domain}

theorem BuildsSets.handsDown (builds : domain.BuildsSets) (given : Value → Prop) :
    domain.HandsDown (fun _ _ => True) (Value.BuiltFrom given) where
  construct of items all := (builds.construct of items).trans fun item member => (all item member).1
  iterate {v items} built listed item member := by
    refine ⟨(builds.iterate v items listed item member).trans ?_, trivial⟩
    rintro _ rfl
    exact built
  extra {op args result} all own v same := (builds.extra op args result own v same).trans all

/-- The common operations build as the domain does. -/
theorem BuildsSets.call (builds : domain.BuildsSets) (typeOf : Value → Option Ty) (op : String)
    (args : List Value) : Builds (· ∈ args) (domain.call typeOf op args) :=
  (builds.handsDown _).call (Value.BuiltFrom.hereditary _) typeOf op (fun _ => .given)
    fun _ _ _ => trivial

theorem BuildsSets.of_handsDown
    (down : ∀ given, domain.HandsDown (fun _ _ => True) (Value.BuiltFrom given)) :
    domain.BuildsSets where
  construct of items := (down (· ∈ items)).construct of fun _ member => ⟨.given member, trivial⟩
  iterate v _ listed item member := ((down (· = v)).iterate (.given rfl) listed item member).1
  extra _ args _ own := (down (· ∈ args)).extra (fun _ => .given) own

theorem list_buildsSets : list.BuildsSets :=
  .of_handsDown fun given => list_handsDown (Value.BuiltFrom.hereditary given)

theorem set_buildsSets : set.BuildsSets :=
  .of_handsDown fun given => set_handsDown (Value.BuiltFrom.hereditary given)

end Domain

theorem Domains.builtin_buildsSets {name : String} {d : Domain}
    (found : builtin.find? name = some d) : d.BuildsSets := by
  have member : d ∈ [Domain.list, Domain.set] := List.mem_of_find?_eq_some found
  simp only [List.mem_cons, List.not_mem_nil, or_false] at member
  rcases member with rfl | rfl
  · exact Domain.list_buildsSets
  · exact Domain.set_buildsSets

end LayeredIR
