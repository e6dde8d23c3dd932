import LayeredIR.Proofs.NodeCache

/-! The code that the evaluation of a node may come to, and the names that this code may look up.
Whatever these names stand for, the value of the node rests on nothing else. -/
namespace LayeredIR

namespace Setting

variable {σ : Type} (s : Setting σ)

inductive Involves (arg : Arg) : Arg → Prop
  | self : Involves arg arg
  | operand {expr part} (involves : Involves arg (.inline expr)) (member : part ∈ expr.operands) :
    Involves arg part
  | node {id expr} (involves : Involves arg (.id id)) (found : s.nodes.get? id = some expr) :
    Involves arg (.inline expr)
  | ref {id expr} (involves : Involves arg (.inline (.ref id)))
    (found : s.nodes.get? id = some expr) : Involves arg (.inline expr)
  | definition {ns name args d} (involves : Involves arg (.inline (.airRef ns name args)))
    (found : s.definitions.get? ns name = some d) : Involves arg d.body

/-- The code that a node may run: what it comes to, and what closures among the inputs come to where
closures are applied at all. -/
def Runs (id : String) (part : Arg) : Prop :=
  s.Involves (.id id) part ∨ s.layer.hasClosures ∧ ∃ entry ∈ s.inputs, ∃ c,
    (Value.closure c).Inside entry.2 ∧ s.Involves c.body part

def Looks (id name : String) : Prop :=
  s.Runs id (.inline (.var name)) ∨ s.nodes.get? name = none ∧ s.Runs id (.id name)

def Plain (id : String) : Prop :=
  s.layer.hasClosures →
    ∀ ns name args, s.Runs id (.inline (.call ns name args)) → ComparesNothing ns name

structure Replayable (reads : String → Prop) (arg : Arg) : Prop where
  var : ∀ {name}, s.Involves arg (.inline (.var name)) → reads name
  unknown : ∀ {name}, s.nodes.get? name = none → s.Involves arg (.id name) → reads name
  call : ∀ {ns name args}, s.Involves arg (.inline (.call ns name args)) →
    Permitted (NodeCache.Comparing s) (NodeCache.Dispatching s) ns name

variable {s}

theorem Involves.trans {a b c : Arg} (first : s.Involves a b) (second : s.Involves b c) :
    s.Involves a c := by
  induction second with
  | self => exact first
  | operand _ member ih => exact ih.operand member
  | node _ found ih => exact ih.node found
  | ref _ found ih => exact ih.ref found
  | definition _ found ih => exact ih.definition found

/-- What a node comes to is the node itself or what its expression comes to. -/
theorem Involves.of_node {id : String} {expr : Expr} (found : s.nodes.get? id = some expr)
    {part : Arg} (involves : s.Involves (.id id) part) :
    part = .id id ∨ s.Involves (.inline expr) part := by
  induction involves with
  | self => exact .inl rfl
  | operand _ member ih => exact .inr ((ih.resolve_left nofun).operand member)
  | node _ here ih =>
    rcases ih with same | later
    · cases same
      cases found.symm.trans here
      exact .inr .self
    · exact .inr (later.node here)
  | ref _ here ih => exact .inr ((ih.resolve_left nofun).ref here)
  | definition _ here ih => exact .inr ((ih.resolve_left nofun).definition here)

namespace Replayable

variable {reads reads' : String → Prop} {arg : Arg}

theorem part (replayable : s.Replayable reads arg) {part : Arg} (involves : s.Involves arg part) :
    s.Replayable reads part where
  var within := replayable.var (involves.trans within)
  unknown found within := replayable.unknown found (involves.trans within)
  call within := replayable.call (involves.trans within)

theorem mono (replayable : s.Replayable reads arg) (more : ∀ name, reads name → reads' name) :
    s.Replayable reads' arg where
  var within := more _ (replayable.var within)
  unknown found within := more _ (replayable.unknown found within)
  call := replayable.call

/-- A node is as replayable as its expression. -/
theorem of_node {id : String} {expr : Expr} (found : s.nodes.get? id = some expr)
    (replayable : s.Replayable reads (.inline expr)) : s.Replayable reads (.id id) where
  var within := replayable.var ((within.of_node found).resolve_left nofun)
  unknown {name} missing within := by
    rcases within.of_node found with same | within
    · cases same
      cases missing.symm.trans found
    · exact replayable.unknown missing within
  call within := replayable.call ((within.of_node found).resolve_left nofun)

end Replayable

def Feeds (s : Setting σ) (code : Arg → Prop) : Prop :=
  s.layer.hasClosures → ∀ entry ∈ s.inputs, ∀ c, (Value.closure c).Inside entry.2 →
    (∀ a, c.captured ≠ .shared a) ∧ code c.body

abbrev Detached (s : Setting σ) : Prop := s.Feeds fun _ => True

/-- What a node may run is replayable if the node looks up no other names and compares nothing. -/
theorem Runs.replayable {id : String} (plain : s.Plain id) {part : Arg} (runs : s.Runs id part) :
    s.Replayable (s.Looks id) part := by
  have further {other : Arg} (involves : s.Involves part other) : s.Runs id other := by
    rcases runs with own | ⟨closures, entry, member, c, inside, held⟩
    · exact .inl (own.trans involves)
    · exact .inr ⟨closures, entry, member, c, inside, held.trans involves⟩
  refine ⟨fun within => .inl (further within), fun found within => .inr ⟨found, further within⟩,
    fun {ns name args} within => ?_⟩
  cases closures : s.layer.hasClosures with
  | true =>
    exact NodeCache.permitted_of_plain ns name (plain closures ns name args (further within))
  | false => exact NodeCache.permitted_of_closed closures ns name

theorem Plain.expr {id : String} (plain : s.Plain id) {expr : Expr}
    (found : s.nodes.get? id = some expr) : s.Replayable (s.Looks id) (.inline expr) :=
  Runs.replayable plain (.inl (.node .self found))

theorem Plain.feeds {id : String} (plain : s.Plain id)
    (detached : s.Detached) : s.Feeds (s.Replayable (s.Looks id)) :=
  fun closures entry member c inside => ⟨(detached closures entry member c inside).1,
    Runs.replayable plain (.inr ⟨closures, entry, member, c, inside, .self⟩)⟩

/-- What a replayable node may run is replayable. -/
theorem Runs.part {reads : String → Prop} {id : String} (feeds : s.Feeds (s.Replayable reads))
    (replayable : s.Replayable reads (.id id)) {part : Arg} (runs : s.Runs id part) :
    s.Replayable reads part := by
  rcases runs with own | ⟨closures, entry, member, c, inside, held⟩
  · exact replayable.part own
  · exact (feeds closures entry member c inside).2.part held

/-- The names that a node may look up are among those that replayable code around it may. -/
theorem Looks.reads {reads : String → Prop} {id name : String}
    (feeds : s.Feeds (s.Replayable reads)) (replayable : s.Replayable reads (.id id))
    (looks : s.Looks id name) : reads name := by
  rcases looks with named | ⟨missing, named⟩
  · exact (named.part feeds replayable).var .self
  · exact (named.part feeds replayable).unknown missing .self

end Setting

namespace NodeCache

variable {σ : Type} {s : Setting σ}

theorem comparesNothing_of_permitted (closures : s.layer.hasClosures) {ns : Option String}
    {name : String} (permitted : Permitted (Comparing s) (Dispatching s) ns name) :
    ComparesNothing ns name := by
  unfold Permitted at permitted
  unfold ComparesNothing Permitted
  split at permitted
  · next core =>
    rw [if_pos core]
    exact fun op found => permitted op found closures
  · exact absurd closures (Bool.eq_false_iff.mp permitted)

theorem plain_of_replayable {reads : String → Prop} {id : String}
    (feeds : s.Feeds (s.Replayable reads)) (replayable : s.Replayable reads (.id id)) :
    s.Plain id :=
  fun closures _ _ _ runs =>
    comparesNothing_of_permitted closures ((runs.part feeds replayable).call .self)

variable (s) in
theorem replayCodes (reads : String → Prop) :
    Codes (Comparing s) (Dispatching s) (s.Replayable reads) reads where
  operand replayable member := replayable.part (.operand .self member)
  call replayable := replayable.call .self
  var replayable := replayable.var .self

variable (s) in
abbrev replaying (reads : String → Prop) : Likeness Stage := likenessOf s (replayCodes s reads)

theorem inputs_self {code : Arg → Prop} (feeds : s.Feeds code)
    (scopes : ScopeId → ScopeId → Prop) (name : String) :
    Option.Rel ((resemblanceOf s code).value scopes) (s.input? name) (s.input? name) := by
  refine lookup_self (fun entry member => ?_) name
  cases closures : s.layer.hasClosures with
  | true =>
    rw [value_of_closures closures]
    refine .self entry.2 fun part inside c same => ?_
    subst same
    obtain ⟨detached, allowed⟩ := feeds closures entry member c inside
    exact ⟨trivial, allowed, fun a shared => absurd shared (detached a)⟩
  | false => rw [value_of_plain closures]

theorem replaying_settings (layer : s.layer = .air ∨ s.layer = .cir) {reads : String → Prop}
    (feeds : s.Feeds (s.Replayable reads)) : (replaying s reads).Settings s s.uncached := by
  refine likeOf _ layer (fun w => inputs_self feeds w.scopes) ?_
  exact {
    node := fun id expr found named => ⟨found, named.elim
      (fun own => own.part (.node .self found)) fun ref => ref.part (.ref .self found)⟩
    unknown := fun name missing own => own.unknown missing .self
    definition := fun ns name args d found calling => calling.part (.definition .self found)
    instruction := False.elim }

end NodeCache
end LayeredIR
