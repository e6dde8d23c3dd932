import LayeredIR.Proofs.NodeCache.Simulation

/-! Documents of the first two layers come to the same with the node cache as without it. Closures
are compared by what they do: a kept closure has the identity of the one made first. -/
namespace LayeredIR

abbrev ComparesNothing : Option String → String → Prop :=
  Permitted (fun op => op ≠ .eq ∧ op ≠ .neq) fun _ => False

/-- Values that are the same up to the identities of closures. Closures have the same parameters and
bodies, and the scopes they captured bind the same names to values that are the same in turn. -/
def Value.Same (heap heap' : Heap) (v v' : Value) : Prop :=
  ∃ scopes : ScopeId → ScopeId → Prop,
    Heap.Alike (Value.Alike (fun _ _ => True) scopes fun _ => True) scopes heap heap' ∧
      Value.Alike (fun _ _ => True) scopes (fun _ => True) v v'

theorem Value.Same.closure {heap heap' : Heap} {c c' : Closure}
    (same : Value.Same heap heap' (.closure c) (.closure c')) :
    c.params = c'.params ∧ c.body = c'.body ∧ c.isFix = c'.isFix ∧
      ∀ a, c.captured = .shared a → ∃ b, c'.captured = .shared b ∧
        ∀ name, Option.Rel (Value.Same heap heap') (heap.lookup a name) (heap'.lookup b name) := by
  obtain ⟨scopes, heaps, values⟩ := same
  obtain ⟨params, body, isFix, -, captured, -⟩ := values.parts
  refine ⟨params, body, isFix, fun a capture => ?_⟩
  rw [capture] at captured
  generalize c'.captured = kept' at captured ⊢
  cases captured with
  | shared related =>
    exact ⟨_, rfl, fun name =>
      rel_imp (fun _ _ alike => ⟨scopes, heaps, alike⟩) (heaps.lookup name related)⟩

/-- How the values of two runs in a layer compare. Where no closures are made, they are equal. -/
def Layer.Agrees (layer : Layer) (heap heap' : Heap) : Value → Value → Prop :=
  if layer.hasClosures then Value.Same heap heap' else Eq

namespace NodeCache

variable {σ : Type} {s : Setting σ}

theorem permitted_of_closed (closed : s.layer.hasClosures = false) (ns : Option String)
    (name : String) : Permitted (Comparing s) (Dispatching s) ns name := by
  refine .of_forall (fun op closures => ?_) (fun _ => closed) ns name
  rw [closed] at closures
  cases closures

theorem permitted_of_plain (ns : Option String) (name : String) (plain : ComparesNothing ns name) :
    Permitted (Comparing s) (Dispatching s) ns name := by
  unfold ComparesNothing Permitted at plain
  unfold Permitted
  split at plain
  · next core =>
    rw [if_pos core]
    exact fun op found _ => plain op found
  · exact plain.elim

def Stage.initial : Stage where
  scopes a b := a = rootScope ∧ b = rootScope
  rooted := Stage.bare.rooted
  opening := none
  idle := True
  exact := True

theorem Stands.initial (shared : Shared σ) (maxCallDepth : Nat) :
    Evinced s shared .initial (.initial entryTask maxCallDepth)
      (.initial entryTask maxCallDepth) where
  heap := .of_roots (.self rfl (List.forall_mem_nil _) _)
  opening _ _ := nofun
  stack _ := rfl
  active := rfl
  idle _ := rfl
  kept := .nil

/-- Values that stand for each other agree, where the root scopes are the same. -/
theorem Tracks.agrees {code : Arg → Prop} {reads : String → Prop}
    {scopes : ScopeId → ScopeId → Prop} {heap heap' : Heap}
    (tracks : Tracks s code reads scopes heap heap') {bindings : Bindings}
    (root : heap.get? rootScope = some ⟨bindings, none⟩)
    (root' : heap'.get? rootScope = some ⟨bindings, none⟩) (literal : bindings.AllLiteral)
    {v v' : Value} (values : (resemblanceOf s code).value scopes v v') :
    s.layer.Agrees heap heap' v v' := by
  unfold Layer.Agrees
  split
  · next closures =>
    have alike := tracks.alike root root' literal
    simp only [value_of_closures closures] at alike values
    have forget (v v' : Value) : Value.Alike (fun _ _ => True) scopes code v v' →
        Value.Alike (fun _ _ => True) scopes (fun _ => True) v v' :=
      .mono (fun _ _ ids => ids) (fun _ _ same => same) fun _ _ => trivial
    exact ⟨scopes, alike.mono forget, forget v v' values⟩
  · next plain =>
    rwa [value_of_plain (Bool.eq_false_iff.mpr plain)] at values

theorem run (cacheable : s.Cacheable) {arg : Arg} (allowed : (likeness s).allowed arg)
    (shared : Shared σ) (maxCallDepth : Nat) {fuel : Nat} {outcome' : Except Fault Value}
    {shared' : Shared σ} {memory' : Memory} (unlimited : Unlimited outcome')
    (ran : Task.run s.uncached fuel shared (.start (.operand arg rootScope)
      (.initial entryTask maxCallDepth)) = some (outcome', shared', memory')) :
    ∃ fuel outcome memory, Task.run s fuel shared (.start (.operand arg rootScope)
        (.initial entryTask maxCallDepth)) = some (outcome, shared, memory) ∧
      ResultsAlike Eq (s.layer.Agrees memory.heap memory'.heap) outcome outcome' := by
  have root : (likeness s).scope .initial rootScope rootScope :=
    ⟨⟨rfl, rfl⟩, Iff.rfl, fun _ => trivial⟩
  obtain ⟨outcome, memory, yields, ends⟩ := simulate cacheable (Setting.Yields.of_run_alone ran)
    unlimited (.done (.job (.operand allowed root))) (Stands.initial shared maxCallDepth)
  obtain ⟨fuel, ran⟩ := yields.exists_run
  refine ⟨fuel, outcome, memory, ran, ?_⟩
  cases ends with
  | ok values moves =>
    have root := moves.first.same rootScope Nat.zero_lt_one
    have root' := moves.second.same rootScope Nat.zero_lt_one
    exact moves.stands.heap.agrees root root' (List.forall_mem_nil _) values
  | error same =>
    rw [same trivial]
    exact rfl

end NodeCache

variable {σ : Type}

def Setting.withNodeCache (s : Setting σ) (on : Bool) : Setting σ :=
  { s with config := { s.config with nodeCache := on } }

namespace Document

theorem CallsOnly.setting {doc : Document} {s prepared : Setting σ} {layer : Layer}
    {call : Option String → String → Prop} (only : doc.CallsOnly call)
    (others : s.definitions.CallsOnly call) (ok : doc.setting s layer = .ok prepared) :
    prepared.CallsOnly call := by
  obtain ⟨nodes, table, rfl⟩ := setting_eq_ok ok
  refine ⟨fun id expr found => ?_, fun ns name d found => ?_, fun _ member => nomatch member⟩
  · obtain ⟨node, member, rfl⟩ := mem_nodeTable table found
    exact only.node node member
  · rcases Definitions.mem_layered (Definitions.mem_of_get? found) with new | old
    · exact only.definition d new
    · exact others _ old

section

variable {doc : Document} {s prepared : Setting σ}
  (plain : doc.airCirLayer = .cir →
    doc.CallsOnly ComparesNothing ∧ s.definitions.CallsOnly ComparesNothing)
  (ok : doc.setting s doc.airCirLayer = .ok prepared)
include plain ok

/-- The code that a document of the first two layers runs meets what the node cache asks of it. -/
theorem callsOnly_prepared :
    doc.CallsOnly (Permitted (NodeCache.Comparing prepared) (NodeCache.Dispatching prepared)) ∧
      s.definitions.CallsOnly
        (Permitted (NodeCache.Comparing prepared) (NodeCache.Dispatching prepared)) := by
  have layer : prepared.layer = doc.airCirLayer := by
    obtain ⟨_, -, rfl⟩ := setting_eq_ok ok
    rfl
  rcases doc.airCirLayer_cases with air | cir
  · have closed : prepared.layer.hasClosures = false := by
      rw [layer, air]
      rfl
    have all := NodeCache.permitted_of_closed closed
    exact ⟨.of_forall all, fun _ _ => .of_forall (.of_forall all) _⟩
  · obtain ⟨document, definitions⟩ := plain cir
    have weaker := @NodeCache.permitted_of_plain _ prepared
    exact ⟨document.imp weaker, fun entry member => .imp (.imp weaker) (definitions entry member)⟩

theorem cacheable (handlers : ∀ name, s.handler? name = none)
    (literal : ∀ entry ∈ s.inputs, ∃ l, entry.2 = Value.ofLiteral l) : prepared.Cacheable := by
  obtain ⟨document, definitions⟩ := callsOnly_prepared plain ok
  have calls := document.setting definitions ok
  obtain ⟨nodes, table, rfl⟩ := setting_eq_ok ok
  exact ⟨doc.airCirLayer_cases, handlers, literal, calls⟩

end

/-- A document of the first two layers comes to the same with the node cache as without it, unless
it meets the ceiling on calls without it, provided that in the second layer no operation compares
closures. -/
theorem finishAirCir_withNodeCache (doc : Document) (s : Setting σ) (host : σ)
    (literal : ∀ entry ∈ s.inputs, ∃ l, entry.2 = Value.ofLiteral l)
    (plain : doc.airCirLayer = .cir →
      doc.CallsOnly ComparesNothing ∧ s.definitions.CallsOnly ComparesNothing)
    {fuel : Nat} {outcome' : Except Fault Value} {shared' : Shared σ} {memory' : Memory}
    (ran : doc.finishAirCir (s.withNodeCache false) fuel host = some (outcome', shared', memory'))
    (unlimited : Unlimited outcome') :
    ∃ fuel outcome shared memory,
      doc.finishAirCir (s.withNodeCache true) fuel host = some (outcome, shared, memory) ∧
      ResultsAlike Eq (doc.airCirLayer.Agrees memory.heap memory'.heap) outcome outcome' := by
  let cached : Setting σ := { s.withNodeCache true with effects := none }
  have uncached : doc.setting { s.withNodeCache false with effects := none } doc.airCirLayer =
      (doc.setting cached doc.airCirLayer).map Setting.uncached := by
    unfold setting
    cases doc.nodeTable <;> rfl
  simp only [finishAirCir, finish] at ran ⊢
  rw [uncached] at ran
  cases checked : doc.checkLayer doc.airCirLayer .cir with
  | error cause =>
    rw [checked] at ran
    cases ran
    exact ⟨0, _, _, _, rfl, rfl⟩
  | ok _ =>
    cases prepared : doc.setting cached doc.airCirLayer with
    | error cause =>
      rw [checked, prepared] at ran
      cases ran
      refine ⟨0, _, _, _, rfl, ?_⟩
      exact rfl
    | ok t =>
      rw [checked, prepared] at ran
      have cacheable := cacheable (s := cached) plain prepared (fun _ => rfl) literal
      have allowed := (callsOnly_prepared (s := cached) plain prepared).1.result
      obtain ⟨_, _, rfl⟩ := setting_eq_ok prepared
      obtain ⟨fuel, outcome, memory, run, alike⟩ :=
        NodeCache.run cacheable allowed _ _ unlimited ran
      exact ⟨fuel, outcome, _, memory, run, alike⟩

def doubled : Document where
  version := "1.0.0"
  layer := none
  definitions := []
  nodes := [⟨"one", .lit (.int 1)⟩,
    ⟨"double", .lambda ["x"] (.inline (.call none "add" [.id "x", .id "x"]))⟩,
    ⟨"two", .apply (.id "double") [.id "one"]⟩]
  result := .inline (.call none "add" [.id "two", .inline (.apply (.id "double") [.id "two"])])

theorem finishAirCir_withNodeCache_doubled : ∃ fuel outcome shared memory,
    doubled.finishAirCir (Setting.withNodeCache {} true) fuel () =
      some (outcome, shared, memory) ∧ outcome = .ok (.int 6) := by
  have add : ComparesNothing none "add" := by
    have found : Operator.ofName? "add" = some .add := rfl
    intro op same
    cases found.symm.trans same
    exact ⟨nofun, nofun⟩
  have body : (Expr.call none "add" [.id "x", .id "x"]).Every (Expr.CallsOnly ComparesNothing) :=
    .of_operands add (by simp)
  have four : (Expr.apply (.id "double") [.id "two"]).Every (Expr.CallsOnly ComparesNothing) :=
    .of_operands trivial (by simp)
  have plain : doubled.CallsOnly ComparesNothing := by
    refine ⟨fun node member => ?_, List.forall_mem_nil _, ?_⟩
    · simp only [doubled, List.mem_cons, List.not_mem_nil, or_false] at member
      rcases member with rfl | rfl | rfl
      · exact .of_operands trivial (by simp)
      · exact .of_operands trivial (by simpa using body)
      · exact .of_operands trivial (by simp)
    · exact .of_operands add (by simpa using four)
  obtain ⟨shared', memory', ran⟩ : ∃ shared' memory',
      doubled.finishAirCir (Setting.withNodeCache {} false) 200 () =
        some (.ok (.int 6), shared', memory') := ⟨_, _, rfl⟩
  obtain ⟨fuel, outcome, shared, memory, cached, alike⟩ := finishAirCir_withNodeCache doubled {} ()
    (by simp) (fun _ => ⟨plain, by simp [Definitions.CallsOnly, Definitions.empty]⟩) ran (.ok _)
  refine ⟨fuel, outcome, shared, memory, cached, ?_⟩
  cases outcome with
  | error fault => exact alike.elim
  | ok v =>
    obtain ⟨_, _, values⟩ := alike
    cases values
    rfl

end Document
end LayeredIR
