import LayeredIR.Proofs.Lookups
import LayeredIR.Proofs.World.Snapshots

/-! Scopes that hold closures over themselves. A value is older than the scope that it is bound in
when the scope is made for it, so only a name that is bound in an older scope, by an assignment or
by a declaration outside a sequence, can come to hold a closure over that scope. -/
namespace LayeredIR

namespace Heap

variable {heap : Heap}

def Binds (heap : Heap) (place : ScopeId) (name : String) (v : Value) : Prop :=
  ∃ scope binding, heap.get? place = some scope ∧ (name, binding) ∈ scope.bindings ∧
    binding.value = v

theorem binds_add {bindings : Bindings} {parent : Option ScopeId} {place : ScopeId}
    {name : String} {v : Value} (binds : (heap.add bindings parent).2.Binds place name v) :
    heap.Binds place name v ∨ place = heap.size ∧ ∃ binding, (name, binding) ∈ bindings ∧
      binding.value = v := by
  obtain ⟨scope, binding, found, member, same⟩ := binds
  rw [get?_add] at found
  split at found
  · cases found
    exact .inr ⟨‹_›, binding, member, same⟩
  · exact .inl ⟨scope, binding, found, member, same⟩

theorem binds_define {a place : ScopeId} {name other : String} {binding : Binding} {v : Value}
    (binds : (heap.define a name binding).Binds place other v) :
    heap.Binds place other v ∨ place = a ∧ other = name ∧ v = binding.value := by
  obtain ⟨scope, held, found, member, rfl⟩ := binds
  rw [get?_define] at found
  split at found
  · next here =>
    obtain ⟨old, was, rfl⟩ := Option.map_eq_some_iff.mp found
    rcases Bindings.mem_set member with same | earlier
    · cases same
      exact .inr ⟨here.symm, rfl, rfl⟩
    · exact .inl ⟨old, held, was, earlier, rfl⟩
  · exact .inl ⟨scope, held, found, member, rfl⟩

theorem binds_assign {a place : ScopeId} {name other : String} {v u : Value}
    (binds : (heap.assign a name u).2.Binds place other v) :
    heap.Binds place other v ∨ other = name := by
  unfold Heap.assign at binds
  split at binds
  · exact .inl binds
  · exact .inl binds
  · exact (binds_define binds).imp_right fun new => new.2.1

end Heap

def Closure.Sees (heap : Heap) (place : ScopeId) (c : Closure) : Prop :=
  ∃ a, c.captured = .shared a ∧ place ∈ heap.chain a

def Heap.Refers (heap : Heap) (rebound : String → Prop) (place target : ScopeId) : Prop :=
  (∃ scope, heap.get? place = some scope ∧ scope.parent = some target) ∨
    ∃ name v c, ¬ rebound name ∧ heap.Binds place name v ∧ (Value.closure c).Inside v ∧
      c.captured = .shared target

/-- A heap in which no scope holds a closure over itself, unless some names do. -/
structure Heap.Knotless (heap : Heap) (rebound : String → Prop) : Prop where
  scopes : ∀ place name v, heap.Binds place name v → ¬ rebound name →
    v.Closures fun c => ¬ c.Sees heap place
  acyclic : ∀ place, ¬ Relation.TransGen (heap.Refers rebound) place place

/-- A heap in which the closures that a name is bound to captured older scopes, unless it is one of
the given ones. -/
structure Heap.Ages (rebound : String → Prop) (heap : Heap) : Prop where
  ordered : heap.Ordered
  closures : ∀ place name v, heap.Binds place name v → ¬ rebound name →
    v.Closures fun c => ∀ a, c.captured = .shared a → a < place

theorem Heap.Ages.knotless {rebound : String → Prop} {heap : Heap} (ages : heap.Ages rebound) :
    heap.Knotless rebound where
  scopes place name v binds kept := by
    refine (ages.closures place name v binds kept).mono fun c older sees => ?_
    obtain ⟨a, captured, within⟩ := sees
    exact absurd (ages.ordered.le_of_mem_chain within) (Nat.not_le_of_lt (older a captured))
  acyclic := by
    have older (place target : ScopeId) (refers : heap.Refers rebound place target) :
        place > target := by
      rcases refers with ⟨scope, found, around⟩ | ⟨name, v, c, kept, binds, inside, captured⟩
      · exact ages.ordered place scope target found around
      · exact ages.closures place name v binds kept _ inside c rfl target captured
    intro place circle
    have descends : Relation.TransGen (· > ·) place place :=
      circle.lift id older
    rw [Relation.transGen_eq_self] at descends
    exact Nat.lt_irrefl place descends

theorem Value.Inside.sizeOf_le {part v : Value} (inside : part.Inside v) :
    sizeOf part ≤ sizeOf v := by
  induction inside with
  | here => exact Nat.le_refl _
  | list member _ ih | set member _ ih =>
    have smaller := List.sizeOf_lt_of_mem member
    simp only [list.sizeOf_spec, set.sizeOf_spec]
    omega
  | @captured c entries entry copied member _ ih =>
    obtain ⟨id, params, body, captured, isFix⟩ := c
    cases copied
    have smaller := List.sizeOf_lt_of_mem member
    obtain ⟨name, v⟩ := entry
    simp only [closure.sizeOf_spec, Closure.mk.sizeOf_spec, Captured.frozen.sizeOf_spec,
      Prod.mk.sizeOf_spec] at smaller ih ⊢
    omega

/-- No closure is in the copy that it took along. -/
theorem Closure.not_in_copy {c : Closure} {entries : List (String × Value)}
    (copied : c.captured = .frozen entries) {entry : String × Value} (member : entry ∈ entries) :
    entry.2.Closures fun inner => inner.captured ≠ c.captured := by
  intro part inside inner same shared
  subst same
  rw [copied] at shared
  have smaller := List.sizeOf_lt_of_mem member
  have within := inside.sizeOf_le
  obtain ⟨id, params, body, captured, isFix⟩ := inner
  obtain ⟨name, v⟩ := entry
  cases shared
  simp only [Value.closure.sizeOf_spec, Closure.mk.sizeOf_spec, Captured.frozen.sizeOf_spec,
    Prod.mk.sizeOf_spec] at smaller within
  omega

section Ageing

variable {σ : Type} (s : Setting σ) (start : Arg)

inductive Setting.Comes : Arg → Prop
  | start : Comes start
  | evaluated {arg expr} (evaluates : s.Evaluates arg expr) (before : Comes (.inline expr)) :
    Comes arg
  | body {params body} (before : Comes (.inline (.lambda params body))) : Comes body
  | node {id expr} (found : s.nodes.get? id = some expr) (before : Comes (.id id)) :
    Comes (.inline expr)
  | ref {id expr} (found : s.nodes.get? id = some expr) (before : Comes (.inline (.ref id))) :
    Comes (.inline expr)
  | definition {ns name args d} (found : s.definitions.get? ns name = some d)
    (before : Comes (.inline (.airRef ns name args))) : Comes d.body

/-- Names that may be bound in a scope that is not made for them: where they are assigned, or
declared other than as a statement of a sequence. -/
def Setting.Rebinds (name : String) : Prop :=
  s.layer.hasMutation ∧ ∃ arg, s.Comes start (.inline (.declare name arg)) ∨
    s.Comes start (.inline (.assign name arg))

def Discipline.ageing (kept : σ → Closure → Prop) : Discipline s where
  base := 1
  closure w body captured := s.Comes start body ∧ ∃ a < 1 + w.length, captured = .shared a
  scope w a := a < 1 + w.length
  outer w a := a < 1 + w.length
  define _ a name v :=
    s.Rebinds start name ∨ v.Closures fun c => ∀ b, c.captured = .shared b → b < a
  assign _ _ name _ := s.Rebinds start name
  code _ arg := s.Comes start arg
  cause _ := True
  calls _ _ _ := True
  idle _ _ := True
  flow := False
  kept := kept

variable {s start} {kept : σ → Closure → Prop}

theorem Discipline.ageing_laws (shares : s.layer.copiesCaptures = false)
    (borrows : s.Borrows kept) : (Discipline.ageing s start kept).Laws where
  closure_mono := by
    rintro w w' body captured le ⟨comes, a, bound, shared⟩
    exact ⟨comes, a, Nat.lt_of_lt_of_le bound (Nat.add_le_add_left le.length_le 1), shared⟩
  scope_mono le bound := Nat.lt_of_lt_of_le bound (Nat.add_le_add_left le.length_le 1)
  outer_root _ := Nat.lt_of_lt_of_le Nat.zero_lt_one (Nat.le_add_right 1 _)
  outer_scope bound := bound
  outer_captured := by
    rintro w body a ⟨-, b, bound, shared⟩
    cases shared
    exact bound
  outer_copy w := by
    change 1 + w.length < 1 + (w ++ [none]).length
    simp
  scope_made {w a} _ := by
    change 1 + w.length < 1 + (w ++ [some a]).length
    simp
  define_made := by
    intro w w' a name v _ held young _
    refine .inr (held.mono fun c known b shared => ?_)
    obtain ⟨-, b', bound, shared'⟩ := known
    cases shared.symm.trans shared'
    exact Nat.lt_of_lt_of_le bound young
  define_declared mutation comes _ _ := .inl ⟨mutation, _, .inl comes⟩
  assign_code mutation comes _ _ := ⟨mutation, _, .inr comes⟩
  code_evaluated evaluates comes := .evaluated evaluates comes
  code_node found comes := .node found comes
  code_ref found comes := .ref found comes
  code_definition found comes _ := .definition found comes
  code_body _ _ known := known.1
  code_instruction _ flow := flow.elim
  closure_shared _ _ comes bound := ⟨.body comes, _, bound, rfl⟩
  closure_frozen _ copies := by
    rw [shares] at copies
    cases copies
  flow_scope _ flow := flow.elim
  flow_define _ flow := flow.elim
  flow_closure _ flow := flow.elim
  flow_layer flow := flow.elim
  input _ found := borrows.input found
  domain typeOf op args found held :=
    ⟨fun _ answered => borrows.domain typeOf op found held answered, fun _ _ => trivial⟩
  handler _ found ran held shares := by
    obtain ⟨values, after⟩ := borrows.handler found ran held shares
    exact ⟨values, fun _ _ => trivial, after⟩
  cause_own _ := trivial
  above _ _ _ := trivial
  full _ _ _ := trivial
  enter _ _ := trivial
  leave _ := trivial
  idle _ _ := trivial

/-- New scopes lie in older ones, as long as a discipline says so. -/
theorem Discipline.Change.ordered {D : Discipline s} (laws : D.Laws) {w : Shape}
    {heap heap' : Heap} (older : ∀ a, D.outer w a → a < heap.size) (ordered : heap.Ordered)
    (change : D.Change w heap heap') : heap'.Ordered := by
  cases change with
  | same => exact ordered
  | child outer =>
    refine ordered.add _ fun place same => ?_
    cases same
    exact older _ outer
  | @enter f function =>
    obtain ⟨id, params, body, captured, isFix⟩ := f
    cases captured with
    | shared a =>
      refine ordered.add _ fun place same => ?_
      cases same
      exact older a (laws.outer_captured (function.self _ rfl))
    | frozen entries =>
      have copied : (heap.add (.ofValues .immutable entries) none).2.Ordered :=
        ordered.add _ nofun
      refine copied.add _ fun place same => ?_
      cases same
      exact heap.size_lt_add _ none
  | define => exact ordered.define _ _ _
  | assign =>
    unfold Heap.assign
    split
    · exact ordered
    · exact ordered
    · exact ordered.define _ _ _

theorem Discipline.ageing_ages (shares : s.layer.copiesCaptures = false)
    (borrows : s.Borrows kept) {w : Shape} {heap heap' : Heap} (shaped : heap.Shaped 1 w)
    (ages : heap.Ages (s.Rebinds start))
    (change : (Discipline.ageing s start kept).Change w heap heap') :
    heap'.Ages (s.Rebinds start) where
  ordered := by
    refine change.ordered (ageing_laws shares borrows) (fun a bound => ?_) ages.ordered
    rwa [shaped.size]
  closures place name v binds same := by
    cases change with
    | same => exact ages.closures place name v binds same
    | child =>
      rcases Heap.binds_add binds with old | ⟨-, _, none, -⟩
      · exact ages.closures place name v old same
      · cases none
    | @enter f function =>
      obtain ⟨-, a, -, shared⟩ := function.self f rfl
      rw [shared] at binds
      rcases Heap.binds_add binds with old | ⟨-, _, none, -⟩
      · exact ages.closures place name v old same
      · cases none
    | define mutability allowed _ =>
      -- a binding is either of an exempt name or of a value older than the scope
      rcases Heap.binds_define binds with old | ⟨rfl, rfl, rfl⟩
      · exact ages.closures place name v old same
      · exact allowed.resolve_left same
    | assign allowed _ =>
      rcases Heap.binds_assign binds with old | rfl
      · exact ages.closures place name v old same
      · exact absurd allowed same

end Ageing

theorem Heap.Ages.mono {rebound rebound' : String → Prop} {heap : Heap}
    (more : ∀ name, rebound name → rebound' name) (ages : heap.Ages rebound) :
    heap.Ages rebound' :=
  ⟨ages.ordered, fun place name v binds kept =>
    ages.closures place name v binds fun other => kept (more name other)⟩

theorem Heap.Ages.initial {rebound : String → Prop} (owner : Identity) (maxCallDepth : Nat) :
    (Memory.initial owner maxCallDepth).heap.Ages rebound where
  ordered place scope outer found around := by
    match place, found with
    | 0, found =>
      cases found
      cases around
    | place + 1, found => cases found
  closures place name v binds := by
    obtain ⟨scope, binding, found, member, -⟩ := binds
    match place, found with
    | 0, found =>
      cases found
      cases member
    | place + 1, found => cases found

/-- Closures over copies share no scopes. -/
theorem Heap.Ages.of_snapshots {heap : Heap} (ordered : heap.Ordered)
    (all : heap.All fun v => v.Closures Closure.IsSnapshot) : heap.Ages fun _ => False := by
  refine ⟨ordered, fun place name v binds _ => ?_⟩
  obtain ⟨scope, binding, found, member, rfl⟩ := binds
  refine (all place scope found _ member).mono fun c copied a shared => ?_
  obtain ⟨entries, frozen⟩ := copied
  cases shared.symm.trans frozen

section Documents

variable {σ : Type} {s : Setting σ} {kept : σ → Closure → Prop} {host : σ}

theorem Discipline.snapshots_ordered (lir : s.layer = .lir) (borrows : s.Borrows kept) :
    (snapshots s kept 2 True).Governs Heap.Ordered where
  laws := snapshots_laws lir borrows
  flow := trivial
  base := rfl
  calls := trivial
  opened registers := by
    intro place scope outer found around
    match place, found with
    | 0, found | 1, found =>
      cases found
      cases around
    | place + 2, found => cases found
  changed {w heap heap'} shaped ordered change := by
    refine change.ordered (snapshots_laws lir borrows) (fun a outer => ?_) ordered
    rw [shaped.size]
    rcases outer with rfl | ⟨-, rfl⟩ | ⟨-, bound⟩
    · exact Nat.lt_of_lt_of_le (by decide) (Nat.le_add_right 2 _)
    · exact Nat.lt_of_lt_of_le (by decide) (Nat.le_add_right 2 _)
    · exact bound

def Opening.Heaps (o : Opening σ) (host : σ) (P : Heap → Prop) : Prop :=
  ∀ n, P (o.task.after o.setting (fun _ shared => shared) n (Opening.fresh host)).memory.heap

theorem Document.opening_ages {doc : Document} {layer top : Layer} {o : Opening σ}
    (opens : doc.opening s layer top = .ok o) (shares : layer.copiesCaptures = false)
    (borrows : s.Borrows kept) (none : ∀ c, ¬ kept host c) :
    o.Heaps host (Heap.Ages (o.setting.Rebinds doc.result)) := by
  obtain ⟨prepared, starts⟩ := opening_eq_ok opens
  obtain ⟨nodes, -, same⟩ := setting_eq_ok prepared
  obtain ⟨t, task⟩ := o
  simp only at same starts
  have borrows' : t.Borrows kept := by
    rw [same]
    exact borrows.of_same rfl rfl fun _ _ found => found
  have shares' : t.layer.copiesCaptures = false := by rwa [same]
  have laws : (Discipline.ageing t doc.result kept).Laws := Discipline.ageing_laws shares' borrows'
  have runs : (Discipline.ageing t doc.result kept).Runs [] [] [] [] task := by
    rw [starts]
    exact Discipline.runs_start rfl .start Nat.zero_lt_one trivial
  have shared : (Discipline.ageing t doc.result kept).Shares [] (Opening.fresh host).futures
      (Opening.fresh host).host := .empty none
  have first : task.memory.heap.Ages (t.Rebinds doc.result) := by
    rw [starts]
    exact .initial _ _
  intro n
  obtain ⟨w, -, ages⟩ := runs.after laws (P := Heap.Ages (t.Rebinds doc.result))
    (fun w heap heap' shaped ages change =>
      Discipline.ageing_ages shares' borrows' shaped ages change) shared first n
  exact ages

theorem FlowDocument.opening_ages {doc : FlowDocument} {o : Opening σ}
    (opens : doc.opening s = .ok o) (borrows : s.Borrows kept) (none : ∀ c, ¬ kept host c) :
    o.Heaps host (Heap.Ages fun _ => False) := by
  obtain ⟨graph, -, same, starts⟩ := opening_eq_ok opens
  obtain ⟨t, task⟩ := o
  simp only at same starts
  subst same
  have governs := Discipline.snapshots_ordered rfl (doc.borrows_setting graph borrows)
  have guides : (Discipline.snapshots (doc.setting s graph) kept 2 True).Guides Heap.Ordered task :=
    starts ▸ governs.atBlock entryTask graph.entry.id (.ofValues .mutable borrows.registers)
  obtain ⟨w, c, runs, ordered⟩ := guides
  have shares : (Discipline.snapshots (doc.setting s graph) kept 2 True).Shares w
      (Opening.fresh host).futures (Opening.fresh host).host := .empty none
  intro n
  obtain ⟨w', all, ordered'⟩ := runs.after governs.laws
    (fun _ _ _ shaped ordered change => governs.changed shaped ordered change) shares ordered n
  exact .of_snapshots ordered' all

theorem FlowDocument.reaches_ages {doc : FlowDocument} {w : World σ}
    (reached : doc.Reaches s host w) (borrows : s.Borrows kept) (none : ∀ c, ¬ kept host c)
    {who : Identity} {phase : Phase} {task : Task} (member : (who, phase) ∈ w.tasks)
    (runs : phase.task? = some task) :
    task.memory.heap.Ages fun _ => False := by
  obtain ⟨graph, schedule, -, path⟩ := reached
  have governs := Discipline.snapshots_ordered rfl (doc.borrows_setting graph borrows)
  obtain ⟨-, orderly⟩ := path_orderly governs borrows none path
  obtain ⟨_, _, heeds, ordered⟩ := orderly.tasks who phase task member runs
  exact .of_snapshots ordered heeds.memory.bindings

end Documents

/-- In no state of an evaluation does a scope hold a closure over itself or over a scope within it,
nor do scopes and closures refer to each other in a circle, but for names that code of the third
layer assigns, or declares outside a sequence. -/
theorem scopes_knotless {σ : Type} (s : Setting σ) (host : σ) (kept : σ → Closure → Prop)
    (borrows : s.Borrows kept) (none : ∀ c, ¬ kept host c) :
    (∀ (doc : Document) o, doc.openingAirCir s = .ok o →
      o.Heaps host fun heap => heap.Knotless fun _ => False) ∧
    (∀ (doc : Document) o, doc.openingEir s = .ok o →
      o.Heaps host fun heap => heap.Knotless (o.setting.Rebinds doc.result)) ∧
    (∀ (doc : FlowDocument) o, doc.opening s = .ok o →
      o.Heaps host fun heap => heap.Knotless fun _ => False) ∧
    (∀ (doc : FlowDocument) w, doc.Reaches s host w → ∀ who phase task, (who, phase) ∈ w.tasks →
      phase.task? = some task → task.memory.heap.Knotless fun _ => False) ∧
    ∀ (c : Closure) entries, c.captured = .frozen entries → ∀ entry ∈ entries,
      entry.2.Closures fun inner => inner.captured ≠ c.captured := by
  refine ⟨fun doc o opens n => ?_, fun doc o opens n => ?_, fun doc o opens n => ?_, ?_, ?_⟩
  · have pure : doc.airCirLayer.copiesCaptures = false ∧ doc.airCirLayer.hasMutation = false := by
      unfold Document.airCirLayer
      split <;> exact ⟨rfl, rfl⟩
    have borrows' : ({ s with effects := Option.none } : Setting σ).Borrows kept :=
      borrows.of_same rfl rfl fun _ _ => nofun
    have ages := Document.opening_ages opens pure.1 borrows' none n
    refine (ages.mono fun name rebinds => ?_).knotless
    obtain ⟨prepared, -⟩ := Document.opening_eq_ok opens
    obtain ⟨nodes, -, same⟩ := Document.setting_eq_ok prepared
    have mutation := rebinds.1
    rw [same] at mutation
    exact absurd mutation (by simp [pure.2])
  · exact (Document.opening_ages opens rfl borrows none n).knotless
  · exact (FlowDocument.opening_ages opens borrows none n).knotless
  · intro doc w reached who phase task member runs
    exact (FlowDocument.reaches_ages reached borrows none member runs).knotless
  · exact fun _ _ copied _ member => Closure.not_in_copy copied member

def Document.tied : Document where
  version := "1.0.0"
  layer := some .eir
  definitions := []
  nodes := []
  result := .inline (.seq [.inline (.declare "f" (.inline (.lit (.int 0)))),
    .inline (.assign "f" (.inline (.lambda [] (.id "f"))))])

def knot : Closure := ⟨[1], [], .id "f", .shared 2, false⟩

/-- The names left out are those that come to hold such closures. -/
theorem scopes_knotless_tied : ∃ (o : Opening Unit) (heap : Heap),
    Document.tied.openingEir {} = .ok o ∧ o.setting.Rebinds Document.tied.result "f" ∧
    heap.Binds 2 "f" (.closure knot) ∧ knot.Sees heap 2 ∧
    heap.Knotless (o.setting.Rebinds Document.tied.result) := by
  have all := (scopes_knotless ({} : Setting Unit) () _ Setting.borrows_builtin fun _ => id).2.1
  obtain ⟨o, opens, layer, scope, chain⟩ : ∃ o : Opening Unit,
      Document.tied.openingEir {} = .ok o ∧ o.setting.layer = .eir ∧
      (o.task.after o.setting (fun _ shared => shared) 30 (Opening.fresh ())).memory.heap.get? 2 =
        some ⟨[("f", ⟨.closure knot, .mutable⟩)], some 1⟩ ∧
      (o.task.after o.setting (fun _ shared => shared) 30 (Opening.fresh ())).memory.heap.chain 2 =
        [2, 1, 0] := ⟨_, rfl, rfl, by rfl, by rfl⟩
  have assigns : o.setting.Comes Document.tied.result
      (.inline (.assign "f" (.inline (.lambda [] (.id "f"))))) :=
    .evaluated (.statement (.tail _ (.head _)) rfl) .start
  have mutation : o.setting.layer.hasMutation := by rw [layer]; rfl
  have sees : 2 ∈ (o.task.after o.setting (fun _ shared => shared) 30
      (Opening.fresh ())).memory.heap.chain 2 := by simp [chain]
  exact ⟨o, _, opens, ⟨mutation, _, .inr assigns⟩, ⟨_, _, scope, .head _, rfl⟩, ⟨2, rfl, sees⟩,
    all _ o opens 30⟩

end LayeredIR
