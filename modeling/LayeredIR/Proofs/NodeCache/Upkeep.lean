import LayeredIR.Proofs.NodeCache.Replay

/-! What a run with the node cache does to the values that are kept. Whatever code it runs and
however it ends, every value that is kept after it is one that its node comes to: scopes that kept
values rest on are not written to any more, and a node's own run is followed before its value is
kept. -/
namespace LayeredIR

namespace NodeCache

variable {σ : Type} (s : Setting σ)

theorem value_self {code : Arg → Prop} {scopes : ScopeId → ScopeId → Prop}
    (reflexive : ∀ a, scopes a a) (all : ∀ arg, code arg) (v : Value) :
    (resemblanceOf s code).value scopes v v := by
  cases closures : s.layer.hasClosures with
  | true =>
    rw [value_of_closures closures]
    exact .self v fun _ _ c _ => ⟨trivial, all c.body, fun a _ => reflexive a⟩
  | false => rw [value_of_plain closures]

theorem freeCodes : Codes (fun _ => True) (fun _ => True) (fun _ => True) fun _ => True where
  operand _ _ := trivial
  call {ns name _} _ := .all ns name
  var _ := trivial

abbrev free : Likeness Stage := likenessOf s freeCodes

variable {s} in
theorem free_settings (layer : s.layer = .air ∨ s.layer = .cir)
    (detached : s.Detached) : (free s).Settings s s.uncached :=
  likeOf _ layer (fun w => inputs_self detached w.scopes)
    (.of_callsOnly (fun _ _ => trivial) (fun _ _ found => found) (fun _ => trivial)
      (.of_forall Permitted.all))

variable (shared : Shared σ)

structure Guards (w : Stage) (memory : Memory) : Prop where
  reflexive : ∀ a, w.scopes a a
  opening : ∀ a b, w.opening = some (a, b) → a ≠ rootScope ∧ a < memory.heap.size
  idle : w.idle → memory.active = []
  root : rootScope < memory.heap.size
  kept : (sound s shared).holds (w.fence memory.heap) memory.heap memory.kept

structure Persists (w : Stage) (memory : Memory) (w₁ : Stage) (later : Memory) : Prop where
  le : w ≤ w₁
  guards : Guards s shared w₁ later
  heap : memory.heap.Extends (w.fence memory.heap) later.heap
  fence : w.fence memory.heap ≤ w₁.fence later.heap

variable {s shared}

theorem Persists.trans {w w₁ w₂ : Stage} {memory later last : Memory}
    (first : Persists s shared w memory w₁ later) (second : Persists s shared w₁ later w₂ last) :
    Persists s shared w memory w₂ last where
  le := first.le.trans second.le
  guards := second.guards
  heap := first.heap.trans second.heap first.fence
  fence := Nat.le_trans first.fence second.fence

namespace Guards

variable {w : Stage} {memory : Memory} (guards : Guards s shared w memory)
include guards

theorem fence_bounds : rootScope < w.fence memory.heap ∧ w.fence memory.heap ≤ memory.heap.size :=
  Stage.fence_bounds guards.opening guards.root

theorem settled : (sound s shared).holds memory.heap.size memory.heap memory.kept :=
  have bounds := guards.fence_bounds
  (sound s shared).mono bounds.1 guards.kept bounds.2 (.refl _ bounds.2)

theorem persists_self : Persists s shared w memory w memory where
  le := le_rfl
  guards := guards
  heap := .refl _ guards.fence_bounds.2
  fence := Nat.le_refl _

theorem add (bindings : Bindings) (parent : Option ScopeId) :
    Persists s shared w memory (w.grow memory.heap.size memory.heap.size)
      { memory with heap := (memory.heap.add bindings parent).2 } where
  le := ⟨fun _ _ => .inl, Iff.rfl, Iff.rfl⟩
  guards := {
    reflexive := fun a => .inl (guards.reflexive a)
    opening := by
      rintro _ _ ⟨⟩
      exact ⟨Nat.ne_of_gt guards.root, memory.heap.size_lt_add bindings parent⟩
    idle := guards.idle
    root := Nat.lt_trans guards.root (memory.heap.size_lt_add bindings parent)
    kept := (sound s shared).mono guards.fence_bounds.1 guards.kept guards.fence_bounds.2
      (.add _ _ _ guards.fence_bounds.2) }
  heap := .add _ _ _ guards.fence_bounds.2
  fence := guards.fence_bounds.2

theorem made : (free s).Made (w.grow memory.heap.size memory.heap.size) memory.heap.size
    memory.heap.size := by
  have new : memory.heap.size ≠ rootScope := Nat.ne_of_gt guards.root
  exact ⟨⟨.inr ⟨rfl, rfl⟩, Iff.rfl, fun root => absurd root new⟩,
    ⟨.inr ⟨rfl, rfl⟩, Iff.rfl, fun root => absurd root new⟩, rfl⟩

theorem define {a b : ScopeId} (writable : w.opening = some (a, b)) (name : String)
    (binding : Binding) : Persists s shared w memory w
      { memory with heap := memory.heap.define a name binding } := by
  obtain ⟨inner, bound⟩ := guards.opening a b writable
  have fence (heap : Heap) : w.fence heap = a := (Stage.fence_of_opening writable heap).1
  have extends_ : memory.heap.Extends a (memory.heap.define a name binding) :=
    .define _ _ _ (Nat.le_refl _) (Nat.le_of_lt bound)
  have kept := guards.kept
  rw [fence] at kept
  refine ⟨le_rfl, ⟨guards.reflexive, ?_, guards.idle, ?_, ?_⟩, ?_, ?_⟩
  · simp only [Heap.size_define]
    exact guards.opening
  · simp only [Heap.size_define]
    exact guards.root
  · rw [fence]
    exact (sound s shared).mono (Nat.pos_of_ne_zero inner) kept (Nat.le_refl _) extends_
  · rwa [fence]
  · rw [fence, fence]

theorem enter (c : Captured) :
    ∃ w', Persists s shared w memory w'
        { memory with heap := ((memory.heap.captured c).2.child (memory.heap.captured c).1).2 } ∧
      (free s).Made w' ((memory.heap.captured c).2.child (memory.heap.captured c).1).1
        ((memory.heap.captured c).2.child (memory.heap.captured c).1).1 := by
  cases c with
  | shared a => exact ⟨_, guards.add _ _, guards.made⟩
  | frozen entries =>
    have copied := guards.add (.ofValues .immutable entries) none
    exact ⟨_, copied.trans (copied.guards.add _ _), copied.guards.made⟩

theorem serve {q q' : Query} (queries : (free s).Queries w q q') :
    ∃ w' a', Persists s shared w memory w' (s.serve q shared memory).2.2 ∧
      (free s).Answers w' q q' (s.serve q shared memory).1 a' ∧
      (s.serve q shared memory).2.1 = shared := by
  have still := guards.persists_self
  have self (v : Value) : (free s).value w v v :=
    value_self s guards.reflexive (fun _ => trivial) v
  cases queries with
  | @lookup a b name read scope =>
    refine ⟨w, memory.heap.lookup a name, still, ?_, rfl⟩
    change Option.Rel ((free s).value w) (memory.heap.lookup a name) (memory.heap.lookup a name)
    cases memory.heap.lookup a name with
    | none => exact .none
    | some v => exact .some (self v)
  | define writable mutabilities values =>
    exact ⟨w, (), guards.define writable _ _, writable, rfl⟩
  | assign mutation => exact mutation.elim
  | child outer => exact ⟨_, _, guards.add _ _, guards.made, rfl⟩
  | enter closures captured =>
    obtain ⟨w', persists, made⟩ := guards.enter _
    exact ⟨w', _, persists, made, rfl⟩
  | flatten _ snapshots => exact snapshots.elim
  | fresh =>
    obtain ⟨reflexive, opening, idle, root, kept⟩ := guards
    exact ⟨w, [], ⟨le_rfl, ⟨reflexive, opening, idle, root, kept⟩, still.heap, still.fence⟩,
      trivial, rfl⟩
  | isActive => exact ⟨w, _, still, rfl, rfl⟩
  | innermost => exact ⟨w, _, still, fun _ => rfl, rfl⟩
  | recollect plain => exact absurd trivial plain
  | remember plain => exact absurd trivial plain
  | compute | dispatch => exact ⟨w, _, still, .refl self _, rfl⟩
  | perform effects => exact effects.elim

theorem enterCall (site : CallSite) : Guards s shared (w.within site) (memory.enter site) := by
  obtain ⟨reflexive, opening, idle, root, kept⟩ := guards
  obtain ⟨name, isDefinition⟩ := site
  cases isDefinition with
  | true => exact ⟨reflexive, opening, False.elim, root, kept⟩
  | false => exact ⟨reflexive, opening, idle, root, kept⟩

theorem leaveCall {site : CallSite} {w₁ : Stage} {later : Memory}
    (persists : Persists s shared (w.within site) (memory.enter site) w₁ later)
    (calls : later.stack = (memory.enter site).stack ∧
      later.active = (memory.enter site).active) :
    Persists s shared w memory (w₁.back w.idle) (later.leave site.isDefinition) := by
  obtain ⟨-, active⟩ := Setting.Yields.leave_enter site later calls.1 calls.2
  obtain ⟨le, ⟨reflexive, opening, -, root, kept⟩, heap, fence⟩ := persists
  have exact : (w₁.back w.idle).exact ↔ w.exact := by
    obtain ⟨name, isDefinition⟩ := site
    cases isDefinition <;> exact le.2.2.symm
  have parts : (w.within site).scopes = w.scopes ∧ (w.within site).fence = w.fence := by
    obtain ⟨name, isDefinition⟩ := site
    cases isDefinition <;> exact ⟨rfl, rfl⟩
  rw [parts.2] at heap fence
  exact ⟨⟨fun a b same => le.1 a b (parts.1 ▸ same), Iff.rfl, exact.symm⟩,
    ⟨reflexive, opening, fun idle => active.trans (guards.idle idle), root, kept⟩, heap, fence⟩

theorem remember {id : String} {v : Value}
    (replays : Replays s shared memory.heap.size memory.heap id v) :
    Persists s shared w memory { w with opening := none }
      { memory with kept := (id, v) :: memory.kept } where
  le := ⟨fun _ _ same => same, Iff.rfl, Iff.rfl⟩
  guards := { guards with
    opening := fun _ _ => nofun
    kept := sound_cons guards.settled replays }
  heap := .refl _ guards.fence_bounds.2
  fence := guards.fence_bounds.2

end Guards

/-- However a run with the node cache ends, the values that are kept then are what their nodes come
to, if those were that were kept before. -/
theorem upkeep {s : Setting σ} (layer : s.layer = .air ∨ s.layer = .cir)
    (detached : s.Detached) {shared shared' : Shared σ} {memory later : Memory}
    {plan : Plan Next} {outcome : Except Fault Value}
    (yields : s.Yields shared memory plan outcome shared' later) {w : Stage} {plan' : Plan Next}
    (beside : Beside (free s) (Replays s shared memory.heap.size memory.heap) w plan plan')
    (guards : Guards s shared w memory) :
    shared' = shared ∧ ∃ w₁, Persists s shared w memory w₁ later := by
  have alike {w : Stage} {job job' : Job} (jobs : (free s).Jobs w job job') :
      (free s).Plans (free s).Nexts w (s.plan job) (s.uncached.plan job') :=
    (free s).plan_alike (free_settings layer detached) jobs
  have self {w : Stage} {memory : Memory} {shared : Shared σ} (guards : Guards s shared w memory)
      (v : Value) : (free s).value w v v := value_self s guards.reflexive (fun _ => trivial) v
  induction yields generalizing w plan' with
  | value | fail | full => exact ⟨rfl, w, guards.persists_self⟩
  | job _ ih =>
    obtain ⟨job', -, jobs⟩ := beside.of_job
    exact ih (.plans (alike jobs)) guards
  | @eval _ _ _ _ v _ _ _ _ _ _ _ first rest =>
    obtain ⟨job', next', -, jobs, next⟩ := beside.of_eval
    obtain ⟨rfl, w₁, persists⟩ := first (.plans (alike jobs)) guards
    have goes := next _ _ _ persists.le (self persists.guards v)
    obtain ⟨same, w₂, further⟩ := rest (.plans goes) persists.guards
    exact ⟨same, w₂, persists.trans further⟩
  | evalFail _ first =>
    obtain ⟨job', next', -, jobs, -⟩ := beside.of_eval
    exact first (.plans (alike jobs)) guards
  | @call shared memory site job next v shared₁ memory₁ _ _ _ _ first' _ first rest =>
    cases beside with
    | plans plans =>
      cases plans with
      | call jobs next =>
        obtain ⟨rfl, w₁, inner⟩ := first (.plans (alike jobs)) (guards.enterCall site)
        have persists := guards.leaveCall inner first'.calls
        have goes := next _ _ _ persists.le (self persists.guards v)
        obtain ⟨same, w₂, further⟩ := rest (.plans goes) persists.guards
        exact ⟨same, w₂, persists.trans further⟩
    | @called id expr next next' node allowed scope further =>
      obtain ⟨rfl, w₁, inner⟩ := first (w := w.within ⟨id, false⟩)
        (.plans (alike (.expr allowed scope))) (guards.enterCall ⟨id, false⟩)
      have persists := guards.leaveCall inner first'.calls
      have replays : Replays s shared₁ memory₁.heap.size memory₁.heap id v := by
        have settled := (guards.enterCall ⟨id, false⟩).settled
        have old := persists.heap.restrict guards.fence_bounds.1
        exact replays_of_mirrors node settled (guards.idle (scope.2.2 rfl)) old
          fun plain before begun => mirror layer detached first' rfl (plain.feeds detached)
            (.plans (node_plans layer detached node plain)) begun
      have goes (w' : Stage) (le : w₁.back w.idle ≤ w') := further w' _ _ (persists.le.trans le)
        ((free s).value_mono le (self persists.guards v))
      obtain ⟨same, w₂, further⟩ := rest (.kept replays goes) persists.guards
      exact ⟨same, w₂, persists.trans further⟩
  | @callFail shared memory site _ _ _ _ _ _ first' first =>
    cases beside with
    | plans plans =>
      cases plans with
      | call jobs next =>
        obtain ⟨same, w₁, inner⟩ := first (.plans (alike jobs)) (guards.enterCall site)
        exact ⟨same, _, guards.leaveCall inner first'.calls⟩
    | @called id _ _ _ _ allowed scope _ =>
      obtain ⟨same, w₁, inner⟩ := first (w := w.within ⟨id, false⟩)
        (.plans (alike (.expr allowed scope))) (guards.enterCall ⟨id, false⟩)
      exact ⟨same, _, guards.leaveCall inner first'.calls⟩
  | @ask shared memory q next outcome shared' later _ ih =>
    cases beside with
    | plans plans =>
      generalize asked : Plan.ask q next = plan at plans
      cases plans with
      | ask queries next =>
        cases asked
        obtain ⟨w₁, a', persists, answers, same⟩ := guards.serve queries
        rw [same] at ih
        obtain ⟨same', w₂, further⟩ :=
          ih (.plans (next _ _ _ persists.le answers)) persists.guards
        exact ⟨same', w₂, persists.trans further⟩
      | @memo _ id expr next _ _ node allowed scope further =>
        unfold Plan.memoized at asked
        cases asked
        simp only [Setting.serve] at ih
        cases kept : memory.kept.lookup id with
        | some v =>
          rw [kept] at ih
          exact ih (.plans (further _ _ _ le_rfl (self guards v))) guards
        | none =>
          rw [kept] at ih
          exact ih (.called node allowed scope further) guards
      | copy copying => exact copying.elim
      | _ => cases asked
    | kept replays rest =>
      have persists := guards.remember replays
      obtain ⟨same, w₂, further⟩ := ih (.plans (rest _ persists.le)) persists.guards
      exact ⟨same, w₂, persists.trans further⟩

end NodeCache
end LayeredIR
