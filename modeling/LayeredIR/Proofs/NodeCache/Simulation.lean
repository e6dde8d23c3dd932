import LayeredIR.Proofs.Likeness.Blocks
import LayeredIR.Proofs.NodeCache.Standing

/-! A run without the node cache, followed by one with it. By induction on what the first one does,
the second comes to the same; where it finds a value that was kept, the induction is taken a second
time, for the memory in which the value was yielded. -/
namespace LayeredIR

def Unlimited (outcome : Except Fault Value) : Prop :=
  ∀ fault limit, outcome = .error fault → fault.cause ≠ .recursionLimitExceeded limit

theorem Unlimited.ok (v : Value) : Unlimited (.ok v) := by rintro _ _ ⟨⟩

theorem CallStack.attach_cause (stack : CallStack) (fault : Fault) :
    (stack.attach fault).cause = fault.cause := by
  unfold CallStack.attach Fault.withBacktrace
  split
  · rfl
  · split <;> rfl

/-- Leaving a call takes the names of the live calls along and leaves the cause as it is. -/
theorem Unlimited.of_attach {stack : CallStack} {fault : Fault}
    (unlimited : Unlimited (.error (stack.attach fault))) : Unlimited (.error fault) := by
  intro _ limit impossible
  cases impossible
  rw [← stack.attach_cause fault]
  exact unlimited _ limit rfl

namespace NodeCache

variable {σ : Type} (s : Setting σ) (shared : Shared σ)

/-- What the kept values rest on: each was yielded earlier by its node, in a memory whose own kept
values rest on the same. The root scope has not changed since it was evaluated, nor have the scopes
that there were then. -/
inductive Evidence : Nat → Heap → List (String × Value) → Prop
  | nil {fence heap} : Evidence fence heap []
  | cons {fence heap kept id v expr before after}
    (rest : Evidence fence heap kept) (node : s.nodes.get? id = some expr)
    (earlier : Evidence before.heap.size before.heap before.kept)
    (root : before.heap.Extends (rootScope + 1) heap) (idle : before.active = [])
    (yields : s.Yields shared before (s.plan (.expr expr rootScope)) (.ok v) shared after)
    (past : after.heap.size ≤ fence) (extends_ : after.heap.Extends after.heap.size heap) :
    Evidence fence heap ((id, v) :: kept)

variable {s shared}

theorem Evidence.entry {fence : Nat} {heap : Heap} {kept : List (String × Value)} {id : String}
    {v : Value} (evidence : Evidence s shared fence heap kept) (found : kept.lookup id = some v) :
    ∃ expr before after, s.nodes.get? id = some expr ∧
      Evidence s shared before.heap.size before.heap before.kept ∧
      before.heap.Extends (rootScope + 1) heap ∧ before.active = [] ∧
      s.Yields shared before (s.plan (.expr expr rootScope)) (.ok v) shared after ∧
      after.heap.size ≤ fence ∧ after.heap.Extends after.heap.size heap := by
  induction evidence with
  | nil => cases found
  | @cons fence heap kept other u expr before after _ node earlier root idle yields past older ih
      _ =>
    rw [List.lookup_cons] at found
    split at found
    · next same =>
      cases found
      cases eq_of_beq same
      exact ⟨expr, before, after, node, earlier, root, idle, yields, past, older⟩
    · exact ih found

variable (s shared)

def warrant : Warrant where
  holds := Evidence s shared
  mono {fence fence' heap heap' kept} positive evidence le extends_ := by
    induction evidence with
    | nil => exact .nil
    | cons _ node earlier root idle yields past older ih _ =>
      exact .cons (ih positive le extends_) node earlier (root.trans extends_ positive) idle yields
        (Nat.le_trans past le) (older.trans extends_ past)

abbrev Evinced := Stands s (Code s) (fun _ => True) (warrant s shared)

abbrev Evolves := Moves s (Code s) (fun _ => True) (warrant s shared)

inductive Ends (w : Stage) (memory memory' : Memory) :
    Except Fault Value → Memory → Except Fault Value → Memory → Prop
  | ok {v v' later later' w'} (values : (resemblance s).value w'.scopes v v')
    (moves : Evolves s shared w memory memory' w' later later') :
    Ends w memory memory' (.ok v) later (.ok v') later'
  | error {fault later outcome' later'} (same : w.exact → outcome' = .error fault) :
    Ends w memory memory' (.error fault) later outcome' later'

variable {s shared}

theorem Moves.ends {w w₁ : Stage} {memory memory' later later' last last' : Memory}
    {outcome outcome' : Except Fault Value}
    (moves : Evolves s shared w memory memory' w₁ later later')
    (ends : Ends s shared w₁ later later' outcome last outcome' last') :
    Ends s shared w memory memory' outcome last outcome' last' := by
  cases ends with
  | ok values further => exact .ok values (moves.trans further)
  | error same => exact .error fun exact => same (moves.le.2.2.mp exact)

section Calls

variable {w : Stage} {memory memory' : Memory} (stands : Evinced s shared w memory memory')
include stands

section Bodies

variable {site : CallSite} {job : Job} {next : Value → Plan Next} {plan' : Plan Next}
  {last' : Memory}

theorem Stands.call_ok {v' : Value} {later' : Memory} {outcome' : Except Fault Value}
    (free : memory'.stack.isFull = false)
    (first' : s.uncached.Yields shared (memory'.enter site) plan' (.ok v') shared later')
    (body : ∃ outcome later,
      s.Yields shared (memory.enter site) (s.plan job) outcome shared later ∧
        Ends s shared (w.within site) (memory.enter site) (memory'.enter site) outcome later
          (.ok v') later')
    (rest : ∀ w₁ v later, s.Yields shared (memory.enter site) (s.plan job) (.ok v) shared later →
      (resemblance s).value w₁.scopes v v' →
      Evolves s shared (w.within site) (memory.enter site) (memory'.enter site) w₁ later later' →
      Evolves s shared w memory memory' (w₁.back w.idle) (later.leave site.isDefinition)
        (later'.leave site.isDefinition) →
      ∃ outcome last,
        s.Yields shared (later.leave site.isDefinition) (next v) outcome shared last ∧
        Ends s shared (w₁.back w.idle) (later.leave site.isDefinition)
          (later'.leave site.isDefinition) outcome last outcome' last') :
    ∃ outcome last, s.Yields shared memory (.call site job next) outcome shared last ∧
      Ends s shared w memory memory' outcome last outcome' last' := by
  cases full : memory.stack.isFull with
  | true =>
    refine ⟨_, _, .full full, .error fun exact => ?_⟩
    rw [stands.stack exact, free] at full
    cases full
  | false =>
    obtain ⟨outcome, later, first, ends⟩ := body
    cases ends with
    | error same =>
      refine ⟨_, _, .callFail full first, .error fun exact => ?_⟩
      have clash := same (by unfold Stage.within; split <;> exact exact)
      cases clash
    | ok values moves =>
      have after := stands.leaveCall moves first.calls first'.calls
      obtain ⟨outcome, last, yields, ends⟩ := rest _ _ _ first values moves after
      exact ⟨outcome, last, .call full first yields, after.ends ends⟩

theorem Stands.call_fail {fault : Fault} {later' : Memory}
    (free : memory'.stack.isFull = false)
    (first' : s.uncached.Yields shared (memory'.enter site) plan' (.error fault) shared later')
    (body : ∃ outcome later, s.Yields shared (memory.enter site) (s.plan job) outcome shared later ∧
      Ends s shared (w.within site) (memory.enter site) (memory'.enter site) outcome later
        (.error fault) later') :
    ∃ outcome last, s.Yields shared memory (.call site job next) outcome shared last ∧
      Ends s shared w memory memory' outcome last (.error (later'.stack.attach fault)) last' := by
  cases full : memory.stack.isFull with
  | true =>
    refine ⟨_, _, .full full, .error fun exact => ?_⟩
    rw [stands.stack exact, free] at full
    cases full
  | false =>
    obtain ⟨outcome, later, first, ends⟩ := body
    cases ends with
    | error same =>
      refine ⟨_, _, .callFail full first, .error fun exact => ?_⟩
      have faults := same (by unfold Stage.within; split <;> exact exact)
      cases faults
      have stacked : (memory.enter site).stack = (memory'.enter site).stack :=
        congrArg (·.grow site.name) (stands.stack exact)
      rw [first.calls.1, first'.calls.1, stacked]

end Bodies

/-- A value that is kept stands for what the second run comes to when it evaluates the node anew, as
the first did when it kept the value. -/
theorem Stands.recollect (idle : w.idle) {id : String} {expr : Expr} {v : Value}
    (node : s.nodes.get? id = some expr) (kept : memory.kept.lookup id = some v)
    {outcome' : Except Fault Value} {later' : Memory}
    (first' : s.uncached.Yields shared (memory'.enter ⟨id, false⟩)
      (s.uncached.plan (.expr expr rootScope)) outcome' shared later')
    (again : ∀ before, Evinced s shared .bare before (memory'.enter ⟨id, false⟩) →
      ∃ outcome after, s.Yields shared before (s.plan (.expr expr rootScope)) outcome shared after ∧
        Ends s shared .bare before (memory'.enter ⟨id, false⟩) outcome after outcome' later') :
    ∃ v' w₁, outcome' = .ok v' ∧ (resemblance s).value w₁.scopes v v' ∧
      Evolves s shared w memory memory' w₁ memory (later'.leave false) := by
  obtain ⟨expr', before, after, node', earlier, root, inactive, yields, past, older⟩ :=
    Evidence.entry stands.kept kept
  cases node.symm.trans node'
  have agree : before.heap.RootsAgree (fun _ => True) memory'.heap :=
    stands.heap.roots.congr (root.same rootScope (Nat.lt_succ_self _)).symm rfl
  have begun : Evinced s shared .bare before (memory'.enter ⟨id, false⟩) :=
    .anew agree earlier inactive (stands.idle idle)
  obtain ⟨outcome, after', yields', ends⟩ := again before begun
  obtain ⟨rfl, -, rfl⟩ := yields.unique yields'
  cases ends with
  | @ok _ v' _ _ w₁ values moves =>
    have calls := Setting.Yields.leave_enter ⟨id, false⟩ later' first'.calls.1 first'.calls.2
    have tracks := moves.stands.heap
    have further := tracks.extends_ tracks.root_lt.1
      (fun a b same => (tracks.within a b same).1) older
    exact ⟨v', w.join w₁.scopes, rfl, value_mono (fun _ _ => .inr) values,
      stands.reuse further moves.second calls⟩

theorem Stands.evidence {id : String} {expr : Expr} {v : Value} {before after : Memory}
    (node : s.nodes.get? id = some expr)
    (yields : s.Yields shared before (s.plan (.expr expr rootScope)) (.ok v) shared after)
    (earlier : Evidence s shared before.heap.size before.heap before.kept)
    (root : before.heap.Extends (rootScope + 1) memory.heap) (inactive : before.active = [])
    (same : memory.heap = after.heap) :
    Evidence s shared memory.heap.size memory.heap ((id, v) :: memory.kept) := by
  refine .cons stands.settled node earlier root inactive yields ?_ ?_
  · exact Nat.le_of_eq (congrArg Heap.size same).symm
  · rw [same]
    exact .refl _ (Nat.le_refl _)

end Calls

section Memoized

variable {memory later : Memory} {id : String} {expr : Expr} {next : Value → Plan Next}
  {outcome : Except Fault Value}

theorem yields_kept {v : Value} (kept : memory.kept.lookup id = some v)
    (rest : s.Yields shared memory (next v) outcome shared later) :
    s.Yields shared memory (.memoized id expr next) outcome shared later := by
  refine .ask ?_
  simp only [Setting.serve, kept]
  exact rest

theorem yields_anew {P : Except Fault Value → Memory → Prop}
    (kept : memory.kept.lookup id = none)
    (rest : ∃ outcome later, s.Yields shared memory (.call ⟨id, false⟩ (.expr expr rootScope)
      fun v => .ask (.remember id v) fun _ => next v) outcome shared later ∧ P outcome later) :
    ∃ outcome later, s.Yields shared memory (.memoized id expr next) outcome shared later ∧
      P outcome later := by
  obtain ⟨outcome, later, yields, ends⟩ := rest
  refine ⟨outcome, later, .ask ?_, ends⟩
  simp only [Setting.serve, kept]
  exact yields

end Memoized

/-- Whatever the run without the node cache comes to, unless it is the ceiling on calls, the run
with it comes to as well. -/
theorem simulate (cacheable : s.Cacheable) {memory' later' : Memory} {plan' : Plan Next}
    {outcome' : Except Fault Value} {shared' : Shared σ}
    (yields' : s.uncached.Yields shared memory' plan' outcome' shared' later')
    (unlimited : Unlimited outcome') {w : Stage} {memory : Memory} {plan : Plan Next}
    (plans : (likeness s).Plans (likeness s).Nexts w plan plan')
    (stands : Evinced s shared w memory memory') :
    ∃ outcome later, s.Yields shared memory plan outcome shared later ∧
      Ends s shared w memory memory' outcome later outcome' later' := by
  have handlers' : ∀ name, s.uncached.handler? name = none := cacheable.handlers
  have alike {w : Stage} {job job' : Job} (jobs : (likeness s).Jobs w job job') :
      (likeness s).Plans (likeness s).Nexts w (s.plan job) (s.uncached.plan job') :=
    (likeness s).plan_alike (like cacheable) jobs
  have root : (likeness s).scope .bare rootScope rootScope :=
    ⟨⟨rfl, rfl⟩, Iff.rfl, fun _ => trivial⟩
  induction yields' generalizing w memory plan with
  | value =>
    cases plans with
    | done related =>
      cases related with
      | value values => exact ⟨_, _, .value, .ok values stands.moves_self⟩
  | job _ ih =>
    cases plans with
    | done related =>
      cases related with
      | job jobs =>
        obtain ⟨outcome, later, yields, ends⟩ := ih unlimited (alike jobs) stands
        exact ⟨outcome, later, .job yields, ends⟩
  | fail =>
    cases plans with
    | fail faults => exact ⟨_, _, .fail, .error fun exact => by rw [faults exact]⟩
  | eval first' rest' first rest =>
    obtain rfl := first'.shared_eq handlers'
    cases plans with
    | eval jobs next =>
      obtain ⟨outcome, later, yields, ends⟩ := first (.ok _) (alike jobs) stands
      cases ends with
      | error same => exact ⟨_, _, .evalFail yields, .error fun exact => nomatch same exact⟩
      | ok values moves =>
        obtain ⟨outcome, last, further, ends⟩ :=
          rest unlimited (next _ _ _ moves.le values) moves.stands
        exact ⟨outcome, last, .eval yields further, moves.ends ends⟩
  | evalFail first' first =>
    cases plans with
    | eval jobs next =>
      obtain ⟨outcome, later, yields, ends⟩ := first unlimited (alike jobs) stands
      cases ends with
      | error same => exact ⟨_, _, .evalFail yields, .error same⟩
  | full => exact absurd rfl (unlimited _ _ rfl)
  | @call shared memory' site job' next' v' shared₁ later₁ outcome' shared' later' free first' rest'
      first rest =>
    obtain rfl := first'.shared_eq handlers'
    cases plans with
    | call jobs next =>
      exact stands.call_ok free first' (first (.ok _) (alike jobs) (stands.enterCall site))
        fun w₁ v later _ values _ after => rest unlimited (next _ _ _ after.le values) after.stands
    | @memo _ id expr next _ _ node allowed scope further =>
      cases kept : memory.kept.lookup id with
      | some v =>
        obtain ⟨v₁, w₁, same, values, moves⟩ := stands.recollect (scope.2.2 rfl) node kept first'
          fun before begun => first (.ok _) (alike (.expr allowed root)) begun
        cases same
        obtain ⟨outcome, last, yields, ends⟩ :=
          rest unlimited (further _ _ _ moves.le values) moves.stands
        exact ⟨outcome, last, yields_kept kept yields, moves.ends ends⟩
      | none =>
        have body := first (.ok _) (alike (.expr allowed scope)) (stands.enterCall ⟨id, false⟩)
        refine yields_anew kept (stands.call_ok free first' body ?_)
        intro w₁ v later body values _ after
        have root := after.first.restrict stands.fence_bounds.1
        have held := after.stands.remember (after.stands.evidence node body stands.settled root
          (stands.active.trans (stands.idle (scope.2.2 rfl))) rfl)
        obtain ⟨outcome, last, yields, ends⟩ :=
          rest unlimited (further _ _ _ (after.le.trans held.le) values) held.stands
        exact ⟨outcome, last, .ask yields, held.ends ends⟩
  | @callFail shared memory' site job' next' fault shared' later' free first' first =>
    obtain rfl := first'.shared_eq handlers'
    cases plans with
    | call jobs next =>
      exact stands.call_fail free first'
        (first unlimited.of_attach (alike jobs) (stands.enterCall site))
    | @memo _ id expr next _ _ node allowed scope further =>
      cases kept : memory.kept.lookup id with
      | some v =>
        obtain ⟨_, _, same, -, -⟩ := stands.recollect (scope.2.2 rfl) node kept first'
          fun before begun => first unlimited.of_attach (alike (.expr allowed root)) begun
        cases same
      | none =>
        have body := first unlimited.of_attach (alike (.expr allowed scope))
          (stands.enterCall ⟨id, false⟩)
        exact yields_anew kept (stands.call_fail free first' body)
  | @ask shared _ _ _ _ _ _ _ ih =>
    cases plans with
    | ask queries next =>
      obtain ⟨w₁, moves, answers, same, same'⟩ := stands.serve (codes s) queries shared
      rw [same'] at ih
      obtain ⟨outcome, last, yields, ends⟩ :=
        ih unlimited (next _ _ _ moves.le answers) moves.stands
      refine ⟨outcome, last, .ask ?_, moves.ends ends⟩
      rwa [same]
    | copy copying _ _ => exact copying.elim

end NodeCache
end LayeredIR
