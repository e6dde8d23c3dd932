import LayeredIR.Proofs.NodeCache.Involved

/-! A run with the node cache, followed by one without that begins where the root scope need not
bind the same names. If the first one comes to a value, the second comes to what stands for it, or
fails for want of room for calls, as long as the two root scopes agree on the names that the code
may look up. Kept values are taken to stand for what their nodes come to in any such run. -/
namespace LayeredIR

def Limited (outcome : Except Fault Value) : Prop :=
  ∃ fault limit, outcome = .error fault ∧ fault.cause = .recursionLimitExceeded limit

theorem Limited.attach {fault : Fault} (limited : Limited (.error fault)) (stack : CallStack) :
    Limited (.error (stack.attach fault)) := by
  obtain ⟨_, limit, ⟨⟩, cause⟩ := limited
  exact ⟨_, limit, rfl, (stack.attach_cause fault).trans cause⟩

/-- A call comes to what its body and then its rest come to, unless there is no room for it, or for
the calls of its body. -/
theorem Setting.Yields.call_or_limited {σ : Type} {s : Setting σ} {shared : Shared σ}
    {memory : Memory} {site : CallSite} {job : Job} {next : Value → Plan Next}
    {P : Except Fault Value → Memory → Prop}
    (limited : ∀ outcome last, Limited outcome → P outcome last)
    (body : ∃ outcome later,
      s.Yields shared (memory.enter site) (s.plan job) outcome shared later ∧
      (Limited outcome ∨ ∃ v, outcome = .ok v ∧ ∃ outcome last,
        s.Yields shared (later.leave site.isDefinition) (next v) outcome shared last ∧
          P outcome last)) :
    ∃ outcome last, s.Yields shared memory (.call site job next) outcome shared last ∧
      P outcome last := by
  cases full : memory.stack.isFull with
  | true => exact ⟨_, _, .full full, limited _ _ ⟨_, _, rfl, rfl⟩⟩
  | false =>
    obtain ⟨outcome, later, first, unroomy | ⟨v, rfl, outcome, last, rest, holds⟩⟩ := body
    · obtain ⟨fault, limit, rfl, cause⟩ := unroomy
      exact ⟨_, _, .callFail full first,
        limited _ _ (Limited.attach ⟨fault, limit, rfl, cause⟩ _)⟩
    · exact ⟨outcome, last, .call full first rest, holds⟩

namespace NodeCache

variable {σ : Type}

section Replays

variable (s : Setting σ) (shared : Shared σ)

structure Echoes (reads : String → Prop) (fence : Nat) (heap : Heap) (v : Value)
    (memory' later' : Memory) (v' : Value) (scopes : ScopeId → ScopeId → Prop) : Prop where
  values : (resemblanceOf s (s.Replayable reads)).value scopes v v'
  tracks : Tracks s (s.Replayable reads) reads scopes heap later'.heap
  older : ∀ a b, scopes a b → a < fence
  newer : memory'.heap.Extends memory'.heap.size later'.heap

/-- Evaluated without the node cache where the root scope agrees on all names that it may look up, a
node comes to what stands for a value, or meets the ceiling on calls. -/
def Replays (fence : Nat) (heap : Heap) (id : String) (v : Value) : Prop :=
  ∃ expr, s.nodes.get? id = some expr ∧ (s.Plain id → ∀ memory', memory'.active = [] →
    heap.RootsAgree (s.Looks id) memory'.heap → ∃ outcome' later',
      s.uncached.Yields shared memory' (s.uncached.plan (.expr expr rootScope)) outcome' shared
        later' ∧
      (Limited outcome' ∨ ∃ v' scopes, outcome' = .ok v' ∧
        Echoes s (s.Looks id) fence heap v memory' later' v' scopes))

variable {s shared}

theorem Replays.mono {fence fence' : Nat} {heap heap' : Heap} {id : String} {v : Value}
    (replays : Replays s shared fence heap id v) (positive : rootScope < fence)
    (le : fence ≤ fence') (extends_ : heap.Extends fence heap') :
    Replays s shared fence' heap' id v := by
  obtain ⟨expr, node, runs⟩ := replays
  refine ⟨expr, node, fun plain memory' inactive agree => ?_⟩
  have agreed := agree.congr (extends_.same rootScope positive).symm rfl
  obtain ⟨outcome', later', yields, ends⟩ := runs plain memory' inactive agreed
  refine ⟨outcome', later', yields, ends.imp_right fun echoed => ?_⟩
  obtain ⟨v', scopes, same, echoes⟩ := echoed
  exact ⟨v', scopes, same, echoes.values, echoes.tracks.extends_ positive echoes.older extends_,
    fun a b related => Nat.lt_of_lt_of_le (echoes.older a b related) le, echoes.newer⟩

/-- A name is defined in the root scope that the node does not look up, or that has the same value
already. -/
theorem Replays.define {heap : Heap} {bindings : Bindings} {id name : String} {v : Value}
    {l : Literal} (replays : Replays s shared heap.size heap id v)
    (root : heap.get? rootScope = some ⟨bindings, none⟩) (literal : bindings.AllLiteral)
    (unread : s.Looks id name → heap.lookup rootScope name = some (.ofLiteral l))
    (mutability : Mutability) :
    Replays s shared (heap.define rootScope name ⟨.ofLiteral l, mutability⟩).size
      (heap.define rootScope name ⟨.ofLiteral l, mutability⟩) id v := by
  obtain ⟨expr, node, runs⟩ := replays
  refine ⟨expr, node, fun plain memory' inactive agree => ?_⟩
  have same : heap.RootsAgree (s.Looks id) _ := .define root literal unread mutability
  obtain ⟨outcome', later', yields, ends⟩ := runs plain memory' inactive (same.trans agree)
  refine ⟨outcome', later', yields, ends.imp_right fun echoed => ?_⟩
  obtain ⟨v', scopes, ended, echoes⟩ := echoed
  have bound : rootScope < memory'.heap.size := by
    obtain ⟨_, _, -, root', -⟩ := agree
    exact Heap.lt_size_of_get? root'
  have agree' := agree.congr rfl (echoes.newer.same rootScope bound)
  rw [Heap.size_define]
  exact ⟨v', scopes, ended, echoes.values, echoes.tracks.define_root agree', echoes.older,
    echoes.newer⟩

variable (s shared)

def sound : Warrant where
  holds fence heap kept := ∀ id v, kept.lookup id = some v → Replays s shared fence heap id v
  mono positive held le extends_ id v found := (held id v found).mono positive le extends_

variable {s shared}

theorem sound_cons {fence : Nat} {heap : Heap} {kept : List (String × Value)}
    (held : (sound s shared).holds fence heap kept) {id : String} {v : Value}
    (replays : Replays s shared fence heap id v) :
    (sound s shared).holds fence heap ((id, v) :: kept) := by
  intro other u found
  rw [List.lookup_cons] at found
  split at found
  · next same =>
    cases found
    cases eq_of_beq same
    exact replays
  · exact held other u found

end Replays

section Mirrors

variable (s : Setting σ) (shared : Shared σ) (reads : String → Prop)

inductive Mirrors (w : Stage) (memory memory' : Memory) (v : Value) :
    Shared σ → Memory → Except Fault Value → Memory → Prop
  | ok {later v' later' w'} (values : (resemblanceOf s (s.Replayable reads)).value w'.scopes v v')
    (moves : Moves s (s.Replayable reads) reads (sound s shared) w memory memory' w' later later') :
    Mirrors w memory memory' v shared later (.ok v') later'
  | limited {shared' later outcome' later'} (limited : Limited outcome') :
    Mirrors w memory memory' v shared' later outcome' later'

variable {s shared reads}

theorem Moves.mirrors {w w₁ : Stage} {memory memory' later later' last last' : Memory} {v : Value}
    {shared' : Shared σ} {outcome' : Except Fault Value}
    (moves : Moves s (s.Replayable reads) reads (sound s shared) w memory memory' w₁ later later')
    (ends : Mirrors s shared reads w₁ later later' v shared' last outcome' last') :
    Mirrors s shared reads w memory memory' v shared' last outcome' last' := by
  cases ends with
  | ok values further => exact .ok values (moves.trans further)
  | limited limited => exact .limited limited

/-- Where the run of a node has been followed from any root scope that agrees, its value is what the
node comes to. -/
theorem replays_of_mirrors {id : String} {expr : Expr} {v : Value} {before after : Memory}
    (node : s.nodes.get? id = some expr)
    (kept : (sound s shared).holds before.heap.size before.heap before.kept)
    (inactive : before.active = []) {shared' : Shared σ}
    (root : before.heap.Extends (rootScope + 1) after.heap)
    (runs : s.Plain id → ∀ memory',
      Stands s (s.Replayable (s.Looks id)) (s.Looks id) (sound s shared) .bare before memory' →
      ∃ outcome' later', s.uncached.Yields shared memory' (s.uncached.plan (.expr expr rootScope))
          outcome' shared later' ∧
        Mirrors s shared (s.Looks id) .bare before memory' v shared' after outcome' later') :
    Replays s shared after.heap.size after.heap id v := by
  refine ⟨expr, node, fun plain memory' inactive' agree => ?_⟩
  have agreed := agree.congr (root.same rootScope (Nat.lt_succ_self _)).symm rfl
  obtain ⟨outcome', later', yields, ends⟩ :=
    runs plain memory' (.anew agreed kept inactive inactive')
  refine ⟨outcome', later', yields, ?_⟩
  cases ends with
  | limited limited => exact .inl limited
  | @ok _ v' _ w' values moves =>
    have tracks := moves.stands.heap
    exact .inr ⟨v', w'.scopes, rfl, values, tracks, fun a b same => (tracks.within a b same).1,
      moves.second⟩

end Mirrors

section Beside

/-- The run with the node cache beside the other one, between two requests. A node that is not kept
yet is called, then its value is kept. -/
inductive Beside (L : Likeness Stage) (warranted : String → Value → Prop) (w : Stage) :
    Plan Next → Plan Next → Prop
  | plans {plan plan'} (plans : L.Plans L.Nexts w plan plan') : Beside L warranted w plan plan'
  | called {id expr} {next next' : Value → Plan Next} (node : L.node id expr)
    (allowed : L.allowedForm expr) (root : L.scope w rootScope rootScope)
    (rest : ∀ w' v v', w ≤ w' → L.value w' v v' → L.Plans L.Nexts w' (next v) (next' v')) :
    Beside L warranted w
      (.call ⟨id, false⟩ (.expr expr rootScope) fun v => .ask (.remember id v) fun _ => next v)
      (.call ⟨id, false⟩ (.expr expr rootScope) next')
  | kept {id v plan plan'} (held : warranted id v)
    (rest : ∀ w', w ≤ w' → L.Plans L.Nexts w' plan plan') :
    Beside L warranted w (.ask (.remember id v) fun _ => plan) plan'

variable {L : Likeness Stage} {warranted : String → Value → Prop} {w : Stage} {job : Job}
  {next : Value → Plan Next} {plan' : Plan Next}

theorem Beside.of_job (beside : Beside L warranted w (.done (.job job)) plan') :
    ∃ job', plan' = .done (.job job') ∧ L.Jobs w job job' := by
  cases beside with
  | plans plans =>
    cases plans with
    | done related =>
      cases related with
      | job jobs => exact ⟨_, rfl, jobs⟩

theorem Beside.of_eval (beside : Beside L warranted w (.eval job next) plan') :
    ∃ job' next', plan' = .eval job' next' ∧ L.Jobs w job job' ∧
      ∀ w' v v', w ≤ w' → L.value w' v v' → L.Plans L.Nexts w' (next v) (next' v') := by
  cases beside with
  | plans plans =>
    cases plans with
    | eval jobs rest => exact ⟨_, _, rfl, jobs, rest⟩

end Beside

section Following

variable {s : Setting σ} {shared : Shared σ} {reads : String → Prop} {w : Stage}
  {memory memory' : Memory}
  (stands : Stands s (s.Replayable reads) reads (sound s shared) w memory memory')
include stands

/-- A value that is kept stands for what the second run comes to when it evaluates the node. -/
theorem Stands.replay (feeds : s.Feeds (s.Replayable reads)) (idle : w.idle) {id : String}
    {expr : Expr} (node : s.nodes.get? id = some expr)
    (replayable : s.Replayable reads (.inline expr)) {v : Value}
    (kept : memory.kept.lookup id = some v) :
    ∃ outcome' later', s.uncached.Yields shared (memory'.enter ⟨id, false⟩)
        (s.uncached.plan (.expr expr rootScope)) outcome' shared later' ∧
      (Limited outcome' ∨ ∃ v' w₁, outcome' = .ok v' ∧
        (resemblanceOf s (s.Replayable reads)).value w₁.scopes v v' ∧
        Moves s (s.Replayable reads) reads (sound s shared) w memory memory' w₁ memory
          (later'.leave false)) := by
  have whole := replayable.of_node node
  have fewer (name : String) (looks : s.Looks id name) : reads name := looks.reads feeds whole
  obtain ⟨expr', node', runs⟩ := stands.settled id v kept
  cases node.symm.trans node'
  obtain ⟨outcome', later', yields, ends⟩ := runs (plain_of_replayable feeds whole)
    (memory'.enter ⟨id, false⟩) (stands.idle idle) (stands.heap.roots.imp fewer)
  refine ⟨outcome', later', yields, ends.imp_right fun echoed => ?_⟩
  obtain ⟨v', scopes, same, echoes⟩ := echoed
  have calls := Setting.Yields.leave_enter ⟨id, false⟩ later' yields.calls.1 yields.calls.2
  have more (arg : Arg) (code : s.Replayable (s.Looks id) arg) : s.Replayable reads arg :=
    code.mono fewer
  have roots : memory.heap.RootsAgree reads later'.heap := stands.heap.roots.congr rfl
    (echoes.newer.same rootScope stands.heap.root_lt.2)
  have further := echoes.tracks.imp more roots
  exact ⟨v', w.join scopes, same, value_mono (fun _ _ => .inr) (value_imp more echoes.values),
    stands.reuse further echoes.newer calls⟩

/-- A call that both runs make, unless the second has no room for it. -/
theorem Stands.mirror_call {site : CallSite} {job' : Job} {next' : Value → Plan Next}
    {shared₁ shared₂ : Shared σ} {u v : Value} {later last : Memory}
    (calls : later.stack = (memory.enter site).stack ∧ later.active = (memory.enter site).active)
    (body : ∃ outcome' later', s.uncached.Yields shared (memory'.enter site)
        (s.uncached.plan job') outcome' shared later' ∧
      Mirrors s shared reads (w.within site) (memory.enter site) (memory'.enter site) u shared₁
        later outcome' later')
    (rest : shared₁ = shared → ∀ w₁ u' later',
      (resemblanceOf s (s.Replayable reads)).value w₁.scopes u u' →
      Moves s (s.Replayable reads) reads (sound s shared) (w.within site) (memory.enter site)
        (memory'.enter site) w₁ later later' →
      Moves s (s.Replayable reads) reads (sound s shared) w memory memory' (w₁.back w.idle)
        (later.leave site.isDefinition) (later'.leave site.isDefinition) →
      ∃ outcome' last', s.uncached.Yields shared (later'.leave site.isDefinition) (next' u')
          outcome' shared last' ∧
        Mirrors s shared reads (w₁.back w.idle) (later.leave site.isDefinition)
          (later'.leave site.isDefinition) v shared₂ last outcome' last') :
    ∃ outcome' last', s.uncached.Yields shared memory' (.call site job' next') outcome' shared
        last' ∧
      Mirrors s shared reads w memory memory' v shared₂ last outcome' last' := by
  refine Setting.Yields.call_or_limited (fun _ _ => .limited) ?_
  obtain ⟨outcome', later', yields, ends⟩ := body
  refine ⟨outcome', later', yields, ?_⟩
  cases ends with
  | limited limited => exact .inl limited
  | ok values moves =>
    have after := stands.leaveCall moves calls yields.calls
    obtain ⟨outcome', last', further, ends⟩ := rest rfl _ _ _ values moves after
    exact .inr ⟨_, rfl, outcome', last', further, after.mirrors ends⟩

end Following

/-- The code of a node, in the root scopes alone. -/
theorem node_plans {s : Setting σ} (layer : s.layer = .air ∨ s.layer = .cir)
    (detached : s.Detached) {id : String} {expr : Expr}
    (node : s.nodes.get? id = some expr) (plain : s.Plain id) :
    (replaying s (s.Looks id)).Plans (replaying s (s.Looks id)).Nexts .bare
      (s.plan (.expr expr rootScope)) (s.uncached.plan (.expr expr rootScope)) := by
  have root : (replaying s (s.Looks id)).scope .bare rootScope rootScope :=
    ⟨⟨rfl, rfl⟩, Iff.rfl, fun _ => trivial⟩
  exact (replaying s (s.Looks id)).plan_alike
    (replaying_settings layer (plain.feeds detached)) (.expr (plain.expr node) root)

/-- A run with the node cache that comes to a value, followed by one without. -/
theorem mirror {s : Setting σ} (layer : s.layer = .air ∨ s.layer = .cir)
    (detached : s.Detached)
    {shared shared' : Shared σ} {memory later : Memory} {plan : Plan Next}
    {outcome : Except Fault Value} (yields : s.Yields shared memory plan outcome shared' later)
    {v : Value} (ended : outcome = .ok v) {reads : String → Prop}
    (feeds : s.Feeds (s.Replayable reads)) {w : Stage} {memory' : Memory} {plan' : Plan Next}
    (beside : Beside (replaying s reads) (Replays s shared memory.heap.size memory.heap) w plan
      plan')
    (stands : Stands s (s.Replayable reads) reads (sound s shared) w memory memory') :
    ∃ outcome' later', s.uncached.Yields shared memory' plan' outcome' shared later' ∧
      Mirrors s shared reads w memory memory' v shared' later outcome' later' := by
  have alike {reads : String → Prop} (feeds : s.Feeds (s.Replayable reads)) {w : Stage}
      {job job' : Job} (jobs : (replaying s reads).Jobs w job job') :
      (replaying s reads).Plans (replaying s reads).Nexts w (s.plan job)
        (s.uncached.plan job') :=
    (replaying s reads).plan_alike (replaying_settings layer feeds) jobs
  induction yields generalizing v reads w memory' plan' with
  | value =>
    cases ended
    cases beside with
    | plans plans =>
      cases plans with
      | done related =>
        cases related with
        | value values => exact ⟨_, _, .value, .ok values stands.moves_self⟩
  | job _ ih =>
    obtain ⟨job', rfl, jobs⟩ := beside.of_job
    obtain ⟨outcome', later', yields, ends⟩ := ih ended feeds (.plans (alike feeds jobs)) stands
    exact ⟨outcome', later', .job yields, ends⟩
  | fail | evalFail | full | callFail => cases ended
  | eval _ _ first rest =>
    obtain ⟨job', next', rfl, jobs, next⟩ := beside.of_eval
    obtain ⟨outcome', later', yields, ends⟩ := first rfl feeds (.plans (alike feeds jobs)) stands
    cases ends with
    | limited limited =>
      obtain ⟨fault, limit, rfl, cause⟩ := limited
      exact ⟨_, _, .evalFail yields, .limited ⟨fault, limit, rfl, cause⟩⟩
    | ok values moves =>
      obtain ⟨outcome', last', further, ends⟩ :=
        rest ended feeds (.plans (next _ _ _ moves.le values)) moves.stands
      exact ⟨outcome', last', .eval yields further, moves.mirrors ends⟩
  | @call shared memory site job next u shared₁ memory₁ outcome shared₂ later free first' rest'
      first rest =>
    cases beside with
    | plans plans =>
      cases plans with
      | call jobs next =>
        refine stands.mirror_call first'.calls
          (first rfl feeds (.plans (alike feeds jobs)) (stands.enterCall site)) ?_
        rintro rfl w₁ u' later' values - after
        exact rest ended feeds (.plans (next _ _ _ after.le values)) after.stands
    | @called id expr next next' node allowed scope further =>
      have inactive := stands.active.trans (stands.idle (scope.2.2 rfl))
      refine stands.mirror_call first'.calls
        (first rfl feeds (.plans (alike feeds (.expr allowed scope)))
          (stands.enterCall ⟨id, false⟩)) ?_
      rintro rfl w₁ u' later' values - after
      have replays : Replays s shared₁ memory₁.heap.size memory₁.heap id u := by
        have old := after.first.restrict stands.fence_bounds.1
        have settled := (stands.enterCall ⟨id, false⟩).settled
        exact replays_of_mirrors node settled inactive old fun plain before begun =>
          first rfl (plain.feeds detached) (.plans (node_plans layer detached node plain)) begun
      have goes (w' : Stage) (le : w₁.back w.idle ≤ w') := further w' _ _ (after.le.trans le)
        ((replaying s reads).value_mono le values)
      exact rest ended feeds (.kept replays goes) after.stands
  | @ask shared memory q next outcome shared' later rest' ih =>
    cases beside with
    | plans plans =>
      generalize asked : Plan.ask q next = plan at plans
      cases plans with
      | ask queries next =>
        cases asked
        obtain ⟨w₁, moves, answers, same, same'⟩ :=
          stands.serve (replayCodes s reads) queries shared
        rw [same] at ih
        obtain ⟨outcome', last', further, ends⟩ :=
          ih ended feeds (.plans (next _ _ _ moves.le answers)) moves.stands
        refine ⟨outcome', last', .ask ?_, moves.mirrors ends⟩
        rwa [same']
      | @memo _ id expr next _ _ node allowed scope further =>
        unfold Plan.memoized at asked
        cases asked
        simp only [Setting.serve] at ih
        cases kept : memory.kept.lookup id with
        | some u =>
          rw [kept] at ih
          obtain ⟨outcome', later', yields, ends⟩ :=
            stands.replay feeds (scope.2.2 rfl) node allowed kept
          refine Setting.Yields.call_or_limited (fun _ _ => .limited)
            ⟨outcome', later', yields, ends.imp_right fun answered => ?_⟩
          obtain ⟨u', w₁, same, values, moves⟩ := answered
          obtain ⟨outcome', last', rest, ends⟩ :=
            ih ended feeds (.plans (further _ _ _ moves.le values)) moves.stands
          exact ⟨u', same, outcome', last', rest, moves.mirrors ends⟩
        | none =>
          rw [kept] at ih
          exact ih ended feeds (.called node allowed scope further) stands
      | copy copying => exact copying.elim
      | _ => cases asked
    | kept replays rest =>
      have moves := stands.remember (sound_cons stands.settled replays)
      obtain ⟨outcome', last', further, ends⟩ :=
        ih ended feeds (.plans (rest _ moves.le)) moves.stands
      exact ⟨outcome', last', further, moves.mirrors ends⟩

end NodeCache
end LayeredIR
