import LayeredIR.Interpreter
import LayeredIR.Proofs.NodeCache.Upkeep
import LayeredIR.Proofs.Value.Distinct

/-! Interpreters of the first two layers over their whole lives. Between evaluations, names may be
defined in the root scope, and the node cache is not told. A value that was kept stays what its node
comes to, as long as no name that its code may look up is given another value. -/
namespace LayeredIR

/-- How the evaluation of a node ends that a kept value is up to date with. The values are the same
element, unless they have closures, which are compared by what they capture. -/
def Layer.Confirms (layer : Layer) (heap : Heap) (v : Value) (outcome : Except Fault Value)
    (heap' : Heap) : Prop :=
  Limited outcome ∨ ∃ v', outcome = .ok v' ∧ layer.Agrees heap heap' v v' ∧
    ((layer.hasClosures → v.ClosureFree) → v.sameElement v' = true)

theorem NodeCache.Echoes.confirms {σ : Type} {s : Setting σ} {reads : String → Prop} {fence : Nat}
    {heap : Heap} {v v' : Value} {memory' later' : Memory} {scopes : ScopeId → ScopeId → Prop}
    (echoes : NodeCache.Echoes s reads fence heap v memory' later' v' scopes) {bindings : Bindings}
    (root : heap.get? rootScope = some ⟨bindings, none⟩)
    (root' : memory'.heap.get? rootScope = some ⟨bindings, none⟩)
    (literal : bindings.AllLiteral) : s.layer.Confirms heap v (.ok v') later'.heap := by
  have same := (echoes.newer.same rootScope (Heap.lt_size_of_get? root')).trans root'
  refine .inr ⟨v', rfl, echoes.tracks.agrees root same literal echoes.values, fun free => ?_⟩
  have equal : v = v' := by
    have values := echoes.values
    cases closures : s.layer.hasClosures with
    | true =>
      rw [NodeCache.value_of_closures closures] at values
      exact values.eq_of_closureFree (free closures)
    | false => rwa [NodeCache.value_of_plain closures] at values
  rw [← equal]
  exact v.sameElement_refl

namespace Interpreter

variable {σ : Type}

def defineRoot (i : Interpreter σ) (name : String) (l : Literal) (mutability : Mutability) :
    Interpreter σ :=
  (i.withHeap fun heap => ((), heap.define rootScope name ⟨.ofLiteral l, mutability⟩)).2

def uncached (i : Interpreter σ) : Interpreter σ := { i with setting := i.setting.uncached }

/-- The states that an interpreter may come to while names are defined in its root scope, those that
are admitted, and operands are evaluated there. -/
inductive Session (s : Setting σ) (host : σ) (admits : Interpreter σ → String → Literal → Prop) :
    Interpreter σ → Prop
  | new : Session s host admits (.new s host)
  | define {i name l} (before : Session s host admits i) (admitted : admits i name l)
    (mutability : Mutability) : Session s host admits (i.defineRoot name l mutability)
  | eval {i fuel arg outcome i'} (before : Session s host admits i)
    (ran : i.run fuel (.operand arg rootScope) = some (outcome, i')) : Session s host admits i'

/-- The code of no node whose value is kept looks a name up, unless it has the value already. -/
def Unread (i : Interpreter σ) (name : String) (l : Literal) : Prop :=
  ∀ id v, i.memory.kept.lookup id = some v → i.setting.Looks id name →
    i.memory.heap.lookup rootScope name = some (.ofLiteral l)

/-- A value is kept for a node that is not the one that it comes to now. -/
def Stale (i : Interpreter σ) (id : String) : Prop :=
  ∃ v v' fuel i', i.memory.kept.lookup id = some v ∧
    i.uncached.run fuel (.operand (.id id) rootScope) = some (.ok v', i') ∧
    v.sameElement v' = false

structure Settled (s : Setting σ) (host : σ) (i : Interpreter σ) : Prop where
  setting : i.setting = s
  shared : i.shared = ⟨.empty, 0, host⟩
  root : ∃ bindings, i.memory.heap.get? rootScope = some ⟨bindings, none⟩ ∧ bindings.AllLiteral
  inactive : i.memory.active = []
  kept : (NodeCache.sound s i.shared).holds i.memory.heap.size i.memory.heap i.memory.kept

namespace Settled

variable {s : Setting σ} {host : σ} {i i' : Interpreter σ}

theorem new (s : Setting σ) (host : σ) : Settled s host (.new s host) where
  setting := rfl
  shared := rfl
  root := ⟨[], rfl, List.forall_mem_nil _⟩
  inactive := rfl
  kept _ _ := nofun

theorem define (settled : Settled s host i) {name : String} {l : Literal}
    (unread : i.Unread name l) (mutability : Mutability) :
    Settled s host (i.defineRoot name l mutability) := by
  obtain ⟨setting, memory, shared⟩ := i
  obtain ⟨rfl, rfl, ⟨bindings, root, literal⟩, inactive, kept⟩ := settled
  refine ⟨rfl, rfl, ⟨bindings.set name ⟨.ofLiteral l, mutability⟩, ?_, literal.set _ _ _⟩, inactive,
    fun id v found => ?_⟩
  · refine (Heap.get?_define ..).trans ?_
    rw [if_pos rfl, root]
    rfl
  · exact (kept id v found).define root literal (unread id v found) mutability

/-- Whatever is evaluated, and whether it fails, the interpreter is left as it should be. -/
theorem eval (layer : s.layer = .air ∨ s.layer = .cir) (detached : s.Detached)
    (settled : Settled s host i) {fuel : Nat} {arg : Arg} {outcome : Except Fault Value}
    (ran : i.run fuel (.operand arg rootScope) = some (outcome, i')) : Settled s host i' := by
  obtain ⟨setting, memory, shared⟩ := i
  obtain ⟨rfl, rfl, ⟨bindings, root, literal⟩, inactive, kept⟩ := settled
  obtain ⟨⟨_, _, later⟩, ended, same⟩ := Option.map_eq_some_iff.mp ran
  cases same
  have yields := Setting.Yields.of_run_alone ended
  -- every scope stands for itself, and no scope is being filled
  let w : NodeCache.Stage := ⟨Eq, rfl, none, True, False⟩
  have guards : NodeCache.Guards setting ⟨.empty, 0, host⟩ w memory :=
    ⟨fun _ => rfl, fun _ _ => nofun, fun _ => inactive, Heap.lt_size_of_get? root, kept⟩
  have scope : (NodeCache.free setting).scope w rootScope rootScope :=
    ⟨rfl, Iff.rfl, fun _ => trivial⟩
  obtain ⟨rfl, w₁, persists⟩ := NodeCache.upkeep layer detached yields
    (.plans (.done (.job (.operand trivial scope)))) guards
  have root' := (persists.heap.same rootScope guards.root).trans root
  exact ⟨rfl, rfl, ⟨bindings, root', literal⟩, yields.calls.2.trans inactive,
    persists.guards.settled⟩

end Settled

theorem Session.settled {s : Setting σ} {host : σ} (layer : s.layer = .air ∨ s.layer = .cir)
    (detached : s.Detached) {i : Interpreter σ} (session : Session s host Unread i) :
    Settled s host i := by
  induction session with
  | new => exact .new s host
  | define _ unread mutability ih => exact ih.define unread mutability
  | eval _ ran ih => exact ih.eval layer detached ran

/-- A value that is kept is what its node comes to without the node cache, as long as no name that
the code of a node may look up has been given another value since its value was kept. -/
theorem Session.kept_agrees {s : Setting σ} {host : σ} (layer : s.layer = .air ∨ s.layer = .cir)
    (detached : s.Detached) {i : Interpreter σ} (session : Session s host Unread i) {id : String}
    {v : Value} (kept : i.memory.kept.lookup id = some v) (plain : s.Plain id) :
    ∃ fuel outcome i', i.uncached.run fuel (.operand (.id id) rootScope) = some (outcome, i') ∧
      s.layer.Confirms i.memory.heap v outcome i'.memory.heap := by
  obtain ⟨rfl, -, ⟨bindings, root, literal⟩, inactive, holds⟩ := session.settled layer detached
  obtain ⟨expr, node, runs⟩ := holds id v kept
  -- only nodes are kept, so that without the node cache the operand is a call of its node
  have called : i.uncached.setting.plan (.operand (.id id) rootScope) =
      .call ⟨id, false⟩ (.expr expr rootScope) fun v => .done (.value v) := by
    have found : i.uncached.setting.nodes.get? id = some expr := node
    change i.uncached.setting.operand (.id id) rootScope = _
    simp only [Setting.operand, found]
    exact Likeness.node_uncached id expr rootScope rfl
  obtain ⟨outcome, last, yields, confirms⟩ : ∃ outcome last,
      i.uncached.setting.Yields i.shared i.memory
        (i.uncached.setting.plan (.operand (.id id) rootScope)) outcome i.shared last ∧
      i.setting.layer.Confirms i.memory.heap v outcome last.heap := by
    rw [called]
    refine Setting.Yields.call_or_limited (fun _ _ => .inl) ?_
    obtain ⟨outcome, later, yields, ends⟩ := runs plain (i.memory.enter ⟨id, false⟩) inactive
      (.self root literal _)
    refine ⟨outcome, later, yields, ends.imp_right fun echoed => ?_⟩
    obtain ⟨v', scopes, same, echoes⟩ := echoed
    have confirms : i.setting.layer.Confirms i.memory.heap v (.ok v') later.heap :=
      echoes.confirms root root literal
    exact ⟨v', same, .ok v', _, .value, confirms⟩
  obtain ⟨fuel, ran⟩ := (Setting.Yields.job yields).exists_run
  exact ⟨fuel, outcome, ⟨i.uncached.setting, last, i.shared⟩,
    Option.map_eq_some_iff.mpr ⟨_, ran, rfl⟩, confirms⟩

def successor : Setting Unit where
  nodes := ⟨[⟨"n", .call none "add" [.inline (.var "x"), .inline (.lit (.int 1))]⟩]⟩
  layer := .cir

theorem involves_successor {part : Arg} (involves : successor.Involves (.id "n") part) :
    part = .id "n" ∨
      part = .inline (.call none "add" [.inline (.var "x"), .inline (.lit (.int 1))]) ∨
      part = .inline (.var "x") ∨ part = .inline (.lit (.int 1)) := by
  induction involves with
  | self => exact .inl rfl
  | operand _ member ih =>
    rcases ih with same | same | same | same <;> cases same
    · simpa [or_assoc] using Or.inr (Or.inr member)
    · simp at member
    · simp at member
  | node _ found ih =>
    rcases ih with same | same | same | same <;> cases same
    cases found
    exact .inr (.inl rfl)
  | ref _ _ ih | definition _ _ ih => rcases ih with same | same | same | same <;> cases same

theorem Session.kept_agrees_successor : ∃ i fuel outcome i',
    Session successor () Unread i ∧ i.memory.kept.lookup "n" = some (.int 2) ∧
      i.memory.heap.lookup rootScope "y" = some (.int 5) ∧
      i.uncached.run fuel (.operand (.id "n") rootScope) = some (outcome, i') ∧
      Layer.cir.Confirms i.memory.heap (.int 2) outcome i'.memory.heap := by
  have runs {part : Arg} (runs : successor.Runs "n" part) : successor.Involves (.id "n") part :=
    runs.resolve_right fun ⟨_, _, member, _⟩ => nomatch member
  have add : ComparesNothing none "add" := by
    have found : Operator.ofName? "add" = some .add := rfl
    intro op same
    cases found.symm.trans same
    exact ⟨nofun, nofun⟩
  have plain : successor.Plain "n" := by
    intro _ ns name args called
    rcases involves_successor (runs called) with same | same | same | same <;> cases same
    exact add
  have apart : ¬ successor.Looks "n" "y" := by
    rintro (named | ⟨-, named⟩) <;>
      rcases involves_successor (runs named) with same | same | same | same <;> simp at same
  let start := (Interpreter.new successor ()).defineRoot "x" (.int 1) .mutable
  have begun : Session successor () Unread start := .define .new (fun _ _ => nofun) .mutable
  obtain ⟨i, ran, setting, kept, bound⟩ : ∃ i,
      start.run 60 (.operand (.id "n") rootScope) = some (.ok (.int 2), i) ∧
      i.setting = successor ∧ i.memory.kept = [("n", .int 2)] ∧
      (i.defineRoot "y" (.int 5) .mutable).memory.heap.lookup rootScope "y" =
        some (.int 5) := ⟨_, rfl, rfl, rfl, rfl⟩
  have unread : i.Unread "y" (.int 5) := by
    intro id v found looks
    rw [setting] at looks
    rw [kept, List.lookup_cons] at found
    split at found
    · next same =>
      cases eq_of_beq same
      exact absurd looks apart
    · cases found
  have session := Session.define (begun.eval ran) unread .mutable
  have held : (i.defineRoot "y" (.int 5) .mutable).memory.kept.lookup "n" = some (.int 2) := by
    change i.memory.kept.lookup "n" = _
    rw [kept]
    rfl
  obtain ⟨fuel, outcome, i', uncached, confirms⟩ :=
    Session.kept_agrees (.inr rfl) (fun _ => List.forall_mem_nil _) session held plain
  exact ⟨_, fuel, outcome, i', session, held, bound, uncached, confirms⟩

def reader : Setting Unit where
  nodes := ⟨[⟨"n", .var "x"⟩]⟩

def thunks : Setting Unit where
  nodes := ⟨[⟨"f", .lambda [] (.inline (.lit .void))⟩,
    ⟨"t", .call none "eq" (.replicate 2 (.inline (.list (.fn [] .void) [.id "f"])))⟩]⟩
  layer := .cir

/-- What is kept for a node need not be what it comes to: where a name that it looks up has been
given another value; where it comes to a closure, which is another one each time; and where it
compares closures. -/
theorem Session.stale :
    (∃ i, Session reader () (fun _ _ _ => True) i ∧ i.Stale "n") ∧
      (∃ i, Session thunks () (fun _ _ _ => False) i ∧ i.Stale "f") ∧
      ∃ i, Session thunks () (fun _ _ _ => False) i ∧ i.Stale "t" := by
  refine ⟨?redefined, ?closure, ?compared⟩
  case redefined =>
    let start := (Interpreter.new reader ()).defineRoot "x" (.int 1) .immutable
    have begun : Session reader () (fun _ _ _ => True) start := .define .new trivial .immutable
    obtain ⟨i, ran, stale⟩ : ∃ i,
        start.run 60 (.operand (.id "n") rootScope) = some (.ok (.int 1), i) ∧
        (i.defineRoot "x" (.int 2) .immutable).Stale "n" :=
      ⟨_, rfl, .int 1, .int 2, 60, _, rfl, rfl, rfl⟩
    exact ⟨_, .define (begun.eval ran) trivial .immutable, stale⟩
  case closure =>
    obtain ⟨v, i, ran, stale⟩ : ∃ v i, (Interpreter.new thunks ()).run 60
        (.operand (.id "f") rootScope) = some (.ok v, i) ∧ i.Stale "f" :=
      ⟨_, _, rfl, _, _, 60, _, rfl, rfl, rfl⟩
    exact ⟨_, .eval .new ran, stale⟩
  case compared =>
    obtain ⟨i, ran, stale⟩ : ∃ i, (Interpreter.new thunks ()).run 60
        (.operand (.id "t") rootScope) = some (.ok (.bool true), i) ∧ i.Stale "t" :=
      ⟨_, rfl, .bool true, .bool false, 60, _, rfl, rfl, rfl⟩
    exact ⟨_, .eval .new ran, stale⟩

end Interpreter
end LayeredIR
