import LayeredIR.Proofs.Likeness.Tasks
import LayeredIR.Proofs.Resemblance.Operations
import Mathlib.Logic.Relation

/-! Memories in step. Under a likeness that says how far the scopes of two runs have come, memories
that have come that far serve like queries alike and stay in step. -/
namespace LayeredIR
namespace Likeness

variable {κ : Type} [Preorder κ] (L : Likeness κ)

/-- A likeness whose scopes correspond one to one, each new scope to the new one of the other run,
and that the domains and the handlers of a setting respect. -/
structure Regular {σ : Type} (s : Setting σ) where
  extent : κ → Nat × Nat
  grow : κ → κ
  le_grow : ∀ w, w ≤ grow w
  extent_grow : ∀ w, extent (grow w) = ((extent w).1 + 1, (extent w).2 + 1)
  within : ∀ {w a b}, L.outer w a b → a < (extent w).1 ∧ b < (extent w).2
  unique : ∀ {w a b a' b'}, L.outer w a b → L.outer w a' b' → (a = a' ↔ b = b')
  outer_mono : ∀ {w w' a b}, w ≤ w' → L.outer w a b → L.outer w' a b
  identity_mono : ∀ {w w' id id'}, w ≤ w' → L.identity w id id' → L.identity w' id id'
  writable_mono : ∀ {w w' a b}, w ≤ w' → L.writable w a b → L.writable w' a b
  outer_grow : ∀ {w a b}, L.outer (grow w) a b →
    a = (extent w).1 ∧ b = (extent w).2 ∨ L.outer w a b
  made : ∀ w, L.Made (grow w) (extent w).1 (extent w).2
  outer_of_writable : ∀ {w a b}, L.writable w a b → L.outer w a b
  fault_mono : ∀ {w w' f f'}, w ≤ w' → L.fault w f f' → L.fault w' f f'
  stacked : Nat → CallStack → CallStack → Prop
  stacked_full : ∀ {n st st'}, stacked n st st' → st.isFull = st'.isFull ∧ st.limit = st'.limit
  stacked_grow : ∀ {n st st'} name, stacked n st st' →
    stacked (n + 1) (st.grow name) (st'.grow name)
  stacked_pop : ∀ {n st st'}, stacked (n + 1) st st' → stacked n st.pop st'.pop
  place_top : ∀ {n st st'} w, stacked n st st' → L.place w st.top? st'.top?
  fault_attach : ∀ {w n st st' f f'}, stacked n st st' → L.fault w f f' →
    L.fault w (st.attach f) (st'.attach f')
  captures : ∀ {w c c'}, L.captured w c c' →
    (∃ a b, c = .shared a ∧ c' = .shared b ∧ L.outer w a b) ∨
      ∃ entries entries', c = .frozen entries ∧ c' = .frozen entries' ∧
        L.Arguments w entries entries'
  mutability_eq : ∀ {m m'}, L.mutability m m' → m = m'
  level : ¬ L.copying
  comparable : L.Comparable
  types : ∀ {w v v'} (futures : Futures), L.value w v v' → futures.typeOf v = futures.typeOf v'
  domains : ∀ d, L.domain d → d.Respects L.value L.operation
  handlers : ∀ {w name handler} futures args args' host, s.handler? name = some handler →
    List.Forall₂ (L.value w) args args' →
    ResultsAlike Eq (L.value w) (handler futures args host).1 (handler futures args' host).1 ∧
      (handler futures args host).2 = (handler futures args' host).2

structure Aligned (extent : κ → Nat × Nat) (stacked : CallStack → CallStack → Prop) (w : κ)
    (memory memory' : Memory) : Prop where
  heap : Heap.Alike (L.value w) (L.outer w) memory.heap memory'.heap
  sizes : extent w = (memory.heap.size, memory'.heap.size)
  identities : ∀ k, L.identity w ((memory.serial + k + 1) :: memory.owner)
    ((memory'.serial + k + 1) :: memory'.owner)
  stack : stacked memory.stack memory'.stack
  active : memory.active = memory'.active
  /-- Kept values count only where the root scope may be evaluated in. -/
  kept : (∃ w, L.scope w rootScope rootScope) → L.Arguments w memory.kept memory'.kept

variable {L} {σ : Type} {s : Setting σ} (R : L.Regular s)

def Later : κ → κ → Prop := Relation.ReflTransGen fun w w' => w' = R.grow w

theorem Later.le {R : L.Regular s} {w w' : κ} (later : Later R w w') : w ≤ w' := by
  induction later with
  | refl => exact le_rfl
  | tail _ grown ih => exact grown ▸ ih.trans (R.le_grow _)

theorem later_grow (w : κ) : Later R w (R.grow w) := .single rfl

section Mono

variable {w w' : κ} (le : w ≤ w')
include le

theorem entries_mono {bindings bindings' : Bindings} (entries : L.Entries w bindings bindings') :
    L.Entries w' bindings bindings' := entries.mono fun _ _ => L.value_mono le

theorem jobs_mono {job job' : Job} (jobs : L.Jobs w job job') : L.Jobs w' job job' := by
  cases jobs with
  | operand allowed scope => exact .operand allowed (L.scope_mono le scope)
  | expr allowed scope => exact .expr allowed (L.scope_mono le scope)
  | apply applicable callees operands =>
    exact .apply applicable (L.value_mono le callees) (L.values_mono le operands)
  | block flow registers => exact .block flow (L.scope_mono le registers)

theorem nexts_mono {next next' : Next} (nexts : L.Nexts w next next') : L.Nexts w' next next' := by
  cases nexts with
  | value values => exact .value (L.value_mono le values)
  | job jobs => exact .job (jobs_mono le jobs)

include R in
theorem queries_mono {q q' : Query} (queries : L.Queries w q q') : L.Queries w' q q' := by
  cases queries with
  | lookup reads scope => exact .lookup reads (L.scope_mono le scope)
  | define writable mutabilities values =>
    exact .define (R.writable_mono le writable) mutabilities (L.value_mono le values)
  | assign mutation scope values =>
    exact .assign mutation (L.scope_mono le scope) (L.value_mono le values)
  | child outer => exact .child (R.outer_mono le outer)
  | enter applicable captured => exact .enter applicable (L.captured_mono le captured)
  | flatten plain snapshots scope => exact .flatten plain snapshots (L.scope_mono le scope)
  | fresh => exact .fresh
  | isActive => exact .isActive
  | innermost => exact .innermost
  | recollect plain root => exact .recollect plain (L.scope_mono le root)
  | remember plain root values =>
    exact .remember plain (L.scope_mono le root) (L.value_mono le values)
  | compute permitted operands => exact .compute permitted (L.values_mono le operands)
  | dispatch known permitted operands =>
    exact .dispatch known permitted (L.values_mono le operands)
  | perform effects operands => exact .perform effects (L.values_mono le operands)

include R in
theorem plans_mono {p p' : Plan Next} (plans : L.Plans L.Nexts w p p') :
    L.Plans L.Nexts w' p p' := by
  cases plans with
  | done related => exact .done (nexts_mono le related)
  | fail faults =>
    exact .fail (R.fault_mono le faults)
  | @call _ site _ _ _ _ jobs rest =>
    refine .call ?_ fun w'' v v' le' => rest w'' v v' (le.trans le')
    by_cases inside : site.isDefinition = true
    · rw [if_pos inside] at jobs ⊢
      exact jobs_mono (L.inside_mono le) jobs
    · rw [if_neg inside] at jobs ⊢
      exact jobs_mono le jobs
  | eval jobs rest =>
    exact .eval (jobs_mono le jobs) fun w'' v v' le' => rest w'' v v' (le.trans le')
  | ask queries rest =>
    exact .ask (queries_mono R le queries) fun w'' a a' le' => rest w'' a a' (le.trans le')
  | fork flow entries rest =>
    exact .fork flow (entries_mono le entries) fun w'' a a' le' => rest w'' a a' (le.trans le')
  | await flow futures rest =>
    exact .await flow (L.value_mono le futures) fun w'' o o' le' => rest w'' o o' (le.trans le')
  | memo memo node allowed root rest =>
    exact .memo memo node allowed (L.scope_mono le root)
      fun w'' v v' le' => rest w'' v v' (le.trans le')
  | copy copying _ _ => exact absurd copying R.level

end Mono

namespace Aligned

variable {R} {w : κ} {memory memory' : Memory}

theorem enter {n : Nat} (aligned : L.Aligned R.extent (R.stacked n) w memory memory')
    (site : CallSite) :
    L.Aligned R.extent (R.stacked (n + 1)) w (memory.enter site) (memory'.enter site) where
  heap := aligned.heap
  sizes := aligned.sizes
  identities := aligned.identities
  stack := R.stacked_grow site.name aligned.stack
  active := by simp only [Memory.enter, aligned.active]
  kept := aligned.kept

theorem leave {n : Nat} (aligned : L.Aligned R.extent (R.stacked (n + 1)) w memory memory')
    (isDefinition : Bool) :
    L.Aligned R.extent (R.stacked n) w (memory.leave isDefinition)
      (memory'.leave isDefinition) where
  heap := aligned.heap
  sizes := aligned.sizes
  identities := aligned.identities
  stack := R.stacked_pop aligned.stack
  active := by simp only [Memory.leave, aligned.active]
  kept := aligned.kept

variable {stacked : CallStack → CallStack → Prop}
  (aligned : L.Aligned R.extent stacked w memory memory')
include aligned

theorem fresh : L.Aligned R.extent stacked w memory.freshIdentity.2 memory'.freshIdentity.2 where
  heap := aligned.heap
  sizes := aligned.sizes
  identities k := by
    have later := aligned.identities (k + 1)
    have shift (n : Nat) : n + (k + 1) + 1 = n + 1 + k + 1 := by omega
    simpa only [Memory.freshIdentity, shift] using later
  stack := aligned.stack
  active := aligned.active
  kept := aligned.kept

theorem remember (id : String) {v v' : Value} (values : L.value w v v') :
    L.Aligned R.extent stacked w { memory with kept := (id, v) :: memory.kept }
      { memory' with kept := (id, v') :: memory'.kept } where
  heap := aligned.heap
  sizes := aligned.sizes
  identities := aligned.identities
  stack := aligned.stack
  active := aligned.active
  kept root := .cons ⟨rfl, values⟩ (aligned.kept root)

theorem define {a b : ScopeId} (writable : L.writable w a b) (name : String)
    (mutability : Mutability) {v v' : Value} (values : L.value w v v') :
    L.Aligned R.extent stacked w { memory with heap := memory.heap.define a name ⟨v, mutability⟩ }
      { memory' with heap := memory'.heap.define b name ⟨v', mutability⟩ } where
  heap := by
    have outer := R.outer_of_writable writable
    exact aligned.heap.define name mutability (fun _ _ => R.unique outer) values
  sizes := by
    rw [aligned.sizes, Heap.size_define, Heap.size_define]
  identities := aligned.identities
  stack := aligned.stack
  active := aligned.active
  kept := aligned.kept

theorem assign {a b : ScopeId} (scope : L.scope w a b) (name : String) {v v' : Value}
    (values : L.value w v v') :
    (memory.heap.assign a name v).1 = (memory'.heap.assign b name v').1 ∧
      L.Aligned R.extent stacked w { memory with heap := (memory.heap.assign a name v).2 }
        { memory' with heap := (memory'.heap.assign b name v').2 } := by
  obtain ⟨results, heaps⟩ := aligned.heap.assign name (L.outer_of_scope scope)
    (fun _ _ _ _ => R.unique) values
  refine ⟨results, heaps, ?_, aligned.identities, aligned.stack, aligned.active, aligned.kept⟩
  rw [aligned.sizes, Heap.size_assign, Heap.size_assign]

theorem add {bindings bindings' : Bindings} {parent parent' : Option ScopeId}
    (entries : L.Entries w bindings bindings') (parents : Option.Rel (L.outer w) parent parent') :
    L.Aligned R.extent stacked (R.grow w)
      { memory with heap := (memory.heap.add bindings parent).2 }
      { memory' with heap := (memory'.heap.add bindings' parent').2 } where
  heap := by
    have le := R.le_grow w
    have extent := aligned.sizes
    refine aligned.heap.add (fun _ _ => L.value_mono le) (fun _ _ => R.outer_mono le) ?_
      (entries.mono fun _ _ => L.value_mono le) ?_
    · intro a b outer
      rcases R.outer_grow outer with ⟨first, second⟩ | old
      · rw [extent] at first second
        exact .inl ⟨first, second⟩
      · have bounds := R.within old
        rw [extent] at bounds
        exact .inr ⟨Nat.ne_of_lt bounds.1, Nat.ne_of_lt bounds.2, old⟩
    · cases parents with
      | none => exact .none
      | some outer =>
        have bounds := R.within outer
        rw [extent] at bounds
        exact .some ⟨R.outer_mono le outer, bounds⟩
  sizes := by rw [R.extent_grow, aligned.sizes, Heap.size_add, Heap.size_add]
  identities k := R.identity_mono (R.le_grow w) (aligned.identities k)
  stack := aligned.stack
  active := aligned.active
  kept root :=
    (aligned.kept root).imp fun _ _ same => ⟨same.1, L.value_mono (R.le_grow w) same.2⟩

theorem made : L.Made (R.grow w) memory.heap.size memory'.heap.size := by
  have made := R.made w
  rwa [aligned.sizes] at made

theorem enterCaptured {c c' : Captured} (captured : L.captured w c c') :
    ∃ w', Later R w w' ∧
      L.Aligned R.extent stacked w'
        { memory with heap :=
            ((memory.heap.captured c).2.child (memory.heap.captured c).1).2 }
        { memory' with heap :=
            ((memory'.heap.captured c').2.child (memory'.heap.captured c').1).2 } ∧
      L.Made w' ((memory.heap.captured c).2.child (memory.heap.captured c).1).1
        ((memory'.heap.captured c').2.child (memory'.heap.captured c').1).1 := by
  rcases R.captures captured with ⟨a, b, rfl, rfl, outer⟩ | ⟨entries, entries', rfl, rfl, same⟩
  · exact ⟨R.grow w, later_grow R w, aligned.add .nil (.some outer), aligned.made⟩
  · have copied := aligned.add (Bindings.Alike.ofValues .immutable same) .none
    have outer := L.outer_of_scope aligned.made.scope
    exact ⟨R.grow (R.grow w), (later_grow R w).tail rfl, copied.add .nil (.some outer), copied.made⟩

end Aligned

variable {w : κ} {n : Nat} {memory memory' : Memory} {q q' : Query}

theorem serve_aligned (aligned : L.Aligned R.extent (R.stacked n) w memory memory')
    (queries : L.Queries w q q') (shared : Shared σ) :
    ∃ w', Later R w w' ∧ (s.serve q shared memory).2.1 = (s.serve q' shared memory').2.1 ∧
      L.Aligned R.extent (R.stacked n) w' (s.serve q shared memory).2.2
        (s.serve q' shared memory').2.2 ∧
      L.Answers w' q q' (s.serve q shared memory).1 (s.serve q' shared memory').1 := by
  cases queries with
  | lookup _ scope =>
    exact ⟨w, .refl, rfl, aligned, aligned.heap.lookup _ (L.outer_of_scope scope)⟩
  | define writable mutabilities values =>
    obtain rfl := R.mutability_eq mutabilities
    exact ⟨w, .refl, rfl, aligned.define writable _ _ values, writable⟩
  | assign _ scope values =>
    obtain ⟨results, aligned'⟩ := aligned.assign scope _ values
    exact ⟨w, .refl, rfl, aligned', results⟩
  | child outer =>
    exact ⟨R.grow w, later_grow R w, rfl, aligned.add .nil (.some outer), aligned.made⟩
  | enter _ captured =>
    obtain ⟨w', le, aligned', made⟩ := aligned.enterCaptured captured
    exact ⟨w', le, rfl, aligned', made⟩
  | flatten _ _ scope =>
    exact ⟨w, .refl, rfl, aligned, aligned.heap.flatten (L.outer_of_scope scope)⟩
  | fresh => exact ⟨w, .refl, rfl, aligned.fresh, aligned.identities 0⟩
  | isActive =>
    exact ⟨w, .refl, rfl, aligned, congrArg (List.contains · _) aligned.active⟩
  | innermost =>
    exact ⟨w, .refl, rfl, aligned, R.place_top w aligned.stack⟩
  | recollect _ root =>
    exact ⟨w, .refl, rfl, aligned, lookup_related (aligned.kept ⟨w, root⟩) _⟩
  | remember _ root values => exact ⟨w, .refl, rfl, aligned.remember _ values, trivial⟩
  | compute _ operands =>
    exact ⟨w, .refl, rfl, aligned, L.compute_alike (fun _ => R.comparable) operands⟩
  | dispatch known permitted operands =>
    exact ⟨w, .refl, rfl, aligned, R.domains _ known w _ _ _ _ _ permitted
      (fun _ _ => R.types shared.futures) operands⟩
  | @perform effect args args' _ operands =>
    refine ⟨w, .refl, ?_⟩
    simp only [Setting.serve, Answers]
    cases found : s.handler? effect with
    | none => exact ⟨rfl, aligned, L.fault_self w _⟩
    | some handler =>
      obtain ⟨results, hosts⟩ := R.handlers shared.futures args args' shared.host found operands
      refine ⟨?_, aligned, results.imp ?_⟩
      · simp only [hosts]
      · intro fault _ equal
        cases equal
        exact L.fault_self w fault

def memories : L.Memories s s where
  alike w n shared memory shared' memory' :=
    shared = shared' ∧ L.Aligned R.extent (R.stacked n) w memory memory'
  later := Later R
  le_of_later later := later.le
  later_self _ := .refl
  serve := by
    intro w n shared memory _ memory' q q' parts queries
    obtain ⟨rfl, aligned⟩ := parts
    obtain ⟨w', le, same, aligned', answers⟩ := serve_aligned R aligned queries shared
    exact ⟨w', le, ⟨same, aligned'⟩, answers⟩
  full same := R.stacked_full same.2.stack
  enter site same := ⟨same.1, same.2.enter site⟩
  leave isDefinition same := ⟨same.1, same.2.leave isDefinition⟩
  attach same faults := R.fault_attach same.2.stack faults

end Likeness
end LayeredIR
