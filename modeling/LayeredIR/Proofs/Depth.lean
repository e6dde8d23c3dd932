import LayeredIR.Proofs.Discipline.Tasks
import LayeredIR.Proofs.Openings
import Mathlib.Data.List.Perm.Subperm
import Mathlib.Logic.Relation
import Mathlib.Tactic.Ring

/-! How deep calls nest in the first layer. Between the bodies of two definitions only nodes are
called, each mentioned by the one before, so where the nodes do not mention each other in a circle
none of them occurs twice there; and no definition is re-entered before its body ends. So the depth
is bounded by the number of nodes and of definitions. -/
namespace LayeredIR

inductive Arg.Mentions (id : String) : Arg → Prop
  | id : Mentions id (.id id)
  | ref : Mentions id (.inline (.ref id))
  | operand {expr arg} (member : arg ∈ expr.operands) (deeper : Mentions id arg) :
    Mentions id (.inline expr)

namespace Nodes

variable (table : Nodes)

def Mentions (id other : String) : Prop :=
  table.contains other ∧ ∃ expr, table.get? id = some expr ∧ (Arg.inline expr).Mentions other

def Acyclic : Prop := ∀ id, ¬ Relation.TransGen table.Mentions id id

theorem acyclic_of_rank {table : Nodes} (rank : String → Nat)
    (falls : ∀ id other, table.Mentions id other → rank other < rank id) : table.Acyclic := by
  intro id circle
  have descends : Relation.TransGen (· > ·) (rank id) (rank id) := circle.lift rank falls
  rw [Relation.transGen_eq_self] at descends
  exact Nat.lt_irrefl _ descends

end Nodes

def CallSite.keys (c : List CallSite) : List String :=
  (c.filter CallSite.isDefinition).map CallSite.name

theorem CallSite.keys_cons (site : CallSite) (c : List CallSite) : CallSite.keys (site :: c) =
    if site.isDefinition then site.name :: CallSite.keys c else CallSite.keys c := by
  unfold keys
  rw [List.filter_cons]
  split <;> rfl

/-- Calls in the first layer, innermost first, with the nodes that have been called since the last
definition. -/
inductive Setting.Nests {σ : Type} (s : Setting σ) : List CallSite → List String → Prop
  | top : Nests s [] []
  | node {c ids id} (nests : Nests s c ids) (known : s.nodes.contains id)
    (below : ∀ other ∈ ids, Relation.TransGen s.nodes.Mentions other id) :
    Nests s (⟨id, false⟩ :: c) (id :: ids)
  | definition {c ids ns name d} (nests : Nests s c ids)
    (known : s.definitions.get? ns name = some d)
    (idle : definitionKey ns name ∉ CallSite.keys c) :
    Nests s (⟨definitionKey ns name, true⟩ :: c) []

namespace Setting.Nests

variable {σ : Type} {s : Setting σ} {c : List CallSite} {ids : List String}

theorem ids_known (nests : s.Nests c ids) : ids ⊆ s.nodes.nodes.map Node.id := by
  induction nests with
  | top | definition => exact List.nil_subset _
  | node _ known _ ih =>
    refine List.cons_subset.mpr ⟨?_, ih⟩
    obtain ⟨expr, found⟩ := Option.isSome_iff_exists.mp known
    obtain ⟨node, found, -⟩ := Option.map_eq_some_iff.mp found
    have same := List.find?_some found
    exact List.mem_map.mpr ⟨node, List.mem_of_find?_eq_some found, by simpa using same⟩

theorem ids_nodup (acyclic : s.nodes.Acyclic) (nests : s.Nests c ids) : ids.Nodup := by
  induction nests with
  | top | definition => exact List.nodup_nil
  | node _ _ below ih => exact List.nodup_cons.mpr ⟨fun member => acyclic _ (below _ member), ih⟩

theorem keys_known (nests : s.Nests c ids) :
    CallSite.keys c ⊆ s.definitions.entries.map Prod.fst := by
  induction nests with
  | top => exact List.nil_subset _
  | node _ _ _ ih => exact ih
  | definition _ known _ ih =>
    exact List.cons_subset.mpr ⟨List.mem_map_of_mem (Definitions.mem_of_get? known), ih⟩

theorem keys_nodup (nests : s.Nests c ids) : (CallSite.keys c).Nodup := by
  induction nests with
  | top => exact List.nodup_nil
  | node _ _ _ ih => exact ih
  | definition _ _ idle ih => exact List.nodup_cons.mpr ⟨idle, ih⟩

theorem ids_length (acyclic : s.nodes.Acyclic) (nests : s.Nests c ids) :
    ids.length ≤ s.nodes.size := by
  have bound := (List.Nodup.subperm (nests.ids_nodup acyclic) nests.ids_known).length_le
  rwa [List.length_map] at bound

theorem keys_length (nests : s.Nests c ids) : (CallSite.keys c).length ≤ s.definitions.size := by
  have bound := (List.Nodup.subperm nests.keys_nodup nests.keys_known).length_le
  rwa [List.length_map] at bound

/-- A definition costs itself and the nodes that led to its call. -/
theorem length_le (acyclic : s.nodes.Acyclic) (nests : s.Nests c ids) :
    c.length ≤ ids.length + (CallSite.keys c).length * (s.nodes.size + 1) := by
  induction nests with
  | top => exact Nat.zero_le _
  | node _ _ _ ih =>
    simp only [CallSite.keys_cons, List.length_cons, Bool.false_eq_true, if_false]
    omega
  | definition nests _ _ ih =>
    -- the nodes on the way to this call are counted with it, and below it the count starts anew
    have led := nests.ids_length acyclic
    simp only [CallSite.keys_cons, List.length_cons, List.length_nil, if_true, Nat.add_mul]
    omega

theorem depth_le (acyclic : s.nodes.Acyclic) (nests : s.Nests c ids) :
    c.length ≤ (s.definitions.size + 1) * s.nodes.size + s.definitions.size := by
  calc c.length
      ≤ ids.length + (CallSite.keys c).length * (s.nodes.size + 1) := nests.length_le acyclic
    _ ≤ s.nodes.size + s.definitions.size * (s.nodes.size + 1) :=
      Nat.add_le_add (nests.ids_length acyclic) (Nat.mul_le_mul_right _ nests.keys_length)
    _ = (s.definitions.size + 1) * s.nodes.size + s.definitions.size := by ring

end Setting.Nests

section Nesting

variable {σ : Type} (s : Setting σ)

def Setting.Descends (c : List CallSite) (arg : Arg) : Prop :=
  ∃ ids, s.Nests c ids ∧ ∀ id ∈ ids, ∀ other, s.nodes.contains other → arg.Mentions other →
    Relation.TransGen s.nodes.Mentions id other

variable {s}

theorem Setting.Descends.evaluated {c : List CallSite} {arg : Arg} {expr : Expr}
    (evaluates : s.Evaluates arg expr) (descends : s.Descends c (.inline expr)) :
    s.Descends c arg := by
  obtain ⟨ids, nests, below⟩ := descends
  refine ⟨ids, nests, fun id member other known mentions => ?_⟩
  cases evaluates with
  | operand _ _ among => exact below id member other known (.operand among mentions)
  | statement among _ => exact below id member other known (.operand among mentions)
  | declared among declares =>
    have inside (name : String) : (Arg.inline (.declare name arg)).Mentions other :=
      .operand (List.mem_singleton.mpr rfl) mentions
    rcases Setting.declaration?_eq_some declares with rfl | ⟨node, rfl, found⟩
    · exact below id member other known (.operand among (inside _))
    · have there : s.nodes.contains node := by simp [Nodes.contains, found]
      exact (below id member node there (.operand among .id)).tail
        ⟨known, _, found, inside _⟩

/-- A node that is mentioned is called below the nodes that led to it. -/
theorem Setting.Descends.node {c : List CallSite} {arg : Arg} {id : String} {expr : Expr}
    (found : s.nodes.get? id = some expr) (mentions : arg.Mentions id)
    (descends : s.Descends c arg) : s.Descends (⟨id, false⟩ :: c) (.inline expr) := by
  obtain ⟨ids, nests, below⟩ := descends
  have known : s.nodes.contains id := by simp [Nodes.contains, found]
  refine ⟨id :: ids, .node nests known fun other member => below other member id known mentions, ?_⟩
  intro other member target there deeper
  have edge : s.nodes.Mentions id target := ⟨there, expr, found, deeper⟩
  rcases List.mem_cons.mp member with rfl | earlier
  · exact .single edge
  · exact (below other earlier id known mentions).tail edge

def Discipline.nesting (s : Setting σ) (limit : Nat) : Discipline s where
  base := 1
  closure _ _ _ := True
  scope _ _ := True
  outer _ _ := True
  define _ _ _ _ := True
  assign _ _ _ _ := True
  code := s.Descends
  cause cause := (∀ limit, cause ≠ .recursionLimitExceeded limit) ∨ s.domains.Answer cause
  calls c stack active :=
    stack.frames.size = c.length ∧ stack.limit = limit ∧ active = CallSite.keys c
  idle c key := key ∉ CallSite.keys c
  flow := False
  kept _ _ := True

theorem Discipline.nesting_laws {limit : Nat} (air : s.layer = .air) (acyclic : s.nodes.Acyclic)
    (room : (s.definitions.size + 1) * s.nodes.size + s.definitions.size ≤ limit) :
    (Discipline.nesting s limit).Laws where
  closure_mono _ _ := trivial
  scope_mono _ _ := trivial
  outer_root _ := trivial
  outer_scope _ := trivial
  outer_captured _ := trivial
  outer_copy _ := trivial
  scope_made _ := trivial
  define_made _ _ _ _ := trivial
  define_declared _ _ _ _ := trivial
  assign_code _ _ _ _ := trivial
  code_evaluated evaluates descends := descends.evaluated evaluates
  code_node found descends := descends.node found .id
  code_ref found descends := descends.node found .ref
  code_definition found descends idle := by
    obtain ⟨ids, nests, -⟩ := descends
    exact ⟨[], .definition nests found idle, fun _ => nofun⟩
  code_body _ closures := by
    rw [air] at closures
    cases closures
  code_instruction _ flow := flow.elim
  closure_shared _ _ _ _ := trivial
  closure_frozen _ _ _ := trivial
  flow_scope _ flow := flow.elim
  flow_define _ flow := flow.elim
  flow_closure _ flow := flow.elim
  flow_layer flow := flow.elim
  input _ _ := fun _ _ _ _ => trivial
  domain typeOf op args found _ :=
    ⟨fun _ _ _ _ _ _ => trivial, fun _ failed => .inr ⟨_, _, typeOf, op, args, found, failed⟩⟩
  handler effects := by
    rw [air] at effects
    cases effects
  cause_own own := .inl fun limit same => own (same ▸ .ceiling limit)
  above _ _ _ := .inl nofun
  full calls descends full := by
    obtain ⟨ids, nests, -⟩ := descends
    have deep := (nests.depth_le acyclic).trans room
    obtain ⟨size, rfl, -⟩ := calls
    rw [List.length_cons, ← size] at deep
    have reached := of_decide_eq_true full
    exact absurd deep (Nat.not_lt_of_le reached)
  enter calls _ := by
    obtain ⟨size, limit, rfl⟩ := calls
    refine ⟨?_, limit, (CallSite.keys_cons _ _).symm⟩
    simp [CallStack.grow, size]
  leave calls := by
    obtain ⟨size, limit, rfl⟩ := calls
    refine ⟨?_, limit, ?_⟩
    · simp [CallStack.pop, size]
    · rw [CallSite.keys_cons]
      split <;> rfl
  idle calls off := by
    obtain ⟨-, -, rfl⟩ := calls
    intro member
    simp [member] at off

/-- A run in the first layer meets the ceiling only where a domain says so. -/
theorem Setting.run_shallow (air : s.layer = .air) (acyclic : s.nodes.Acyclic)
    (room : (s.definitions.size + 1) * s.nodes.size + s.definitions.size ≤ s.config.maxCallDepth)
    {arg : Arg} {fuel : Nat} {shared shared' : Shared σ} {fault : Fault} {memory : Memory}
    {limit : Nat}
    (ran : Task.run s fuel shared (.start (.operand arg rootScope)
      (.initial entryTask s.config.maxCallDepth)) = some (.error fault, shared', memory))
    (refused : fault.cause = .recursionLimitExceeded limit) : s.domains.Answer fault.cause := by
  let D : Discipline s := .nesting s s.config.maxCallDepth
  have laws : D.Laws := Discipline.nesting_laws air acyclic room
  have code : D.code [] arg := ⟨[], .top, fun _ => nofun⟩
  have runs : D.Runs [] [] [] [] (.start (.operand arg rootScope)
      (.initial entryTask s.config.maxCallDepth)) :=
    Discipline.runs_start rfl code trivial ⟨rfl, rfl, rfl⟩
  have shares : D.Shares [] shared.futures shared.host :=
    ⟨fun _ _ _ _ _ _ _ => trivial, fun _ _ => trivial⟩
  obtain ⟨_, -, allowed⟩ := runs.outcome laws shares ran
  exact (allowed fault rfl).resolve_left fun own => own limit refused

end Nesting

/-- An evaluation that fails as a refused call does only where a domain does so. -/
def Evaluation.Shallow {σ : Type} (domains : Domains) (evaluation : Evaluation σ) : Prop :=
  ∀ outcome host, evaluation = some (outcome, host) →
    (∀ fault limit, outcome = .error fault → fault.cause = .recursionLimitExceeded limit →
      domains.Answer fault.cause) ∧
    ((∀ name d, domains.find? name = some d → d.BelowCeiling) → Unlimited outcome)

namespace Document

variable {σ : Type}

theorem refusal_belowCeiling {doc : Document} {s : Setting σ} {layer top : Layer} {cause : Cause}
    (refused : doc.opening s layer top = .error cause) :
    BelowCeiling (.error cause : Except Cause Unit) := by
  unfold opening at refused
  cases checked : doc.checkLayer layer top with
  | error e =>
    rw [checked] at refused
    cases refused
    simp only [checkLayer] at checked
    split at checked <;> cases checked <;> trivial
  | ok _ =>
    cases prepared : doc.setting s layer with
    | error e =>
      rw [checked, prepared] at refused
      cases refused
      unfold setting at prepared
      split at prepared
      · next e _ =>
        cases prepared
        cases e <;> trivial
      · cases prepared
    | ok t =>
      rw [checked, prepared] at refused
      cases refused

/-- In the first layer, where no node mentions itself, the calls of a document nest no deeper than
the number of its nodes and definitions allows. -/
theorem evaluate_shallow (doc : Document) (s : Setting σ) (acyclic : (Nodes.mk doc.nodes).Acyclic)
    (room : ((s.definitions.layered doc.definitions).size + 1) * doc.nodes.length +
      (s.definitions.layered doc.definitions).size ≤ s.config.maxCallDepth) :
    (∀ top fuel host, Evaluation.Shallow s.domains (doc.evaluate s fuel .air top host)) ∧
    (doc.layer = some .air →
      ∀ fuel host, Evaluation.Shallow s.domains (doc.evaluateAirCir s fuel host)) := by
  have shallow (effects : Option (Effects σ)) (top : Layer) (fuel : Nat) (host : σ) :
      Evaluation.Shallow s.domains
        (doc.evaluate { s with effects := effects } fuel .air top host) := by
    intro outcome host' ran
    have answers (fault : Fault) (limit : Nat) (failed : outcome = .error fault)
        (refused : fault.cause = .recursionLimitExceeded limit) :
        s.domains.Answer fault.cause := by
      subst failed
      rw [evaluate_eq] at ran
      cases opens : doc.opening { s with effects := effects } .air top with
      | error cause =>
        rw [opens] at ran
        cases ran
        exact absurd refused ((refusal_belowCeiling opens).of_error rfl limit)
      | ok o =>
        obtain ⟨prepared, starts⟩ := opening_eq_ok opens
        obtain ⟨nodes, table, same⟩ := setting_eq_ok prepared
        obtain rfl := nodeTable_eq_ok table
        obtain ⟨t, task⟩ := o
        simp only at same starts
        subst starts
        rw [opens] at ran
        obtain ⟨⟨_, shared, memory⟩, ended, parts⟩ := Option.map_eq_some_iff.mp ran
        cases parts
        have known : t.domains.Answer fault.cause := by
          refine Setting.run_shallow ?_ ?_ ?_ ended refused <;> rw [same]
          · exact acyclic
          · exact room
        rwa [same] at known
    refine ⟨answers, fun below fault limit failed refused => ?_⟩
    obtain ⟨name, d, typeOf, op, args, found, failed⟩ := answers fault limit failed refused
    exact (below name d found typeOf op args).of_error failed limit refused
  refine ⟨shallow s.effects, fun air fuel host => ?_⟩
  have layer : doc.airCirLayer = .air := if_pos air
  have first := shallow none .cir fuel host
  rwa [← layer] at first

def layeredCalls : Document where
  version := "1.0.0"
  layer := some .air
  definitions := [⟨"m", "twice", ["x"], .inline (.call none "add" [.id "x", .id "one"]), none⟩]
  nodes := [⟨"one", .lit (.int 1)⟩, ⟨"two", .airRef "m" "twice" [.id "one"]⟩]
  result := .inline (.airRef "m" "twice" [.id "two"])

/-- The bound for one definition and two nodes. -/
theorem evaluate_shallow_layeredCalls :
    (∃ fuel, layeredCalls.evaluateAirCir ({ config := { maxCallDepth := 5 } } : Setting Unit) fuel
        () = some (.ok (.int 3), ())) ∧
      ∀ fuel outcome, layeredCalls.evaluateAirCir
        ({ config := { maxCallDepth := 5 } } : Setting Unit) fuel () = some (outcome, ()) →
        Unlimited outcome := by
  have acyclic : (Nodes.mk layeredCalls.nodes).Acyclic := by
    refine Nodes.acyclic_of_rank (fun id => if id = "two" then 1 else 0) fun id other edge => ?_
    obtain ⟨-, expr, found, mentions⟩ := edge
    obtain ⟨node, here, rfl⟩ := Option.map_eq_some_iff.mp found
    have member := List.mem_of_find?_eq_some here
    have same : node.id = id := by simpa using List.find?_some here
    simp only [layeredCalls, List.mem_cons, List.not_mem_nil, or_false] at member
    rcases member with rfl | rfl
    · cases mentions with
      | operand among _ => cases among
    · cases mentions with
      | operand among deeper =>
        cases List.mem_singleton.mp among
        cases deeper
        rw [← same]
        decide
  have shallow := evaluate_shallow layeredCalls
    ({ config := { maxCallDepth := 5 } } : Setting Unit) acyclic (by decide)
  refine ⟨⟨60, by rfl⟩, fun fuel outcome ran => ?_⟩
  exact (shallow.2 rfl fuel () outcome () ran).2 fun _ _ found => Domains.builtin_belowCeiling found

end Document
end LayeredIR
