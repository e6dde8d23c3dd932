import LayeredIR.Proofs.Charter.Worlds
import LayeredIR.Proofs.Value.Built
import LayeredIR.Proofs.World.Snapshots

/-! Sets in runs. Literals and operations make sets by dropping what is already there, and nothing
else in a run makes any; so no set that a run ever holds, be it within other values, in a scope or
in a cache, has an element twice. -/
namespace LayeredIR

section Values

variable {σ : Type} {s : Setting σ} {C : Charter s}

theorem Charter.Jobs.values {job : Job} (jobs : C.Jobs job) : ∀ v ∈ job.values, C.value v := by
  cases jobs with
  | apply function held => exact List.forall_mem_cons.mpr ⟨function, held⟩
  | operand | expr | block => exact List.forall_mem_nil _

theorem Charter.Queries.values {q : Query} (queries : C.Queries q) :
    ∀ v ∈ q.values, C.value v := by
  cases q with
  | define | assign => simpa [Query.values] using queries.1
  | remember =>
    intro v member
    cases List.mem_singleton.mp member
    exact queries
  | compute | perform => exact queries
  | dispatch => exact queries.2
  | lookup | child | enter | flatten | fresh | isActive | innermost | recollect =>
    exact List.forall_mem_nil _

theorem Plan.Upholds.values {p : Plan Next} (upholds : p.Upholds C C.Nexts) :
    ∀ v ∈ p.values, C.value v := by
  cases upholds with
  | done wanted =>
    cases wanted with
    | value held => simpa [Plan.values] using held
    | job jobs => exact jobs.values
  | fail | await => exact List.forall_mem_nil _
  | eval jobs | call jobs => exact Charter.Jobs.values jobs
  | ask queries => exact Charter.Queries.values queries
  | fork permitted =>
    intro v member
    obtain ⟨entry, among, rfl⟩ := List.mem_map.mp member
    exact permitted.2 entry among

/-- All that is held in a world whose tasks uphold a charter is permitted. -/
theorem Charter.has {w : World σ} (ruled : World.Ruled C.regime w) {v : Value} (has : w.Has v) :
    C.value v :=
  ruled.has (fun _ runs => runs.memory.holds) (fun _ runs => runs.control.values)
    (fun _ _ shares => shares.settled) (fun v results => results.value v rfl) has

end Values

/-- What a handler can build with: its arguments, what futures are settled with, and the values that
the host keeps. -/
inductive Handler.Given {σ : Type} (keeps : σ → Value → Prop) (futures : Futures)
    (args : List Value) (host : σ) : Value → Prop
  | argument {v} (member : v ∈ args) : Given keeps futures args host v
  | settled {id v} (settled : futures.outcome? id = some (.ok v)) : Given keeps futures args host v
  | kept {v} (held : keeps host v) : Given keeps futures args host v

/-- A handler that builds what it answers, and what the host keeps from then on, of these. -/
structure Handler.BuildsSets {σ : Type} (keeps : σ → Value → Prop) (handler : Handler σ) :
    Prop where
  answer : ∀ futures args host,
    Builds (Given keeps futures args host) (handler futures args host).1
  kept : ∀ futures args host v, keeps (handler futures args host).2 v →
    v.BuiltFrom (Given keeps futures args host)

namespace Setting

structure BuildsSets {σ : Type} (s : Setting σ) (keeps : σ → Value → Prop) : Prop where
  inputs : ∀ entry ∈ s.inputs, ∃ l, entry.2 = .ofLiteral l
  domains : ∀ name d, s.domains.find? name = some d → d.BuildsSets
  handlers : ∀ name handler, s.handler? name = some handler → handler.BuildsSets keeps

def sets {σ : Type} (s : Setting σ) (keeps : σ → Value → Prop) : Charter s where
  value := Value.SetsDistinct
  cause _ := True
  label _ := True
  base := 0
  scope _ := True
  declared _ _ := True
  host host := ∀ v, keeps host v → v.SetsDistinct

namespace BuildsSets

variable {σ : Type} {s : Setting σ} {keeps : σ → Value → Prop} (builds : s.BuildsSets keeps)
include builds

theorem input {entry : String × Value} (member : entry ∈ s.inputs) : entry.2.SetsDistinct := by
  obtain ⟨l, same⟩ := builds.inputs entry member
  exact same ▸ .ofLiteral l

theorem laws : (s.sets keeps).Laws where
  literal := .ofLiteral
  list _ _ held := .list held
  future _ := .flat rfl
  closure {c} held := by
    refine .closure fun entries copied => ?_
    rw [copied] at held
    exact held
  captured {c} held := by
    cases copied : c.captured with
    | shared _ => trivial
    | frozen entries => exact held.captured copied
  input {name v} found := by
    obtain ⟨before, after, split, -⟩ := List.lookup_eq_some_iff.mp found
    have member : (name, v) ∈ s.inputs := by simp [split]
    exact builds.input member
  compute {op args v} held computed := (op.compute_builds args v computed).setsDistinct held
  cause_own _ := trivial
  cause_label _ _ := trivial
  successor _ _ _ := trivial
  registers _ := ⟨trivial, fun _ => trivial⟩
  young _ := trivial

omit builds in
theorem admits (job : Job) : (s.sets keeps).Admits job := by
  unfold Charter.Admits
  split
  · exact fun _ => .inl (Nat.zero_le _)
  · trivial

theorem heard (shared : Shared σ) (task : Task)
    (shares : (s.sets keeps).Shares shared.futures shared.host) :
    (s.sets keeps).Heard shared task := by
  rintro q next -
  cases q with
  | dispatch d op args =>
    rintro ⟨name, found⟩ held
    refine ⟨fun v answered => ?_, fun _ _ => trivial⟩
    exact ((builds.domains name d found).call _ op args v answered).setsDistinct held
  | perform effect args =>
    intro handler found held
    have given (v : Value) (given : Handler.Given keeps shared.futures args shared.host v) :
        v.SetsDistinct := by
      cases given with
      | argument member => exact held v member
      | settled settled => exact shares.settled _ v settled
      | kept kept => exact shares.host v kept
    have right := builds.handlers effect handler found
    exact ⟨⟨fun v answered => (right.answer _ _ _ v answered).setsDistinct given,
      fun _ _ => trivial⟩, fun v kept => (right.kept _ _ _ v kept).setsDistinct given⟩
  | _ => trivial

theorem registers : s.inputRegisters.All Value.SetsDistinct :=
  .ofValues .mutable fun _ member => builds.input member

theorem has {schedule : List Identity} {first w : World σ} (path : World.Path s schedule first w)
    (ruled : World.Ruled (s.sets keeps).regime first) {v : Value} (has : w.Has v) :
    v.SetsDistinct :=
  Charter.has (path.ruled_of_shares (Charter.kept builds.laws admits (Nat.zero_le 2)) ruled
    builds.heard) has

omit builds in
theorem shares {host : σ} (new : ∀ v, keeps host v → v.BuiltFrom fun _ => False) :
    (s.sets keeps).Shares .empty host :=
  .empty fun v held => (new v held).setsDistinct fun _ none => none.elim

end BuildsSets
end Setting

def Opening.world {σ : Type} (o : Opening σ) (host : σ) (n : Nat) : World σ :=
  .ofProgress (o.task.after o.setting (fun _ shared => shared) n (fresh host))

/-- The result of an evaluation is held where its run comes to an end. -/
theorem Opening.world_has {σ : Type} {opening : Except Cause (Opening σ)} {fuel : Nat}
    {host host' : σ} {v : Value}
    (ran : evaluate opening fuel host = some (.ok v, host')) :
    ∃ o, opening = .ok o ∧ (o.world host fuel).Has v := by
  cases opening with
  | error cause => cases ran
  | ok o =>
    refine ⟨o, rfl, ?_⟩
    simp only [evaluate, Task.run_eq_after] at ran
    unfold world
    generalize o.task.after o.setting (fun _ shared => shared) fuel (fresh host) = progress at ran
    cases progress with
    | ended outcome shared memory =>
      cases ran
      exact .outcome rfl
    | running | waiting => cases ran

namespace Setting.BuildsSets

variable {σ : Type} {s : Setting σ} {keeps : σ → Value → Prop} {host : σ}

/-- Of a task alone, that it begins as it should is enough. -/
theorem alone {o : Opening σ} (builds : o.setting.BuildsSets keeps)
    (runs : (o.setting.sets keeps).Runs [] o.task)
    (new : ∀ v, keeps host v → v.BuiltFrom fun _ => False) (n : Nat) {v : Value}
    (has : (o.world host n).Has v) : v.SetsDistinct := by
  obtain ⟨k, path⟩ := World.path_after (s := o.setting) n (Opening.fresh host) o.task
  exact builds.has path (.single runs (shares new)) has

theorem document (builds : s.BuildsSets keeps) {doc : Document} {layer top : Layer}
    {o : Opening σ} (opens : doc.opening s layer top = .ok o)
    (new : ∀ v, keeps host v → v.BuiltFrom fun _ => False) (n : Nat) {v : Value}
    (has : (o.world host n).Has v) : v.SetsDistinct := by
  obtain ⟨prepared, task⟩ := Document.opening_eq_ok opens
  obtain ⟨nodes, -, same⟩ := Document.setting_eq_ok prepared
  have builds' : o.setting.BuildsSets keeps := by
    rw [same]
    exact ⟨builds.inputs, builds.domains, builds.handlers⟩
  exact builds'.alone (task ▸ Charter.runs_start (Nat.zero_le 1) trivial ..) new n has

theorem withoutEffects (builds : s.BuildsSets keeps) :
    ({ s with effects := none } : Setting σ).BuildsSets keeps :=
  ⟨builds.inputs, builds.domains, nofun⟩

theorem flow (builds : s.BuildsSets keeps) (doc : FlowDocument) (graph : FlowGraph) :
    (doc.setting s graph).BuildsSets keeps :=
  ⟨builds.inputs, builds.domains, builds.handlers⟩

theorem flow_runs (builds : s.BuildsSets keeps) (doc : FlowDocument) (graph : FlowGraph) :
    ((doc.setting s graph).sets keeps).Runs []
      (.atBlock (doc.setting s graph) entryTask graph.entry.id s.inputRegisters) :=
  Charter.runs_atBlock (Nat.zero_le 2) trivial entryTask builds.registers

/-- Where inputs are literals, and domains and handlers make sets of what they are given only by
dropping what is already there, no set that a run holds has two items that are the same element: not
in a scope, a register or the node cache of any task, among the arguments of operations and effects,
in a settled future or a result, nor within another value there. -/
theorem sets_distinct (s : Setting σ) (keeps : σ → Value → Prop) (builds : s.BuildsSets keeps)
    (host : σ) (new : ∀ v, keeps host v → v.BuiltFrom fun _ => False) :
    (∀ (doc : Document) o, doc.openingAirCir s = .ok o ∨ doc.openingEir s = .ok o →
      ∀ n v, (o.world host n).Has v → v.SetsDistinct) ∧
    (∀ (doc : FlowDocument) o, doc.opening s = .ok o →
      ∀ n v, (o.world host n).Has v → v.SetsDistinct) ∧
    (∀ (doc : FlowDocument) w, doc.Reaches s host w → ∀ v, w.Has v → v.SetsDistinct) ∧
    (∀ (doc : Document) fuel v host', doc.evaluateAirCir s fuel host = some (.ok v, host') ∨
      doc.evaluateEir s fuel host = some (.ok v, host') → v.SetsDistinct) ∧
    (∀ (doc : FlowDocument) fuel v, (∃ host', doc.evaluate s fuel host = some (.ok v, host')) ∨
      (∃ futures host', doc.evaluateConcurrent s fuel host = some (.ok v, futures, host')) →
      v.SetsDistinct) := by
  have documents (doc : Document) (o : Opening σ)
      (opens : doc.openingAirCir s = .ok o ∨ doc.openingEir s = .ok o) (n : Nat) (v : Value)
      (has : (o.world host n).Has v) : v.SetsDistinct := by
    rcases opens with opens | opens
    · exact builds.withoutEffects.document opens new n has
    · exact builds.document opens new n has
  have flows (doc : FlowDocument) (o : Opening σ) (opens : doc.opening s = .ok o) (n : Nat)
      (v : Value) (has : (o.world host n).Has v) : v.SetsDistinct := by
    obtain ⟨graph, -, setting, task⟩ := FlowDocument.opening_eq_ok opens
    refine (setting ▸ builds.flow doc graph).alone ?_ new n has
    rw [task, setting]
    exact builds.flow_runs doc graph
  have together (doc : FlowDocument) (w : World σ) (reaches : doc.Reaches s host w) (v : Value)
      (has : w.Has v) : v.SetsDistinct := by
    obtain ⟨graph, schedule, -, path⟩ := reaches
    exact (builds.flow doc graph).has path (.start (builds.flow_runs doc graph) (shares new)) has
  refine ⟨documents, flows, together, fun doc fuel v host' ran => ?_, fun doc fuel v ran => ?_⟩
  · rcases ran with ran | ran
    · rw [doc.evaluateAirCir_eq] at ran
      obtain ⟨o, opens, has⟩ := Opening.world_has ran
      exact documents doc o (.inl opens) fuel v has
    · rw [doc.evaluateEir_eq] at ran
      obtain ⟨o, opens, has⟩ := Opening.world_has ran
      exact documents doc o (.inr opens) fuel v has
  · rcases ran with ⟨host', ran⟩ | ⟨futures, host', ran⟩
    · rw [doc.evaluate_eq] at ran
      obtain ⟨o, opens, has⟩ := Opening.world_has ran
      exact flows doc o opens fuel v has
    · unfold FlowDocument.evaluateConcurrent at ran
      cases structured : doc.graph with
      | error e =>
        rw [structured] at ran
        cases ran
      | ok graph =>
        rw [structured] at ran
        obtain ⟨outcome, ended, same⟩ := Option.map_eq_some_iff.mp ran
        cases same
        have reaches := FlowDocument.reaches_run structured s host fuel
        refine together doc _ reaches v (.outcome ?_)
        unfold World.result? at ended
        split at ended
        · exact ended
        · cases ended

def collecting : Document where
  version := "1.0"
  layer := some .eir
  definitions := []
  nodes := []
  result := .inline (.seq [
    .inline (.effect "collect" [.inline (.lit (.set .int [.int 1, .int 2, .int 1]))]),
    .inline (.effect "collect" [.inline (.lit (.set .int [.int 2, .int 1]))])])

def collect : Handler (List Value) := fun _ args kept =>
  (.ok (.setOf (.set .int) (kept ++ args)), kept ++ args)

def collector : Setting (List Value) where
  effects := some (Effects.empty.register "collect" collect)

theorem collect_buildsSets : collect.BuildsSets fun kept v => v ∈ kept := by
  have built (futures : Futures) (args kept : List Value) :
      ∀ v ∈ kept ++ args,
        v.BuiltFrom (Handler.Given (fun kept v => v ∈ kept) futures args kept) := by
    intro v member
    rcases List.mem_append.mp member with old | new
    · exact .given (.kept old)
    · exact .given (.argument new)
  exact ⟨fun futures args kept => .ok (.setOf _ (built futures args kept)),
    fun futures args kept => built futures args kept⟩

theorem sets_distinct_collecting : ∃ host',
    collecting.evaluateEir collector 60 [] =
        some (.ok (.set (.set .int) [.set .int [.int 1, .int 2]]), host') ∧
      (Value.set (.set .int) [.set .int [.int 1, .int 2]]).SetsDistinct := by
  have builds : collector.BuildsSets fun kept v => v ∈ kept := by
    refine ⟨nofun, fun _ _ => Domains.builtin_buildsSets, fun name handler found => ?_⟩
    have listed : [("collect", collect)].lookup name = some handler := found
    obtain ⟨before, after, split, -⟩ := List.lookup_eq_some_iff.mp listed
    have member : (name, handler) ∈ [("collect", collect)] := split ▸ by simp
    cases List.mem_singleton.mp member
    exact collect_buildsSets
  obtain ⟨-, -, -, results, -⟩ := sets_distinct collector _ builds [] nofun
  have ran : collecting.evaluateEir collector 60 [] =
      some (.ok (.set (.set .int) [.set .int [.int 1, .int 2]]),
        [.set .int [.int 1, .int 2], .set .int [.int 2, .int 1]]) := by rfl
  exact ⟨_, ran, results collecting 60 _ _ (.inr ran)⟩

end Setting.BuildsSets
end LayeredIR
