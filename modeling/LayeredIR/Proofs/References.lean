import LayeredIR.Proofs.Openings
import LayeredIR.Proofs.References.Tasks

/-! The id of a node and a reference to it are interchangeable as operands. Wherever the one stands
for the other in a document, what the document comes to and the effects that it performs stay as
they are, up to the code that closures carry along. One place is apart: a statement that names a
declaration by its node declares a variable for the statements after it, and a reference to the same
node does not. -/
namespace LayeredIR

/-- Two evaluations, as functions of the fuel, with the calls to the host. Whatever the first has
come to, the second comes to, having made the same calls by then; and it ends only where the first
does. -/
structure Evaluation.Interchangeable {σ : Type} (value : Value → Value → Prop)
    (hosts : σ → σ → Prop) (first second : Nat → Evaluation σ)
    (calls calls' : Nat → List (String × List Value)) : Prop where
  onward : ∀ fuel, ∃ fuel' ≥ fuel,
    Option.Rel (fun final final' => ResultsAlike Eq value final.1 final'.1 ∧
      hosts final.2 final'.2) (first fuel) (second fuel') ∧
    List.Forall₂ (fun call call' => call.1 = call'.1 ∧ List.Forall₂ value call.2 call'.2)
      (calls fuel) (calls' fuel')
  back : ∀ fuel, (second fuel).isSome → (first fuel).isSome

theorem Evaluation.Interchangeable.ends {σ : Type} {value : Value → Value → Prop}
    {hosts : σ → σ → Prop} {first second : Nat → Evaluation σ}
    {calls calls' : Nat → List (String × List Value)}
    (alike : Interchangeable value hosts first second calls calls') {fuel : Nat}
    {outcome : Except Fault Value} {host : σ} (ended : first fuel = some (outcome, host)) :
    ∃ fuel' ≥ fuel, ∃ outcome' host', second fuel' = some (outcome', host') ∧
      ResultsAlike Eq value outcome outcome' ∧ hosts host host' := by
  obtain ⟨fuel', more, finals, -⟩ := alike.onward fuel
  rw [ended] at finals
  generalize ended' : second fuel' = final' at finals
  cases finals with
  | some related => exact ⟨fuel', more, _, _, ended', related⟩

section Openings

variable {σ : Type} {s : Setting σ} {host : σ} {hosts : σ → σ → Prop}

theorem Evaluation.Interchangeable.refused (begun : hosts host host) {value : Value → Value → Prop}
    (cause : Cause) :
    Interchangeable value hosts (Opening.evaluate (.error cause) · host)
      (Opening.evaluate (.error cause) · host) (Opening.calls (.error cause) · host)
      (Opening.calls (.error cause) · host) :=
  ⟨fun fuel => ⟨fuel, le_rfl, .some ⟨rfl, begun⟩, .nil⟩, fun _ ended => ended⟩

theorem Opening.interchangeable (begun : hosts host host) {nodes : Nodes}
    {definitions : Definitions} (same : s.Respelled nodes definitions)
    (handlers : ∀ name handler, s.handler? name = some handler →
      handler.Respects (Value.Respelled s.nodes s.layer) hosts) {task task' : Task}
    (tasks : task.Respelled s.nodes s.layer task') :
    Evaluation.Interchangeable (Value.Respelled s.nodes s.layer) hosts
      (evaluate (.ok ⟨s, task⟩) · host)
      (evaluate (.ok ⟨s.withCode nodes definitions, task'⟩) · host)
      (calls (.ok ⟨s, task⟩) · host)
      (calls (.ok ⟨s.withCode nodes definitions, task'⟩) · host) := by
  have shares : (fresh host).Respelled hosts (fresh host) := ⟨rfl, rfl, begun⟩
  have runs (fuel : Nat) := Task.run_respelled same handlers fuel shares tasks
  constructor
  case onward =>
    intro fuel
    obtain ⟨fuel', more, ended, performs⟩ := runs fuel
    refine ⟨fuel', more, ?_, performs⟩
    simp only [evaluate]
    generalize Task.run s fuel (fresh host) task = final,
      Task.run (s.withCode nodes definitions) fuel' (fresh host) task' = final' at ended
    cases ended with
    | none => exact .none
    | some alike => exact .some ⟨alike.outcome, alike.shared.host⟩
  case back =>
    intro fuel terminates
    obtain ⟨fuel', more, ended, -⟩ := runs fuel
    simp only [evaluate, Option.isSome_map] at terminates ⊢
    obtain ⟨final', ran⟩ := Option.isSome_iff_exists.mp terminates
    rw [(Task.run_mono ran more).1] at ended
    generalize Task.run s fuel (fresh host) task = final at ended
    cases ended
    rfl

variable {layer : Layer} {doc doc' : Document}

def Document.opened (doc : Document) (s : Setting σ) (layer : Layer) : Setting σ :=
  { s with
    nodes := ⟨doc.nodes⟩
    definitions := s.definitions.layered doc.definitions
    layer := layer
    blocks := [] }

namespace Document.Respelled

variable (same : doc.Respelled layer doc')
include same

/-- A respelled document is refused as before, or it opens with respelled code. -/
theorem opening_cases (s : Setting σ) (top : Layer) :
    (∃ cause, doc.opening s layer top = .error cause ∧ doc'.opening s layer top = .error cause) ∨
    doc.opening s layer top = .ok ⟨doc.opened s layer,
      .start (.operand doc.result rootScope) (.initial entryTask s.config.maxCallDepth)⟩ ∧
    doc'.opening s layer top = .ok
      ⟨(doc.opened s layer).withCode ⟨doc'.nodes⟩ (s.definitions.layered doc'.definitions),
        .start (.operand doc'.result rootScope) (.initial entryTask s.config.maxCallDepth)⟩ := by
  unfold Document.opening Document.setting
  rw [← same.checkLayer_eq, same.nodeTable_eq]
  cases doc.checkLayer layer top with
  | error cause => exact .inl ⟨cause, rfl, rfl⟩
  | ok _ =>
    cases table : doc.nodeTable with
    | error e => exact .inl ⟨e.cause, rfl, rfl⟩
    | ok nodes =>
      obtain rfl := nodeTable_eq_ok table
      exact .inr ⟨rfl, rfl⟩

theorem opened (sharing : layer.copiesCaptures = false)
    (domains : ∀ name d, s.domains.find? name = some d →
      d.Respects (fun _ : Unit => Value.Respelled ⟨doc.nodes⟩ layer) fun _ => True) :
    (doc.opened s layer).Respelled ⟨doc'.nodes⟩ (s.definitions.layered doc'.definitions) where
  nodes := Nodes.get?_respelled same.nodes
  definitions := Definitions.get?_layered_respelled same.definitions fun ns name => by
    cases s.definitions.get? ns name with
    | none => exact .none
    | some d => exact .some ⟨rfl, .refl d.body⟩
  domain := domains
  sharing := sharing

theorem interchangeable (sharing : layer.copiesCaptures = false) (begun : hosts host host)
    (domains : ∀ name d, s.domains.find? name = some d →
      d.Respects (fun _ : Unit => Value.Respelled ⟨doc.nodes⟩ layer) fun _ => True)
    (handlers : ∀ name handler, s.handler? name = some handler →
      handler.Respects (Value.Respelled ⟨doc.nodes⟩ layer) hosts) (top : Layer) :
    Evaluation.Interchangeable (Value.Respelled ⟨doc.nodes⟩ layer) hosts
      (doc.evaluate s · layer top host) (doc'.evaluate s · layer top host)
      (Opening.calls (doc.opening s layer top) · host)
      (Opening.calls (doc'.opening s layer top) · host) := by
  simp only [Document.evaluate_eq]
  rcases same.opening_cases s top with ⟨cause, opens, opens'⟩ | ⟨opens, opens'⟩
  · rw [opens, opens']
    exact .refused begun cause
  · rw [opens, opens']
    refine Opening.interchangeable begun (same.opened sharing domains) handlers ?_
    exact ⟨.done (.job (.operand same.result)), .nil, .refl Arg.Respelled.refl _⟩

end Document.Respelled

end Openings

/-- The id of a node may be respelled as a reference to it, at any set of operands of a document,
as long as no domain and no handler reads the code of closures. In the upper two layers this goes
for all operands; where statements run it goes for all but the statements that name declarations.
The outcome is the same, a failure with its calls and a value up to the spelling of the code in
closures, and so are the calls to the host, whatever the ceiling on calls is. -/
theorem Document.references_interchangeable {σ : Type} (s : Setting σ) (doc doc' : Document)
    (host : σ) (hosts : σ → σ → Prop) (begun : hosts host host)
    (domains : ∀ layer name d, s.domains.find? name = some d →
      d.Respects (fun _ : Unit => Value.Respelled ⟨doc.nodes⟩ layer) fun _ => True)
    (handlers : ∀ name handler, s.handler? name = some handler →
      handler.Respects (Value.Respelled ⟨doc.nodes⟩ .eir) hosts) :
    (doc.Respelled doc.airCirLayer doc' →
      Evaluation.Interchangeable (Value.Respelled ⟨doc.nodes⟩ doc.airCirLayer) Eq
        (doc.evaluateAirCir s · host) (doc'.evaluateAirCir s · host)
        (Opening.calls (doc.openingAirCir s) · host)
        (Opening.calls (doc'.openingAirCir s) · host)) ∧
    (doc.Respelled .eir doc' →
      Evaluation.Interchangeable (Value.Respelled ⟨doc.nodes⟩ .eir) hosts
        (doc.evaluateEir s · host) (doc'.evaluateEir s · host)
        (Opening.calls (doc.openingEir s) · host) (Opening.calls (doc'.openingEir s) · host)) := by
  constructor
  · intro same
    have sharing : doc.airCirLayer.copiesCaptures = false := by
      rcases doc.airCirLayer_cases with air | cir
      · rw [air]; rfl
      · rw [cir]; rfl
    simp only [openingAirCir, evaluateAirCir, finishAirCir, ← same.airCirLayer_eq]
    exact same.interchangeable (s := { s with effects := none }) sharing rfl (domains _) nofun .cir
  · intro same
    exact same.interchangeable rfl begun (domains .eir) handlers .eir

/-- The domains that every registry starts with do not read the code of closures. -/
theorem Domains.builtin_respects_recoded {code : Arg → Arg → Prop} (same : ∀ arg, code arg arg)
    {name : String} {d : Domain} (found : Domains.builtin.find? name = some d) :
    d.Respects (fun _ : Unit => Value.Recoded code) fun _ => True :=
  (Resemblance.recoded same).builtin_respects
    (Resemblance.recoded_distinguishes same).comparable _ found

def Document.halving (divisor : Arg) : Document where
  version := "1.0.0"
  layer := some .cir
  definitions := [⟨"m", "half", ["n"], .inline (.call none "div" [.id "n", divisor]), some .int⟩]
  nodes := [⟨"two", .lit (.int 2)⟩]
  result := .inline (.airRef "m" "half" [.inline (.lit (.int 6))])

theorem Document.halving_respelled :
    (Document.halving (.id "two")).Respelled .cir (.halving (.inline (.ref "two"))) := by
  refine ⟨rfl, .cons ⟨rfl, .lit _⟩ .nil, .cons ⟨rfl, .inline (.call ?_)⟩ .nil, .refl _⟩
  exact .cons (.id "n") (.cons (.reference rfl) .nil)

/-- Gives a host a closure to keep, and applies the closure that it gets back for a number. The
first statement names a declaration. -/
def Document.lending (two : Arg) : Document where
  version := "1.0.0"
  layer := some .eir
  definitions := []
  nodes := [⟨"two", .lit (.int 2)⟩, ⟨"bound", .declare "x" two⟩]
  result := .inline (.seq [.id "bound",
    .inline (.effect "keep" [.inline (.lambda [] two)]),
    .inline (.call none "add" [.id "x",
      .inline (.apply (.inline (.effect "keep" [.id "x"])) [])])])

theorem Document.lending_respelled :
    (Document.lending (.id "two")).Respelled .eir (.lending (.inline (.ref "two"))) := by
  refine ⟨rfl, .cons ⟨rfl, .lit _⟩ (.cons ⟨rfl, .declare (.reference rfl)⟩ .nil), .nil,
    .inline (.seq ?_ fun _ => ?_)⟩
  · refine .cons (.refl _) (.cons (.inline (.effect ?_)) (.cons (.refl _) .nil))
    exact .cons (.inline (.lambda (.reference rfl))) .nil
  · exact .cons (.refl _ _) (.cons (Nodes.keeps_inline _ _ _) (.cons (.refl _ _) .nil))

def Handler.keep : Handler (List Value) := fun _ args kept => (.ok (kept.headD .void), args ++ kept)

def Setting.keeping : Setting (List Value) where
  effects := some (Effects.empty.register "keep" Handler.keep)

theorem Handler.keep_respects {code : Arg → Arg → Prop} :
    Handler.keep.Respects (Value.Recoded code) (List.Forall₂ (Value.Recoded code)) := by
  intro futures args args' kept kept' values keeps
  refine ⟨?_, List.rel_append values keeps⟩
  cases keeps with
  | nil => exact .leaf rfl
  | cons last _ => exact last

theorem Setting.keeping_handler {name : String} {handler : Handler (List Value)}
    (found : Setting.keeping.handler? name = some handler) : handler = Handler.keep := by
  have listed : [("keep", Handler.keep)].lookup name = some handler := found
  obtain ⟨before, after, split, -⟩ := List.lookup_eq_some_iff.mp listed
  have member : (name, handler) ∈ [("keep", Handler.keep)] := split ▸ by simp
  exact (Prod.ext_iff.mp (List.mem_singleton.mp member)).2

theorem Document.references_interchangeable_two :
    (∃ fuel ≥ 40, (Document.halving (.inline (.ref "two"))).evaluateAirCir .keeping fuel [] =
      some (.ok (.int 3), [])) ∧
    ∃ fuel ≥ 80, ∃ kept, (Document.lending (.inline (.ref "two"))).evaluateEir .keeping fuel [] =
      some (.ok (.int 4), kept) := by
  have domains {nodes : Nodes} (layer : Layer) (name : String) (d : Domain)
      (found : Domains.builtin.find? name = some d) :
      d.Respects (fun _ : Unit => Value.Respelled nodes layer) fun _ => True :=
    Domains.builtin_respects_recoded Arg.Respelled.refl found
  have handlers {nodes : Nodes} (name : String) (handler : Handler (List Value))
      (found : Setting.keeping.handler? name = some handler) :
      handler.Respects (Value.Respelled nodes .eir) (List.Forall₂ (Value.Respelled nodes .eir)) :=
    Setting.keeping_handler found ▸ Handler.keep_respects
  constructor
  · have ran : (Document.halving (.id "two")).evaluateAirCir .keeping 40 [] =
        some (.ok (.int 3), []) := rfl
    have interchangeable := (Document.references_interchangeable .keeping
      (.halving (.id "two")) _ [] _ .nil domains handlers).1 Document.halving_respelled
    obtain ⟨fuel, more, outcome, kept, ended, results, rfl⟩ := interchangeable.ends ran
    match outcome, results with
    | .ok _, .leaf _ => exact ⟨fuel, more, ended⟩
  · have ran : ∃ kept, (Document.lending (.id "two")).evaluateEir .keeping 80 [] =
        some (.ok (.int 4), kept) := ⟨_, rfl⟩
    obtain ⟨kept, ran⟩ := ran
    have interchangeable := (Document.references_interchangeable .keeping
      (.lending (.id "two")) _ [] _ .nil domains handlers).2 Document.lending_respelled
    obtain ⟨fuel, more, outcome, kept, ended, results, -⟩ := interchangeable.ends ran
    match outcome, results with
    | .ok _, .leaf _ => exact ⟨fuel, more, kept, ended⟩

/-- Makes a function of the variable `x`, then has a statement that may declare another `x`, and
applies the function. -/
def Document.declaring (statement : Arg) : Document where
  version := "1.0.0"
  layer := some .eir
  definitions := []
  nodes := [⟨"bound", .declare "x" (.inline (.lit (.int 2)))⟩]
  result := .inline (.letIn "x" (.inline (.lit (.int 1))) (.inline (.seq [
    .inline (.declare "f" (.inline (.lit (.int 0)))),
    .inline (.assign "f" (.inline (.lambda [] (.inline (.var "x"))))),
    statement,
    .inline (.apply (.id "f") [])])))

-- By its id the node declares a variable for what comes after it; by a reference it binds the name
-- in the scope that the function has captured.
example :
    (Document.declaring (.id "bound")).evaluateEir {} 80 () = some (.ok (.int 1), ()) ∧
      (Document.declaring (.inline (.ref "bound"))).evaluateEir {} 80 () =
        some (.ok (.int 2), ()) := ⟨rfl, rfl⟩

end LayeredIR
