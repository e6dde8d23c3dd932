import LayeredIR.Proofs.Discipline.Tasks
import LayeredIR.Proofs.Openings
import LayeredIR.Proofs.Preorder

/-! The two checks of layers. Before a run, the forms of a document are searched for one above the
layer; during the run, every form is checked where it is evaluated. A document that passes the
search comes to no form that fails the check: all that is evaluated occurs in the document, in a
definition, or in the body of a closure, and closures are made by code that occurs there, unless
they are brought from outside. -/
namespace LayeredIR

abbrev Expr.Fits (layer : Layer) (expr : Expr) : Prop := ¬ layer < expr.minLayer

/-- A form of a layer is one of every layer above it. -/
theorem Expr.Fits.mono {layer above : Layer} {expr : Expr} (fits : expr.Fits layer)
    (le : layer.rank ≤ above.rank) : expr.Fits above :=
  fun less => fits (Nat.lt_of_le_of_lt le less)

variable {σ : Type}

/-- The closures that a setting brings along: those of its inputs, and those that a domain answers
though no operand holds them. -/
inductive Setting.Brings (s : Setting σ) (c : Closure) : Prop
  | input {name v} (given : s.input? name = some v) (inside : (Value.closure c).Inside v)
  | domain {name d typeOf op args v} (found : s.domains.find? name = some d)
    (answered : Domain.call d typeOf op args = .ok v) (inside : (Value.closure c).Inside v)
    (new : ∀ arg ∈ args, ¬ (Value.closure c).Inside arg)

theorem Setting.Brings.answers {s : Setting σ} {P : Closure → Prop}
    (brought : ∀ c, s.Brings c → P c) {name : String} {d : Domain} {typeOf : Value → Option Ty}
    {op : String} {args : List Value} {v : Value} (found : s.domains.find? name = some d)
    (answered : d.call typeOf op args = .ok v) (held : ∀ arg ∈ args, arg.Closures P) :
    v.Closures P := by
  intro part inside c same
  subst same
  by_cases old : ∃ arg ∈ args, (Value.closure c).Inside arg
  · obtain ⟨arg, member, within⟩ := old
    exact held arg member _ within c rfl
  · exact brought c (.domain found answered inside (by simpa using old))

/-- Literals hold no closures, and most domains answer with none but those of their operands. -/
theorem Setting.not_brings {s : Setting σ}
    (literal : ∀ entry ∈ s.inputs, ∃ l, entry.2 = Value.ofLiteral l)
    (conserve : ∀ name d, s.domains.find? name = some d → d.Conserves) (c : Closure) :
    ¬ s.Brings c := by
  rintro (@⟨name, v, given, inside⟩ | @⟨name, d, typeOf, op, args, v, found, answered, inside, new⟩)
  · obtain ⟨before, after, split, -⟩ := List.lookup_eq_some_iff.mp given
    obtain ⟨l, same⟩ := literal (name, v) (by simp [split])
    obtain rfl : v = Value.ofLiteral l := same
    have plain := Value.ofLiteral_plain l _ inside
    cases plain
  · obtain ⟨arg, member, within⟩ := conserve name d found typeOf op args v answered _ inside rfl
    exact new arg member within

structure Setting.Legal (s : Setting σ) (layer : Layer) : Prop where
  definitions : s.definitions.Every (Expr.Fits layer)
  brought : layer.hasClosures → ∀ c, s.Brings c → c.body.Every (Expr.Fits layer)

structure Setting.Lawful (s : Setting σ) : Prop where
  layer : s.layer = .air ∨ s.layer = .cir
  nodes : ∀ id expr, s.nodes.get? id = some expr → expr.Every (Expr.Fits s.layer)
  legal : s.Legal s.layer

theorem Setting.Lawful.pure {s : Setting σ} (lawful : s.Lawful) :
    s.layer.hasMutation = false ∧ s.layer.hasEffects = false ∧ s.layer.copiesCaptures = false := by
  rcases lawful.layer with layer | layer <;>
    simp [layer, Layer.hasMutation, Layer.hasEffects, Layer.copiesCaptures]

def Discipline.legal (s : Setting σ) : Discipline s where
  base := 1
  closure _ body _ := s.layer.hasClosures → body.Every (Expr.Fits s.layer)
  scope _ _ := True
  outer _ _ := True
  define _ _ _ _ := True
  assign _ _ _ _ := False
  code _ arg := arg.Every (Expr.Fits s.layer)
  cause cause := (∀ layer form place, cause ≠ .layerViolation layer form place) ∨
    s.domains.Answer cause
  calls _ _ _ := True
  idle _ _ := True
  flow := False
  kept _ _ := False

theorem Discipline.legal_laws {s : Setting σ} (lawful : s.Lawful) : (legal s).Laws where
  closure_mono _ known := known
  scope_mono _ _ := trivial
  outer_root _ := trivial
  outer_scope _ := trivial
  outer_captured _ := trivial
  outer_copy _ := trivial
  scope_made _ := trivial
  define_made _ _ _ _ := trivial
  define_declared _ _ _ _ := trivial
  assign_code mutation := by simp [lawful.pure.1] at mutation
  code_evaluated evaluates code := evaluates.every lawful.nodes code
  code_node found _ := lawful.nodes _ _ found
  code_ref found _ := lawful.nodes _ _ found
  code_definition found _ _ := lawful.legal.definitions _ (Definitions.mem_of_get? found)
  code_body _ closures known := known closures
  code_instruction _ flow := flow.elim
  closure_shared _ _ code _ _ := code.operand _ (by simp)
  closure_frozen _ _ code _ := code.operand _ (by simp)
  flow_scope _ flow := flow.elim
  flow_define _ flow := flow.elim
  flow_closure _ flow := flow.elim
  flow_layer flow := flow.elim
  input _ given c inside f same closures := by
    subst same
    exact lawful.legal.brought closures f (.input given inside)
  domain typeOf op args found held :=
    ⟨fun v answered => Setting.Brings.answers
      (fun c brings closures => lawful.legal.brought closures c brings) found answered held,
      fun _ failed => .inr ⟨_, _, typeOf, op, args, found, failed⟩⟩
  handler effects := by simp [lawful.pure.2.1] at effects
  cause_own own := .inl fun layer form place same => own (same ▸ .layer layer form place)
  above _ code above := absurd above code.here
  full _ _ _ := .inl nofun
  enter _ _ := trivial
  leave _ := trivial
  idle _ _ := trivial

namespace Opening

/-- An evaluation that is refused with a cause, or in which some step fails with it. -/
def Raises (opening : Except Cause (Opening σ)) (host : σ) (cause : Cause) : Prop :=
  match opening with
  | .error refusal => refusal = cause
  | .ok o => ∃ n fault, fault.cause = cause ∧
    (o.task.after o.setting (fun _ shared => shared) n (fresh host)).fault? = some fault

/-- The cause of a failed evaluation is one that it raises. -/
theorem raises_of_evaluate {opening : Except Cause (Opening σ)} {fuel : Nat} {host host' : σ}
    {fault : Fault} (failed : evaluate opening fuel host = some (.error fault, host')) :
    Raises opening host fault.cause := by
  cases opening with
  | error refusal =>
    cases failed
    rfl
  | ok o =>
    obtain ⟨⟨_, shared, memory⟩, ran, parts⟩ := Option.map_eq_some_iff.mp failed
    cases parts
    refine ⟨fuel, fault, rfl, ?_⟩
    rw [Task.run_eq_after] at ran
    cases came : o.task.after o.setting (fun _ shared => shared) fuel (fresh host) with
    | ended =>
      rw [came] at ran
      cases ran
      rfl
    | running | waiting =>
      rw [came] at ran
      cases ran

end Opening

namespace Document

variable {doc : Document} {s : Setting σ}

theorem lawful_setting (every : doc.Every (Expr.Fits doc.airCirLayer))
    (legal : s.Legal doc.airCirLayer) {o : Opening σ} (opens : doc.openingAirCir s = .ok o) :
    o.setting.Lawful ∧ o.setting.layer = doc.airCirLayer ∧ o.setting.domains = s.domains := by
  obtain ⟨prepared, -⟩ := opening_eq_ok opens
  obtain ⟨nodes, table, same⟩ := setting_eq_ok prepared
  rw [same]
  refine ⟨⟨doc.airCirLayer_cases, fun id expr found => ?_, fun entry member => ?_,
    fun closures c brings => legal.brought closures c ?_⟩, rfl, rfl⟩
  · obtain ⟨node, among, rfl⟩ := mem_nodeTable table found
    exact every.node node among
  · rcases Definitions.mem_layered member with own | callers
    · exact every.definition _ own
    · exact legal.definitions entry callers
  · cases brings with
    | input given inside => exact .input given inside
    | domain found answered inside new => exact .domain found answered inside new

theorem raises_answer (every : doc.Every (Expr.Fits doc.airCirLayer))
    (legal : s.Legal doc.airCirLayer) {o : Opening σ} (opens : doc.openingAirCir s = .ok o)
    {host : σ} {layer : Layer} {form place : String}
    (raises : Opening.Raises (.ok o) host (.layerViolation layer form place)) :
    s.domains.Answer (.layerViolation layer form place) := by
  obtain ⟨lawful, same, domains⟩ := lawful_setting every legal opens
  obtain ⟨-, starts⟩ := opening_eq_ok opens
  have code : (Discipline.legal o.setting).code [] doc.result := by
    change doc.result.Every (Expr.Fits o.setting.layer)
    rw [same]
    exact every.result
  have runs : (Discipline.legal o.setting).Runs [] [] [] [] o.task := by
    rw [starts]
    exact Discipline.runs_start rfl code trivial trivial
  have shares : (Discipline.legal o.setting).Shares [] (Opening.fresh host).futures
      (Opening.fresh host).host := .empty fun _ => id
  obtain ⟨n, fault, cause, raised⟩ := raises
  have allowed := runs.raised (Discipline.legal_laws lawful) shares raised
  rw [cause] at allowed
  exact domains ▸ allowed.resolve_left fun others => others layer form place rfl

/-- A declared layer is the only thing but a form that the check of a document looks at. -/
theorem checkLayer_eq {layer top : Layer}
    (accepted : ∀ declared, doc.layer = some declared → ¬ top < declared) :
    doc.checkLayer layer top = match doc.firstAbove layer with
      | some (place, form) => .error (.layerViolation layer form place)
      | none => .ok () := by
  have declared : (doc.layer.filter fun declared => decide (top < declared)) = none := by
    cases same : doc.layer with
    | none => rfl
    | some layer => simp [Option.filter, accepted layer same]
  unfold checkLayer
  rw [declared]
  cases doc.firstAbove layer <;> rfl

theorem checkLayer_of_every {layer top : Layer}
    (accepted : ∀ declared, doc.layer = some declared → ¬ top < declared)
    (every : doc.Every (Expr.Fits layer)) : doc.checkLayer layer top = .ok () := by
  have passed : doc.firstAbove layer = none := by
    simpa [firstAbove_eq] using every_iff.mp every
  rw [checkLayer_eq accepted, passed]

theorem opening_of_every {layer top : Layer}
    (accepted : ∀ declared, doc.layer = some declared → ¬ top < declared)
    (every : doc.Every (Expr.Fits layer)) {cause : Cause}
    (refused : doc.opening s layer top = .error cause) :
    ∃ e, doc.nodeTable = .error e ∧ cause = e.cause := by
  unfold opening setting at refused
  rw [checkLayer_of_every accepted every] at refused
  cases table : doc.nodeTable with
  | error e =>
    rw [table] at refused
    cases refused
    exact ⟨e, rfl, rfl⟩
  | ok nodes =>
    rw [table] at refused
    cases refused

variable (doc s)

/-- The first form above the layer, in the order of the document, refuses it before anything is
evaluated, wherever it stands. Where there is none, neither in the document nor in what is called
on, no form is refused, before the run or by any step of it; what is left are the causes that the
domains themselves choose to answer. -/
theorem openingAirCir_layers
    (accepted : ∀ declared, doc.layer = some declared → ¬ Layer.cir < declared) :
    (∀ before place expr after, doc.forms = before ++ (place, expr) :: after →
      (∀ form ∈ before, form.2.Fits doc.airCirLayer) → ¬ expr.Fits doc.airCirLayer →
      doc.openingAirCir s = .error (.layerViolation doc.airCirLayer expr.form place) ∧
      ∀ fuel host, doc.evaluateAirCir s fuel host =
        some (.error (.ofCause (.layerViolation doc.airCirLayer expr.form place)), host)) ∧
    ((∀ form ∈ doc.forms, form.2.Fits doc.airCirLayer) → s.Legal doc.airCirLayer →
      ∀ host layer form place,
        Opening.Raises (doc.openingAirCir s) host (.layerViolation layer form place) →
        s.domains.Answer (.layerViolation layer form place)) := by
  constructor
  · intro before place expr after split fits above
    have first : doc.firstAbove doc.airCirLayer = some (place, expr.form) := by
      have passed : before.find? (fun form => doc.airCirLayer < form.2.minLayer) = none := by
        simpa using fits
      simp [firstAbove_eq, split, List.find?_append, passed, not_not.mp above]
    have refused : doc.openingAirCir s =
        .error (.layerViolation doc.airCirLayer expr.form place) := by
      unfold openingAirCir opening
      rw [checkLayer_eq accepted, first]
      rfl
    refine ⟨refused, fun fuel host => ?_⟩
    rw [evaluateAirCir_eq, refused]
    rfl
  · intro fits legal host layer form place raises
    have every : doc.Every (Expr.Fits doc.airCirLayer) := every_iff.mpr fits
    cases opens : doc.openingAirCir s with
    | ok o =>
      rw [opens] at raises
      exact raises_answer every legal opens raises
    | error cause =>
      obtain ⟨e, -, structural⟩ := opening_of_every accepted every opens
      rw [opens] at raises
      have same : e.cause = .layerViolation layer form place := structural.symm.trans raises
      cases e <;> cases same

def strayDeclare : Document where
  version := "1.0.0"
  layer := none
  definitions := [⟨"m", "id", ["x"], .id "x", none⟩,
    ⟨"m", "put", ["x"], .inline (.letIn "y" (.id "x") (.inline (.declare "z" (.id "y")))), none⟩]
  nodes := [⟨"one", .lit (.int 1)⟩]
  result := .inline (.seq [.id "one"])

def doubling : Document where
  version := "1.0.0"
  layer := some .cir
  definitions := [⟨"m", "twice", ["x"], .inline (.call none "add" [.id "x", .id "x"]), none⟩]
  nodes := [⟨"f", .lambda ["n"] (.inline (.airRef "m" "twice" [.id "n"]))⟩]
  result := .inline (.apply (.id "f") [.inline (.lit (.int 3))])

/-- The search finds the stray declaration before the sequence; and where it finds nothing, no step
refuses a form. -/
theorem openingAirCir_layers_both :
    (∀ fuel, strayDeclare.evaluateAirCir ({} : Setting Unit) fuel () =
      some (.error (.ofCause (.layerViolation .cir "declare" "m:put")), ())) ∧
    (∃ fuel, doubling.evaluateAirCir ({} : Setting Unit) fuel () = some (.ok (.int 6), ())) ∧
    ∀ layer form place, ¬ Opening.Raises (doubling.openingAirCir ({} : Setting Unit)) ()
      (.layerViolation layer form place) := by
  have stray := openingAirCir_layers strayDeclare ({} : Setting Unit) (by rintro _ ⟨⟩)
  have clean := openingAirCir_layers doubling ({} : Setting Unit) (by rintro _ ⟨⟩; decide)
  refine ⟨fun fuel => ?_, ⟨60, by rfl⟩, fun layer form place raises => ?_⟩
  · have split : strayDeclare.forms =
        [("one", .lit (.int 1)), ("m:put", .letIn "y" (.id "x") (.inline (.declare "z" (.id "y"))))]
          ++ ("m:put", .declare "z" (.id "y")) :: [("result", .seq [.id "one"])] := by
      simp [strayDeclare, forms, Expr.preorder_eq, Arg.preorder, Definition.key, definitionKey]
    exact (stray.1 _ _ _ _ split (by decide) (by decide)).2 fuel ()
  · have fits : ∀ form ∈ doubling.forms, form.2.Fits doubling.airCirLayer := by
      simp [doubling, forms, Expr.preorder_eq, Arg.preorder]
      decide
    have legal : ({} : Setting Unit).Legal doubling.airCirLayer :=
      ⟨List.forall_mem_nil _, fun _ c brings => absurd brings
        (Setting.not_brings (by simp) (fun _ _ => Domains.builtin_conserves) c)⟩
    obtain ⟨name, d, typeOf, op, args, found, failed⟩ :=
      clean.2 fits legal () layer form place raises
    exact (Domains.builtin_unrefused found typeOf op args).of_error failed (.layer _ _ _)

def sequencing : Value := .closure ⟨[], [], .inline (.seq []), .frozen [], false⟩

def applyingInput : Document where
  version := "1.0.0"
  layer := none
  definitions := []
  nodes := []
  result := .inline (.apply (.inline (.input "f")) [])

def givenSequencing : Setting Unit := { inputs := [("f", sequencing)] }

def applyingMade : Document :=
  { applyingInput with result := .inline (.apply (.inline (.call (some "seqs") "of" [])) []) }

theorem fits_applyingInput :
    ∀ form ∈ applyingInput.forms, form.2.Fits applyingInput.airCirLayer := by
  simp [applyingInput, forms, Expr.preorder_eq, Arg.preorder]
  decide

theorem fits_applyingMade : ∀ form ∈ applyingMade.forms, form.2.Fits applyingMade.airCirLayer := by
  simp [applyingMade, applyingInput, forms, Expr.preorder_eq, Arg.preorder]
  decide

def asking : Document := { applyingInput with result := .inline (.call (some "seqs") "refuse" []) }

def sequencings : Domain where
  name := "seqs"
  construct _ _ := sequencing
  iterate value := .error (.typeMismatch "seqs" value.kind)
  extra op _ :=
    match op with
    | "refuse" => some (.error (.layerViolation .cir "seq" "seqs"))
    | _ => none

def withSequencings : Setting Unit :=
  { domains := Domains.empty.register sequencings, config := { nodeCache := false } }

/-- A search that finds nothing, neither in the document nor in what it calls on, before a run in
which a form is refused all the same. -/
def Overlooked (doc : Document) (s : Setting Unit) (form place : String) : Prop :=
  doc.layer = none ∧ (∀ form ∈ doc.forms, form.2.Fits doc.airCirLayer) ∧
    s.definitions.Every (Expr.Fits doc.airCirLayer) ∧
    Opening.Raises (doc.openingAirCir s) () (.layerViolation doc.airCirLayer form place)

/-- What comes from outside is not searched: a step may refuse the body of a function that is among
the inputs or that a domain makes, and a domain may answer with a refusal. -/
theorem openingAirCir_layers_overlooked :
    applyingInput.Overlooked givenSequencing "seq" "<closure>" ∧
      applyingMade.Overlooked withSequencings "seq" "<closure>" ∧
      asking.Overlooked withSequencings "seq" "seqs" := by
  have none : Definitions.empty.Every (Expr.Fits .cir) := List.forall_mem_nil _
  have refused {doc : Document} {s : Setting Unit} {cause : Cause} (frames : Option Backtrace)
      (failed : Opening.evaluate (doc.openingAirCir s) 20 () = some (.error ⟨cause, frames⟩, ())) :
      Opening.Raises (doc.openingAirCir s) () cause := Opening.raises_of_evaluate failed
  refine ⟨⟨rfl, fits_applyingInput, none, refused _ rfl⟩,
    ⟨rfl, fits_applyingMade, none, refused _ rfl⟩, ⟨rfl, ?_, none, refused _ rfl⟩⟩
  simp [asking, applyingInput, forms, Expr.preorder_eq, Arg.preorder]
  decide

end Document
end LayeredIR
