import LayeredIR.Evaluate
import LayeredIR.Proofs.Likeness.Forms
import LayeredIR.Proofs.Resemblance.Operations
import LayeredIR.Proofs.Value.Alike

/-! Runs of expressions with and without the node cache. What the second run evaluates anew each
time, the first makes once, so one scope of the first may stand for many of the second. New pairs
of scopes are written to before anything else happens, so a pair that others share is never written
to again. -/
namespace LayeredIR

namespace NodeCache

structure Stage where
  scopes : ScopeId → ScopeId → Prop
  rooted : scopes rootScope rootScope
  opening : Option (ScopeId × ScopeId)
  idle : Prop
  /-- Whether the call stacked are the same. They are not where the value of a node is compared with
  one that was kept earlier. -/
  exact : Prop

instance : Preorder Stage where
  le w w' := (∀ a b, w.scopes a b → w'.scopes a b) ∧ (w.idle ↔ w'.idle) ∧ (w.exact ↔ w'.exact)
  le_refl _ := ⟨fun _ _ same => same, Iff.rfl, Iff.rfl⟩
  le_trans _ _ _ first second :=
    ⟨fun a b same => second.1 a b (first.1 a b same), first.2.1.trans second.2.1,
      first.2.2.trans second.2.2⟩

variable {σ : Type} (s : Setting σ)

def Comparing (op : Operator) : Prop := s.layer.hasClosures → op ≠ .eq ∧ op ≠ .neq

def Dispatching (_ : String) : Prop := s.layer.hasClosures = false

abbrev Code : Arg → Prop :=
  Arg.Every (Expr.CallsOnly (Permitted (Comparing s) (Dispatching s)))

/-- Which values stand for each other, given which scopes do: where closures are made, those that
differ in the identities and in the scopes of closures, of code that is allowed; elsewhere, the same
ones. -/
def resemblanceOf (code : Arg → Prop) : Resemblance (ScopeId → ScopeId → Prop) :=
  if s.layer.hasClosures then .upTo (fun _ _ _ => True) id code else .same _

abbrev resemblance := resemblanceOf s (Code s)

variable {s} {code code' : Arg → Prop}

theorem value_of_closures (closures : s.layer.hasClosures) (scopes : ScopeId → ScopeId → Prop) :
    (resemblanceOf s code).value scopes = Value.Alike (fun _ _ => True) scopes code := by
  unfold resemblanceOf
  rw [if_pos closures]
  rfl

theorem value_of_plain (plain : s.layer.hasClosures = false) (scopes : ScopeId → ScopeId → Prop) :
    (resemblanceOf s code).value scopes = Eq := by
  unfold resemblanceOf
  rw [if_neg (Bool.eq_false_iff.mp plain)]
  rfl

theorem comparable {op : Operator} (permitted : Comparing s op) :
    op = .eq ∨ op = .neq → (resemblanceOf s code).Comparable := by
  intro compares
  cases closures : s.layer.hasClosures with
  | true =>
    obtain ⟨eq, neq⟩ := permitted closures
    exact (compares.elim eq neq).elim
  | false =>
    intro _ v v' u u' same same'
    rw [value_of_plain closures] at same same'
    subst same same'
    exact fun _ => rfl

theorem value_mono {scopes scopes' : ScopeId → ScopeId → Prop}
    (wider : ∀ a b, scopes a b → scopes' a b) {v v' : Value}
    (same : (resemblanceOf s code).value scopes v v') :
    (resemblanceOf s code).value scopes' v v' := by
  cases closures : s.layer.hasClosures with
  | true =>
    rw [value_of_closures closures] at same ⊢
    exact same.mono (fun _ _ ids => ids) wider fun _ allowed => allowed
  | false =>
    rw [value_of_plain closures] at same ⊢
    exact same

theorem value_imp (more : ∀ arg, code arg → code' arg) {scopes : ScopeId → ScopeId → Prop}
    {v v' : Value} (same : (resemblanceOf s code).value scopes v v') :
    (resemblanceOf s code').value scopes v v' := by
  cases closures : s.layer.hasClosures with
  | true =>
    rw [value_of_closures closures] at same ⊢
    exact same.mono (fun _ _ ids => ids) (fun _ _ within => within) more
  | false =>
    rw [value_of_plain closures] at same ⊢
    exact same

structure Codes (operator : Operator → Prop) (operation : String → Prop) (code : Arg → Prop)
    (reads : String → Prop) : Prop where
  operand : ∀ {expr arg}, code (.inline expr) → arg ∈ expr.operands → code arg
  call : ∀ {ns name args}, code (.inline (.call ns name args)) →
    Permitted operator operation ns name
  var : ∀ {name}, code (.inline (.var name)) → reads name

variable {operator : Operator → Prop} {operation : String → Prop} {reads : String → Prop}

variable (s) in
def likenessOf (codes : Codes operator operation code reads) : Likeness Stage where
  toResemblance := (resemblanceOf s code).along Stage.scopes
  captured w c c' := s.layer.hasClosures ∧ Captured.Alike (fun _ _ => True) w.scopes code c c'
  identity _ _ _ := True
  mutability := Eq
  scope w a b := w.scopes a b ∧ (a = rootScope ↔ b = rootScope) ∧ (a = rootScope → w.idle)
  outer w := w.scopes
  writable w a b := w.opening = some (a, b)
  inside w := { w with idle := False }
  fault w f f' := w.exact → f = f'
  place w p p' := w.exact → p = p'
  operator := operator
  operation := operation
  allowed := code
  reads := reads
  domain _ := True
  applicable := s.layer.hasClosures
  flow := False
  mutation := False
  effects := False
  snapshots := False
  memo := True
  copying := False
  node id expr := s.nodes.get? id = some expr
  value_mono le := value_mono le.1
  captured_mono := by
    intro w w' c c' le parts
    obtain ⟨closures, captured⟩ := parts
    exact ⟨closures, captured.mono (fun _ _ ids => ids) le.1 fun _ allowed => allowed⟩
  scope_mono le same := ⟨le.1 _ _ same.1, same.2.1, fun root => le.2.1.mp (same.2.2 root)⟩
  inside_mono le := ⟨le.1, Iff.rfl, le.2.2⟩
  scope_root _ same := same.2.1
  writable_of_scope := False.elim
  outer_root w := w.rooted
  outer_of_scope same := same.1
  mutability_self _ := rfl
  allowed_operand := codes.operand
  allowed_call := codes.call
  allowed_var := codes.var
  fault_self _ _ _ := rfl
  fault_place same layer form exact := by rw [same exact]
  value_closure := by
    intro w id id' params body c c' isFix _ parts allowed
    obtain ⟨closures, captured⟩ := parts
    change (resemblanceOf s code).value w.scopes _ _
    rw [value_of_closures closures]
    exact .closure trivial allowed captured
  closure_parts := by
    intro w c c' closures same
    change (resemblanceOf s code).value w.scopes _ _ at same
    rw [value_of_closures closures] at same
    obtain ⟨params, body, isFix, ids, captured, allowed⟩ := same.parts
    exact ⟨params, body, isFix, ids, ⟨closures, captured⟩, allowed⟩

variable (s) in
theorem codes : Codes (Comparing s) (Dispatching s) (Code s) fun _ => True where
  operand every member := every.operand _ member
  call every := every.here
  var _ := trivial

variable (s) in
abbrev likeness : Likeness Stage := likenessOf s (codes s)

end NodeCache

/-- A setting of one of the first two layers, whose inputs are literals and whose code compares no
closures. -/
structure Setting.Cacheable {σ : Type} (s : Setting σ) : Prop where
  layer : s.layer = .air ∨ s.layer = .cir
  handlers : ∀ name, s.handler? name = none
  inputs : ∀ entry ∈ s.inputs, ∃ l, entry.2 = .ofLiteral l
  calls : s.CallsOnly (Permitted (NodeCache.Comparing s) (NodeCache.Dispatching s))

def Setting.uncached {σ : Type} (s : Setting σ) : Setting σ :=
  { s with config := { s.config with nodeCache := false } }

namespace NodeCache

/-- A setting of one of the first two layers beside itself without the node cache. -/
theorem likeOf {σ : Type} {s : Setting σ} {operator : Operator → Prop} {operation : String → Prop}
    {code : Arg → Prop} {reads : String → Prop} (codes : Codes operator operation code reads)
    (layer : s.layer = .air ∨ s.layer = .cir)
    (inputs : ∀ w : Stage, ∀ name,
      Option.Rel ((resemblanceOf s code).value w.scopes) (s.input? name) (s.input? name))
    (allows : (likenessOf s codes).Allows s) : (likenessOf s codes).Settings s s.uncached := by
  have lower : s.layer.hasMutation = false ∧ s.layer.hasEffects = false ∧
      s.layer.copiesCaptures = false := by
    rcases layer with air | cir
    · rw [air]
      exact ⟨rfl, rfl, rfl⟩
    · rw [cir]
      exact ⟨rfl, rfl, rfl⟩
  refine
    { nodes := rfl
      definitions := rfl
      blocks := fun _ => rfl
      domains := rfl
      layer := .inl rfl
      mutability := rfl
      maxTasks := rfl
      handlers := fun _ _ => rfl
      inputs := inputs
      cache := .inr ⟨trivial, rfl⟩
      code := allows
      domain := fun _ _ _ => trivial
      mutation := fun on => ?_
      effects := fun on => ?_
      snapshots := fun on => ?_
      registers := fun on => ?_
      closures := fun on => on
      flow := False.elim
      captures := .inl ⟨fun copying => copying, rfl⟩
      shared := fun on _ w a b same => ⟨on, .shared same.1⟩
      frozen := fun copies => ?_ }
  · rw [lower.1] at on
    cases on
  · rw [lower.2.1] at on
    cases on
  · rw [lower.2.2] at on
    cases on
  · rw [lower.1] at on
    cases on
  · rw [lower.2.2] at copies
    cases copies

theorem like {σ : Type} {s : Setting σ} (cacheable : s.Cacheable) :
    (likeness s).Settings s s.uncached := by
  refine likeOf (codes s) cacheable.layer (fun w name => ?_)
    (.of_callsOnly (fun _ every => every) (fun _ _ found => found) (fun _ => trivial)
      cacheable.calls)
  refine lookup_self (fun entry member => ?_) name
  obtain ⟨l, literal⟩ := cacheable.inputs entry member
  rw [literal]
  exact (likeness s).value_literal w l

end NodeCache
end LayeredIR
