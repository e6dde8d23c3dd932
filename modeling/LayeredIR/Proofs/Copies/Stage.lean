import LayeredIR.Proofs.Copies.Values
import LayeredIR.Proofs.Likeness.Forms

/-! Runs in which closures share scopes beside runs in which they copy them. A scope of the one
stands for a scope of the other as far as the names that code may read look up alike. New scopes are
written to before anything else happens, so what a closure copies is never written to again. -/
namespace LayeredIR
namespace Copies

structure Stage where
  heap : Heap
  closed : Nat
  scopes : ScopeId → ScopeId → Prop
  rooted : scopes rootScope rootScope
  opening : Option ScopeId

structure Stage.Grows (w w' : Stage) : Prop where
  closed : w.closed ≤ w'.closed
  lookups : ∀ a < w.closed, ∀ name, w'.heap.lookup a name = w.heap.lookup a name
  scopes : ∀ a b, w.scopes a b → w'.scopes a b

instance : Preorder Stage where
  le := Stage.Grows
  le_refl _ := ⟨Nat.le_refl _, fun _ _ _ => rfl, fun _ _ same => same⟩
  le_trans _ _ _ first second :=
    ⟨Nat.le_trans first.closed second.closed,
      fun a older name => (second.lookups a (Nat.lt_of_lt_of_le older first.closed) name).trans
        (first.lookups a older name),
      fun a b same => second.scopes a b (first.scopes a b same)⟩

variable (layer : Layer) (reads : String → Prop)

def likeness : Likeness Stage where
  toResemblance := .copies Stage.heap Stage.closed reads (Arg.Confined layer reads)
  captured w := Captured.Copied w.heap w.closed reads (Arg.Confined layer reads)
  identity _ := Eq
  mutability _ _ := True
  scope w := w.scopes
  outer w := w.scopes
  writable w a b := a = w.closed ∧ w.opening = some b
  inside w := w
  fault _ := Eq
  place _ := Eq
  operator _ := True
  operation _ := True
  domain d := d.Respects
    (fun w : Heap × Nat => Value.Copied w.1 w.2 reads (Arg.Confined layer reads)) fun _ => True
  allowed := Arg.Confined layer reads
  reads := reads
  applicable := True
  flow := False
  mutation := False
  effects := False
  snapshots := False
  memo := True
  copying := True
  node _ _ := False
  value_mono le copied := copied.mono le.closed le.lookups
  captured_mono le copied := copied.mono le.closed le.lookups
  scope_mono le same := le.scopes _ _ same
  inside_mono le := le
  scope_root impossible _ := impossible.elim
  writable_of_scope := False.elim
  outer_root w := w.rooted
  outer_of_scope same := same
  mutability_self _ := trivial
  allowed_operand confined member := confined.operand member
  allowed_call {ns name _} _ := .all ns name
  allowed_var confined := confined.var
  fault_self _ _ := rfl
  fault_place same _ _ := by rw [same]
  value_closure ids captured allowed := ids ▸ .closure allowed captured
  closure_parts _ copied := copied.parts

end Copies

namespace Setting

variable {σ : Type} (s : Setting σ)

def Spare (name : String) : Prop := s.input? name = none

/-- A setting of one of the first two layers without nodes, in which no code names an input as a
variable. Inputs hold no closures that share scopes, and domains do not tell copies apart. -/
structure Copyable : Prop where
  layer : s.layer = .air ∨ s.layer = .cir
  nodes : ∀ id, s.nodes.get? id = none
  definitions : ∀ ns name d, s.definitions.get? ns name = some d → d.body.Confined s.layer s.Spare
  inputs : ∀ entry ∈ s.inputs,
    entry.2.Closures (Closure.Independent (Arg.Confined s.layer s.Spare))
  domains : ∀ name d, s.domains.find? name = some d → (Copies.likeness s.layer s.Spare).domain d

def inBlocks (effects : Option (Effects σ)) (blocks : List Block) : Setting σ :=
  { s with effects := effects, layer := .lir, blocks := blocks }

end Setting

namespace Copies

variable {σ : Type} {s : Setting σ}

theorem likeness_settings (copyable : s.Copyable) (effects : Option (Effects σ))
    (blocks : List Block) :
    (likeness s.layer s.Spare).Settings s (s.inBlocks effects blocks) := by
  have lower : s.layer.hasMutation = false ∧ s.layer.hasEffects = false ∧
      s.layer.copiesCaptures = false := by
    rcases copyable.layer with layer | layer <;>
      simp [layer, Layer.hasMutation, Layer.hasEffects, Layer.copiesCaptures]
  obtain ⟨fixed, pure, shares⟩ := lower
  refine
    { nodes := rfl
      definitions := rfl
      blocks := False.elim
      domains := rfl
      maxTasks := rfl
      handlers := fun on => absurd on (Bool.eq_false_iff.mp pure)
      inputs := fun w name => ?_
      cache := .inr ⟨trivial, ?_⟩
      code := ⟨fun id expr found _ => ?_, fun _ _ confined => confined.self _ rfl,
        fun ns name _ d found _ => copyable.definitions ns name d found, False.elim⟩
      domain := copyable.domains
      layer := .inr fun expr confined => ?_
      mutability := trivial
      mutation := fun on => absurd on (Bool.eq_false_iff.mp fixed)
      effects := fun on => absurd on (Bool.eq_false_iff.mp pure)
      snapshots := fun on => absurd on (Bool.eq_false_iff.mp shares)
      registers := fun on => absurd on (Bool.eq_false_iff.mp fixed)
      closures := fun _ => trivial
      flow := False.elim
      captures := .inr ⟨trivial, shares, rfl⟩
      shared := by rintro _ ⟨⟩
      frozen := fun on => absurd on (Bool.eq_false_iff.mp shares) }
  · exact lookup_self (fun entry member => .of_independent entry.2 (copyable.inputs entry member))
      name
  · simp [Setting.caches, Setting.inBlocks, Layer.hasMutation]
  · rw [copyable.nodes] at found
    cases found
  · have fits : expr.Fits s.layer := Expr.Every.here confined.fits
    refine ⟨fits, fits.mono ?_⟩
    rcases copyable.layer with layer | layer <;>
      simp [layer, Layer.rank, Setting.inBlocks]

end Copies
end LayeredIR
