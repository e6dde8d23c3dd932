import LayeredIR.Proofs.Protocol
import Mathlib.Data.Set.Finite.List
import Mathlib.Order.WellFoundedSet

/-! Operands that unfold to an end. An operand unfolds to what it holds, which is smaller, and a
sequence also to what the declarations that it names declare, which need not be. Where no
declaration comes back to itself in this way, there is no endless unfolding. -/
namespace LayeredIR

inductive Arg.InPlace (inner : Arg) : Arg → Prop
  | here : InPlace inner inner
  | operand {expr direct} (evaluated : ∀ params body, expr ≠ .lambda params body)
    (member : direct ∈ expr.operands) (deeper : InPlace inner direct) :
    InPlace inner (.inline expr)

/-- Of two nodes that declare variables, the value of one has a sequence that names the other. -/
def Nodes.Opens (table : Nodes) (outer inner : String) : Prop :=
  ∃ name value body name' value', table.get? outer = some (.declare name value) ∧
    (Arg.inline (.seq body)).InPlace value ∧ .id inner ∈ body ∧
    table.get? inner = some (.declare name' value')

def Nodes.Grounded (table : Nodes) : Prop := ∀ id, ¬ Relation.TransGen table.Opens id id

theorem Nodes.mem_ids {table : Nodes} {id : String} {expr : Expr}
    (found : table.get? id = some expr) : id ∈ table.nodes.map Node.id := by
  obtain ⟨node, here, -⟩ := Option.map_eq_some_iff.mp found
  have same : node.id = id := by simpa using List.find?_some here
  exact List.mem_map.mpr ⟨node, List.mem_of_find?_eq_some here, same⟩

/-- There are finitely many nodes, so an endless way through them would come back. -/
theorem Nodes.Grounded.wellFounded {table : Nodes} (grounded : table.Grounded) :
    WellFounded fun inner outer => table.Opens outer inner := by
  let opened (inner outer : String) : Prop := Relation.TransGen table.Opens outer inner
  have order : IsStrictOrder String opened :=
    { irrefl := grounded
      trans := fun _ _ _ first second => second.trans first }
  have ids : {id | id ∈ table.nodes.map Node.id}.Finite := List.finite_toSet _
  have wf := Set.wellFoundedOn_iff.mp (Set.Finite.wellFoundedOn (r := opened) ids)
  refine Subrelation.wf (fun {inner outer} step => ?_) wf
  obtain ⟨_, _, _, _, _, here, -, -, there⟩ := id step
  exact ⟨.single step, Nodes.mem_ids there, Nodes.mem_ids here⟩

namespace Setting

variable {σ : Type} {s : Setting σ}

variable (s) in
def Unfolds (inner outer : Arg) : Prop :=
  ∃ expr, outer = .inline expr ∧ ¬ s.layer < expr.minLayer ∧ s.Evaluates inner expr

/-- An operand unfolds to an end where the declarations that its sequences name do. -/
theorem acc_of_declared (arg : Arg)
    (declared : s.layer.hasMutation → ∀ body id name value, (Arg.inline (.seq body)).InPlace arg →
      .id id ∈ body → s.nodes.get? id = some (.declare name value) → Acc s.Unfolds value) :
    Acc s.Unfolds arg := by
  induction size : sizeOf arg using Nat.strongRecOn generalizing arg with
  | _ n ih =>
    subst size
    refine .intro arg fun inner unfolds => ?_
    obtain ⟨expr, rfl, reached, evaluates⟩ := unfolds
    have smaller (plain : ∀ params body, expr ≠ .lambda params body)
        (member : inner ∈ expr.operands) : Acc s.Unfolds inner := by
      refine ih _ (Expr.operands_lt member) inner (fun mutation body id name value within => ?_) rfl
      exact declared mutation body id name value (.operand plain member within)
    cases evaluates with
    | operand plain _ member => exact smaller plain member
    | statement member _ => exact smaller nofun member
    | @declared body statement name _ member declares =>
      have mutation := Layer.hasMutation_of_not_lt reached
      rcases declaration?_eq_some declares with rfl | ⟨id, rfl, found⟩
      · have held : inner ∈ (Expr.declare name inner).operands := by simp
        have less : sizeOf inner < sizeOf (Arg.inline (.seq body)) :=
          (Expr.operands_lt held).trans (Expr.operands_lt member)
        refine ih _ less inner (fun mutation body id name value within => ?_) rfl
        have deeper : (Arg.inline (.seq body)).InPlace (.inline (.declare _ inner)) :=
          .operand nofun held within
        exact declared mutation body id name value (.operand nofun member deeper)
      · exact declared mutation body id name inner .here member found

theorem acc_unfolds (grounded : s.layer.hasMutation → s.nodes.Grounded) (arg : Arg) :
    Acc s.Unfolds arg := by
  have accessible (mutation : s.layer.hasMutation) (id : String) :
      ∀ name value, s.nodes.get? id = some (.declare name value) → Acc s.Unfolds value := by
    induction id using (grounded mutation).wellFounded.induction with
    | _ outer ih =>
      intro name value found
      refine acc_of_declared value fun _ body inner name' value' within member found' => ?_
      have opens : s.nodes.Opens outer inner :=
        ⟨name, value, body, name', value', found, within, member, found'⟩
      exact ih inner opens name' value' found'
  exact acc_of_declared arg fun mutation _ id name value _ _ => accessible mutation id name value

end Setting
end LayeredIR
