import LayeredIR.Proofs.Causes
import LayeredIR.Proofs.Value.Distinct

/-! How operations come by their answers. They take values apart, put values together, and look at
the element type that was declared. So what is handed down in both directions, from a collection to
its items and back, is handed down from operands to answers; only `of`, which makes up an element
type, has to be asked whether its operands fit that type. -/
namespace LayeredIR

/-- A property that values share with their items, and with what is made of such values where each
of them fits the declared element type. -/
structure Value.Hereditary (fits : Value → Ty → Prop) (P : Value → Prop) : Prop where
  conforming : ∀ {v ty}, v.conformsTo ty = true → fits v ty
  flat : ∀ {v}, v.isFlat = true → P v
  item : ∀ {v of items}, P v → v.elementTy? = some of → v.items? = some items →
    ∀ item ∈ items, P item ∧ fits item of
  list : ∀ of {items}, (∀ item ∈ items, P item ∧ fits item of) → P (.list of items)
  setOf : ∀ of {items}, (∀ item ∈ items, P item ∧ fits item of) → P (.setOf of items)

def Gives {ε α : Type} (P : α → Prop) (result : Except ε α) : Prop := ∀ a, result = .ok a → P a

namespace Gives

variable {ε α β : Type} {P : α → Prop}

theorem ok {a : α} (holds : P a) : Gives P (.ok a : Except ε α) := by
  rintro _ ⟨⟩
  exact holds

theorem error {e : ε} : Gives P (.error e) := nofun

theorem bind {result : Except ε β} {next : β → Except ε α}
    (rest : ∀ b, result = .ok b → Gives P (next b)) : Gives P (result >>= next) := by
  cases result with
  | error e => exact error
  | ok b => exact rest b rfl

theorem map {result : Except ε β} {f : β → α} (holds : ∀ b, result = .ok b → P (f b)) :
    Gives P (result.map f) := by
  cases result with
  | error e => exact error
  | ok b => exact ok (holds b rfl)

theorem ite {c : Prop} [Decidable c] {yes no : Except ε α} (pos : c → Gives P yes)
    (neg : Gives P no) : Gives P (if c then yes else no) := by
  split
  · exact pos ‹c›
  · exact neg

end Gives

variable {fits : Value → Ty → Prop} {P : Value → Prop}

namespace Operator

variable (hereditary : Value.Hereditary fits P)
include hereditary

theorem exactInt_gives (result : Option Int64) (operation : String) :
    Gives P (exactInt result operation) := by
  cases result with
  | none => exact .error
  | some n => exact .ok (hereditary.flat rfl)

theorem arith_gives (op : Operator) (left right : Value) : Gives P (arith op left right) := by
  have ints (a b : Int64) : Gives P (intArith op a b) := by
    fun_cases intArith op a b <;> first | exact exactInt_gives hereditary _ _ | exact .error
  have floats (a b : Binary64) : Gives P (floatArith op a b) := by
    fun_cases floatArith op a b <;> first | exact .ok (hereditary.flat rfl) | exact .error
  fun_cases arith op left right <;> first | apply ints | apply floats | exact .error

theorem unary_gives (op : Operator) (operand : Value) : Gives P (unary op operand) := by
  fun_cases unary op operand <;>
    first
    | exact exactInt_gives hereditary _ _
    | exact .ok (hereditary.flat rfl)
    | exact .error

theorem itemAt_gives {list : Value} (held : P list) (index : Value) :
    Gives P (itemAt list index) := by
  fun_cases itemAt list index with
  | case1 of items i item place =>
    obtain ⟨n, -, found⟩ := Option.bind_eq_some_iff.mp place
    exact .ok (hereditary.item held rfl rfl item (List.mem_of_getElem? found)).1
  | case2 | case3 | case4 => exact .error

theorem concatenation_gives {left right : Value} (held : P left) (held' : P right) :
    Gives P (concatenation left right) := by
  fun_cases concatenation left right with
  | case1 xs of ys =>
    refine .ok (hereditary.list of fun item member => ?_)
    rcases List.mem_append.mp member with early | late
    · exact hereditary.item held rfl rfl item early
    · exact hereditary.item held' rfl rfl item late
  | case3 => exact .ok (hereditary.flat rfl)
  | case2 | case4 | case5 | case6 => exact .error

theorem compute_gives (op : Operator) {args : List Value} (all : ∀ arg ∈ args, P arg) :
    Gives P (compute op args) := by
  fun_cases compute op args with
  | case1 operand => exact unary_gives hereditary op operand
  | case2 left right =>
    have held : P left := all left (by simp)
    have held' : P right := all right (by simp)
    fun_cases binary op left right <;>
      first
      | exact arith_gives hereditary _ _ _
      | exact .map fun _ _ => hereditary.flat rfl
      | exact itemAt_gives hereditary held _
      | exact concatenation_gives hereditary held held'
      | exact .ok (hereditary.flat rfl)
      | exact .error
  | case3 => exact .error

theorem evaluate_gives (op : Operator) {args : List Value} (all : ∀ arg ∈ args, P arg) :
    Gives P (evaluate op args) :=
  .bind fun _ _ => compute_gives hereditary op all

end Operator

structure Domain.HandsDown (domain : Domain) (fits : Value → Ty → Prop) (P : Value → Prop) :
    Prop where
  construct : ∀ of {items}, (∀ item ∈ items, P item ∧ fits item of) → P (domain.construct of items)
  iterate : ∀ {v items}, P v → domain.iterate v = .ok items →
    ∀ item ∈ items, P item ∧ fits item (v.elementTy?.getD .void)
  extra : ∀ {op args result}, (∀ arg ∈ args, P arg) → domain.extra op args = some result →
    Gives P result

namespace Domain

def inferredTy (typeOf : Value → Option Ty) (args : List Value) : Ty :=
  (args.head?.bind typeOf).getD .void

theorem operand_mem {domain op : String} {args : List Value} {v : Value}
    (same : operand domain op args = .ok v) : v ∈ args := by
  unfold operand at same
  split at same <;> cases same
  exact List.mem_singleton_self v

theorem operandPair_mem {domain op : String} {args : List Value} {a b : Value}
    (same : operandPair domain op args = .ok (a, b)) : a ∈ args ∧ b ∈ args := by
  unfold operandPair at same
  split at same <;> cases same
  simp

def Reads (read : Value → Except Cause (Ty × List Value)) : Prop :=
  ∀ v of items, read v = .ok (of, items) → v.elementTy? = some of ∧ v.items? = some items

theorem listItems_reads : Reads listItems := by
  intro v of items listed
  cases v <;> cases listed
  exact ⟨rfl, rfl⟩

theorem setItems_reads : Reads setItems := by
  intro v of items listed
  cases v <;> cases listed
  exact ⟨rfl, rfl⟩

variable (hereditary : Value.Hereditary fits P)
include hereditary

/-- The common operations hand down what a domain does. -/
theorem HandsDown.call {domain : Domain} (down : domain.HandsDown fits P)
    (typeOf : Value → Option Ty) (op : String) {args : List Value} (all : ∀ arg ∈ args, P arg)
    (fitting : op = "of" → ∀ arg ∈ args, fits arg (inferredTy typeOf args)) :
    Gives P (domain.call typeOf op args) := by
  unfold Domain.call
  split
  · exact .ok (down.construct _ fun arg member => ⟨all arg member, fitting rfl arg member⟩)
  · refine .bind fun source same => ?_
    split
    · next of items =>
      exact .ok (down.construct of (hereditary.item (all _ (operand_mem same)) rfl rfl))
    · exact .error
  · refine .bind fun source same => .bind fun items listed => .ok (hereditary.list _ ?_)
    exact down.iterate (all source (operand_mem same)) listed
  · exact .bind fun (a, b) _ => .bind fun _ _ => .bind fun _ _ => .ok (hereditary.flat rfl)
  · exact .bind fun (value, item) _ => .bind fun _ _ => .ok (hereditary.flat rfl)
  · refine .bind fun source _ => .bind fun items _ => ?_
    split
    · exact .ok (hereditary.flat rfl)
    · exact .error
  · cases own : domain.extra op args with
    | none => exact .error
    | some result => exact down.extra all own

/-- What a domain goes through is what a value holds. -/
theorem iterate_fits {read : Value → Except Cause (Ty × List Value)} (reads : Reads read)
    {v : Value} {items : List Value} (held : P v) (listed : (read v).map Prod.snd = .ok items) :
    ∀ item ∈ items, P item ∧ fits item (v.elementTy?.getD .void) := by
  cases same : read v with
  | error cause =>
    rw [same] at listed
    cases listed
  | ok pair =>
    rw [same] at listed
    cases listed
    obtain ⟨declared, held'⟩ := reads v pair.1 pair.2 same
    rw [declared]
    exact hereditary.item held declared held'

/-- One more item beside those of a collection, once it conforms to their type. -/
theorem added_fits {read : Value → Except Cause (Ty × List Value)} (reads : Reads read)
    {source item : Value} {of : Ty} {items : List Value} (listed : read source = .ok (of, items))
    (held : P source) (held' : P item) (conforms : item.conformsTo of = true) :
    ∀ v ∈ items ++ [item], P v ∧ fits v of := by
  obtain ⟨declared, within⟩ := reads source of items listed
  intro v member
  rcases List.mem_append.mp member with old | new
  · exact hereditary.item held declared within v old
  · exact List.mem_singleton.mp new ▸ ⟨held', hereditary.conforming conforms⟩

theorem list_handsDown : list.HandsDown fits P where
  construct := hereditary.list
  iterate := iterate_fits hereditary listItems_reads
  extra {op args result} all own := by
    simp only [list] at own
    split at own <;> cases own
    · refine .bind fun pair same => .bind fun parts listed => ?_
      obtain ⟨source, item⟩ := pair
      obtain ⟨of, items⟩ := parts
      obtain ⟨first, second⟩ := operandPair_mem same
      refine .ite ?_ .error
      exact fun conforms => .ok (hereditary.list of
        (added_fits hereditary listItems_reads listed (all _ first) (all _ second) conforms))
    · refine .bind fun source same => .bind fun parts listed => ?_
      obtain ⟨of, items⟩ := parts
      obtain ⟨declared, within⟩ := listItems_reads source of items listed
      refine .ok (hereditary.list of fun v member => ?_)
      exact hereditary.item (all _ (operand_mem same)) declared within v
        (List.mem_reverse.mp member)

theorem setPair_fits {op : String} {args : List Value} {of : Ty} {xs ys : List Value}
    (all : ∀ arg ∈ args, P arg) (same : setPair op args = .ok (of, xs, ys)) :
    ∀ item ∈ xs ++ ys, P item ∧ fits item of := by
  have paired : Gives (fun parts : Ty × List Value × List Value =>
      ∀ item ∈ parts.2.1 ++ parts.2.2, P item ∧ fits item parts.1) (setPair op args) := by
    refine .bind fun operands pair => .bind fun early left => .bind fun late right => ?_
    obtain ⟨a, b⟩ := operands
    obtain ⟨of, xs⟩ := early
    obtain ⟨of', ys⟩ := late
    obtain ⟨first, second⟩ := operandPair_mem pair
    refine .ite (fun types => .ok fun item member => ?_) .error
    cases types
    rcases List.mem_append.mp member with early | late
    · obtain ⟨declared, within⟩ := setItems_reads a of xs left
      exact hereditary.item (all a first) declared within item early
    · obtain ⟨declared, within⟩ := setItems_reads b of ys right
      exact hereditary.item (all b second) declared within item late
  exact paired _ same

theorem set_handsDown : set.HandsDown fits P where
  construct := hereditary.setOf
  iterate := iterate_fits hereditary setItems_reads
  extra {op args result} all own := by
    simp only [set] at own
    split at own <;> cases own
    · refine .bind fun pair same => .bind fun parts listed => ?_
      obtain ⟨source, item⟩ := pair
      obtain ⟨of, items⟩ := parts
      obtain ⟨first, second⟩ := operandPair_mem same
      refine .ite ?_ .error
      exact fun conforms => .ok (hereditary.setOf of
        (added_fits hereditary setItems_reads listed (all _ first) (all _ second) conforms))
    · refine .bind fun parts same => ?_
      obtain ⟨of, xs, ys⟩ := parts
      exact .ok (hereditary.setOf of (setPair_fits hereditary all same))
    · refine .bind fun parts same => ?_
      obtain ⟨of, xs, ys⟩ := parts
      refine .ok (hereditary.setOf of fun v member => ?_)
      exact setPair_fits hereditary all same v
        (List.mem_append_left _ (List.mem_filter.mp member).1)
    · refine .bind fun parts same => ?_
      obtain ⟨of, xs, ys⟩ := parts
      refine .ok (hereditary.setOf of fun v member => ?_)
      exact setPair_fits hereditary all same v
        (List.mem_append_left _ (List.mem_filter.mp member).1)

end Domain
end LayeredIR
