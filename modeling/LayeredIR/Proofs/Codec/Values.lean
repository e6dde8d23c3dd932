import LayeredIR.Codec.Value
import LayeredIR.Proofs.Codec.Literals
import LayeredIR.Proofs.Value.Distinct

/-! Values and literals in one form. A value that some literal denotes is written as that literal,
and so is read back; the value of a literal is written as the literal is, but for the items of sets
that repeat earlier ones. Those are told by their values, in which the sets inside them have lost
their own repeats already. -/
namespace LayeredIR

namespace Literal

def repeats (earlier : List Literal) (item : Literal) : Bool :=
  earlier.any fun other => (Value.ofLiteral other).sameElement (.ofLiteral item)

mutual

def withoutRepeats : Literal → Literal
  | .list of items => .list of (eachWithoutRepeats items)
  | .set of items => .set of (newItems [] items)
  | plain => plain

def eachWithoutRepeats : List Literal → List Literal
  | [] => []
  | item :: rest => item.withoutRepeats :: eachWithoutRepeats rest

/-- The items that repeat none before them, be it one that was kept or one that was not. -/
def newItems (earlier : List Literal) : List Literal → List Literal
  | [] => []
  | item :: rest =>
    if repeats earlier item then newItems (item :: earlier) rest
    else item.withoutRepeats :: newItems (item :: earlier) rest

end

end Literal

namespace Value

variable (encodeFuture : Identity → Json)

theorem encodeAllWith_eq_map (items : List Value) :
    encodeAllWith encodeFuture items = items.map (encodeWith encodeFuture) := by
  induction items with
  | nil => rfl
  | cons item rest ih => rw [encodeAllWith, ih, List.map_cons]

/-- A part of values that has the form of a literal: it is no reference, no float but a finite one,
and no set with an item that is the same element as an earlier one. -/
structure Written (part : Value) : Prop where
  plain : part.isReference = false
  finite : ∀ x, part = .float x → x.isFinite
  distinct : ∀ of items, part = .set of items →
    items.Pairwise fun earlier later => earlier.sameElement later = false

mutual

/-- A value of such parts is what some literal denotes, and is written as that literal. -/
theorem exists_literal (v : Value) (written : v.All Written) :
    ∃ l : Literal, l.Finite ∧ v.encodeWith encodeFuture = l.toJson ∧ ofLiteral l = v := by
  cases v with
  | int n => exact ⟨.int n, .int, rfl, rfl⟩
  | float x => exact ⟨.float x, .float (written.self.finite x rfl), rfl, rfl⟩
  | bool b => exact ⟨.bool b, .bool, rfl, rfl⟩
  | string s => exact ⟨.string s, .string, rfl, rfl⟩
  | void => exact ⟨.void, .void, rfl, rfl⟩
  | list of items =>
    obtain ⟨ls, finite, same, denoted⟩ := exists_literals items (written.items rfl)
    refine ⟨.list of ls, .list finite, ?_, ?_⟩
    · rw [encodeWith, same, Literal.toJson]
    · rw [ofLiteral, denoted]
  | set of items =>
    obtain ⟨ls, finite, same, denoted⟩ := exists_literals items (written.items rfl)
    refine ⟨.set of ls, .set finite, ?_, ?_⟩
    · rw [encodeWith, same, Literal.toJson]
    · rw [ofLiteral, denoted, setOf, distinct_of_apart (written.self.distinct of items rfl)]
  | closure | future => cases written.self.plain
  | error e => exact ⟨.error e.code e.message, .error, rfl, rfl⟩

theorem exists_literals (items : List Value) (written : ∀ item ∈ items, item.All Written) :
    ∃ ls : List Literal, (∀ l ∈ ls, l.Finite) ∧
      encodeAllWith encodeFuture items = Literal.toJsons ls ∧ ofLiterals ls = items := by
  cases items with
  | nil => exact ⟨[], List.forall_mem_nil _, rfl, rfl⟩
  | cons item rest =>
    obtain ⟨here, there⟩ := List.forall_mem_cons.mp written
    obtain ⟨l, finite, same, denoted⟩ := exists_literal item here
    obtain ⟨ls, others, alike, denotes⟩ := exists_literals rest there
    refine ⟨l :: ls, List.forall_mem_cons.mpr ⟨finite, others⟩, ?_, ?_⟩
    · rw [encodeAllWith, same, alike, Literal.toJsons]
    · rw [ofLiterals, denoted, denotes]

end

mutual

theorem encode_ofLiteral (l : Literal) :
    (ofLiteral l).encodeWith encodeFuture = l.withoutRepeats.toJson := by
  cases l with
  | list of items =>
    rw [ofLiteral, encodeWith, encodeAll_ofLiterals items, Literal.withoutRepeats, Literal.toJson]
  | set of items =>
    rw [ofLiteral, setOf, encodeWith, distinct, encodeAll_newItems items [] [] fun _ => rfl,
      Literal.withoutRepeats, Literal.toJson]
    rfl
  | _ => rfl

theorem encodeAll_ofLiterals (items : List Literal) :
    encodeAllWith encodeFuture (ofLiterals items) =
      Literal.toJsons (Literal.eachWithoutRepeats items) := by
  cases items with
  | nil => rfl
  | cons item rest =>
    rw [ofLiterals, encodeAllWith, encode_ofLiteral item, encodeAll_ofLiterals rest,
      Literal.eachWithoutRepeats, Literal.toJsons]

/-- An item repeats one that was kept exactly if it repeats any before it, since what repeats a
repeated item repeats the first one too. -/
theorem encodeAll_newItems (items : List Literal) (kept : List Value) (earlier : List Literal)
    (same : ∀ v : Value, (kept.any fun other => other.sameElement v) =
      earlier.any fun other => (ofLiteral other).sameElement v) :
    encodeAllWith encodeFuture ((ofLiterals items).foldl addElement kept) =
      encodeAllWith encodeFuture kept ++ Literal.toJsons (Literal.newItems earlier items) := by
  cases items with
  | nil => exact (List.append_nil _).symm
  | cons item rest =>
    rw [ofLiterals, List.foldl_cons, Literal.newItems, Literal.repeats, ← same, addElement]
    split
    · next found =>
      refine encodeAll_newItems rest kept (item :: earlier) fun v => ?_
      rw [List.any_cons, ← same v]
      cases like : (ofLiteral item).sameElement v with
      | false => rfl
      | true => exact any_sameElement_of_any found like
    · rw [encodeAll_newItems rest (kept ++ [ofLiteral item]) (item :: earlier) fun v => ?_]
      · rw [encodeAllWith_eq_map, List.map_append, ← encodeAllWith_eq_map, List.append_assoc,
          List.map_singleton, encode_ofLiteral item]
        rfl
      · simp only [List.any_append, List.any_cons, List.any_nil, Bool.or_false, same v]
        exact Bool.or_comm ..

end

end Value

/-- Values and literals share one form. -/
theorem Futures.encode_sharesLiterals (futures : Futures) :
    (∀ v : Value, v.All Value.Written → Value.ofJson? (futures.encode v) = some v) ∧
    ∀ l : Literal, futures.encode (.ofLiteral l) = l.withoutRepeats.toJson := by
  refine ⟨fun v written => ?_, Value.encode_ofLiteral _⟩
  obtain ⟨l, finite, same, rfl⟩ := Value.exists_literal _ v written
  rw [encode, same, Value.ofJson?, Literal.ofJson?, Literal.decode?_toJson false finite]
  rfl

def repetitive : Literal :=
  .set (.set .int) [
    .set .int [.error "e" none, .int 1, .error "e" (some "again"), .int 1],
    .list .float [.float .nan],
    .set .int [.int 1, .error "e" none],
    .list .float [.float .nan], .list .float []]

def terse : Literal :=
  .set (.set .int) [
    .set .int [.error "e" none, .int 1], .list .float [.float .nan], .list .float []]

def bothZeros : Value :=
  .list (.future .int) [.set .float [.float .zero, .float (.negate .zero)], .error ⟨"e", none⟩]

theorem Futures.encode_sharesLiterals_examples :
    bothZeros.All Value.Written ∧
    Value.ofJson? (Futures.empty.encode bothZeros) = some bothZeros ∧
    Futures.empty.encode (.ofLiteral repetitive) = terse.toJson := by
  have leaf {v : Value} (written : v.Written) (single : v.items? = none) : v.All Value.Written := by
    intro part inside
    cases inside with
    | here => exact written
    | list | set => cases single
    | captured => cases written.plain
  have float {x : Binary64} (finite : x.isFinite) : (Value.float x).All Value.Written :=
    leaf ⟨rfl, fun _ same => by cases same; exact finite, nofun⟩ rfl
  have zeros : (Value.set .float [.float .zero, .float (.negate .zero)]).All Value.Written := by
    refine Value.all_set ⟨rfl, nofun, ?_⟩ ?_
    · rintro _ _ ⟨⟩
      decide
    · exact List.forall_mem_cons.mpr
        ⟨float (by decide), List.forall_mem_singleton.mpr (float (by decide))⟩
  have written : bothZeros.All Value.Written := by
    refine Value.all_list ⟨rfl, nofun, nofun⟩ (List.forall_mem_cons.mpr ⟨zeros, ?_⟩)
    exact List.forall_mem_singleton.mpr (leaf ⟨rfl, nofun, nofun⟩ rfl)
  have dropped : repetitive.withoutRepeats = terse := rfl
  exact ⟨written, (Futures.encode_sharesLiterals _).1 _ written,
    ((Futures.encode_sharesLiterals _).2 _).trans (congrArg Literal.toJson dropped)⟩

end LayeredIR
