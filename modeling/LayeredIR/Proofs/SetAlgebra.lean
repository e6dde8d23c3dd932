import LayeredIR.Domain.Set
import LayeredIR.Proofs.Value.Distinct

/-! The algebra of sets. Union, intersection and difference keep the order of the items and answer
what is in one set, in the other, or in both; how many items they leave follows by counting. All of
it rests on the items being apart from one another, at every depth: only then is an item found
wherever one that is the same element is. -/
namespace LayeredIR.Domain

open Value

variable {xs ys items items' : List Value} {of of' : Ty} {x y : Value}

theorem isMember_iff : isMember xs y = true ↔ ∃ x ∈ xs, x.sameElement y = true :=
  List.any_eq_true

theorem isMember_of_mem (member : y ∈ xs) : isMember xs y = true :=
  isMember_iff.mpr ⟨y, member, y.sameElement_refl⟩

theorem isMember_append : isMember (xs ++ ys) y = (isMember xs y || isMember ys y) :=
  List.any_append

theorem isMember_singleton : isMember [x] y = x.sameElement y := Bool.or_false _

theorem isMember_congr (apart : x.SetsApart sameElement) (same : x.sameElement y = true) :
    isMember xs x = isMember xs y := by
  have turned : y.sameElement x = true := floatEquality_bits.symm_of_apart apart same
  exact Bool.eq_iff_iff.mpr ⟨fun found => any_sameElement_of_any found same,
    fun found => any_sameElement_of_any found turned⟩

/-- What is found among the items with a property that does not tell apart what is the same
element. -/
theorem isMember_filter {keep : Value → Bool}
    (respects : ∀ x ∈ xs, x.sameElement y = true → keep x = keep y) :
    isMember (xs.filter keep) y = (isMember xs y && keep y) := by
  rw [Bool.eq_iff_iff, Bool.and_eq_true, isMember_iff, isMember_iff]
  constructor
  · rintro ⟨x, among, same⟩
    obtain ⟨member, kept⟩ := List.mem_filter.mp among
    exact ⟨⟨x, member, same⟩, respects x member same ▸ kept⟩
  · rintro ⟨⟨x, member, same⟩, kept⟩
    exact ⟨x, List.mem_filter.mpr ⟨member, (respects x member same).trans kept⟩, same⟩

theorem isMember_distinct : isMember (distinct items) y = isMember items y :=
  any_foldl_addElement [] items y

/-- A set of the items of two sets: those of the first, and those of the second that are not among
them. -/
theorem distinct_append (left : xs.Pairwise fun a b => a.sameElement b = false)
    (right : ys.Pairwise fun a b => a.sameElement b = false) :
    distinct (xs ++ ys) = xs ++ ys.filter fun y => !isMember xs y := by
  rw [distinct, List.foldl_append, ← distinct, distinct_of_apart left]
  exact foldl_addElement_eq xs right

/-- As many items of the one set are in the other as the other way round. -/
theorem length_filter_isMember (left : (Value.set of xs).SetsApart sameElement)
    (right : (Value.set of' ys).SetsApart sameElement) :
    (xs.filter (isMember ys)).length = (ys.filter (isMember xs)).length := by
  have fits {of of' : Ty} {xs ys : List Value} (left : (Value.set of xs).SetsApart sameElement)
      (right : (Value.set of' ys).SetsApart sameElement) :
      (xs.filter (isMember ys)).length ≤ (ys.filter (isMember xs)).length := by
    have turned (x : Value) (among : x ∈ xs.filter (isMember ys)) (y : Value)
        (_ : y ∈ ys.filter (isMember xs)) (same : x.sameElement y = true) :
        y.sameElement x = true :=
      floatEquality_bits.symm_of_apart (left.items rfl x (List.mem_filter.mp among).1) same
    refine length_le_of_pairwise (floatEquality_bits.unshared (left.pairwise.filter _) turned) ?_
    intro x among
    obtain ⟨member, found⟩ := List.mem_filter.mp among
    obtain ⟨y, member', same⟩ := isMember_iff.mp found
    have back : x.sameElement y = true :=
      floatEquality_bits.symm_of_apart (right.items rfl y member') same
    exact ⟨y, List.mem_filter.mpr ⟨member', isMember_iff.mpr ⟨x, member, back⟩⟩, back⟩
  exact Nat.le_antisymm (fits left right) (fits right left)

/-- Lists with the same items make sets that are the same element. -/
theorem setOf_sameElement (apart : ∀ item ∈ items, item.SetsApart sameElement)
    (same : ∀ item, item ∈ items ↔ item ∈ items') :
    (setOf of items).sameElement (setOf of' items') = true := by
  have apart' (item : Value) (member : item ∈ items') : item.SetsApart sameElement :=
    apart item ((same item).mpr member)
  have found {items items' : List Value} (apart : ∀ item ∈ items', item.SetsApart sameElement)
      (within : ∀ item ∈ items, item ∈ items') (item : Value) (member : item ∈ distinct items) :
      ∃ other ∈ distinct items', item.sameElement other = true := by
    have among : isMember (distinct items') item = true :=
      isMember_distinct.trans (isMember_of_mem (within item (mem_distinct member)))
    obtain ⟨other, member', like⟩ := isMember_iff.mp among
    have single : other.SetsApart sameElement := apart other (mem_distinct member')
    exact ⟨other, member', floatEquality_bits.symm_of_apart single like⟩
  exact (floatEquality_bits.set_equalBy_iff (.setOf of apart) (.setOf of' apart')).mpr
    ⟨found apart' fun item => (same item).mp, found apart fun item => (same item).mpr⟩

theorem setPair_eq (op : String) (of : Ty) (xs ys : List Value) :
    setPair op [.set of xs, .set of ys] = .ok (of, xs, ys) :=
  if_pos rfl

section Calls

variable (typeOf : Value → Option Ty) (of : Ty)

theorem call_union (left : xs.Pairwise fun a b => a.sameElement b = false)
    (right : ys.Pairwise fun a b => a.sameElement b = false) :
    set.call typeOf "union" [.set of xs, .set of ys] =
      .ok (.set of (xs ++ ys.filter fun y => !isMember xs y)) := by
  have answer : set.call typeOf "union" [.set of xs, .set of ys] = .ok (.setOf of (xs ++ ys)) :=
    congrArg (· >>= _) (setPair_eq "union" of xs ys)
  rw [answer, Value.setOf, distinct_append left right]

theorem call_intersect (ys : List Value)
    (left : xs.Pairwise fun a b => a.sameElement b = false) :
    set.call typeOf "intersect" [.set of xs, .set of ys] =
      .ok (.set of (xs.filter (isMember ys))) := by
  have answer : set.call typeOf "intersect" [.set of xs, .set of ys] =
      .ok (.setOf of (xs.filter (isMember ys))) :=
    congrArg (· >>= _) (setPair_eq "intersect" of xs ys)
  rw [answer, Value.setOf, distinct_of_apart (left.filter _)]

theorem call_difference (ys : List Value)
    (left : xs.Pairwise fun a b => a.sameElement b = false) :
    set.call typeOf "difference" [.set of xs, .set of ys] =
      .ok (.set of (xs.filter fun x => !isMember ys x)) := by
  have answer : set.call typeOf "difference" [.set of xs, .set of ys] =
      .ok (.setOf of (xs.filter fun x => !isMember ys x)) :=
    congrArg (· >>= _) (setPair_eq "difference" of xs ys)
  rw [answer, Value.setOf, distinct_of_apart (left.filter _)]

theorem call_insert (conforms : x.conformsTo of = true) :
    set.call typeOf "insert" [.set of xs, x] = .ok (.setOf of (xs ++ [x])) :=
  if_pos conforms

/-- What is found in the set that an operation has answered. -/
theorem contains_answer {result : Except Cause Value} {found : Bool}
    (answers : result = .ok (.set of items)) (same : isMember items y = found) :
    (result >>= fun answer => set.call typeOf "contains" [answer, y]) = .ok (.bool found) := by
  rw [answers, ← same]
  rfl

theorem call_size (fits : items.length ≤ Int64.maxValue.toInt) :
    ∃ n : Int64, n.toInt = items.length ∧
      set.call typeOf "size" [.set of items] = .ok (.int n) := by
  have least : Int64.minValue.toInt ≤ items.length :=
    Int.le_trans (by decide) (Int.natCast_nonneg _)
  have exact : CheckedInt.ofInt? items.length = some (.ofInt items.length) :=
    if_pos ⟨least, fits⟩
  refine ⟨.ofInt items.length, Int64.toInt_ofInt_of_le least ?_, ?_⟩
  · exact Int.lt_of_le_of_lt fits (by decide)
  · simp only [Domain.call, operand, set, setItems, Except.map, bind, Except.bind, exact]

end Calls

/-- The operations on two sets of one declared element type, all of whose sets are pairwise distinct
at every depth. Union answers the items of the first and then those of the second that are not
there; intersection and difference answer items of the first, and all in their order. An item is
found in what they answer, and in what an insertion answers, as it is found in either set;
`contains` and `size` give an answer; the numbers of items add up. A set turned into a list and back
is that set, and lists that are permutations of each other make sets that are the same element. -/
theorem set_algebra (typeOf : Value → Option Ty) (of : Ty) (xs ys : List Value)
    (left : (Value.set of xs).SetsApart sameElement)
    (right : (Value.set of ys).SetsApart sameElement) :
    (set.call typeOf "union" [.set of xs, .set of ys] =
        .ok (.set of (xs ++ ys.filter fun y => !isMember xs y)) ∧
      set.call typeOf "intersect" [.set of xs, .set of ys] =
        .ok (.set of (xs.filter (isMember ys))) ∧
      set.call typeOf "difference" [.set of xs, .set of ys] =
        .ok (.set of (xs.filter fun x => !isMember ys x))) ∧
    (∀ y, ∃ inLeft inRight : Bool,
      set.call typeOf "contains" [.set of xs, y] = .ok (.bool inLeft) ∧
      set.call typeOf "contains" [.set of ys, y] = .ok (.bool inRight) ∧
      (set.call typeOf "union" [.set of xs, .set of ys] >>= fun answer =>
        set.call typeOf "contains" [answer, y]) = .ok (.bool (inLeft || inRight)) ∧
      (set.call typeOf "intersect" [.set of xs, .set of ys] >>= fun answer =>
        set.call typeOf "contains" [answer, y]) = .ok (.bool (inLeft && inRight)) ∧
      (set.call typeOf "difference" [.set of xs, .set of ys] >>= fun answer =>
        set.call typeOf "contains" [answer, y]) = .ok (.bool (inLeft && !inRight)) ∧
      ∀ x, x.conformsTo of = true →
        (set.call typeOf "insert" [.set of xs, x] >>= fun answer =>
          set.call typeOf "contains" [answer, y]) = .ok (.bool (inLeft || x.sameElement y))) ∧
    ((xs ++ ys.filter fun y => !isMember xs y).length + (xs.filter (isMember ys)).length =
        xs.length + ys.length ∧
      (xs.filter fun x => !isMember ys x).length + (xs.filter (isMember ys)).length =
        xs.length ∧
      ∀ items : List Value, items.length ≤ Int64.maxValue.toInt →
        ∃ n : Int64, n.toInt = items.length ∧
          set.call typeOf "size" [.set of items] = .ok (.int n)) ∧
    (set.call typeOf "toList" [.set of xs] >>= fun answer =>
      set.call typeOf "fromList" [answer]) = .ok (.set of xs) ∧
    ∀ items items' : List Value, items.Perm items' →
      (∀ item ∈ items, item.SetsApart sameElement) → ∃ s s' t t' : Value,
        set.call typeOf "fromList" [.list of items] = .ok s ∧
        set.call typeOf "fromList" [.list of items'] = .ok s' ∧ s.sameElement s' = true ∧
        set.call typeOf "of" items = .ok t ∧ set.call typeOf "of" items' = .ok t' ∧
        t.sameElement t' = true := by
  have union := call_union typeOf of left.pairwise right.pairwise
  have common := call_intersect typeOf of ys left.pairwise
  have rest := call_difference typeOf of ys left.pairwise
  have alike (y x : Value) (member : x ∈ xs) (same : x.sameElement y = true) :
      isMember ys x = isMember ys y := isMember_congr (left.items rfl x member) same
  refine ⟨⟨union, common, rest⟩, fun y => ⟨isMember xs y, isMember ys y, rfl, rfl,
    contains_answer typeOf of union ?_, contains_answer typeOf of common ?_,
    contains_answer typeOf of rest ?_, fun x conforms => ?_⟩,
    ⟨?_, ?_, fun items => call_size typeOf of⟩, ?_, fun items items' permuted apart => ?_⟩
  · rw [← distinct_append left.pairwise right.pairwise, isMember_distinct, isMember_append]
  · exact isMember_filter (alike y)
  · exact isMember_filter fun x member same => congrArg not (alike y x member same)
  · refine contains_answer typeOf of (call_insert typeOf of conforms) ?_
    rw [isMember_distinct, isMember_append, isMember_singleton]
  · have parts := List.length_eq_length_filter_add (l := ys) (isMember xs)
    have shared := length_filter_isMember left right
    rw [List.length_append]
    omega
  · have parts := List.length_eq_length_filter_add (l := xs) (isMember ys)
    omega
  · change Except.ok (Value.setOf of xs) = _
    rw [Value.setOf, distinct_of_apart left.pairwise]
  · exact ⟨_, _, _, _, rfl, rfl, setOf_sameElement apart fun _ => permuted.mem_iff, rfl, rfl,
      setOf_sameElement apart fun _ => permuted.mem_iff⟩

def onlyFloat (x : Binary64) : Value := .set .float [.float x]

/-- A set of sets: a NaN is an element like any other, and the two zeros are different elements. -/
theorem set_algebra_zeros :
    let untyped : Value → Option Ty := fun _ => none
    let nan := onlyFloat .nan
    let zero := onlyFloat .zero
    let minus := onlyFloat Binary64.zero.negate
    let a := Value.set (.set .float) [zero, nan]
    let b := Value.set (.set .float) [minus, nan]
    set.call untyped "union" [a, b] = .ok (.set (.set .float) [zero, nan, minus]) ∧
      set.call untyped "intersect" [a, b] = .ok (.set (.set .float) [nan]) ∧
      set.call untyped "difference" [a, b] = .ok (.set (.set .float) [zero]) ∧
      (set.call untyped "insert" [a, minus] >>= fun answer =>
        set.call untyped "contains" [answer, minus]) = .ok (.bool true) ∧
      (∃ n : Int64, n.toInt = 2 ∧ set.call untyped "size" [a] = .ok (.int n)) ∧
      ∃ s s' : Value, set.call untyped "fromList" [.list (.set .float) [zero, nan, zero]] = .ok s ∧
        set.call untyped "fromList" [.list (.set .float) [nan, zero, zero]] = .ok s' ∧
        s.sameElement s' = true := by
  intro untyped nan zero minus a b
  have single (x : Binary64) : (onlyFloat x).SetsApart sameElement :=
    .shallow (List.pairwise_singleton _ _) (by simp [items?])
  have left : a.SetsApart sameElement := .set (by decide) (by simp [zero, nan, single])
  have right : b.SetsApart sameElement := .set (by decide) (by simp [minus, nan, single])
  obtain ⟨⟨union, common, rest⟩, found, ⟨-, -, sizes⟩, -, permutations⟩ :=
    set_algebra untyped (.set .float) _ _ left right
  obtain ⟨inLeft, -, -, -, -, -, -, inserted⟩ := found minus
  obtain ⟨n, same, answers⟩ := sizes [zero, nan] (by decide)
  obtain ⟨s, s', -, -, built, built', alike, -⟩ := permutations [zero, nan, zero] [nan, zero, zero]
    (.swap _ _ _) (by simp [zero, nan, single])
  refine ⟨union, common, rest, ?_, ⟨n, same, answers⟩, s, s', built, built', alike⟩
  rw [inserted minus rfl, sameElement_refl, Bool.or_true]

end LayeredIR.Domain
