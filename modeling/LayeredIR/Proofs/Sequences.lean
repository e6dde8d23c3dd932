import LayeredIR.Domain.List
import LayeredIR.Proofs.Arithmetic
import Mathlib.Algebra.Group.Nat.Defs

/-! Lists as sequences. Some operations on lists are operators and some belong to the domain of
lists; together they obey the laws of finite sequences, which are stated of the answers that the
operations give. -/
namespace LayeredIR.Sequence

def length (list : Value) : Except Cause Value := Operator.evaluate .length [list]

def nth (list index : Value) : Except Cause Value := Operator.evaluate .nth [list, index]

def concat (left right : Value) : Except Cause Value := Operator.evaluate .concat [left, right]

def minus (left right : Value) : Except Cause Value := Operator.evaluate .sub [left, right]

section Domain

variable (typeOf : Value → Option Ty)

def size (list : Value) : Except Cause Value := Domain.list.call typeOf "size" [list]

def reverse (list : Value) : Except Cause Value := Domain.list.call typeOf "reverse" [list]

def append (list item : Value) : Except Cause Value :=
  Domain.list.call typeOf "append" [list, item]

end Domain

variable (typeOf : Value → Option Ty) {of : Ty} {xs ys : List Value} {i : Int64}

def Within (i : Int) (length : Nat) : Prop := 0 ≤ i ∧ i < length

theorem concat_eq (of : Ty) (xs ys : List Value) :
    concat (.list of xs) (.list of ys) = .ok (.list of (xs ++ ys)) :=
  if_pos rfl

theorem concat_of_ne {of of' : Ty} (differ : of ≠ of') (xs ys : List Value) :
    concat (.list of xs) (.list of' ys) =
      .error (.typeMismatch (Ty.list of).text (Ty.list of').text) :=
  if_neg differ

theorem reverse_eq (of : Ty) (xs : List Value) :
    reverse typeOf (.list of xs) = .ok (.list of xs.reverse) := rfl

theorem append_eq {item : Value} (conforms : item.conformsTo of = true) (xs : List Value) :
    append typeOf (.list of xs) item = .ok (.list of (xs ++ [item])) :=
  if_pos conforms

theorem length_eq (of : Ty) (fits : xs.length < 2 ^ 63) :
    ∃ n : Int64, n.toInt = xs.length ∧ length (.list of xs) = .ok (.int n) ∧
      size typeOf (.list of xs) = .ok (.int n) := by
  obtain ⟨n, exact, found⟩ := CheckedInt.ofInt?_of_fits (n := xs.length) ⟨by omega, by omega⟩
  refine ⟨n, exact, ?_, ?_⟩
  · change Operator.exactInt (CheckedInt.ofInt? xs.length) "length" = _
    rw [found, Operator.exactInt]
  · simp only [size, Domain.call, Domain.operand, Domain.list, Domain.listItems, Except.map, bind,
      Except.bind, found]

theorem minus_eq {n m w : Int64} (exact : w.toInt = n.toInt - m.toInt) :
    minus (.int n) (.int m) = .ok (.int w) := by
  have difference : Operator.Exactly "subtraction" (n.toInt - m.toInt) (minus (.int n) (.int m)) :=
    Operator.exactInt_exactly _ _
  rw [← exact] at difference
  exact difference.eq_ok

theorem nth_of_get {item : Value} (positive : 0 ≤ i.toInt)
    (found : xs[i.toInt.toNat]? = some item) : nth (.list of xs) (.int i) = .ok item := by
  have index : CheckedInt.toIndex? i = some i.toInt.toNat := if_pos positive
  change Operator.itemAt (.list of xs) (.int i) = _
  simp only [Operator.itemAt, index, Option.bind_some, found]

theorem nth_within (of : Ty) (within : Within i.toInt xs.length) :
    ∃ item, xs[i.toInt.toNat]? = some item ∧ nth (.list of xs) (.int i) = .ok item := by
  obtain ⟨positive, below⟩ := within
  have found := List.getElem?_eq_getElem (l := xs) (i := i.toInt.toNat) (by omega)
  exact ⟨_, found, nth_of_get positive found⟩

theorem nth_outside (of : Ty) (outside : ¬ Within i.toInt xs.length) :
    nth (.list of xs) (.int i) = .error (.indexOutOfBounds i xs.length) := by
  have none : ((CheckedInt.toIndex? i).bind fun place => xs[place]?) = none := by
    unfold CheckedInt.toIndex?
    split
    · exact List.getElem?_eq_none (by unfold Within at outside; omega)
    · rfl
  change Operator.itemAt (.list of xs) (.int i) = _
  simp only [Operator.itemAt, none]

/-- Items at corresponding places of two lists. -/
theorem nth_eq_nth {j : Int64} (within : Within i.toInt xs.length) (positive : 0 ≤ j.toInt)
    (same : xs[i.toInt.toNat]? = ys[j.toInt.toNat]?) :
    nth (.list of xs) (.int i) = nth (.list of ys) (.int j) := by
  obtain ⟨item, found, answer⟩ := nth_within of within
  rw [answer, nth_of_get positive (same ▸ found)]

theorem nth_concat (fits : xs.length + ys.length < 2 ^ 63)
    (within : Within i.toInt (xs.length + ys.length)) :
    (concat (.list of xs) (.list of ys) >>= fun both => nth both (.int i)) =
      if i.toInt < xs.length then nth (.list of xs) (.int i)
      else length (.list of xs) >>= fun n => minus (.int i) n >>= nth (.list of ys) := by
  obtain ⟨positive, below⟩ := within
  have inside : Within i.toInt (xs ++ ys).length := ⟨positive, by simpa using below⟩
  rw [concat_eq]
  change nth (.list of (xs ++ ys)) (.int i) = _
  split
  · next left =>
    exact nth_eq_nth inside positive (List.getElem?_append_left (by omega))
  · next right =>
    have left : xs.length < 2 ^ 63 := by omega
    obtain ⟨n, exact, counted, -⟩ := length_eq (fun _ => none) of left
    obtain ⟨j, place, -⟩ := CheckedInt.ofInt?_of_fits (n := i.toInt - n.toInt)
      ⟨by omega, by omega⟩
    rw [counted]
    change _ = minus (.int i) (.int n) >>= nth (.list of ys)
    rw [minus_eq place]
    refine nth_eq_nth inside (by omega) ?_
    rw [List.getElem?_append_right (by omega)]
    congr 1
    omega

theorem nth_reverse (fits : xs.length < 2 ^ 63) (within : Within i.toInt xs.length) :
    (reverse typeOf (.list of xs) >>= fun back => nth back (.int i)) =
      length (.list of xs) >>= fun n => minus n (.int 1) >>= fun last =>
        minus last (.int i) >>= nth (.list of xs) := by
  obtain ⟨positive, below⟩ := within
  obtain ⟨n, exact, counted, -⟩ := length_eq typeOf of fits
  have one : (1 : Int64).toInt = 1 := rfl
  obtain ⟨last, place, -⟩ := CheckedInt.ofInt?_of_fits (n := n.toInt - 1) ⟨by omega, by omega⟩
  obtain ⟨j, opposite, -⟩ := CheckedInt.ofInt?_of_fits (n := last.toInt - i.toInt)
    ⟨by omega, by omega⟩
  rw [reverse_eq, counted]
  change nth (.list of xs.reverse) (.int i) = minus (.int n) (.int 1) >>= fun last =>
    minus last (.int i) >>= nth (.list of xs)
  rw [minus_eq (place.trans (by rw [one]))]
  change _ = minus (.int last) (.int i) >>= nth (.list of xs)
  rw [minus_eq opposite]
  refine nth_eq_nth ⟨positive, by simpa using below⟩ (by omega) ?_
  rw [List.getElem?_reverse (by omega)]
  congr 1
  omega

theorem length_concat (of : Ty) (fits : xs.length + ys.length < 2 ^ 63) :
    ∃ n m k : Int64, n.toInt = xs.length ∧ m.toInt = ys.length ∧ k.toInt = n.toInt + m.toInt ∧
      length (.list of xs) = .ok (.int n) ∧ size typeOf (.list of xs) = .ok (.int n) ∧
      length (.list of ys) = .ok (.int m) ∧
      (concat (.list of xs) (.list of ys) >>= length) = .ok (.int k) := by
  have left : xs.length < 2 ^ 63 := by omega
  have right : ys.length < 2 ^ 63 := by omega
  have both : (xs ++ ys).length < 2 ^ 63 := by rw [List.length_append]; omega
  obtain ⟨n, exact, counted, sized⟩ := length_eq typeOf of left
  obtain ⟨m, exact', counted', -⟩ := length_eq typeOf of right
  obtain ⟨k, whole, joined, -⟩ := length_eq typeOf of both
  refine ⟨n, m, k, exact, exact', ?_, counted, sized, counted', ?_⟩
  · rw [whole, exact, exact', List.length_append, Int.natCast_add]
  · rw [concat_eq]
    exact joined

theorem concat_assoc (of : Ty) (xs ys zs : List Value) :
    (concat (.list of xs) (.list of ys) >>= fun both => concat both (.list of zs)) =
      (concat (.list of ys) (.list of zs) >>= concat (.list of xs)) := by
  rw [concat_eq, concat_eq]
  change concat (.list of (xs ++ ys)) (.list of zs) = concat (.list of xs) (.list of (ys ++ zs))
  rw [concat_eq, concat_eq, List.append_assoc]

theorem reverse_reverse (of : Ty) (xs : List Value) :
    (reverse typeOf (.list of xs) >>= reverse typeOf) = .ok (.list of xs) := by
  rw [reverse_eq]
  change reverse typeOf (.list of xs.reverse) = _
  rw [reverse_eq, List.reverse_reverse]

theorem reverse_concat (of : Ty) (xs ys : List Value) :
    (concat (.list of xs) (.list of ys) >>= reverse typeOf) =
      reverse typeOf (.list of ys) >>= fun ys' => reverse typeOf (.list of xs) >>= concat ys' := by
  rw [concat_eq, reverse_eq, reverse_eq]
  change reverse typeOf (.list of (xs ++ ys)) = concat (.list of ys.reverse) (.list of xs.reverse)
  rw [reverse_eq, concat_eq, List.reverse_append]

/-- The operations on lists of one declared type are those on sequences, and their answers declare
that type. An index is in range or refused with the length; the items of a concatenation are those
of the first and then those of the second; concatenation is associative with the empty list on
either side; reversal is its own inverse, runs through the places backwards and turns concatenations
round; appending is concatenation with one item, where that conforms; the size is the length. Lists
that declare different types are not concatenated, whatever they hold. -/
theorem lists_sequential (of : Ty) (xs ys zs : List Value)
    (fits : xs.length + ys.length + zs.length < 2 ^ 63) :
    let a := Value.list of xs
    let b := Value.list of ys
    let c := Value.list of zs
    (∀ i : Int64,
      (Within i.toInt xs.length →
        (∃ item, xs[i.toInt.toNat]? = some item ∧ nth a (.int i) = .ok item) ∧
        (reverse typeOf a >>= fun back => nth back (.int i)) =
          length a >>= fun n => minus n (.int 1) >>= fun last => minus last (.int i) >>= nth a) ∧
      (¬ Within i.toInt xs.length → nth a (.int i) = .error (.indexOutOfBounds i xs.length)) ∧
      (Within i.toInt (xs.length + ys.length) →
        (concat a b >>= fun both => nth both (.int i)) =
          if i.toInt < xs.length then nth a (.int i)
          else length a >>= fun n => minus (.int i) n >>= nth b)) ∧
    (∃ n m k : Int64, n.toInt = xs.length ∧ m.toInt = ys.length ∧ k.toInt = n.toInt + m.toInt ∧
      length a = .ok (.int n) ∧ size typeOf a = .ok (.int n) ∧ length b = .ok (.int m) ∧
      (concat a b >>= length) = .ok (.int k)) ∧
    (concat a b = .ok (.list of (xs ++ ys)) ∧
      (concat a b >>= fun ab => concat ab c) = (concat b c >>= fun bc => concat a bc) ∧
      concat (.list of []) a = .ok a ∧ concat a (.list of []) = .ok a) ∧
    (reverse typeOf a = .ok (.list of xs.reverse) ∧
      (reverse typeOf a >>= reverse typeOf) = .ok a ∧
      (concat a b >>= reverse typeOf) =
        reverse typeOf b >>= fun b' => reverse typeOf a >>= fun a' => concat b' a') ∧
    (∀ item : Value, item.conformsTo of = true →
      append typeOf a item = .ok (.list of (xs ++ [item])) ∧
      append typeOf a item = concat a (.list of [item])) ∧
    ∀ (of' : Ty) (items : List Value), of ≠ of' →
      concat a (.list of' items) =
        .error (.typeMismatch (Ty.list of).text (Ty.list of').text) := by
  intro a b c
  have left : xs.length < 2 ^ 63 := by omega
  have both : xs.length + ys.length < 2 ^ 63 := by omega
  refine ⟨fun i => ⟨fun within => ⟨nth_within of within, nth_reverse typeOf left within⟩,
    nth_outside of, nth_concat both⟩, length_concat typeOf of both,
    ⟨concat_eq of xs ys, concat_assoc of xs ys zs, concat_eq of [] xs, ?_⟩,
    ⟨reverse_eq typeOf of xs, reverse_reverse typeOf of xs, reverse_concat typeOf of xs ys⟩,
    fun item conforms => ?_, fun of' items differ => concat_of_ne differ xs items⟩
  · rw [concat_eq, List.append_nil]
  · have appended := append_eq typeOf conforms xs
    exact ⟨appended, appended.trans (concat_eq of xs [item]).symm⟩

/-- Two lists of words and an empty one of numbers: the last of three items, found in their
concatenation and from the other end; and an index before the first. -/
theorem lists_sequential_words :
    let untyped : Value → Option Ty := fun _ => none
    let a := Value.list .string [.string "x", .string "y"]
    let b := Value.list .string [.string "z"]
    (concat a b >>= fun both => nth both (.int 2)) = .ok (.string "z") ∧
    (reverse untyped a >>= fun back => nth back (.int 0)) = .ok (.string "y") ∧
    nth a (.int (-1)) = .error (.indexOutOfBounds (-1) 2) ∧
    append untyped a (.string "z") = concat a b ∧
    concat a (.list .int []) = .error (.typeMismatch "list<string>" "list<int>") := by
  intro untyped a b
  obtain ⟨items, -, -, -, appends, apart⟩ := lists_sequential untyped .string
    [.string "x", .string "y"] [.string "z"] [] (by decide)
  refine ⟨?_, ?_, (items (-1)).2.1 ?_, (appends (.string "z") rfl).2, apart .int [] (by decide)⟩
  · rw [(items 2).2.2 ⟨by decide, by decide⟩]
    rfl
  · rw [((items 0).1 ⟨by decide, by decide⟩).2]
    rfl
  · exact fun within => absurd within.1 (by decide)

end LayeredIR.Sequence
