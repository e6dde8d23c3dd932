import LayeredIR.Json.Record
import Mathlib.Data.List.Basic

/-! Reading records. A reader goes into the parts of a tree, which are smaller than the tree; what
it reads there depends on the parts alone. A list is read back from the trees of its items if each
item is, and whatever is read in a record is read from one of its members, or from an item of
one. -/
namespace LayeredIR.Json

variable {α β : Type}

-- the members of a record that is written out are found by simp
attribute [simp] Members.get? Members.getOr? Members.optional? Members.str? memberIf tagMember str?
  arr? bool? record?

def all? (read : Json → Option α) (tree : Json) : Option (List α) :=
  tree.arr?.bind fun items => items.mapM read

theorem all?_arr {read : Json → Option α} {write : α → Json} {xs : List α}
    (back : ∀ x ∈ xs, read (write x) = some x) : all? read (.arr (xs.map write)) = some xs := by
  change (xs.map write).mapM read = some xs
  induction xs with
  | nil => rfl
  | cons x rest ih =>
    rw [List.map_cons, List.mapM_cons, back x (.head _),
      ih fun other member => back other (.tail _ member)]
    rfl

theorem mem_of_mapM {read : Json → Option α} {items : List Json} {xs : List α}
    (decoded : items.mapM read = some xs) : ∀ x ∈ xs, ∃ item ∈ items, read item = some x := by
  induction items generalizing xs with
  | nil =>
    cases decoded
    exact List.forall_mem_nil _
  | cons item rest ih =>
    rw [List.mapM_cons] at decoded
    obtain ⟨first, head, others⟩ := Option.bind_eq_some_iff.mp decoded
    obtain ⟨later, tail, same⟩ := Option.bind_eq_some_iff.mp others
    cases same
    refine List.forall_mem_cons.mpr ⟨⟨item, .head _, head⟩, fun x member => ?_⟩
    obtain ⟨other, among, read⟩ := ih tail x member
    exact ⟨other, .tail _ among, read⟩

def Members.all? (members : Members) (name : String) (read : Json → Option α) : Option (List α) :=
  (members.get? name).bind (Json.all? read)

@[simp] theorem strings?_ofStrings (names : List String) :
    strings? (ofStrings names) = some names :=
  all?_arr fun _ _ => rfl

theorem binary64?_ofBinary64 {x : Binary64} (finite : x.isFinite) :
    (ofBinary64 x).binary64? = some x := by
  simp [ofBinary64, binary64?, finite]

theorem isFinite_of_binary64? {tree : Json} {x : Binary64} (decoded : tree.binary64? = some x) :
    x.isFinite := (Option.filter_eq_some_iff.mp decoded).2

/-- A tagged record is read back from its members. -/
theorem tagged?_tagged {schema : Schema} {tag : String} {order : List String} (nested : Bool)
    (known : schema.lookup tag = some order) (members : Members) :
    tagged? schema nested (tagged tag members) =
      some (tag, ⟨(tagMember, .str tag) :: members,
        fun found => sizeOf_member (Members.mem_of_get? found)⟩) := by
  have written : writtenTag? (tagged tag members) = some (.str tag) := by
    simp [writtenTag?, tagged, Members.get?]
  simp only [tagged?, written, tagOf?, known, Option.bind_eq_bind, Option.bind_some]
  rfl

def Members.Has (members : Members) (part : Json) : Prop :=
  ∃ name value, members.get? name = some value ∧
    (part = value ∨ ∃ items, value = .arr items ∧ part ∈ items)

namespace Members

variable {members : Members} {name : String}

theorem has_of_get? {value : Json} (found : members.get? name = some value) : members.Has value :=
  ⟨name, value, found, .inl rfl⟩

theorem has_of_all? {read : Json → Option α} {xs : List α}
    (decoded : members.all? name read = some xs) :
    ∀ x ∈ xs, ∃ part, members.Has part ∧ read part = some x := by
  intro x member
  obtain ⟨value, found, array⟩ := Option.bind_eq_some_iff.mp decoded
  obtain ⟨items, array, each⟩ := Option.bind_eq_some_iff.mp array
  obtain ⟨part, among, read⟩ := mem_of_mapM each x member
  refine ⟨part, ⟨name, value, found, .inr ⟨items, ?_, among⟩⟩, read⟩
  cases value <;> cases array
  rfl

theorem has_of_getOr? {read : Json → Option α} {xs : List α}
    (decoded : members.getOr? name [] (Json.all? read) = some xs) :
    ∀ x ∈ xs, ∃ part, members.Has part ∧ read part = some x := by
  unfold getOr? at decoded
  cases found : members.get? name with
  | none =>
    rw [found] at decoded
    cases decoded
    exact List.forall_mem_nil _
  | some value =>
    rw [found] at decoded
    have all : members.all? name read = some xs := by
      rw [Members.all?, found]
      exact decoded
    exact has_of_all? all

end Members

namespace Record

variable {tree : Json} (record : Record tree) (name : String)

theorem sizeOf_has {part : Json} (has : record.members.Has part) : sizeOf part < sizeOf tree := by
  obtain ⟨name, value, found, rfl | ⟨items, rfl, among⟩⟩ := has
  · exact record.smaller found
  · exact Nat.lt_trans (sizeOf_item among) (record.smaller found)

theorem part?_bind (f : Json → Option β) :
    ((record.part? name).bind fun part => f part.1) = (record.members.get? name).bind f := by
  cases found : record.members.get? name with
  | none => rw [record.part?_of_missing found]; rfl
  | some value => rw [record.part?_of_get? found]; rfl

theorem mapM_items? (f : Json → Option β) (tree : Json) :
    (tree.items?.bind fun parts => parts.mapM fun part => f part.1) = all? f tree := by
  cases tree with
  | arr items =>
    change (items.attach.map _).mapM _ = items.mapM f
    conv_rhs => rw [← List.attach_map_subtype_val items]
    rw [List.mapM_map, List.mapM_map]
    rfl
  | _ => rfl

theorem items?_bind (f : Json → Option β) :
    ((record.items? name).bind fun parts => parts.mapM fun part => f part.1) =
      record.members.all? name f := by
  unfold Members.all?
  cases found : record.members.get? name with
  | none =>
    simp only [items?, record.part?_of_missing found]
    rfl
  | some value =>
    simp only [items?, record.part?_of_get? found, Option.bind_eq_bind, Option.bind_some]
    rw [← mapM_items? f value]
    cases value.items? with
    | none => rfl
    | some parts =>
      change (parts.map _).mapM _ = parts.mapM _
      rw [List.mapM_map]
      rfl

theorem itemsOr?_bind (f : Json → Option β) :
    ((record.itemsOr? name).bind fun parts => parts.mapM fun part => f part.1) =
      record.members.getOr? name [] (all? f) := by
  unfold itemsOr? Members.getOr?
  cases found : record.members.get? name with
  | none => rfl
  | some value =>
    refine (record.items?_bind name f).trans ?_
    rw [Members.all?, found]
    rfl

end Record
end LayeredIR.Json
