import LayeredIR.Definitions
import Mathlib.Data.Finset.Card
import Mathlib.Data.Finset.Image
import Mathlib.Data.List.Find
import Mathlib.Data.List.Forall2

/-! Tables of definitions against what was added to them. A table goes by the text `ns:name`, which
keeps pairs apart only as long as they hold no colon of their own. -/
namespace LayeredIR

/-- Two pairs share a key if they are the same, or split it at different colons. -/
theorem definitionKey_eq_iff {ns name ns' name' : String} :
    definitionKey ns name = definitionKey ns' name' ↔
      (ns = ns' ∧ name = name') ∨
      (∃ between, ns' = definitionKey ns between ∧ name = definitionKey between name') ∨
      ∃ between, ns = definitionKey ns' between ∧ name' = definitionKey between name := by
  have key_toList (a b : String) : (definitionKey a b).toList = a.toList ++ ':' :: b.toList := by
    simp [definitionKey]
  constructor
  · intro same
    have chars := congrArg String.toList same
    rw [key_toList, key_toList, List.append_eq_append_iff] at chars
    rcases chars with ⟨between, front, back⟩ | ⟨between, front, back⟩
    · cases between with
      | nil => exact .inl (by simp_all [String.toList_inj])
      | cons c between =>
        obtain ⟨rfl, rest⟩ : ':' = c ∧ _ := by simpa using back
        refine .inr (.inl ⟨String.ofList between, ?_, ?_⟩) <;>
          simp [← String.toList_inj, key_toList, front, rest]
    · cases between with
      | nil => exact .inl (by simp_all [String.toList_inj])
      | cons c between =>
        obtain ⟨rfl, rest⟩ : ':' = c ∧ _ := by simpa using back
        refine .inr (.inr ⟨String.ofList between, ?_, ?_⟩) <;>
          simp [← String.toList_inj, key_toList, front, rest]
  · rintro (⟨rfl, rfl⟩ | ⟨between, rfl, rfl⟩ | ⟨between, rfl, rfl⟩)
    · rfl
    · simp [definitionKey, String.append_assoc]
    · simp [definitionKey, String.append_assoc]

theorem length_definitionKey (ns name : String) :
    (definitionKey ns name).length = ns.length + 1 + name.length := by
  simp only [definitionKey, String.length_append]
  rfl

namespace Definition

def Named (d : Definition) (ns name : String) : Prop := d.ns = ns ∧ d.name = name

instance (d : Definition) (ns name : String) : Decidable (d.Named ns name) :=
  inferInstanceAs (Decidable (_ ∧ _))

def names (d : Definition) : String × String := (d.ns, d.name)

def ColonFree (d : Definition) : Prop := ':' ∉ d.ns.toList ∧ ':' ∉ d.name.toList

/-- A definition answers to its own names alone just if they hold no colon. -/
theorem colonFree_iff {d : Definition} :
    d.ColonFree ↔ ∀ ns name, d.key = definitionKey ns name → d.Named ns name := by
  constructor
  · rintro ⟨in_ns, in_name⟩ ns name same
    rcases definitionKey_eq_iff.mp same with named | ⟨between, -, colon⟩ | ⟨between, colon, -⟩
    · exact named
    · simp [colon, definitionKey] at in_name
    · simp [colon, definitionKey] at in_ns
  · intro only
    constructor
    · intro colon
      obtain ⟨front, back, split⟩ := List.append_of_mem colon
      have shared : d.key =
          definitionKey (String.ofList front) (definitionKey (String.ofList back) d.name) := by
        simp [key, definitionKey, ← String.toList_inj, split]
      have length := congrArg String.length (only _ _ shared).2
      simp only [length_definitionKey] at length
      omega
    · intro colon
      obtain ⟨front, back, split⟩ := List.append_of_mem colon
      have shared : d.key =
          definitionKey (definitionKey d.ns (String.ofList front)) (String.ofList back) := by
        simp [key, definitionKey, ← String.toList_inj, split]
      have length := congrArg String.length (only _ _ shared).1
      simp only [length_definitionKey] at length
      omega

end Definition

namespace Definitions

def lastNamed (added : List Definition) (ns name : String) : Option Definition :=
  added.reverse.find? (·.Named ns name)

def lastKeyed (added : List Definition) (key : String) : Option Definition :=
  added.reverse.find? (·.key = key)

theorem lastKeyed_append_singleton (added : List Definition) (d : Definition) (key : String) :
    lastKeyed (added ++ [d]) key = if d.key = key then some d else lastKeyed added key := by
  by_cases same : d.key = key <;> simp [lastKeyed, same]

/-- The table is what is left of the definitions that were added, in order. -/
structure Holds (table : Definitions) (added : List Definition) : Prop where
  get? : ∀ ns name, table.get? ns name = lastKeyed added (definitionKey ns name)
  nodup : table.keys.Nodup
  mem_keys : ∀ key, key ∈ table.keys ↔ key ∈ added.map Definition.key

theorem holds_empty : Holds empty [] where
  get? _ _ := rfl
  nodup := List.nodup_nil
  mem_keys _ := Iff.rfl

theorem Holds.insert {table : Definitions} {added : List Definition} (held : Holds table added)
    (d : Definition) : Holds (table.insert d) (added ++ [d]) where
  get? ns name := by rw [get?_insert, lastKeyed_append_singleton, held.get?]
  nodup := by
    rw [keys_insert]
    split
    · exact held.nodup
    · next new =>
      rw [List.nodup_append]
      refine ⟨held.nodup, by simp, ?_⟩
      rintro key old last is_last rfl
      exact new (List.mem_singleton.mp is_last ▸ old)
  mem_keys key := by
    rw [keys_insert]
    split
    · next old =>
      have := (held.mem_keys _).mp old
      simp only [held.mem_keys, List.map_append, List.mem_append]
      constructor
      · exact .inl
      · rintro (before | last)
        · exact before
        · simp_all
    · simp [held.mem_keys]

theorem Holds.layered {table : Definitions} {added : List Definition} (held : Holds table added)
    (overrides : List Definition) : Holds (table.layered overrides) (added ++ overrides) := by
  induction overrides generalizing table added with
  | nil => simpa [Definitions.layered] using held
  | cons d rest ih => simpa [Definitions.layered] using ih (held.insert d)

theorem holds_ofList (definitions : List Definition) : Holds (ofList definitions) definitions :=
  holds_empty.layered definitions

section
variable {table : Definitions} {added : List Definition}

/-- Names are looked up exactly where no definition of other names has their key. -/
theorem Holds.get?_named (held : Holds table added) {ns name : String}
    (apart : ∀ d ∈ added, d.key = definitionKey ns name → d.Named ns name) :
    table.get? ns name = lastNamed added ns name := by
  have named (d : Definition) (member : d ∈ added.reverse) :
      d.key = definitionKey ns name ↔ d.Named ns name :=
    ⟨apart d (List.mem_reverse.mp member), fun ⟨in_ns, in_name⟩ => by simp [Definition.key, *]⟩
  rw [held.get?]
  apply List.find?_congr
  simpa using named

theorem Holds.named_of_exact (held : Holds table added)
    (exact : ∀ ns name, table.get? ns name = lastNamed added ns name) {d : Definition}
    (member : d ∈ added) {ns name : String} (shared : d.key = definitionKey ns name) :
    d.Named ns name := by
  obtain ⟨last, found⟩ : ∃ last, lastKeyed added d.key = some last := by
    rw [← Option.isSome_iff_exists, lastKeyed, List.find?_isSome]
    exact ⟨d, List.mem_reverse.mpr member, by simp⟩
  have last_named {ns name : String} (key : d.key = definitionKey ns name) :
      last.Named ns name := by
    have answer := exact ns name
    rw [held.get?, ← key, found, lastNamed] at answer
    simpa using List.find?_some answer.symm
  obtain ⟨rfl, rfl⟩ := last_named shared
  obtain ⟨in_ns, in_name⟩ : last.Named d.ns d.name := last_named rfl
  exact ⟨in_ns.symm, in_name.symm⟩

theorem Holds.exact_iff (held : Holds table added) :
    (∀ ns name, table.get? ns name = lastNamed added ns name) ↔ ∀ d ∈ added, d.ColonFree := by
  constructor
  · intro exact d member
    exact Definition.colonFree_iff.mpr fun _ _ => held.named_of_exact exact member
  · intro free ns name
    exact held.get?_named fun d member => Definition.colonFree_iff.mp (free d member) ns name

theorem Holds.size_eq (held : Holds table added) :
    table.size = (added.map Definition.key).toFinset.card := by
  rw [← length_keys, ← List.toFinset_card_of_nodup held.nodup]
  congr 1
  ext key
  simpa using held.mem_keys key

theorem Holds.size_eq_iff (held : Holds table added) :
    table.size = (added.map Definition.names).toFinset.card ↔
      ∀ d ∈ added, ∀ e ∈ added, d.key = e.key → d.names = e.names := by
  have keys : (added.map Definition.key).toFinset =
      (added.map Definition.names).toFinset.image fun names => definitionKey names.1 names.2 := by
    ext key
    simp [Definition.names, Definition.key]
  rw [held.size_eq, keys, Finset.card_image_iff]
  constructor
  · intro apart d member e other same
    exact apart (by simpa using ⟨d, member, rfl⟩) (by simpa using ⟨e, other, rfl⟩) same
  · intro apart first is_first second is_second same
    obtain ⟨d, member, rfl⟩ : ∃ d ∈ added, d.names = first := by simpa using is_first
    obtain ⟨e, other, rfl⟩ : ∃ e ∈ added, e.names = second := by simpa using is_second
    exact apart d member e other same

end

/-- The calls that make and change tables: one is collected from definitions, one is added to, and
one is copied with others on top. Tables go by the order in which they were made. -/
inductive Call
  | collect (definitions : List Definition)
  | insert (table : Nat) (d : Definition)
  | layered (table : Nat) (overrides : List Definition)

def Call.run (tables : List Definitions) : Call → List Definitions
  | .collect definitions => tables ++ [ofList definitions]
  | .insert i d => tables.modify i (·.insert d)
  | .layered i overrides => tables ++ (tables[i]?.map (·.layered overrides)).toList

def Call.record (added : List (List Definition)) : Call → List (List Definition)
  | .collect definitions => added ++ [definitions]
  | .insert i d => added.modify i (· ++ [d])
  | .layered i overrides => added ++ (added[i]?.map (· ++ overrides)).toList

theorem Call.holds_run {tables : List Definitions} {added : List (List Definition)}
    (held : List.Forall₂ Holds tables added) (call : Call) :
    List.Forall₂ Holds (call.run tables) (call.record added) := by
  cases call with
  | collect definitions => exact List.rel_append held (.cons (holds_ofList definitions) .nil)
  | insert i d =>
    simp only [run, record]
    induction held generalizing i with
    | nil => simp
    | cons head tail ih =>
      cases i with
      | zero => simpa using ⟨head.insert d, tail⟩
      | succ i => simpa using ⟨head, ih i⟩
  | layered i overrides =>
    simp only [run, record]
    apply List.rel_append held
    induction held generalizing i with
    | nil => simp
    | cons head tail ih =>
      cases i with
      | zero => simpa using head.layered overrides
      | succ i => simpa using ih i

theorem Call.holds (calls : List Call) :
    List.Forall₂ Holds (calls.foldl run []) (calls.foldl record []) := by
  suffices step : ∀ {tables added}, List.Forall₂ Holds tables added →
      List.Forall₂ Holds (calls.foldl run tables) (calls.foldl record added) from step .nil
  induction calls with
  | nil => exact id
  | cons call rest ih => exact fun held => ih (call.holds_run held)

/-- Only what is added to a table itself changes it. -/
theorem Call.run_getElem? (tables : List Definitions) (call : Call) {i : Nat}
    (old : i < tables.length) (other : ∀ d, call ≠ .insert i d) :
    (call.run tables)[i]? = tables[i]? := by
  cases call with
  | collect definitions => exact List.getElem?_append_left old
  | insert j d =>
    have elsewhere : j ≠ i := by
      rintro rfl
      exact other d rfl
    simp [run, elsewhere]
  | layered j overrides => exact List.getElem?_append_left old

/-- Whatever calls are made, each table finds under two names the last definition that was added
under their key. That is the last under just these names where no definition of other names has the
key, and so it is for all names if, and only if, none of the names that were added holds a colon.
A table is as long as there are keys, and these are as many as there are pairs of names just if
pairs that differ have keys that do. No call changes a table other than the one it adds to. -/
theorem Call.tables_recorded (calls : List Call) :
    List.Forall₂
      (fun table added =>
        (∀ ns name, table.get? ns name = lastKeyed added (definitionKey ns name)) ∧
        (∀ ns name, (∀ d ∈ added, d.key = definitionKey ns name → d.Named ns name) →
          table.get? ns name = lastNamed added ns name) ∧
        ((∀ ns name, table.get? ns name = lastNamed added ns name) ↔
          ∀ d ∈ added, d.ColonFree) ∧
        table.size = (added.map Definition.key).toFinset.card ∧
        (table.size = (added.map Definition.names).toFinset.card ↔
          ∀ d ∈ added, ∀ e ∈ added, d.key = e.key → d.names = e.names))
      (calls.foldl run []) (calls.foldl record []) ∧
    ∀ (call : Call) (i : Nat), i < (calls.foldl run []).length → (∀ d, call ≠ .insert i d) →
      (call.run (calls.foldl run []))[i]? = (calls.foldl run [])[i]? := by
  constructor
  · apply (Call.holds calls).imp
    intro table added held
    exact ⟨held.get?, fun _ _ => held.get?_named, held.exact_iff, held.size_eq, held.size_eq_iff⟩
  · intro call i old other
    exact call.run_getElem? _ old other

end Definitions
end LayeredIR
