import LayeredIR.Document

/-! Tables of definitions. A definition replaces an earlier one of the same key. -/
namespace LayeredIR

structure Definitions where
  entries : List (String × Definition)

namespace Definitions

def empty : Definitions := ⟨[]⟩

private def setEntry (key : String) (d : Definition) :
    List (String × Definition) → List (String × Definition)
  | [] => [(key, d)]
  | entry :: rest => if entry.1 = key then (key, d) :: rest else entry :: setEntry key d rest

def insert (table : Definitions) (d : Definition) : Definitions :=
  ⟨setEntry d.key d table.entries⟩

def layered (table : Definitions) (overrides : List Definition) : Definitions :=
  overrides.foldl insert table

def ofList (definitions : List Definition) : Definitions := empty.layered definitions

def get? (table : Definitions) (ns name : String) : Option Definition :=
  table.entries.lookup (definitionKey ns name)

def size (table : Definitions) : Nat := table.entries.length

private theorem mem_setEntry {key : String} {d : Definition} {entries : List (String × Definition)}
    {entry : String × Definition} (member : entry ∈ setEntry key d entries) :
    entry.2 = d ∨ entry ∈ entries := by
  induction entries with
  | nil => exact .inl (congrArg Prod.snd (List.mem_singleton.mp member))
  | cons first rest ih =>
    simp only [setEntry] at member
    split at member
    · rcases List.mem_cons.mp member with rfl | old
      · exact .inl rfl
      · exact .inr (.tail _ old)
    · rcases List.mem_cons.mp member with rfl | later
      · exact .inr (.head _)
      · exact (ih later).imp_right (.tail _)

private theorem lookup_setEntry (key : String) (d : Definition) (k : String)
    (entries : List (String × Definition)) :
    (setEntry key d entries).lookup k = if key = k then some d else entries.lookup k := by
  have at_head (first : Definition) (rest : List (String × Definition)) :
      List.lookup k ((key, first) :: rest) = if key = k then some first else rest.lookup k := by
    by_cases same : key = k
    · simp [same]
    · simp [List.lookup_cons, beq_false_of_ne (Ne.symm same), same]
  induction entries with
  | nil => simp [setEntry, at_head]
  | cons entry rest ih =>
    obtain ⟨first, old⟩ := entry
    by_cases here : first = key
    · subst here
      by_cases same : first = k <;> simp [setEntry, at_head, same]
    · simp only [setEntry, if_neg here, List.lookup_cons, ih]
      by_cases asked : k = first
      · simp [asked, Ne.symm here]
      · simp [beq_false_of_ne asked]

private theorem map_fst_setEntry (key : String) (d : Definition)
    (entries : List (String × Definition)) :
    (setEntry key d entries).map Prod.fst =
      if key ∈ entries.map Prod.fst then entries.map Prod.fst
      else entries.map Prod.fst ++ [key] := by
  induction entries with
  | nil => simp [setEntry]
  | cons entry rest ih =>
    by_cases here : entry.1 = key
    · simp [setEntry, here]
    · simp only [setEntry, if_neg here, List.map_cons, ih, List.mem_cons, Ne.symm here, false_or]
      split <;> simp

def keys (table : Definitions) : List String := table.entries.map Prod.fst

@[simp] theorem length_keys (table : Definitions) : table.keys.length = table.size := by
  simp [keys, size]

theorem get?_insert (table : Definitions) (d : Definition) (ns name : String) :
    (table.insert d).get? ns name =
      if d.key = definitionKey ns name then some d else table.get? ns name :=
  lookup_setEntry ..

theorem keys_insert (table : Definitions) (d : Definition) :
    (table.insert d).keys = if d.key ∈ table.keys then table.keys else table.keys ++ [d.key] :=
  map_fst_setEntry ..

/-- What is in a table that has been extended. -/
theorem mem_layered {table : Definitions} {overrides : List Definition}
    {entry : String × Definition} (member : entry ∈ (table.layered overrides).entries) :
    entry.2 ∈ overrides ∨ entry ∈ table.entries := by
  induction overrides generalizing table with
  | nil => exact .inr member
  | cons d rest ih =>
    rcases @ih (table.insert d) member with new | old
    · exact .inl (.tail _ new)
    · rcases mem_setEntry old with same | older
      · exact .inl (same ▸ .head _)
      · exact .inr older

/-- A definition that is found is in the table. -/
theorem mem_of_get? {table : Definitions} {ns name : String} {d : Definition}
    (found : table.get? ns name = some d) : (definitionKey ns name, d) ∈ table.entries := by
  obtain ⟨before, after, split, -⟩ := List.lookup_eq_some_iff.mp found
  rw [split]
  exact List.mem_append_right _ (.head _)

end Definitions
end LayeredIR
