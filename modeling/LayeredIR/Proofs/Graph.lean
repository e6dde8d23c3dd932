import LayeredIR.Flow
import Mathlib.Data.List.Nodup

/-! Which control-flow documents have a graph, and what is reported of the others. Of several
defects the one reported is the first label that repeats, else the first successor that no block
has for its label, else the entry. -/
namespace LayeredIR

/-- The first name that occurs before, in the list or among those seen. -/
theorem firstRepeat_eq_some_iff {seen labels : List String} {id : String} :
    firstRepeat seen labels = some id ↔ ∃ before after, labels = before ++ id :: after ∧
      before.Nodup ∧ (∀ label ∈ before, label ∉ seen) ∧ (id ∈ before ∨ id ∈ seen) := by
  induction labels generalizing seen with
  | nil => simp [firstRepeat]
  | cons first rest ih =>
    unfold firstRepeat
    by_cases again : first ∈ seen
    · rw [if_pos again]
      constructor
      · intro same
        cases same
        exact ⟨[], rest, rfl, .nil, by simp, .inr again⟩
      · rintro ⟨before, after, split, -, new, -⟩
        cases before with
        | nil => rw [(List.cons.inj split).1]
        | cons other before =>
          obtain ⟨rfl, -⟩ := List.cons.inj split
          exact absurd again (new _ (.head _))
    · rw [if_neg again, ih]
      constructor
      · rintro ⟨before, after, rfl, distinct, new, earlier⟩
        have absent : first ∉ before := fun member => new _ member (.head _)
        refine ⟨first :: before, after, rfl, distinct.cons absent, ?_, ?_⟩
        · rintro label (_ | ⟨_, member⟩)
          · exact again
          · exact fun old => new label member (.tail _ old)
        · rcases earlier with member | (_ | ⟨_, old⟩)
          · exact .inl (.tail _ member)
          · exact .inl (.head _)
          · exact .inr old
      · rintro ⟨before, after, split, distinct, new, earlier⟩
        cases before with
        | nil =>
          obtain ⟨rfl, rfl⟩ := List.cons.inj split
          exact absurd (earlier.resolve_left List.not_mem_nil) again
        | cons other before =>
          obtain ⟨rfl, rfl⟩ := List.cons.inj split
          obtain ⟨absent, distinct⟩ := List.nodup_cons.mp distinct
          refine ⟨before, after, rfl, distinct, fun label member => ?_, ?_⟩
          · rintro (_ | ⟨_, old⟩)
            · exact absent member
            · exact new label (.tail _ member) old
          · rcases earlier with (_ | ⟨_, member⟩) | old
            · exact .inr (.head _)
            · exact .inl member
            · exact .inr (.tail _ old)

theorem firstRepeat_eq_none_iff {seen labels : List String} :
    firstRepeat seen labels = none ↔ labels.Nodup ∧ ∀ label ∈ labels, label ∉ seen := by
  induction labels generalizing seen with
  | nil => simp [firstRepeat]
  | cons first rest ih =>
    unfold firstRepeat
    by_cases again : first ∈ seen
    · simp [again]
    · rw [if_neg again, ih, List.nodup_cons]
      simp only [List.mem_cons, not_or, forall_eq_or_imp]
      constructor
      · rintro ⟨distinct, new⟩
        exact ⟨⟨fun member => (new first member).1 rfl, distinct⟩, again,
          fun label member => (new label member).2⟩
      · rintro ⟨⟨absent, distinct⟩, -, new⟩
        exact ⟨distinct, fun label member =>
          ⟨fun same => absent (same ▸ member), new label member⟩⟩

namespace FlowDocument

variable (doc : FlowDocument)

def Leads (blocks : List Block) : Prop :=
  ∀ block ∈ blocks, ∀ label ∈ block.terminator.successors, label ∈ doc.labels

structure WellFormed : Prop where
  distinct : doc.labels.Nodup
  leads : doc.Leads doc.blocks
  entry : doc.entry ∈ doc.labels

inductive Reports : StructureError → Prop
  | repeated {before block after} (split : doc.blocks = before ++ block :: after)
    (distinct : (before.map Block.id).Nodup) (again : block.id ∈ before.map Block.id) :
    Reports (.duplicateBlock block.id)
  | dangling {before block after found label rest} (distinct : doc.labels.Nodup)
    (split : doc.blocks = before ++ block :: after) (sound : doc.Leads before)
    (successors : block.terminator.successors = found ++ label :: rest)
    (known : ∀ other ∈ found, other ∈ doc.labels) (missing : label ∉ doc.labels) :
    Reports (.unknownLabel block.id label)
  | entry (distinct : doc.labels.Nodup) (leads : doc.Leads doc.blocks)
    (missing : doc.entry ∉ doc.labels) : Reports (.missingEntry doc.entry)

variable {doc}

theorem danglingLabel?_eq_some_iff {id label : String} :
    doc.danglingLabel? = some (id, label) ↔ ∃ before block after found rest,
      doc.blocks = before ++ block :: after ∧ block.id = id ∧ doc.Leads before ∧
        block.terminator.successors = found ++ label :: rest ∧
        (∀ other ∈ found, other ∈ doc.labels) ∧ label ∉ doc.labels := by
  simp only [danglingLabel?, List.findSome?_eq_some_iff, Option.map_eq_some_iff,
    Option.map_eq_none_iff, List.find?_eq_none, List.find?_eq_some_iff_append, Prod.mk.injEq,
    decide_eq_true_eq, Bool.not_eq_true', decide_eq_false_iff_not, not_not]
  constructor
  · rintro ⟨before, block, after, split, ⟨_, ⟨missing, found, rest, successors, known⟩, rfl, rfl⟩,
      sound⟩
    exact ⟨before, block, after, found, rest, split, rfl, sound, successors, known, missing⟩
  · rintro ⟨before, block, after, found, rest, split, rfl, sound, successors, known, missing⟩
    exact ⟨before, block, after, split,
      ⟨label, ⟨missing, found, rest, successors, known⟩, rfl, rfl⟩, sound⟩

theorem danglingLabel?_eq_none_iff : doc.danglingLabel? = none ↔ doc.Leads doc.blocks := by
  simp [danglingLabel?, Leads, List.findSome?_eq_none_iff]

theorem find?_entry_eq_none_iff :
    (doc.blocks.find? fun block => block.id = doc.entry) = none ↔ doc.entry ∉ doc.labels := by
  simp [List.find?_eq_none, labels]

theorem firstRepeat_labels_eq_some_iff {id : String} :
    firstRepeat [] doc.labels = some id ↔ ∃ before block after,
      doc.blocks = before ++ block :: after ∧ block.id = id ∧ (before.map Block.id).Nodup ∧
        id ∈ before.map Block.id := by
  rw [firstRepeat_eq_some_iff]
  constructor
  · rintro ⟨before, after, split, distinct, -, again⟩
    obtain ⟨blocks, rest, whole, rfl, named⟩ := List.map_eq_append_iff.mp split
    obtain ⟨block, others, rfl, rfl, -⟩ := List.map_eq_cons_iff.mp named
    exact ⟨blocks, block, others, whole, rfl, distinct, again.resolve_right List.not_mem_nil⟩
  · rintro ⟨before, block, after, split, rfl, distinct, again⟩
    refine ⟨before.map Block.id, after.map Block.id, ?_, distinct, by simp, .inl again⟩
    simp only [labels, split, List.map_append, List.map_cons]

/-- A document has a graph, whose blocks are its own, exactly when it is well-formed. -/
theorem graph_eq_ok_iff {graph : FlowGraph} :
    doc.graph = .ok graph ↔ doc.WellFormed ∧
      doc.blocks.find? (fun block => block.id = doc.entry) = some graph.entry ∧
      graph.blocks = doc.blocks := by
  unfold FlowDocument.graph
  cases again : firstRepeat [] doc.labels with
  | some id =>
    refine ⟨nofun, ?_⟩
    rintro ⟨formed, -⟩
    have distinct := firstRepeat_eq_none_iff.mpr
      ⟨formed.distinct, fun _ _ => List.not_mem_nil⟩
    exact absurd (again.symm.trans distinct) nofun
  | none =>
    have distinct := (firstRepeat_eq_none_iff.mp again).1
    cases dangling : doc.danglingLabel? with
    | some place =>
      refine ⟨nofun, ?_⟩
      rintro ⟨formed, -⟩
      exact absurd (dangling.symm.trans (danglingLabel?_eq_none_iff.mpr formed.leads)) nofun
    | none =>
      have leads := danglingLabel?_eq_none_iff.mp dangling
      cases found : doc.blocks.find? fun block => block.id = doc.entry with
      | none =>
        refine ⟨nofun, ?_⟩
        rintro ⟨-, same, -⟩
        cases same
      | some entry =>
        have named : doc.entry ∈ doc.labels := by
          by_contra missing
          exact absurd (found.symm.trans (find?_entry_eq_none_iff.mpr missing)) nofun
        constructor
        · intro same
          cases same
          exact ⟨⟨distinct, leads, named⟩, rfl, rfl⟩
        · obtain ⟨first, blocks⟩ := graph
          rintro ⟨-, same, rfl⟩
          cases same
          rfl

/-- A document without a graph is refused for its first defect. -/
theorem graph_eq_error_iff {e : StructureError} : doc.graph = .error e ↔ doc.Reports e := by
  constructor
  · intro refused
    unfold FlowDocument.graph at refused
    cases again : firstRepeat [] doc.labels with
    | some id =>
      rw [again] at refused
      cases refused
      obtain ⟨before, block, after, split, rfl, distinct, earlier⟩ :=
        firstRepeat_labels_eq_some_iff.mp again
      exact .repeated split distinct earlier
    | none =>
      have distinct := (firstRepeat_eq_none_iff.mp again).1
      cases dangling : doc.danglingLabel? with
      | some place =>
        rw [again, dangling] at refused
        cases refused
        obtain ⟨before, block, after, found, rest, split, same, sound, successors, known,
          missing⟩ := danglingLabel?_eq_some_iff.mp dangling
        exact same ▸ .dangling distinct split sound successors known missing
      | none =>
        have leads := danglingLabel?_eq_none_iff.mp dangling
        cases found : doc.blocks.find? fun block => block.id = doc.entry with
        | some entry =>
          rw [again, dangling, found] at refused
          cases refused
        | none =>
          rw [again, dangling, found] at refused
          cases refused
          exact .entry distinct leads (find?_entry_eq_none_iff.mp found)
  · rintro (⟨split, distinct, again⟩ | ⟨distinct, split, sound, successors, known, missing⟩ |
      ⟨distinct, leads, missing⟩)
    · have repeats := firstRepeat_labels_eq_some_iff.mpr ⟨_, _, _, split, rfl, distinct, again⟩
      simp only [FlowDocument.graph, repeats]
    · have once := firstRepeat_eq_none_iff.mpr ⟨distinct, fun _ _ => List.not_mem_nil⟩
      have dangles := danglingLabel?_eq_some_iff.mpr
        ⟨_, _, _, _, _, split, rfl, sound, successors, known, missing⟩
      simp only [FlowDocument.graph, once, dangles]
    · have once := firstRepeat_eq_none_iff.mpr ⟨distinct, fun _ _ => List.not_mem_nil⟩
      have leads := danglingLabel?_eq_none_iff.mpr leads
      have absent := find?_entry_eq_none_iff.mpr missing
      simp only [FlowDocument.graph, once, leads, absent]

theorem exists_graph_iff : (∃ graph, doc.graph = .ok graph) ↔ doc.WellFormed := by
  constructor
  · rintro ⟨graph, structured⟩
    exact (graph_eq_ok_iff.mp structured).1
  · intro formed
    cases found : doc.blocks.find? fun block => block.id = doc.entry with
    | none => exact absurd formed.entry (find?_entry_eq_none_iff.mp found)
    | some entry => exact ⟨⟨entry, doc.blocks⟩, graph_eq_ok_iff.mpr ⟨formed, found, rfl⟩⟩

end FlowDocument
end LayeredIR
