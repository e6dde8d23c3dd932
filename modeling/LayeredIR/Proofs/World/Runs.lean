import LayeredIR.Evaluate
import LayeredIR.Proofs.World.Tidy

/-! The runs of control-flow documents: the worlds that some order of steps leads to. The order that
the evaluator takes is one of them. -/
namespace LayeredIR

namespace World

variable {σ : Type} {s : Setting σ}

theorem exists_lookup {w : World σ} {who : Identity} (member : who ∈ w.tasks.map Prod.fst) :
    ∃ phase, w.tasks.lookup who = some phase ∧ (who, phase) ∈ w.tasks := by
  cases found : w.tasks.lookup who with
  | none =>
    obtain ⟨⟨_, phase⟩, member', rfl⟩ := List.mem_map.mp member
    have absent := List.lookup_eq_none_iff.mp found _ member'
    simp at absent
  | some phase =>
    obtain ⟨before, after, split, -⟩ := split_of_lookup found
    exact ⟨phase, rfl, split ▸ List.mem_append_right before List.mem_cons_self⟩

theorem Tidy.canStep_iff {w : World σ} (tidy : w.Tidy) {who : Identity} {phase : Phase}
    (member : (who, phase) ∈ w.tasks) :
    w.canStep who ↔ isAsleep w.shared.futures who phase = false := by
  obtain ⟨phase', found, member'⟩ := exists_lookup (List.mem_map_of_mem member)
  cases tidy.unique member member'
  unfold canStep
  rw [found]
  simp

/-- The step of a known task that is awake. -/
theorem Tidy.exists_move_of_mem {w : World σ} (tidy : w.Tidy) (s : Setting σ) {who : Identity}
    {phase : Phase} (member : (who, phase) ∈ w.tasks)
    (awake : isAsleep w.shared.futures who phase = false) :
    ∃ before after change, w.tasks = before ++ [(who, phase)] ++ after ∧
      Move s who (w.forked + 1) w.shared phase change ∧
      w.step s who = ⟨change.shared, before ++ change.tasks ++ after, w.forked + change.forked,
        change.outcome <|> w.outcome⟩ := by
  obtain ⟨before, phase', after, change, split, -, -, move, whole⟩ :=
    exists_move (s := s) ((tidy.canStep_iff member).mpr awake)
  have member' : (who, phase') ∈ w.tasks := by simp [split]
  obtain rfl := tidy.unique member member'
  exact ⟨before, after, change, split, move, whole⟩

theorem Tidy.canStep_firstAwake {w : World σ} (tidy : w.Tidy) {who : Identity}
    (first : w.firstAwake = some who) : w.canStep who := by
  unfold firstAwake at first
  obtain ⟨⟨_, phase⟩, found, rfl⟩ := Option.map_eq_some_iff.mp first
  have awake := List.find?_some found
  exact (tidy.canStep_iff (List.mem_of_find?_eq_some found)).mpr (by simpa using awake)

theorem Tidy.path_run (fuel : Nat) {w : World σ} (tidy : w.Tidy) :
    ∃ schedule, Path s schedule w (w.run s fuel) := by
  induction fuel generalizing w with
  | zero => exact ⟨[], .nil⟩
  | succ fuel ih =>
    unfold run
    cases first : w.firstAwake with
    | none => exact ⟨[], .nil⟩
    | some who =>
      have awake := tidy.canStep_firstAwake first
      obtain ⟨schedule, path⟩ := ih (tidy.step (s := s) who w awake)
      exact ⟨who :: schedule, .cons awake path⟩

end World

namespace FlowDocument

variable {σ : Type}

def Reaches (doc : FlowDocument) (s : Setting σ) (host : σ) (w : World σ) : Prop :=
  ∃ graph schedule, doc.graph = .ok graph ∧
    World.Path (doc.setting s graph) schedule (doc.start s graph host) w

theorem reaches_run {doc : FlowDocument} {graph : FlowGraph} (structured : doc.graph = .ok graph)
    (s : Setting σ) (host : σ) (fuel : Nat) :
    doc.Reaches s host ((doc.start s graph host).run (doc.setting s graph) fuel) := by
  obtain ⟨schedule, path⟩ := (World.Tidy.start (doc.setting s graph) graph.entry.id
    s.inputRegisters host).path_run (s := doc.setting s graph) fuel
  exact ⟨graph, schedule, structured, path⟩

def forkJoin : FlowDocument where
  version := "1.0.0"
  entry := "main"
  definitions := []
  blocks :=
    [⟨"main", [], .fork "body" "rest" "task"⟩,
      ⟨"body", [], .ret none⟩,
      ⟨"rest", [], .join "task" (some "result") "end"⟩,
      ⟨"end", [], .ret (some "result")⟩]

end FlowDocument
end LayeredIR
