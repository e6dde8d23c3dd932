import LayeredIR.Proofs.Charter.Tasks
import LayeredIR.Proofs.World.Regime

/-! Tasks that uphold a charter beside each other. What they share, what they end with, and the
registers that they pass on are as the charter says in every world that a document comes to. -/
namespace LayeredIR
namespace Charter

variable {σ : Type} {s : Setting σ} (C : Charter s)

def regime : Regime σ where
  task := C.Runs []
  shares := C.Shares
  result := C.Results Fault.cause
  heard := C.Heard

variable {C}

theorem kept (laws : C.Laws) (admits : ∀ job, C.Admits job) (base : C.base ≤ 2) :
    C.regime.Kept s where
  go runs shares heard stepped := by
    have reached := runs.reached laws admits shares heard
    rw [stepped] at reached
    cases reached with
    | running shares' runs' => exact ⟨runs', shares'⟩
  ended runs shares heard stepped := by
    have reached := runs.reached laws admits shares heard
    rw [stepped] at reached
    cases reached with
    | ended results shares' _ => exact ⟨results, shares'⟩
  refused := by
    rintro label registers next frames memory ⟨control, waits, keeps⟩
    cases control with
    | fork _ rest => exact ⟨rest none, waits, keeps⟩
  forked := by
    rintro label registers next frames memory ⟨control, waits, keeps⟩
    cases control with
    | fork permitted rest =>
      exact ⟨runs_atBlock base permitted.1 _ permitted.2, rest _, waits, keeps.grown,
        keeps.holds.heap, keeps.holds.kept⟩
  answered := by
    rintro id next frames memory futures host outcome ⟨control, waits, keeps⟩ shares settled
    cases control with
    | await _ rest =>
      exact ⟨rest outcome fun v same => shares.settled id v (same ▸ settled), waits, keeps⟩
  waited id who shares := ⟨Futures.All.wait shares.settled id who, shares.host⟩
  added id number shares := ⟨Futures.All.pending shares.settled id number, shares.host⟩
  settled who shares results :=
    ⟨Futures.All.settle shares.settled who results.value, shares.host⟩

end Charter
end LayeredIR
