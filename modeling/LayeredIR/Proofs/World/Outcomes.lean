import LayeredIR.Proofs.World.Runs

/-! How futures come to be settled. Only the task of a future settles it, with what its body ended
with, and then it stays settled. -/
namespace LayeredIR
namespace World

variable {σ : Type} {s : Setting σ} {who id : Identity} {number : Nat} {shared : Shared σ}
  {phase : Phase} {change : Change σ}

theorem futures_of_step {task : Task} {shared' : Shared σ} {progress : Progress σ}
    (stepped : task.step s shared = progress) (left : progress.shared = shared') :
    shared'.futures = shared.futures := by
  obtain ⟨host, shared_eq⟩ := Task.step_shared s shared task
  rw [← left, ← stepped, shared_eq]

/-- An outcome that is known after a step was known before it, or is what the step settles with. -/
theorem Move.outcome?_cases (move : Move s who number shared phase change) {outcome : Outcome}
    (found : change.shared.futures.outcome? id = some outcome) :
    shared.futures.outcome? id = some outcome ∨
      id = who ∧ ∃ result, phase = .settling result ∧ settlement result = outcome := by
  cases move with
  | claim | refuse | answer | release => exact .inl found
  | sleep => exact .inl (shared.futures.outcome?_wait _ _ who ▸ found)
  | @go task shared' task' stepped =>
    exact .inl ((futures_of_step stepped rfl : shared'.futures = _) ▸ found)
  | @finish task outcome shared' memory own stepped =>
    exact .inl ((futures_of_step stepped rfl : shared'.futures = _) ▸ found)
  | @stop task outcome shared' memory forked stepped =>
    exact .inl ((futures_of_step stepped rfl : shared'.futures = _) ▸ found)
  | spawn =>
    simp only [Futures.outcome?, Futures.get?_add] at found
    split at found
    · cases found
    · exact .inl found
  | settle =>
    rcases shared.futures.outcome?_settle_cases who id found with old | ⟨same, settles⟩
    · exact .inl old
    · exact .inr ⟨same, _, rfl, settles⟩

theorem outcome?_step {w : World σ} (awake : w.canStep who) {outcome : Outcome}
    (found : (w.step s who).shared.futures.outcome? id = some outcome) :
    w.shared.futures.outcome? id = some outcome ∨
      id = who ∧ ∃ result, (who, .settling result) ∈ w.tasks ∧ settlement result = outcome := by
  obtain ⟨before, phase, after, change, split, -, -, move, whole⟩ := exists_move (s := s) awake
  rw [whole] at found
  rcases move.outcome?_cases found with old | ⟨same, result, rfl, settles⟩
  · exact .inl old
  · exact .inr ⟨same, result, by simp [split], settles⟩

/-- An outcome that is known stays the same. -/
theorem Tidy.outcome?_kept {w : World σ} (tidy : w.Tidy) (awake : w.canStep who)
    {outcome : Outcome} (found : w.shared.futures.outcome? id = some outcome) :
    (w.step s who).shared.futures.outcome? id = some outcome := by
  obtain ⟨shared, tasks, n, result⟩ := w
  obtain ⟨before, phase, after, change, rfl, -, -, move, whole⟩ := exists_move (s := s) awake
  rw [whole]
  cases move with
  | claim | refuse | answer | release => exact found
  | sleep => exact (shared.futures.outcome?_wait _ _ who).trans found
  | @go task shared' task' stepped =>
    exact (futures_of_step stepped rfl : shared'.futures = _) ▸ found
  | @finish task outcome shared' memory own stepped =>
    exact (futures_of_step stepped rfl : shared'.futures = _) ▸ found
  | @stop task outcome shared' memory forked stepped =>
    exact (futures_of_step stepped rfl : shared'.futures = _) ▸ found
  | @spawn label registers next frames memory =>
    have fresh := tidy.fresh ⟨.fork label registers next, frames, memory⟩ rfl
    rw [← fresh.1] at fresh
    exact (shared.futures.outcome?_add_pending _ id _ fresh.2).trans found
  | settle =>
    simp only [Futures.outcome?, Futures.get?_update] at found ⊢
    obtain ⟨future, held, known⟩ := Option.bind_eq_some_iff.mp found
    rw [held]
    simp only [Option.map_some, Option.bind_some]
    split
    · rw [Future.outcome_settle, known]
      rfl
    · exact known

/-- The step of one task leaves the futures of others as settled or pending as they are. -/
theorem Tidy.outcome?_others {w : World σ} (tidy : w.Tidy) (awake : w.canStep who)
    (other : id ≠ who) :
    (w.step s who).shared.futures.outcome? id = w.shared.futures.outcome? id := by
  cases found : w.shared.futures.outcome? id with
  | some outcome => exact tidy.outcome?_kept awake found
  | none =>
    cases found' : (w.step s who).shared.futures.outcome? id with
    | none => rfl
    | some outcome =>
      rcases outcome?_step awake found' with old | ⟨same, -⟩
      · exact old.symm.trans found
      · exact absurd same other

end World
end LayeredIR
