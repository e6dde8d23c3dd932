import LayeredIR.Future

/-! Futures by identity: what is found after one is added, waited for or settled. -/
namespace LayeredIR

namespace Future

theorem outcome_wait (future : Future) (who : Identity) :
    (future.wait who).2.outcome = future.outcome := by
  unfold wait
  split
  · rfl
  · split <;> rfl

theorem outcome_settle (future : Future) (outcome : Outcome) :
    (future.settle outcome).2.outcome = some (future.outcome.getD outcome) := by
  unfold settle
  split
  · next pending => rw [pending]; rfl
  · next settled => rw [settled]; rfl

theorem sleepers_wait (future : Future) (who : Identity) {other : Identity}
    (asleep : future.sleepers.contains other) : (future.wait who).2.sleepers.contains other := by
  unfold wait
  split
  · exact asleep
  · split
    · exact asleep
    · simp only [List.contains_cons, asleep, Bool.or_true]

theorem contains_wait {future : Future} (pending : future.outcome = none) (who : Identity) :
    (future.wait who).2.sleepers.contains who := by
  unfold wait
  rw [pending]
  simp only
  split
  · next asleep => exact asleep
  · simp

def Woken (future : Future) : Prop := future.outcome.isSome → future.sleepers = []

theorem Woken.pending (task : Nat) : (pending task).Woken := Bool.false_ne_true.elim

theorem Woken.wait {future : Future} (woken : future.Woken) (who : Identity) :
    (future.wait who).2.Woken := by
  unfold Future.wait
  split
  · exact woken
  · next pending =>
    split
    · exact woken
    · intro settled
      simp [pending] at settled

theorem Woken.settle {future : Future} (woken : future.Woken) (outcome : Outcome) :
    (future.settle outcome).2.Woken := by
  unfold Future.settle
  split
  · exact fun _ => rfl
  · exact woken

end Future

namespace Futures

variable (futures : Futures) (id other : Identity)

@[simp]
theorem get?_add (future : Future) :
    (futures.add id future).get? other =
      if other = id then some future else futures.get? other := by
  simp only [add, get?, List.lookup_cons]
  by_cases same : other = id
  · simp [same]
  · simp [same, beq_eq_false_iff_ne.mpr same]

@[simp]
theorem get?_update (change : Future → Future) :
    (futures.update id change).get? other =
      (futures.get? other).map fun future => if other = id then change future else future := by
  obtain ⟨entries⟩ := futures
  simp only [update, get?]
  induction entries with
  | nil => rfl
  | cons entry rest ih =>
    obtain ⟨key, future⟩ := entry
    simp only [List.map_cons, List.lookup_cons]
    by_cases same : other = key
    · simp [same]
    · simp [beq_eq_false_iff_ne.mpr same, ih]

theorem outcome?_add_pending (task : Nat) (new : futures.get? id = none) :
    (futures.add id (.pending task)).outcome? other = futures.outcome? other := by
  simp only [outcome?, get?_add]
  split
  · next same => rw [same, new]; rfl
  · rfl

theorem outcome?_wait (who : Identity) :
    (futures.update id fun future => (future.wait who).2).outcome? other =
      futures.outcome? other := by
  simp only [outcome?, get?_update]
  cases futures.get? other with
  | none => rfl
  | some future =>
    simp only [Option.map_some, Option.bind_some]
    split
    · exact future.outcome_wait who
    · rfl

theorem outcome?_settle (outcome : Outcome) {future : Future}
    (found : futures.get? id = some future) (pending : future.outcome = none) :
    (futures.update id fun future => (future.settle outcome).2).outcome? other =
      if other = id then some outcome else futures.outcome? other := by
  simp only [outcome?, get?_update]
  by_cases same : other = id
  · rw [if_pos same, same, found]
    simp only [Option.map_some, Option.bind_some, if_true, Future.outcome_settle, pending]
    rfl
  · simp only [if_neg same]
    cases futures.get? other <;> rfl

/-- An outcome found after settling was found before, or is the one settled with. -/
theorem outcome?_settle_cases {outcome found : Outcome}
    (settled : (futures.update id fun future => (future.settle outcome).2).outcome? other =
      some found) :
    futures.outcome? other = some found ∨ other = id ∧ outcome = found := by
  simp only [outcome?, get?_update] at settled ⊢
  cases get : futures.get? other with
  | none =>
    rw [get] at settled
    cases settled
  | some future =>
    rw [get] at settled
    simp only [Option.map_some, Option.bind_some] at settled ⊢
    split at settled
    · next same =>
      rw [Future.outcome_settle] at settled
      cases was : future.outcome with
      | none =>
        rw [was] at settled
        exact .inr ⟨same, Option.some.inj settled⟩
      | some old =>
        rw [was] at settled
        exact .inl settled
    · exact .inl settled

end Futures
end LayeredIR
