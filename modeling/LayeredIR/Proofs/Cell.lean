import LayeredIR.Cell
import LayeredIR.Proofs.Futures

/-! A future settles once, and no thread that waits for it is left asleep. -/
namespace LayeredIR

def Call.settles? : Call → Option Outcome
  | .resolve value => some (.ok value)
  | .reject error => some (.error error)
  | .status | .tryGet | .wait => none

def settledBy (log : List Answered) : Option Outcome :=
  log.findSome? fun answered => answered.call.settles?

def Answered.Right (before : List Answered) (answered : Answered) : Prop :=
  match answered.call with
  | .resolve _ | .reject _ => answered.reply = .settled (settledBy before).isNone
  | .status => answered.reply = .status (Future.statusOf (settledBy before))
  | .tryGet => answered.reply = .known (settledBy before)
  | .wait => ∃ outcome, settledBy before = some outcome ∧ answered.reply = .waited outcome

theorem settledBy_append (log : List Answered) (answered : Answered) :
    settledBy (log ++ [answered]) = (settledBy log <|> answered.call.settles?) := by
  simp [settledBy, List.findSome?_append]

namespace Call

variable {call : Call} {who : Identity} {future future' : Future} {reply : Reply}

theorem run_outcome (call : Call) (who : Identity) (future : Future) :
    (call.run who future).2.outcome = (future.outcome <|> call.settles?) := by
  have settle (outcome : Outcome) :
      (future.settle outcome).2.outcome = (future.outcome <|> some outcome) := by
    rw [Future.outcome_settle]
    cases future.outcome <;> rfl
  have unsettled : future.outcome = (future.outcome <|> none) := by cases future.outcome <;> rfl
  cases call with
  | resolve value => exact settle (.ok value)
  | reject error => exact settle (.error error)
  | status | tryGet => exact unsettled
  | wait => exact (future.outcome_wait who).trans unsettled

theorem run_right {before : List Answered} (outcome : future.outcome = settledBy before)
    (ran : call.run who future = (some reply, future')) :
    Answered.Right before ⟨who, call, reply⟩ := by
  have first (outcome : Outcome) : (future.settle outcome).1 = future.outcome.isNone := by
    unfold Future.settle
    cases future.outcome <;> rfl
  have replied : (call.run who future).1 = some reply := congrArg Prod.fst ran
  cases call with
  | resolve value =>
    rw [Answered.Right, ← outcome, ← first (.ok value)]
    exact (Option.some.inj replied).symm
  | reject error =>
    rw [Answered.Right, ← outcome, ← first (.error error)]
    exact (Option.some.inj replied).symm
  | status | tryGet =>
    rw [Answered.Right, ← outcome]
    exact (Option.some.inj replied).symm
  | wait =>
    have waited : ((future.wait who).1).map Reply.waited = some reply := replied
    obtain ⟨o, told, rfl⟩ := Option.map_eq_some_iff.mp waited
    refine ⟨o, ?_, rfl⟩
    rw [← outcome]
    unfold Future.wait at told
    cases known : future.outcome with
    | none =>
      rw [known] at told
      dsimp only at told
      split at told <;> cases told
    | some o' =>
      rw [known] at told
      exact told

/-- Only a wait for a pending future falls asleep, and then it is among the sleepers. -/
theorem run_asleep (slept : call.run who future = (none, future')) :
    future.outcome = none ∧ future' = (future.wait who).2 := by
  cases call with
  | wait =>
    cases known : future.outcome with
    | none => exact ⟨rfl, (congrArg Prod.snd slept).symm⟩
    | some outcome =>
      have told := congrArg Prod.fst slept
      simp [Call.run, Future.wait, known] at told
  | _ => cases slept

theorem run_future (ran : call.run who future = (some reply, future')) :
    future' = future ∨ ∃ outcome, future' = (future.settle outcome).2 := by
  have left : (call.run who future).2 = future' := congrArg Prod.snd ran
  cases call with
  | resolve value => exact .inr ⟨_, left.symm⟩
  | reject error => exact .inr ⟨_, left.symm⟩
  | status | tryGet => exact .inl left.symm
  | wait =>
    refine .inl ?_
    cases known : future.outcome with
    | none =>
      have told := congrArg Prod.fst ran
      have asleep : (future.wait who).1 = none := by
        simp only [Future.wait, known]
        split <;> rfl
      simp [Call.run, asleep] at told
    | some outcome =>
      rw [← left]
      simp [Call.run, Future.wait, known]

end Call

namespace Cell

structure Sound (cell : Cell) : Prop where
  exclusive : ∀ who, (cell.stands who).hasLock ↔ cell.holder = some who
  outcome : cell.future.outcome = settledBy cell.log
  answers : ∀ before answered after, cell.log = before ++ answered :: after → answered.Right before
  woken : cell.future.Woken
  asleep : ∀ who, cell.stands who = .asleep → cell.future.outcome = none →
    cell.future.sleepers.contains who

theorem Sound.new (task : Nat) : (new task).Sound where
  exclusive who := iff_of_false (by simp [Cell.new, Stand.hasLock]) (by simp [Cell.new])
  outcome := rfl
  answers before answered after split := by simp [Cell.new] at split
  woken := .pending task
  asleep _ asleep := by cases asleep

variable {cell : Cell} {who : Identity} {stand : Stand}

@[simp]
theorem put_self (cell : Cell) (who : Identity) (stand : Stand) :
    (cell.put who stand).stands who = stand := Function.update_self ..

theorem put_other {other : Identity} (different : other ≠ who) (cell : Cell) (stand : Stand) :
    (cell.put who stand).stands other = cell.stands other := Function.update_of_ne different ..

/-- A thread that moves between stands on one side of the lock. -/
theorem Sound.exclusive_put (sound : cell.Sound)
    (same : (cell.stands who).hasLock = stand.hasLock) (other : Identity) :
    ((cell.put who stand).stands other).hasLock ↔ cell.holder = some other := by
  by_cases own : other = who
  · subst own
    rw [put_self, ← same]
    exact sound.exclusive other
  · rw [put_other own]
    exact sound.exclusive other

theorem Sound.exclusive_unlock (sound : cell.Sound) (had : (cell.stands who).hasLock)
    (stand : Stand) (without : stand.hasLock = false) (other : Identity) :
    ((cell.put who stand).stands other).hasLock ↔ none = some other := by
  refine iff_of_false ?_ nofun
  by_cases own : other = who
  · subst own
    simp [without]
  · rw [put_other own, sound.exclusive other, (sound.exclusive who).mp had]
    exact fun same => own (Option.some.inj same).symm

theorem asleep_of_put (awake : stand ≠ .asleep) {other : Identity}
    (asleep : (cell.put who stand).stands other = .asleep) :
    other ≠ who ∧ cell.stands other = .asleep := by
  by_cases own : other = who
  · subst own
    rw [put_self] at asleep
    exact absurd asleep awake
  · rw [put_other own] at asleep
    exact ⟨own, asleep⟩

theorem Sound.step {cell' : Cell} (sound : cell.Sound) (step : Step cell cell') : cell'.Sound := by
  obtain ⟨exclusive, outcome, answers, woken, asleep⟩ := id sound
  cases step with
  | call call away =>
    refine ⟨sound.exclusive_put (by simp [away, Stand.hasLock]), outcome, answers, woken, ?_⟩
    intro other slept pending
    exact asleep other (asleep_of_put (by simp) slept).2 pending
  | @lock who call calls free =>
    refine ⟨fun other => ?_, outcome, answers, woken, fun other slept pending => ?_⟩
    · by_cases own : other = who
      · subst own
        simp [Stand.hasLock]
      · have none : (cell.stands other).hasLock ↔ False := by simp [exclusive other, free]
        rw [put_other own, none]
        exact iff_of_false id fun same => own (Option.some.inj same).symm
    · exact asleep other (asleep_of_put (by simp) slept).2 pending
  | @reply who call reply future holds ran =>
    have known : future.outcome = (cell.future.outcome <|> call.settles?) := by
      rw [← call.run_outcome who cell.future, ran]
    refine ⟨sound.exclusive_put (by simp [holds, Stand.hasLock]), ?_, ?_, ?_, ?_⟩
    · rw [settledBy_append, ← outcome]
      exact known
    · intro before answered after split
      rcases List.eq_nil_or_concat after with rfl | ⟨earlier, last, rfl⟩
      · obtain ⟨rfl, same⟩ := List.append_inj' split rfl
        cases same
        exact Call.run_right outcome ran
      · have longer : cell.log ++ [⟨who, call, reply⟩] =
            (before ++ answered :: earlier) ++ [last] := by simpa using split
        exact answers before answered earlier (List.append_inj' longer rfl).1
    · rcases Call.run_future ran with rfl | ⟨result, rfl⟩
      · exact woken
      · exact woken.settle result
    · intro other slept pending
      rcases Call.run_future ran with rfl | ⟨result, rfl⟩
      · exact asleep other (asleep_of_put (by simp) slept).2 pending
      · rw [Future.outcome_settle] at pending
        cases pending
  | @sleep who call future holds ran =>
    obtain ⟨pending, rfl⟩ := Call.run_asleep ran
    have had : (cell.stands who).hasLock := by simp [holds, Stand.hasLock]
    refine ⟨sound.exclusive_unlock had .asleep rfl, ?_, answers, woken.wait who, ?_⟩
    · exact (cell.future.outcome_wait who).trans outcome
    · intro other slept _
      by_cases own : other = who
      · subst own
        exact Future.contains_wait pending other
      · rw [put_other own] at slept
        exact cell.future.sleepers_wait who (asleep other slept pending)
  | @unlock who leaves =>
    have had : (cell.stands who).hasLock := by simp [leaves, Stand.hasLock]
    refine ⟨sound.exclusive_unlock had .away rfl, outcome, answers, woken, ?_⟩
    intro other slept pending
    exact asleep other (asleep_of_put (by simp) slept).2 pending
  | wake slept notified =>
    refine ⟨sound.exclusive_put (by simp [slept, Stand.hasLock]), outcome, answers, woken, ?_⟩
    intro other slept pending
    exact asleep other (asleep_of_put (by simp) slept).2 pending
  | @stir who slept =>
    refine ⟨sound.exclusive_put (by simp [slept, Stand.hasLock]), outcome, answers, ?_, ?_⟩
    · intro settled
      simp [woken settled]
    · intro other slept pending
      obtain ⟨different, slept⟩ := asleep_of_put (by simp) slept
      have among := asleep other slept pending
      simpa [different] using among

theorem Reachable.sound {cell : Cell} (reachable : Reachable cell) : cell.Sound := by
  induction reachable with
  | new task => exact .new task
  | step _ step ih => exact ih.step step

theorem Reachable.resolved (task : Nat) (who : Identity) (value : Value) :
    ∃ cell, Reachable cell ∧ cell.future.outcome = some (.ok value) := by
  have called : Reachable ((Cell.new task).put who (.calling (.resolve value))) :=
    (Reachable.new task).step (.call (.resolve value) rfl)
  have locked := called.step (.lock (put_self _ who _) rfl)
  exact ⟨_, locked.step (.reply (put_self _ who _) rfl), rfl⟩

/-- Once the future is settled, whoever still sleeps has been notified. -/
theorem Sound.notified (sound : cell.Sound) (settled : cell.future.outcome.isSome)
    (who : Identity) : who ∉ cell.future.sleepers := by
  simp [sound.woken settled]

end Cell
end LayeredIR
