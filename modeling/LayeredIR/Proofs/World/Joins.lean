import LayeredIR.Proofs.Cell
import LayeredIR.Proofs.World.Slots
import LayeredIR.Proofs.World.Trace

/-! The futures of a run. Each is settled once, by its own task, with what the body of the task
ended with; so all who join it learn the same, and none is pending when the run is over. -/
namespace LayeredIR
namespace World

variable {σ : Type}

def EndedAs (past : List Event) (id : Identity) : Outcome → Prop
  | .ok v => .finish id (.ok v) ∈ past ∧ ∀ e, v ≠ .error e
  | .error e => .finish id (.ok (.error e)) ∈ past ∨
      ∃ fault, .finish id (.error fault) ∈ past ∧ fault.cause.toErrorValue = e

theorem endedAs_of_settlement {past : List Event} {id : Identity} {result : Except Fault Value}
    (finished : .finish id result ∈ past) : EndedAs past id (settlement result) := by
  match result with
  | .error fault => exact .inr ⟨fault, finished, rfl⟩
  | .ok (.error e) => exact .inl finished
  | .ok (.int _) | .ok (.float _) | .ok (.bool _) | .ok (.string _) | .ok .void | .ok (.list _ _)
  | .ok (.set _ _) | .ok (.closure _) | .ok (.future _) => exact ⟨finished, nofun⟩

structure SettledOnce (s : Setting σ) (past : List Event) (w : World σ) : Prop where
  forked : (past.filterMap Event.forked?).Nodup
  known : ∀ id, (w.shared.futures.get? id).isSome ↔ .fork id ∈ past
  finished : (past.filterMap Event.finished?).Nodup
  pending : ∀ who result, (who, .settling result) ∈ w.tasks →
    ∃ future, w.shared.futures.get? who = some future ∧ (future.settle (settlement result)).1 = true
  own : ∀ who, w.canStep who → ∀ id, id ≠ who →
    (w.step s who).shared.futures.outcome? id = w.shared.futures.outcome? id
  kept : ∀ who, w.canStep who → ∀ id outcome, w.shared.futures.outcome? id = some outcome →
    (w.step s who).shared.futures.outcome? id = some outcome
  settled : ∀ id outcome, .settle id outcome ∈ past ↔ w.shared.futures.outcome? id = some outcome
  once : (past.filterMap Event.settled?).Nodup
  source : ∀ id outcome, .settle id outcome ∈ past → EndedAs past id outcome
  joined : ∀ who id outcome, .join who id outcome ∈ past →
    w.shared.futures.outcome? id = some outcome
  ended : w.tasks = [] → ∀ id, .fork id ∈ past → ∃ result,
    .finish id result ∈ past ∧ w.shared.futures.outcome? id = some (settlement result)

theorem Recorded.settledOnce {s : Setting σ} {w : World σ} {past : List Event}
    (recorded : w.Recorded past) (regular : w.Regular s) : w.SettledOnce s past where
  forked := recorded.forked
  known := recorded.known
  finished := recorded.finished
  pending who result member := by
    have forked : who ≠ entryTask := by
      rintro rfl
      cases regular.counted.entry _ member
    obtain ⟨future, found, unsettled⟩ := regular.tidy.pending member forked
    exact ⟨future, found, by rw [Future.settle, unsettled]⟩
  own who awake id other := regular.tidy.outcome?_others awake other
  kept who awake id outcome known := regular.tidy.outcome?_kept awake known
  settled := recorded.settled
  once := recorded.once
  source id outcome settled := by
    obtain ⟨result, finished, rfl⟩ := recorded.source id outcome settled
    exact endedAs_of_settlement finished
  joined := recorded.joined
  ended none id member := by
    obtain ⟨future, found⟩ := Option.isSome_iff_exists.mp ((recorded.known id).mpr member)
    have settled : future.outcome.isSome :=
      (regular.tidy.settled id future found).mpr (by simp [none])
    obtain ⟨outcome, known⟩ := Option.isSome_iff_exists.mp settled
    have outcome_eq : w.shared.futures.outcome? id = some outcome := by
      rw [Futures.outcome?, found]
      exact known
    obtain ⟨result, finished, rfl⟩ :=
      recorded.source id outcome ((recorded.settled id outcome).mpr outcome_eq)
    exact ⟨result, finished, outcome_eq⟩

end World

namespace FlowDocument

variable {σ : Type}

/-- No future is pending that an evaluation leaves. -/
theorem evaluateConcurrent_settled {doc : FlowDocument} {s : Setting σ} {fuel : Nat}
    {host host' : σ} {outcome : Except Fault Value} {futures : Futures}
    (ran : doc.evaluateConcurrent s fuel host = some (outcome, futures, host')) {id : Identity}
    {future : Future} (found : futures.get? id = some future) : future.outcome.isSome := by
  unfold evaluateConcurrent at ran
  split at ran
  · cases ran
    cases found
  · next graph structured =>
    obtain ⟨result, finished, equal⟩ := Option.map_eq_some_iff.mp ran
    cases equal
    unfold World.result? at finished
    split at finished
    · next none =>
      have first : (doc.start s graph host).Tidy := .start _ _ _ _
      obtain ⟨schedule, path⟩ := first.path_run (s := doc.setting s graph) fuel
      have tidy := path.invariant first World.Tidy.step
      refine (tidy.settled id future found).mpr fun phase member => ?_
      rw [List.isEmpty_iff.mp none] at member
      cases member
    · cases finished

/-- A future is settled once, whatever threads call it and in whatever order, and no thread is left
asleep on it. In a run it is settled by its own task with what the body of that task ended with, so
all joins of it have the same outcome, and none is pending after the run. -/
theorem futures_settleOnce {cell : Cell} (reachable : cell.Reachable) (doc : FlowDocument)
    (graph : FlowGraph) (s : Setting σ) (host : σ) {schedule : List Identity} {w : World σ}
    (path : World.Path (doc.setting s graph) schedule (doc.start s graph host) w) :
    cell.Sound ∧
    (cell.future.outcome.isSome → ∀ who, who ∉ cell.future.sleepers) ∧
    w.SettledOnce (doc.setting s graph)
      ((doc.start s graph host).trace (doc.setting s graph) schedule) ∧
    ∀ fuel outcome futures host',
      doc.evaluateConcurrent s fuel host = some (outcome, futures, host') →
      ∀ id future, futures.get? id = some future → future.outcome.isSome := by
  obtain ⟨regular, recorded⟩ := path.recorded
    (P := fun w past => w.Regular (doc.setting s graph) ∧ w.Recorded past)
    ⟨doc.start_regular graph s host, .start _ _ _ _⟩ fun _ _ _ ⟨regular, recorded⟩ awake =>
      ⟨regular.step rfl awake, recorded.step regular.tidy regular.counted.entry awake⟩
  exact ⟨reachable.sound, reachable.sound.notified, recorded.settledOnce regular,
    fun fuel outcome futures host' ran id future => evaluateConcurrent_settled ran⟩

theorem futures_settleOnce_forkJoin :
    (∃ cell : Cell, cell.Reachable ∧ cell.future.outcome = some (.ok .void) ∧
      ∀ who, who ∉ cell.future.sleepers) ∧
    ∃ graph schedule, ∃ w : World Unit, forkJoin.graph = .ok graph ∧
      World.Path (forkJoin.setting {} graph) schedule (forkJoin.start {} graph ()) w ∧
      w.tasks = [] ∧
      ∃ result, .finish [1] result ∈
          (forkJoin.start {} graph ()).trace (forkJoin.setting {} graph) schedule ∧
        w.shared.futures.outcome? [1] = some (settlement result) := by
  let graph : FlowGraph := ⟨⟨"main", [], .fork "body" "rest" "task"⟩, forkJoin.blocks⟩
  let start := forkJoin.start ({} : Setting Unit) graph ()
  have first : start.Tidy := .start _ _ _ _
  obtain ⟨schedule, path⟩ := first.path_run (s := forkJoin.setting {} graph) 40
  have empty : (start.run (forkJoin.setting {} graph) 40).tasks.isEmpty := by decide +kernel
  have known : ((start.run (forkJoin.setting {} graph) 40).shared.futures.get? [1]).isSome := by
    decide +kernel
  generalize start.run (forkJoin.setting {} graph) 40 = w at path empty known
  obtain ⟨cell, reachable, settled⟩ := Cell.Reachable.resolved 1 [1] .void
  obtain ⟨-, notified, once, -⟩ := futures_settleOnce reachable forkJoin graph {} () path
  refine ⟨⟨cell, reachable, settled, notified (settled ▸ rfl)⟩, graph, schedule, w, by rfl, path,
    List.isEmpty_iff.mp empty, ?_⟩
  exact once.ended (List.isEmpty_iff.mp empty) [1] ((once.known [1]).mp known)

end FlowDocument
end LayeredIR
