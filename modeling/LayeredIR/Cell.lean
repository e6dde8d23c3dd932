import LayeredIR.Future
import Mathlib.Logic.Function.Basic

/-! One future as its users share it: a state behind a lock, with a condition to sleep on. A thread
that calls takes the lock, does what the call is for in one piece, and leaves; who waits for a
pending future lets go of the lock and falls asleep in one step. The threads that sleep and have not
been notified are the sleepers of the future, and settling notifies them all. -/
namespace LayeredIR

inductive Call
  | resolve (value : Value)
  | reject (error : ErrorValue)
  | status
  | tryGet
  | wait

inductive Reply
  | settled (first : Bool)
  | status (word : String)
  | known (outcome : Option Outcome)
  | waited (outcome : Outcome)

def Call.run (who : Identity) : Call → Future → Option Reply × Future
  | .resolve value, future =>
    let (first, future) := future.resolve value
    (some (.settled first), future)
  | .reject error, future =>
    let (first, future) := future.reject error
    (some (.settled first), future)
  | .status, future => (some (.status (Future.statusOf future.outcome)), future)
  | .tryGet, future => (some (.known future.outcome), future)
  | .wait, future =>
    let (outcome, future) := future.wait who
    (outcome.map .waited, future)

inductive Stand
  | away
  | calling (call : Call)
  | holding (call : Call)
  | leaving
  | asleep

def Stand.hasLock : Stand → Bool
  | .holding _ | .leaving => true
  | _ => false

structure Answered where
  who : Identity
  call : Call
  reply : Reply

structure Cell where
  future : Future
  holder : Option Identity
  stands : Identity → Stand
  /-- The replies so far, in the order in which the calls had the lock. -/
  log : List Answered

namespace Cell

def new (task : Nat) : Cell := ⟨.pending task, none, fun _ => .away, []⟩

def put (cell : Cell) (who : Identity) (stand : Stand) : Cell :=
  { cell with stands := Function.update cell.stands who stand }

inductive Step : Cell → Cell → Prop
  | call {cell who} (call : Call) (away : cell.stands who = .away) :
    Step cell (cell.put who (.calling call))
  | lock {cell who call} (calls : cell.stands who = .calling call) (free : cell.holder = none) :
    Step cell { cell.put who (.holding call) with holder := some who }
  | reply {cell who call reply future} (holds : cell.stands who = .holding call)
    (ran : call.run who cell.future = (some reply, future)) :
    Step cell { cell.put who .leaving with
      future := future
      log := cell.log ++ [⟨who, call, reply⟩] }
  | sleep {cell who call future} (holds : cell.stands who = .holding call)
    (ran : call.run who cell.future = (none, future)) :
    Step cell { cell.put who .asleep with
      future := future
      holder := none }
  | unlock {cell who} (leaves : cell.stands who = .leaving) :
    Step cell { cell.put who .away with holder := none }
  | wake {cell who} (asleep : cell.stands who = .asleep) (notified : who ∉ cell.future.sleepers) :
    Step cell (cell.put who (.calling .wait))
  /-- A thread may also wake without having been notified. -/
  | stir {cell who} (asleep : cell.stands who = .asleep) :
    Step cell { cell.put who (.calling .wait) with
      future := { cell.future with
        sleepers := cell.future.sleepers.filter fun other => other ≠ who } }

inductive Reachable : Cell → Prop
  | new (task : Nat) : Reachable (new task)
  | step {cell cell'} (before : Reachable cell) (step : Step cell cell') : Reachable cell'

end Cell
end LayeredIR
