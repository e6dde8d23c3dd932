import LayeredIR.Proofs.World.Outcomes

/-! The history of a run: what its steps do that can be told from outside, in the order in which
they do it. Which tasks there have been, how their bodies ended and what was learnt of their futures
can be read from it. -/
namespace LayeredIR

inductive Event
  | fork (child : Identity)
  | call (who : Identity) (effect : String) (args : List Value)
  | join (who future : Identity) (outcome : Outcome)
  | finish (who : Identity) (result : Except Fault Value)
  | settle (who : Identity) (outcome : Outcome)

namespace Event

def forked? : Event → Option Identity
  | .fork child => some child
  | _ => none

def finished? : Event → Option Identity
  | .finish who _ => some who
  | _ => none

def settled? : Event → Option Identity
  | .settle who _ => some who
  | _ => none

def called? : Event → Option (String × List Value)
  | .call _ effect args => some (effect, args)
  | _ => none

end Event

section Step

variable {σ : Type} (s : Setting σ) (who : Identity) (shared : Shared σ)

def Task.event? (task : Task) : Option Event :=
  match task.control with
  | .await id _ => (shared.futures.outcome? id).map (.join who id)
  | .ask (.perform effect args) _ =>
    if s.hasHandler effect then some (.call who effect args) else none
  | _ =>
    match task.step s shared with
    | .ended result _ _ => some (.finish who result)
    | _ => none

def Phase.event? : Phase → Option Event
  | .running task => task.event? s who shared
  | .starting _ _ _ _ memory => some (.fork memory.freshIdentity.1)
  | .releasing _ => none
  | .settling result => some (.settle who (settlement result))

variable {s who shared}

/-- A step within the body of a task tells of a call at most. -/
theorem Task.event?_of_running {shared' : Shared σ} {task task' : Task}
    (stepped : task.step s shared = .running shared' task') {event : Event}
    (told : task.event? s who shared = some event) :
    ∃ effect args, event = .call who effect args := by
  obtain ⟨control, frames, memory⟩ := task
  cases control with
  | await id next => cases stepped
  | ask q next =>
    cases q with
    | perform effect args =>
      simp only [Task.event?] at told
      split at told
      · exact ⟨effect, args, (Option.some.inj told).symm⟩
      · cases told
    | _ => cases told
  | _ =>
    simp only [Task.event?, stepped] at told
    cases told

theorem Task.event?_of_ended {shared' : Shared σ} {task : Task} {result : Except Fault Value}
    {memory : Memory} (stepped : task.step s shared = .ended result shared' memory) :
    task.event? s who shared = some (.finish who result) := by
  obtain ⟨control, frames, memory⟩ := task
  cases control with
  | await id next => cases stepped
  | ask q next => cases stepped
  | _ => simp only [Task.event?, stepped]

end Step

namespace World

variable {σ : Type} (s : Setting σ)

def event? (w : World σ) (who : Identity) : Option Event :=
  (w.tasks.lookup who).bind (Phase.event? s who w.shared)

def trace (w : World σ) : List Identity → List Event
  | [] => []
  | who :: schedule => (w.event? s who).toList ++ trace (w.step s who) schedule

variable {s}

/-- What holds of the world and the history before a step and is kept by all steps, holds after any
schedule. -/
theorem Path.recorded {P : World σ → List Event → Prop} {schedule : List Identity}
    {w w' : World σ} (path : Path s schedule w w') {past : List Event} (first : P w past)
    (step : ∀ who w past, P w past → w.canStep who →
      P (w.step s who) (past ++ (w.event? s who).toList)) :
    P w' (past ++ w.trace s schedule) := by
  induction path generalizing past with
  | nil => simpa [trace] using first
  | cons awake _ ih =>
    rw [trace, ← List.append_assoc]
    exact ih (step _ _ _ first awake)

structure Recorded (w : World σ) (past : List Event) : Prop where
  known : ∀ id, (w.shared.futures.get? id).isSome ↔ .fork id ∈ past
  forked : (past.filterMap Event.forked?).Nodup
  finished : (past.filterMap Event.finished?).Nodup
  begun : ∀ who result, .finish who result ∈ past → who = entryTask ∨ .fork who ∈ past
  running : ∀ who phase, (who, phase) ∈ w.tasks → phase.outcome? = none →
    ∀ result, .finish who result ∉ past
  ended : ∀ who phase result, (who, phase) ∈ w.tasks → phase.outcome? = some result →
    .finish who result ∈ past
  settled : ∀ id outcome, .settle id outcome ∈ past ↔ w.shared.futures.outcome? id = some outcome
  once : (past.filterMap Event.settled?).Nodup
  source : ∀ id outcome, .settle id outcome ∈ past →
    ∃ result, .finish id result ∈ past ∧ settlement result = outcome
  joined : ∀ who id outcome, .join who id outcome ∈ past →
    w.shared.futures.outcome? id = some outcome

theorem Recorded.start (s : Setting σ) (entry : String) (registers : Bindings) (host : σ) :
    (World.start s entry registers host).Recorded [] where
  known id := iff_of_false (by simp [World.start, Futures.get?, Futures.empty]) (by simp)
  forked := .nil
  finished := .nil
  begun _ _ member := absurd member List.not_mem_nil
  running _ _ _ _ _ member := absurd member List.not_mem_nil
  ended who phase result member status := by
    cases List.mem_singleton.mp member
    cases status
  settled id outcome := iff_of_false List.not_mem_nil nofun
  once := .nil
  source id outcome member := absurd member List.not_mem_nil
  joined _ _ _ member := absurd member List.not_mem_nil

section Moves

variable {before after : List (Identity × Phase)} {who : Identity} {phase phase' : Phase}
  {shared shared' : Shared σ} {n n' : Nat} {outcome outcome' : Option (Except Fault Value)}
  {past : List Event} {event : Option Event}

/-- No two events of a kind are of one task if the last one is of a task that none before is of. -/
theorem nodup_filterMap_append {f : Event → Option Identity} {e : Event} {id : Identity}
    (distinct : (past.filterMap f).Nodup) (of : f e = some id)
    (new : ∀ earlier ∈ past, f earlier ≠ some id) : ((past ++ [e]).filterMap f).Nodup := by
  have last : [e].filterMap f = [id] := by rw [List.filterMap_cons_some of, List.filterMap_nil]
  rw [List.filterMap_append, last]
  refine distinct.append (List.nodup_singleton id) (List.disjoint_singleton.mpr fun listed => ?_)
  obtain ⟨earlier, member, same⟩ := List.mem_filterMap.mp listed
  exact new earlier member same

/-- A task that goes on, without a word of its beginning or its end. -/
theorem Recorded.replace
    (recorded : Recorded ⟨shared, before ++ [(who, phase)] ++ after, n, outcome⟩ past)
    (same : phase'.outcome? = phase.outcome?)
    (futures : SameOutcomes shared.futures shared'.futures)
    (quiet : ∀ e, event = some e → e.forked? = none ∧ e.finished? = none ∧ e.settled? = none)
    (learnt : ∀ who id outcome, event = some (.join who id outcome) →
      shared.futures.outcome? id = some outcome) :
    Recorded ⟨shared', before ++ [(who, phase')] ++ after, n', outcome'⟩
      (past ++ event.toList) := by
  obtain ⟨known, forked, finished, begun, running, ended, settled, once, source, joined⟩ := recorded
  have mine : (who, phase) ∈ before ++ [(who, phase)] ++ after := mem_replace.mpr (.inr (.inl rfl))
  have mem {e : Event} : e ∈ past ++ event.toList ↔ e ∈ past ∨ event = some e := by
    simp [Option.mem_toList]
  have fork {id : Identity} : .fork id ∈ past ++ event.toList ↔ .fork id ∈ past := by
    rw [mem, or_iff_left]
    exact fun told => nomatch (quiet _ told).1
  have finish {id : Identity} {result : Except Fault Value} :
      .finish id result ∈ past ++ event.toList ↔ .finish id result ∈ past := by
    rw [mem, or_iff_left]
    exact fun told => nomatch (quiet _ told).2.1
  have settle {id : Identity} {o : Outcome} :
      .settle id o ∈ past ++ event.toList ↔ .settle id o ∈ past := by
    rw [mem, or_iff_left]
    exact fun told => nomatch (quiet _ told).2.2
  have nothing (f : Event → Option Identity) (none : ∀ e, event = some e → f e = none) :
      (past ++ event.toList).filterMap f = past.filterMap f := by
    cases event with
    | none => simp
    | some e => simp [none e rfl]
  constructor
  case known =>
    intro id
    rw [futures.found, known, fork]
  case forked => rwa [nothing _ fun e told => (quiet e told).1]
  case finished => rwa [nothing _ fun e told => (quiet e told).2.1]
  case begun =>
    exact fun id result member => (begun id result (finish.mp member)).imp_right fork.mpr
  case running =>
    intro id p member status result told
    rcases mem_replace.mp member with early | own | late
    · exact running id p (mem_replace.mpr (.inl early)) status result (finish.mp told)
    · cases own
      exact running who phase mine (same ▸ status) result (finish.mp told)
    · exact running id p (mem_replace.mpr (.inr (.inr late))) status result (finish.mp told)
  case ended =>
    intro id p result member status
    refine finish.mpr ?_
    rcases mem_replace.mp member with early | own | late
    · exact ended id p result (mem_replace.mpr (.inl early)) status
    · cases own
      exact ended who phase result mine (same ▸ status)
    · exact ended id p result (mem_replace.mpr (.inr (.inr late))) status
  case settled => exact fun id o => by rw [settle, settled, futures.outcome?_eq]
  case once => rwa [nothing _ fun e told => (quiet e told).2.2]
  case source =>
    intro id o told
    obtain ⟨result, ended, settles⟩ := source id o (settle.mp told)
    exact ⟨result, finish.mpr ended, settles⟩
  case joined =>
    intro id other o told
    rw [futures.outcome?_eq]
    rcases mem.mp told with old | new
    · exact joined id other o old
    · exact learnt id other o new

/-- A task whose body ends. -/
theorem Recorded.ends {tasks : List (Identity × Phase)} {result : Except Fault Value}
    (recorded : Recorded ⟨shared, before ++ [(who, phase)] ++ after, n, outcome⟩ past)
    (status : phase.outcome? = none) (others : ∀ p, (who, p) ∉ before ++ after)
    (futures : SameOutcomes shared.futures shared'.futures)
    (origin : who = entryTask ∨ .fork who ∈ past)
    (left : ∀ entry ∈ tasks, entry = (who, .releasing result)) :
    Recorded ⟨shared', before ++ tasks ++ after, n', outcome'⟩ (past ++ [.finish who result]) := by
  obtain ⟨known, forked, finished, begun, running, ended, settled, once, source, joined⟩ := recorded
  have unfinished := running who phase (mem_replace.mpr (.inr (.inl rfl))) status
  have cases {id : Identity} {p : Phase} (member : (id, p) ∈ before ++ tasks ++ after) :
      (id, p) = (who, .releasing result) ∨
        id ≠ who ∧ (id, p) ∈ before ++ [(who, phase)] ++ after := by
    have other (member : (id, p) ∈ before ++ after) : id ≠ who := by
      rintro rfl
      exact others p member
    simp only [List.mem_append] at member ⊢
    rcases member with (early | new) | late
    · exact .inr ⟨other (List.mem_append_left _ early), .inl (.inl early)⟩
    · exact .inl (left _ new)
    · exact .inr ⟨other (List.mem_append_right _ late), .inr late⟩
  have finish {id : Identity} {r : Except Fault Value} :
      .finish id r ∈ past ++ [.finish who result] ↔
        .finish id r ∈ past ∨ id = who ∧ r = result := by simp
  constructor
  case known => exact fun id => by simp [futures.found, known]
  case forked => simpa [List.filterMap_cons, Event.forked?] using forked
  case finished =>
    refine nodup_filterMap_append finished rfl fun e member same => ?_
    cases e <;> cases same
    exact unfinished _ member
  case begun =>
    intro id r member
    rw [List.mem_append]
    rcases finish.mp member with old | ⟨rfl, -⟩
    · exact (begun id r old).imp_right .inl
    · exact origin.imp_right .inl
  case running =>
    intro id p member status r told
    rcases cases member with same | ⟨different, old⟩
    · cases same
      cases status
    · rcases finish.mp told with before | ⟨same, -⟩
      · exact running id p old status r before
      · exact different same
  case ended =>
    intro id p r member status
    rcases cases member with same | ⟨-, old⟩
    · cases same
      cases status
      exact finish.mpr (.inr ⟨rfl, rfl⟩)
    · exact finish.mpr (.inl (ended id p r old status))
  case settled => exact fun id o => by simp [settled, futures.outcome?_eq]
  case once => simpa [List.filterMap_cons, Event.settled?] using once
  case source =>
    intro id o told
    obtain ⟨r, ended, settles⟩ := source id o (by simpa using told)
    exact ⟨r, finish.mpr (.inl ended), settles⟩
  case joined =>
    intro id other o told
    rw [futures.outcome?_eq]
    exact joined id other o (by simpa using told)

/-- A task that forks another one. -/
theorem Recorded.forks {child : Identity} {number : Nat} {first : Task} {task : Task}
    (recorded : Recorded ⟨shared, before ++ [(who, phase)] ++ after, n, outcome⟩ past)
    (status : phase.outcome? = none) (fresh : shared.futures.get? child = none)
    (forked : child ≠ entryTask) :
    Recorded ⟨{ shared with futures := shared.futures.add child (.pending number) },
      before ++ [(child, .running first), (who, .running task)] ++ after, n', outcome'⟩
        (past ++ [.fork child]) := by
  obtain ⟨known, distinct, finished, begun, running, ended, settled, once, source, joined⟩ :=
    recorded
  have new : .fork child ∉ past := by
    rw [← known, fresh]
    exact Bool.false_ne_true
  have cases {id : Identity} {p : Phase}
      (member : (id, p) ∈ before ++ [(child, .running first), (who, .running task)] ++ after) :
      (id = child ∨ id = who) ∧ p.outcome? = none ∨
        (id, p) ∈ before ++ [(who, phase)] ++ after := by
    simp only [List.mem_append, List.mem_cons, List.not_mem_nil, or_false] at member ⊢
    rcases member with (early | same | same) | late
    · exact .inr (.inl (.inl early))
    · cases same
      exact .inl ⟨.inl rfl, rfl⟩
    · cases same
      exact .inl ⟨.inr rfl, rfl⟩
    · exact .inr (.inr late)
  have finish {id : Identity} {r : Except Fault Value} :
      .finish id r ∈ past ++ [.fork child] ↔ .finish id r ∈ past := by simp
  constructor
  case known =>
    intro id
    rw [Futures.get?_add]
    split <;> simp [*]
  case forked =>
    refine nodup_filterMap_append distinct rfl fun e member same => ?_
    cases e <;> cases same
    exact new member
  case finished => simpa [List.filterMap_cons, Event.finished?] using finished
  case begun =>
    intro id r member
    rw [List.mem_append]
    exact (begun id r (finish.mp member)).imp_right .inl
  case running =>
    intro id p member unfinished r told
    rw [finish] at told
    rcases cases member with ⟨rfl | rfl, -⟩ | old
    · exact (begun _ r told).elim forked new
    · exact running _ phase (mem_replace.mpr (.inr (.inl rfl))) status r told
    · exact running id p old unfinished r told
  case ended =>
    intro id p r member finished
    rcases cases member with ⟨-, unfinished⟩ | old
    · rw [unfinished] at finished
      cases finished
    · exact finish.mpr (ended id p r old finished)
  case settled => exact fun id o => by simp [settled, Futures.outcome?_add_pending _ _ _ _ fresh]
  case once => simpa [List.filterMap_cons, Event.settled?] using once
  case source =>
    intro id o told
    obtain ⟨r, ended, settles⟩ := source id o (by simpa using told)
    exact ⟨r, finish.mpr ended, settles⟩
  case joined =>
    intro id other o told
    rw [Futures.outcome?_add_pending _ _ _ _ fresh]
    exact joined id other o (by simpa using told)

/-- A task whose future is settled. -/
theorem Recorded.settles {result : Except Fault Value} {future : Future}
    (recorded : Recorded ⟨shared, before ++ [(who, .settling result)] ++ after, n, outcome⟩ past)
    (found : shared.futures.get? who = some future) (pending : future.outcome = none) :
    Recorded
      ⟨{ shared with futures := shared.futures.update who fun future =>
          (future.settle (settlement result)).2 }, before ++ after, n', outcome'⟩
      (past ++ [.settle who (settlement result)]) := by
  obtain ⟨known, forked, finished, begun, running, ended, settled, once, source, joined⟩ := recorded
  have change (id : Identity) :=
    shared.futures.outcome?_settle who id (settlement result) found pending
  have unsettled : shared.futures.outcome? who = none := by
    rw [Futures.outcome?, found]
    exact pending
  have new (o : Outcome) : .settle who o ∉ past := by
    rw [settled, unsettled]
    rintro ⟨⟩
  have old {entry : Identity × Phase} (member : entry ∈ before ++ after) :
      entry ∈ before ++ [(who, .settling result)] ++ after :=
    mem_replace.mpr ((List.mem_append.mp member).imp_right .inr)
  have finish {id : Identity} {r : Except Fault Value} :
      .finish id r ∈ past ++ [.settle who (settlement result)] ↔ .finish id r ∈ past := by simp
  constructor
  case known =>
    intro id
    simp only [Futures.get?_update, Option.isSome_map]
    simpa using known id
  case forked => simpa [List.filterMap_cons, Event.forked?] using forked
  case finished => simpa [List.filterMap_cons, Event.finished?] using finished
  case begun =>
    intro id r member
    rw [List.mem_append]
    exact (begun id r (finish.mp member)).imp_right .inl
  case running =>
    exact fun id p member status r told => running id p (old member) status r (finish.mp told)
  case ended => exact fun id p r member status => finish.mpr (ended id p r (old member) status)
  case settled =>
    intro id o
    rw [change, List.mem_append, List.mem_singleton, settled]
    split
    · next same =>
      subst same
      simp [unsettled, eq_comm]
    · next other => simp [other]
  case once =>
    refine nodup_filterMap_append once rfl fun e member same => ?_
    cases e <;> cases same
    exact new _ member
  case source =>
    intro id o told
    rcases List.mem_append.mp told with before | last
    · obtain ⟨r, ended, settles⟩ := source id o before
      exact ⟨r, finish.mpr ended, settles⟩
    · cases List.mem_singleton.mp last
      exact ⟨result, finish.mpr (ended who _ result (mem_replace.mpr (.inr (.inl rfl))) rfl), rfl⟩
  case joined =>
    intro id other o told
    have learnt := joined id other o (by simpa using told)
    rw [change, if_neg, learnt]
    rintro rfl
    rw [unsettled] at learnt
    cases learnt

end Moves

theorem event?_split {w : World σ} {who : Identity} {phase : Phase}
    {before after : List (Identity × Phase)} (split : w.tasks = before ++ [(who, phase)] ++ after)
    (others : ∀ entry ∈ before, entry.1 ≠ who) :
    w.event? s who = phase.event? s who w.shared := by
  rw [event?, split, lookup_split others, Option.bind_some]

theorem Recorded.step {who : Identity} {w : World σ} {past : List Event} (tidy : w.Tidy)
    (entry : ∀ phase, (entryTask, phase) ∈ w.tasks → phase.outcome? = none)
    (recorded : w.Recorded past) (awake : w.canStep who) :
    (w.step s who).Recorded (past ++ (w.event? s who).toList) := by
  obtain ⟨shared, tasks, n, outcome⟩ := w
  obtain ⟨before, phase, after, change, rfl, others, -, move, whole⟩ := exists_move (s := s) awake
  rw [event?_split rfl others, whole]
  have mine : (who, phase) ∈ before ++ [(who, phase)] ++ after := mem_replace.mpr (.inr (.inl rfl))
  have still := SameOutcomes.refl shared.futures
  have origin : who = entryTask ∨ .fork who ∈ past := by
    by_cases entry : who = entryTask
    · exact .inl entry
    · exact .inr ((recorded.known who).mp (tidy.registered who phase mine entry))
  have same {task : Task} {shared' : Shared σ} {progress : Progress σ}
      (stepped : task.step s shared = progress) (left : progress.shared = shared') :
      SameOutcomes shared.futures shared'.futures := futures_of_step stepped left ▸ still
  cases move with
  | claim | refuse | release => exact recorded.replace rfl still nofun nofun
  | @answer id next frames memory o settled =>
    have told : Phase.event? s who shared (.running ⟨.await id next, frames, memory⟩) =
        some (.join who id o) := by simp [Phase.event?, Task.event?, settled]
    rw [told]
    refine recorded.replace rfl still (fun e equal => ?_) fun _ _ _ equal => ?_
    · cases equal
      exact ⟨rfl, rfl, rfl⟩
    · cases equal
      exact settled
  | @sleep id next frames memory pending =>
    have told : Phase.event? s who shared (.running ⟨.await id next, frames, memory⟩) = none := by
      simp [Phase.event?, Task.event?, pending]
    rw [told]
    exact recorded.replace rfl (.wait _ _ _) nofun nofun
  | @go task shared' task' stepped =>
    refine recorded.replace rfl (same stepped rfl) (fun e told => ?_) fun _ _ _ told => ?_
    · obtain ⟨effect, args, rfl⟩ := Task.event?_of_running stepped told
      exact ⟨rfl, rfl, rfl⟩
    · obtain ⟨effect, args, equal⟩ := Task.event?_of_running stepped told
      cases equal
  | @finish task result shared' memory entry stepped =>
    rw [Phase.event?, Task.event?_of_ended stepped]
    exact recorded.ends rfl tidy.alone (same stepped rfl) origin nofun
  | @stop task result shared' memory forked stepped =>
    rw [Phase.event?, Task.event?_of_ended stepped]
    refine recorded.ends rfl tidy.alone (same stepped rfl) origin fun entry member => ?_
    exact List.mem_singleton.mp member
  | @spawn label registers next frames memory =>
    have fresh := tidy.fresh ⟨.fork label registers next, frames, memory⟩ rfl
    rw [← fresh.1] at fresh
    exact recorded.forks rfl fresh.2 (List.cons_ne_nil _ _)
  | @settle result =>
    have forked : who ≠ entryTask := by
      rintro rfl
      cases entry _ mine
    obtain ⟨future, found, pending⟩ := tidy.pending mine forked
    rw [List.append_nil]
    exact recorded.settles found pending

end World
end LayeredIR
