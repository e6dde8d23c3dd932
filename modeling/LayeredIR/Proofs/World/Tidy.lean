import LayeredIR.Proofs.Futures
import LayeredIR.Proofs.World.Moves
import Mathlib.Data.List.Nodup

/-! The bookkeeping of a run: which tasks there are, and how their futures stand. No identity is
given twice, a future is pending as long as its task has not ended, and no task sleeps on a future
that is settled. -/
namespace LayeredIR
namespace World

variable {σ : Type}

structure Tidy (w : World σ) : Prop where
  entry : w.shared.futures.get? entryTask = none
  distinct : (w.tasks.map Prod.fst).Nodup
  owner : ∀ who phase task, (who, phase) ∈ w.tasks → phase.task? = some task →
    task.memory.owner = who
  registered : ∀ who phase, (who, phase) ∈ w.tasks → who ≠ entryTask →
    (w.shared.futures.get? who).isSome
  /-- Who has a future was forked by one that has, or by the entry task. -/
  lineage : ∀ n id, (w.shared.futures.get? (n :: id)).isSome →
    id = entryTask ∨ (w.shared.futures.get? id).isSome
  births : ∀ who phase task, (who, phase) ∈ w.tasks → phase.task? = some task →
    ∀ n, (w.shared.futures.get? (n :: who)).isSome → n ≤ task.memory.serial
  settled : ∀ id future, w.shared.futures.get? id = some future →
    (future.outcome.isSome ↔ ∀ phase, (id, phase) ∉ w.tasks)
  woken : ∀ id future, w.shared.futures.get? id = some future → future.Woken

structure SameOutcomes (futures futures' : Futures) : Prop where
  found : ∀ id, (futures'.get? id).isSome = (futures.get? id).isSome
  outcome : ∀ id future future', futures.get? id = some future → futures'.get? id = some future' →
    future'.outcome = future.outcome ∧ (future.Woken → future'.Woken)

theorem SameOutcomes.refl (futures : Futures) : SameOutcomes futures futures where
  found _ := rfl
  outcome _ _ _ found found' := by
    cases found.symm.trans found'
    exact ⟨rfl, id⟩

theorem SameOutcomes.outcome?_eq {futures futures' : Futures} (same : SameOutcomes futures futures')
    (id : Identity) : futures'.outcome? id = futures.outcome? id := by
  have found := same.found id
  unfold Futures.outcome?
  cases old : futures.get? id with
  | none =>
    rw [old] at found
    have new : futures'.get? id = none := Option.isNone_iff_eq_none.mp (by simpa using found)
    rw [new]
  | some future =>
    rw [old] at found
    obtain ⟨future', new⟩ := Option.isSome_iff_exists.mp found
    rw [new]
    exact (same.outcome id future future' old new).1

theorem SameOutcomes.wait (futures : Futures) (id who : Identity) :
    SameOutcomes futures (futures.update id fun future => (future.wait who).2) where
  found other := by rw [Futures.get?_update, Option.isSome_map]
  outcome other future future' found found' := by
    rw [Futures.get?_update, found] at found'
    cases found'
    dsimp only
    split
    · exact ⟨future.outcome_wait who, fun woken => woken.wait who⟩
    · exact ⟨rfl, fun woken => woken⟩

variable {before after : List (Identity × Phase)} {who : Identity} {phase phase' : Phase}
  {shared shared' : Shared σ} {n n' number : Nat} {outcome outcome' : Option (Except Fault Value)}

theorem mem_replace {entry : Identity × Phase} :
    entry ∈ before ++ [(who, phase)] ++ after ↔
      entry ∈ before ∨ entry = (who, phase) ∨ entry ∈ after := by
  simp

theorem exists_mem_replace {id : Identity} :
    (∃ p, (id, p) ∈ before ++ [(who, phase)] ++ after) ↔
      (∃ p, (id, p) ∈ before ++ [(who, phase')] ++ after) := by
  simp only [mem_replace, Prod.mk.injEq]
  constructor
  all_goals
    intro parts
    obtain ⟨p, early | ⟨rfl, rfl⟩ | late⟩ := parts
    · exact ⟨p, .inl early⟩
    · exact ⟨_, .inr (.inl ⟨rfl, rfl⟩)⟩
    · exact ⟨p, .inr (.inr late)⟩

theorem Tidy.unique {w : World σ} (tidy : w.Tidy) (first : (who, phase) ∈ w.tasks)
    (second : (who, phase') ∈ w.tasks) : phase = phase' :=
  congrArg Prod.snd (List.inj_on_of_nodup_map tidy.distinct first second rfl)

/-- The future of a task that has not ended. -/
theorem Tidy.pending {w : World σ} (tidy : w.Tidy) (member : (who, phase) ∈ w.tasks)
    (forked : who ≠ entryTask) :
    ∃ future, w.shared.futures.get? who = some future ∧ future.outcome = none := by
  obtain ⟨future, found⟩ := Option.isSome_iff_exists.mp (tidy.registered who phase member forked)
  refine ⟨future, found, ?_⟩
  rw [← Option.not_isSome_iff_eq_none, tidy.settled who future found]
  exact fun gone => gone phase member

theorem Tidy.alone (tidy : Tidy ⟨shared, before ++ [(who, phase)] ++ after, n, outcome⟩)
    (p : Phase) : (who, p) ∉ before ++ after := by
  intro member
  have names : (before.map Prod.fst ++ who :: after.map Prod.fst).Nodup := by
    simpa using tidy.distinct
  have absent := (List.nodup_cons.mp (List.nodup_middle.mp names)).1
  rw [← List.map_append] at absent
  exact absent (List.mem_map_of_mem member)

theorem Tidy.replace (tidy : Tidy ⟨shared, before ++ [(who, phase)] ++ after, n, outcome⟩)
    (futures : SameOutcomes shared.futures shared'.futures)
    (follows : ∀ task', phase'.task? = some task' →
      ∃ task, phase.task? = some task ∧ task.memory.Follows task'.memory) :
    Tidy ⟨shared', before ++ [(who, phase')] ++ after, n', outcome'⟩ := by
  obtain ⟨entry, distinct, owner, registered, lineage, births, settled, woken⟩ := tidy
  constructor
  case entry =>
    have found := futures.found entryTask
    rw [entry] at found
    exact Option.isNone_iff_eq_none.mp (by simpa using found)
  case distinct =>
    simpa using distinct
  case owner =>
    intro id p task member running
    rcases mem_replace.mp member with early | same | late
    · exact owner id p task (mem_replace.mpr (.inl early)) running
    · cases same
      obtain ⟨old, was, follows⟩ := follows task running
      rw [follows.owner]
      exact owner who phase old (mem_replace.mpr (.inr (.inl rfl))) was
    · exact owner id p task (mem_replace.mpr (.inr (.inr late))) running
  case registered =>
    intro id p member forked
    rw [futures.found]
    obtain ⟨p', member'⟩ := exists_mem_replace.mp ⟨p, member⟩
    exact registered id p' member' forked
  case lineage =>
    intro k id known
    rw [futures.found] at known ⊢
    exact lineage k id known
  case births =>
    intro id p task member running k found
    have found' : ((shared.futures).get? (k :: id)).isSome := by rwa [← futures.found]
    rcases mem_replace.mp member with early | same | late
    · exact births id p task (mem_replace.mpr (.inl early)) running k found'
    · cases same
      obtain ⟨old, was, follows⟩ := follows task running
      have given := births who phase old (mem_replace.mpr (.inr (.inl rfl))) was k found'
      exact Nat.le_trans given follows.serial
    · exact births id p task (mem_replace.mpr (.inr (.inr late))) running k found'
  case settled =>
    intro id future' found'
    obtain ⟨future, found⟩ := Option.isSome_iff_exists.mp
      ((futures.found id).symm.trans (Option.isSome_iff_exists.mpr ⟨_, found'⟩))
    rw [(futures.outcome id future future' found found').1, settled id future found,
      ← not_exists, ← not_exists]
    exact not_congr exists_mem_replace
  case woken =>
    intro id future' found'
    obtain ⟨future, found⟩ := Option.isSome_iff_exists.mp
      ((futures.found id).symm.trans (Option.isSome_iff_exists.mpr ⟨_, found'⟩))
    exact (futures.outcome id future future' found found').2 (woken id future found)

theorem Tidy.remove (tidy : Tidy ⟨shared, before ++ [(who, phase)] ++ after, n, outcome⟩)
    (found : ∀ id, (shared'.futures.get? id).isSome = (shared.futures.get? id).isSome)
    (others : ∀ id, id ≠ who → shared'.futures.get? id = shared.futures.get? id)
    (ended : ∀ future, shared'.futures.get? who = some future →
      future.outcome.isSome ∧ future.sleepers = []) :
    Tidy ⟨shared', before ++ after, n', outcome'⟩ := by
  have alone := tidy.alone
  obtain ⟨entry, distinct, owner, registered, lineage, births, settled, woken⟩ := tidy
  have sub : ∀ entry, entry ∈ before ++ after → entry ∈ before ++ [(who, phase)] ++ after := by
    intro entry member
    rw [mem_replace]
    rcases List.mem_append.mp member with early | late
    · exact .inl early
    · exact .inr (.inr late)
  constructor
  case entry =>
    have none := found entryTask
    rw [entry] at none
    exact Option.isNone_iff_eq_none.mp (by simpa using none)
  case distinct =>
    have names : ((before ++ [(who, phase)] ++ after).map Prod.fst).Nodup := distinct
    refine names.sublist (List.Sublist.map Prod.fst ?_)
    exact (List.sublist_append_left before _).append (List.Sublist.refl after)
  case owner =>
    exact fun id p task member => owner id p task (sub _ member)
  case registered =>
    intro id p member forked
    rw [found]
    exact registered id p (sub _ member) forked
  case lineage =>
    intro k id known
    rw [found] at known ⊢
    exact lineage k id known
  case births =>
    intro id p task member running k known
    rw [found] at known
    exact births id p task (sub _ member) running k known
  case settled =>
    intro id future get
    by_cases same : id = who
    · subst same
      exact iff_of_true (ended future get).1 alone
    · rw [others id same] at get
      rw [settled id future get]
      refine forall_congr' fun p => not_congr ?_
      simp [same]
  case woken =>
    intro id future get
    by_cases same : id = who
    · subst same
      exact fun _ => (ended future get).2
    · rw [others id same] at get
      exact woken id future get

theorem Tidy.fresh (tidy : Tidy ⟨shared, before ++ [(who, phase)] ++ after, n, outcome⟩)
    (task : Task) (running : phase.task? = some task) :
    task.memory.freshIdentity.1 = (task.memory.serial + 1) :: who ∧
      shared.futures.get? ((task.memory.serial + 1) :: who) = none := by
  have member : (who, phase) ∈ before ++ [(who, phase)] ++ after :=
    mem_replace.mpr (.inr (.inl rfl))
  refine ⟨?_, ?_⟩
  · simp only [Memory.freshIdentity, tidy.owner who phase task member running]
  · cases found : shared.futures.get? ((task.memory.serial + 1) :: who) with
    | none => rfl
    | some future =>
      have given := tidy.births who phase task member running (task.memory.serial + 1)
        (by rw [found]; rfl)
      exact absurd given (Nat.not_succ_le_self _)

theorem Tidy.insert {tasks : List (Identity × Phase)} {s : Setting σ} {k : Nat}
    {label : String} {registers : Bindings} (tidy : Tidy ⟨shared, before ++ tasks, n, outcome⟩)
    (fresh : shared.futures.get? (k :: who) = none)
    (parent : who = entryTask ∨ (shared.futures.get? who).isSome)
    (given : ∀ phase task, (who, phase) ∈ before ++ tasks → phase.task? = some task →
      k ≤ task.memory.serial) :
    Tidy ⟨{ shared with futures := shared.futures.add (k :: who) (.pending number) },
      before ++ (k :: who, .running (.atBlock s (k :: who) label registers)) :: tasks, n',
      outcome'⟩ := by
  obtain ⟨entry, distinct, owner, registered, lineage, births, settled, woken⟩ := tidy
  have has (id : Identity) : ((shared.futures.add (k :: who) (.pending number)).get? id).isSome ↔
      id = k :: who ∨ (shared.futures.get? id).isSome := by
    rw [Futures.get?_add]
    split <;> simp [*]
  have absent : ∀ phase, (k :: who, phase) ∉ before ++ tasks := by
    intro p member
    have known := registered _ p member (List.cons_ne_nil k who)
    rw [fresh] at known
    cases known
  have old {entry : Identity × Phase}
      (member : entry ∈ before ++ (k :: who, .running (.atBlock s (k :: who) label registers)) ::
        tasks) :
      entry = (k :: who, .running (.atBlock s (k :: who) label registers)) ∨
        entry ∈ before ++ tasks := by
    simp only [List.mem_append, List.mem_cons] at member ⊢
    tauto
  constructor
  case entry =>
    simp only [Futures.get?_add]
    exact entry
  case distinct =>
    rw [List.map_append, List.map_cons, List.nodup_middle, ← List.map_append]
    refine List.nodup_cons.mpr ⟨fun member => ?_, distinct⟩
    obtain ⟨⟨id, p⟩, member, rfl⟩ := List.mem_map.mp member
    exact absent p member
  case owner =>
    intro id p task member running
    rcases old member with same | member
    · cases same
      cases running
      rfl
    · exact owner id p task member running
  case registered =>
    intro id p member forked
    rw [Futures.get?_add]
    rcases old member with same | member
    · cases same
      rw [if_pos rfl]
      rfl
    · split
      · rfl
      · exact registered id p member forked
  case lineage =>
    intro j id known
    rw [has] at known ⊢
    rcases known with same | known
    · cases same
      exact parent.imp_right .inr
    · exact (lineage j id known).imp_right .inr
  case births =>
    intro id p task member running j known
    rw [has] at known
    rcases old member with same | member
    · cases same
      cases running
      rcases known with same | known
      · exact absurd (congrArg List.length same) (by simp)
      · rcases lineage j _ known with same | known
        · cases same
        · rw [fresh] at known
          cases known
    · rcases known with same | known
      · cases same
        exact given p task member running
      · exact births id p task member running j known
  case settled =>
    intro id future found
    rw [Futures.get?_add] at found
    split at found
    · next same =>
      cases found
      subst same
      exact iff_of_false Bool.false_ne_true fun gone =>
        gone _ (List.mem_append_right before List.mem_cons_self)
    · next different =>
      rw [settled id future found]
      refine forall_congr' fun p => not_congr ⟨fun member => ?_, fun member => ?_⟩
      · simp only [List.mem_append, List.mem_cons] at member ⊢
        exact member.imp_right .inr
      · exact (old member).resolve_left fun same => different (congrArg Prod.fst same)
  case woken =>
    intro id future found
    rw [Futures.get?_add] at found
    split at found
    · cases found
      exact .pending number
    · exact woken id future found

theorem Tidy.move {s : Setting σ} {change : Change σ}
    (tidy : Tidy ⟨shared, before ++ [(who, phase)] ++ after, n, outcome⟩)
    (move : Move s who number shared phase change) :
    Tidy ⟨change.shared, before ++ change.tasks ++ after, n', outcome'⟩ := by
  have same : SameOutcomes shared.futures shared.futures := .refl _
  cases move with
  | claim | refuse | answer =>
    refine tidy.replace same ?_
    intro _ impossible
    cases impossible
    exact ⟨_, rfl, .refl _⟩
  | sleep =>
    refine tidy.replace (.wait _ _ _) ?_
    intro _ impossible
    cases impossible
    exact ⟨_, rfl, .refl _⟩
  | @go task shared' task' stepped =>
    obtain ⟨host, rfl⟩ := Task.shared_of_running stepped
    refine tidy.replace same ?_
    intro _ impossible
    cases impossible
    exact ⟨task, rfl, Task.step_follows stepped⟩
  | @finish task outcome shared' memory entry stepped =>
    obtain ⟨host, rfl⟩ := Task.shared_of_ended stepped
    subst entry
    refine (List.append_nil before).symm ▸ tidy.remove (fun _ => rfl) (fun _ _ => rfl) ?_
    intro future found
    cases tidy.entry.symm.trans found
  | @stop task outcome shared' memory forked stepped =>
    obtain ⟨host, rfl⟩ := Task.shared_of_ended stepped
    refine tidy.replace same ?_
    intro _ impossible
    cases impossible
  | release =>
    refine tidy.replace same ?_
    intro _ impossible
    cases impossible
  | @settle result =>
    have change (id : Identity) := shared.futures.get?_update who id
      fun future => (future.settle (settlement result)).2
    refine (List.append_nil before).symm ▸ tidy.remove ?_ ?_ ?_
    · intro id
      rw [change, Option.isSome_map]
    · intro id different
      rw [change]
      cases shared.futures.get? id with
      | none => rfl
      | some future => simp only [if_neg different, Option.map_some]
    · intro future found
      rw [change] at found
      obtain ⟨old, get, rfl⟩ := Option.map_eq_some_iff.mp found
      rw [if_pos rfl, Future.outcome_settle]
      have woken := (tidy.woken who old get).settle (settlement result)
      exact ⟨rfl, woken (by rw [Future.outcome_settle]; rfl)⟩
  | @spawn label registers next frames memory =>
    obtain ⟨child, fresh⟩ := tidy.fresh ⟨.fork label registers next, frames, memory⟩ rfl
    simp only at child fresh
    rw [child]
    have first : Tidy ⟨shared, before ++
        [(who, .running ⟨next (some ((memory.serial + 1) :: who)), frames,
          memory.freshIdentity.2⟩)] ++ after, n, outcome⟩ := by
      refine tidy.replace same ?_
      intro _ impossible
      cases impossible
      exact ⟨_, rfl, rfl, Nat.le_succ _, Nat.le_refl _⟩
    have parent : who = entryTask ∨ (shared.futures.get? who).isSome := by
      by_cases entry : who = entryTask
      · exact .inl entry
      · exact .inr (tidy.registered who _ (mem_replace.mpr (.inr (.inl rfl))) entry)
    rw [List.append_assoc] at first ⊢
    refine first.insert fresh parent fun p task member running => ?_
    cases first.unique member (List.mem_append_right before List.mem_cons_self)
    cases running
    exact Nat.le_refl _

theorem Tidy.step {s : Setting σ} (who : Identity) (w : World σ) (tidy : w.Tidy)
    (awake : w.canStep who) : (w.step s who).Tidy := by
  obtain ⟨shared, tasks, forked, outcome⟩ := w
  obtain ⟨before, phase, after, change, rfl, -, -, move, stepped⟩ := exists_move (s := s) awake
  rw [stepped]
  exact tidy.move move

theorem Tidy.start (s : Setting σ) (entry : String) (registers : Bindings) (host : σ) :
    (World.start s entry registers host).Tidy where
  entry := rfl
  distinct := List.nodup_singleton _
  owner who phase task member running := by
    cases List.mem_singleton.mp member
    cases running
    rfl
  registered who phase member forked :=
    absurd (congrArg Prod.fst (List.mem_singleton.mp member)) forked
  lineage _ _ known := by cases known
  births _ _ _ _ _ _ known := by cases known
  settled _ _ found := by cases found
  woken _ _ found := by cases found

end World
end LayeredIR
