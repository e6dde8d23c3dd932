import LayeredIR.Proofs.Discipline.Snapshots

/-! What instructions do to registers. An operator, a call or an effect reads registers and writes
its target once it has come to a value; the code that a call runs binds names in scopes of its own,
so until then, and where the instruction fails, the registers are as they were. -/
namespace LayeredIR

def Instruction.target? : Instruction → Option String
  | .assign target _ | .op target _ _ _ | .call target _ _ => some target
  | .effect target _ _ => target

def Instruction.hasOperand : Instruction → Bool
  | .assign _ _ => true
  | _ => false

namespace Heap

def SameRegisters (except : Option String) (heap later : Heap) : Prop :=
  ∀ name, except ≠ some name →
    later.find? registerScope name = heap.find? registerScope name

structure Fenced (n : Nat) (heap : Heap) : Prop where
  root : heap.get? rootScope = some ⟨[], none⟩
  parents : ∀ place scope outer, n ≤ place → heap.get? place = some scope →
    scope.parent = some outer → outer = rootScope ∨ n ≤ outer

namespace Fenced

variable {n : Nat} {heap : Heap} (fenced : heap.Fenced n)
include fenced

/-- What is found from behind the fence is bound there. -/
theorem find? {a place : ScopeId} {name : String} {binding : Binding} (beyond : n ≤ a)
    (found : heap.find? a name = some (place, binding)) : n ≤ place := by
  unfold Heap.find? at found
  generalize a + 1 = fuel at found
  induction fuel generalizing a with
  | zero => cases found
  | succ fuel ih =>
    simp only [findWithin] at found
    cases here : heap.get? a with
    | none =>
      rw [here] at found
      cases found
    | some scope =>
      rw [here] at found
      simp only at found
      split at found
      · cases found
        exact beyond
      · split at found
        · cases found
        · next outer around =>
          rcases fenced.parents a scope outer beyond here around with rfl | further
          · cases fuel with
            | zero => cases found
            | succ fuel =>
              simp only [findWithin, fenced.root] at found
              cases found
          · exact ih further found

theorem add {bindings : Bindings} {parent : Option ScopeId}
    (around : ∀ outer, parent = some outer → outer = rootScope ∨ n ≤ outer) :
    (heap.add bindings parent).2.Fenced n where
  root := by
    rw [get?_add, if_neg (Nat.ne_of_lt (lt_size_of_get? fenced.root)), fenced.root]
  parents place scope outer beyond found lies := by
    rw [get?_add] at found
    split at found
    · cases found
      exact around outer lies
    · exact fenced.parents place scope outer beyond found lies

theorem define {a : ScopeId} (name : String) (binding : Binding) (inside : a ≠ rootScope) :
    (heap.define a name binding).Fenced n where
  root := by rw [get?_define, if_neg inside, fenced.root]
  parents place scope outer beyond found lies := by
    obtain ⟨old, held, same⟩ := parent_define found
    exact fenced.parents place old outer beyond held (same.trans lies)

end Fenced

def Grows (n : Nat) (heap later : Heap) : Prop := heap.Extends n later ∧ later.Fenced n

namespace Grows

variable {n : Nat} {heap later : Heap} (grows : heap.Grows n later)
include grows

theorem add {bindings : Bindings} {parent : Option ScopeId}
    (around : ∀ outer, parent = some outer → outer = rootScope ∨ n ≤ outer) :
    heap.Grows n (later.add bindings parent).2 :=
  ⟨grows.1.trans (.add later bindings parent grows.1.size) (Nat.le_refl n), grows.2.add around⟩

theorem define (positive : 0 < n) {a : ScopeId} (name : String) (binding : Binding)
    (beyond : n ≤ a) : heap.Grows n (later.define a name binding) :=
  ⟨grows.1.trans (.define later name binding beyond grows.1.size) (Nat.le_refl n),
    grows.2.define name binding (Nat.ne_of_gt (Nat.lt_of_lt_of_le positive beyond))⟩

theorem assign (positive : 0 < n) {a : ScopeId} (name : String) (v : Value) (beyond : n ≤ a) :
    heap.Grows n (later.assign a name v).2 := by
  unfold Heap.assign
  cases found : later.find? a name with
  | none => exact grows
  | some held =>
    obtain ⟨place, u, mutability⟩ := held
    cases mutability with
    | immutable => exact grows
    | mutable => exact grows.define positive name _ (grows.2.find? beyond found)

end Grows

theorem SameRegisters.of_grows {n : Nat} {heap later : Heap} {bindings : Bindings}
    (own : heap.get? registerScope = some ⟨bindings, none⟩) (old : registerScope < n)
    (grows : heap.Grows n later) :
    later.get? registerScope = some ⟨bindings, none⟩ ∧ heap.SameRegisters none later := by
  have kept : later.get? registerScope = some ⟨bindings, none⟩ := (grows.1.same _ old).trans own
  exact ⟨kept, fun name _ => by rw [find?_alone kept, find?_alone own]⟩

/-- A write to a register leaves the others as they were. -/
theorem SameRegisters.define {heap later : Heap} {bindings : Bindings} {target : String}
    (own : later.get? registerScope = some ⟨bindings, none⟩) (binding : Binding)
    (same : heap.SameRegisters none later) :
    heap.SameRegisters (some target) (later.define registerScope target binding) := by
  intro name other
  have written : (later.define registerScope target binding).get? registerScope =
      some ⟨bindings.set target binding, none⟩ := by
    rw [get?_define, if_pos rfl, own]
    rfl
  have differs : name ≠ target := fun equal => other (congrArg some equal.symm)
  rw [← same name nofun, find?_alone written, find?_alone own,
    Bindings.find?_set_of_ne bindings differs]

end Heap

section Instructions

variable {σ : Type} {s : Setting σ} {kept : σ → Closure → Prop} {n : Nat}

/-- The code that an instruction runs binds names behind the scopes that there were before it. -/
theorem Discipline.snapshots_grows (positive : 0 < n) {w : Shape} {first heap heap' : Heap}
    (grows : first.Grows n heap)
    (change : (snapshots s kept n False).Change w heap heap') : first.Grows n heap' := by
  have own {a : ScopeId} (scope : (snapshots s kept n False).scope w a) : n ≤ a := by
    rcases scope with ⟨impossible, -⟩ | ⟨i, outer, rfl, -⟩
    · exact impossible.elim
    · exact Nat.le_add_right n i
  cases change with
  | same => exact grows
  | @child a outer =>
    refine grows.add fun place same => ?_
    cases same
    rcases outer with rfl | ⟨impossible, -⟩ | ⟨beyond, -⟩
    · exact .inl rfl
    · exact impossible.elim
    · exact .inr beyond
  | @enter f function =>
    obtain ⟨entries, copied⟩ := function.self f rfl
    rw [copied]
    have copy : first.Grows n (heap.captured (.frozen entries)).2 := grows.add nofun
    refine copy.add fun place same => ?_
    cases same
    exact .inr grows.1.size
  | define _ allowed _ => exact grows.define positive _ _ (own allowed)
  | assign allowed _ => exact grows.assign positive _ _ (own allowed)

variable {D : Discipline s} (laws : D.Laws) {c : List CallSite} {w : Shape}
include laws

/-- An instruction comes to a value and writes it. -/
theorem Setting.instruction_parts (lir : s.layer = .lir) {i : Instruction}
    (reads : i.hasOperand = false) : ∃ part : Plan Value,
      s.instruction i = (part >>= Plan.writeTarget i.target?) ∧ part.Heeds D c D.value w := by
  have laws' := Discipline.protocol_laws (c := c) laws
  have closures : s.layer.hasClosures := by rw [lir]; rfl
  have effects : s.layer.hasEffects := by rw [lir]; rfl
  cases i with
  | assign target arg => cases reads
  | op target ns name args => exact ⟨_, rfl, s.operatorInstruction_obeys laws' ns name args⟩
  | effect target op args =>
    exact ⟨_, rfl, s.performEffect_obeys laws' (Plan.readRegisters_obeys laws' args)
      (laws'.perform effects)⟩
  | call target callee args =>
    let part : Plan Value := do
      let callee ← Plan.readRegister callee
      let args ← Plan.readRegisters args
      Plan.evaluate (.apply callee args)
    refine ⟨part, ?_, ?_⟩
    · simp only [part, instruction, bind_assoc]
      rfl
    · exact s.callInstruction_obeys laws' callee args (Discipline.Jobs.apply closures)

end Instructions

inductive Instruction.Ended (i : Instruction) (next : Unit → Plan Next) (frames : List Frame)
    (heap : Heap) (task : Task) : Prop
  | value (control : task.control = next ()) (surfaced : task.frames = frames)
    (registers : heap.SameRegisters i.target? task.memory.heap)
  | fault {fault} (control : task.control = .fail fault) (surfaced : task.frames = frames)
    (registers : heap.SameRegisters none task.memory.heap)

namespace World

variable {σ : Type} {s : Setting σ}

theorem mem_step_of_ne {w : World σ} {who other : Identity} {phase : Phase}
    (member : (other, phase) ∈ w.tasks) (differs : other ≠ who) (awake : w.canStep who) :
    (other, phase) ∈ (w.step s who).tasks := by
  obtain ⟨before, own, after, change, split, -, -, -, stepped⟩ := exists_move (s := s) awake
  rw [split, mem_replace] at member
  rw [stepped]
  simp only [List.mem_append]
  rcases member with early | same | late
  · exact .inl (.inl early)
  · cases same
    exact absurd rfl differs
  · exact .inr late

theorem Tidy.mem_step_running {w : World σ} (tidy : w.Tidy) {who : Identity} {task task' : Task}
    {shared' : Shared σ} (member : (who, .running task) ∈ w.tasks) (awake : w.canStep who)
    (goes : task.step s w.shared = .running shared' task') :
    (who, .running task') ∈ (w.step s who).tasks := by
  obtain ⟨before, after, change, -, move, stepped⟩ :=
    tidy.exists_move_of_mem s member ((tidy.canStep_iff member).mp awake)
  rw [stepped]
  have here : (who, .running task') ∈ change.tasks := by
    cases move with
    | go stepped' =>
      cases stepped'.symm.trans goes
      exact .head _
    | finish _ stepped' | stop _ stepped' => cases stepped'.symm.trans goes
    | claim | refuse | answer | sleep => cases goes
  simp [here]

/-- A task that runs an instruction from some heap on, in what a schedule leads to: it has not ended
it yet, with the registers as they were, or has done so on the way. -/
def Performs (s : Setting σ) (who : Identity) (i : Instruction) (next : Unit → Plan Next)
    (frames : List Frame) (heap : Heap) (schedule : List Identity) (w w' : World σ) : Prop :=
  (∃ task, (who, .running task) ∈ w'.tasks ∧ heap.SameRegisters none task.memory.heap) ∨
    ∃ before after w₁ task, schedule = before ++ after ∧ Path s before w w₁ ∧ Path s after w₁ w' ∧
      (who, .running task) ∈ w₁.tasks ∧ i.Ended next frames heap task

theorem Performs.cons {who other : Identity} {i : Instruction} {next : Unit → Plan Next}
    {frames : List Frame} {heap : Heap} {schedule : List Identity} {w w' : World σ}
    (awake : w.canStep other)
    (later : Performs s who i next frames heap schedule (w.step s other) w') :
    Performs s who i next frames heap (other :: schedule) w w' := by
  refine later.imp_right ?_
  rintro ⟨before, after, w₁, task, rfl, first, rest, member, ended⟩
  exact ⟨other :: before, after, w₁, task, rfl, .cons awake first, rest, member, ended⟩

section Performing

variable {kept : σ → Closure → Prop} (lir : s.layer = .lir) (borrows : s.Borrows kept)
  {who : Identity} {i : Instruction} {next : Unit → Plan Next} {frames : List Frame}
  {first : Heap} {bindings : Bindings}
  (own : first.get? registerScope = some ⟨bindings, none⟩)
include lir borrows own

theorem Path.performs {schedule : List Identity} {w w' : World σ} {task : Task}
    (path : Path s schedule w w') (tidy : w.Tidy)
    (orderly : Orderly (Discipline.snapshots s kept 2 True) Heap.Sealed w)
    (member : (who, .running task) ∈ w.tasks)
    (within : (Discipline.snapshots s kept first.size False).Within (first.Grows first.size)
      (fun v => Plan.writeTarget i.target? v >>= next) frames task) :
    Performs s who i next frames first schedule w w' := by
  have old : registerScope < first.size := Heap.lt_size_of_get? own
  have laws : (Discipline.snapshots s kept first.size False).Laws :=
    Discipline.snapshots_laws lir borrows
  induction path generalizing task with
  | nil =>
    exact .inl ⟨task, member, (Heap.SameRegisters.of_grows own old within.holds).2⟩
  | @cons other schedule w w' awake rest ih =>
    have tidy' := tidy.step (s := s) other w awake
    have orderly' := orderly.step (Discipline.snapshots_governs lir borrows) other w awake
    by_cases mine : who = other
    · subst mine
      have shares (shape : Shape) :
          (Discipline.snapshots s kept first.size False).Shares shape w.shared.futures
            w.shared.host := ⟨orderly.shares.settled, orderly.shares.kept⟩
      cases within.step laws id (fun _ _ _ _ => Discipline.snapshots_grows (Nat.zero_lt_of_lt old))
        shares with
      | running stepped within' =>
        exact .cons awake (ih tidy' orderly' (tidy.mem_step_running member awake stepped) within')
      | fault control surfaced holds =>
        have same := (Heap.SameRegisters.of_grows own old holds).2
        exact .inr ⟨[], _, w, task, rfl, .nil, .cons awake rest, member,
          .fault control surfaced same⟩
      | @value v control surfaced holds =>
        obtain ⟨kept', same⟩ := Heap.SameRegisters.of_grows own old holds
        obtain ⟨plan, above, memory⟩ := task
        cases control
        cases surfaced
        cases target : i.target? with
        | none =>
          rw [target] at member
          refine .inr ⟨[], _, w, _, rfl, .nil, .cons awake rest, member, .value rfl rfl ?_⟩
          rwa [target]
        | some name =>
          -- the write is a step of its own, so the instruction ends one step later
          rw [target] at member
          refine .inr ⟨[who], schedule, _, _, rfl, .cons awake .nil, rest,
            tidy.mem_step_running member awake rfl, .value rfl rfl ?_⟩
          rw [target]
          exact same.define kept' _
    · exact .cons awake (ih tidy' orderly' (mem_step_of_ne member mine awake) within)

end Performing
end World
end LayeredIR
