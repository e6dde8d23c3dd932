import LayeredIR.Proofs.Guarded
import LayeredIR.Proofs.Yields

/-! The live calls of a task. Its call stack has their names and its frames say which of them are of
definitions, so the definitions that are running are known from both. A call is only made where
there is room for it, and that of a definition where it is known not to be running; and whatever
becomes of it, it is left again. So the three agree in every state that a task comes to, whatever
other tasks and the host do in between. -/
namespace LayeredIR

variable {σ : Type}

structure Setting.Sound (s : Setting σ) (c : List CallSite) : Prop where
  room : c.length ≤ s.config.maxCallDepth
  nodup : (CallSite.keys c).Nodup
  defined : ∀ key ∈ CallSite.keys c, s.Defines key

def CallStack.ofCalls (limit : Nat) (c : List CallSite) : CallStack :=
  ⟨(c.map CallSite.name).reverse.toArray, limit⟩

namespace CallStack

variable {limit : Nat} {c : List CallSite}

theorem grow_ofCalls (site : CallSite) :
    (ofCalls limit c).grow site.name = ofCalls limit (site :: c) := by
  simp [ofCalls, grow]

theorem pop_ofCalls (site : CallSite) : (ofCalls limit (site :: c)).pop = ofCalls limit c := by
  simp [ofCalls, pop]

theorem depth_ofCalls : (ofCalls limit c).depth = c.length := by simp [ofCalls, depth]

theorem isFull_ofCalls : (ofCalls limit c).isFull = decide (limit ≤ c.length) := by
  simp [ofCalls, isFull]

end CallStack

structure Memory.Has (memory : Memory) (limit : Nat) (sites : List CallSite) : Prop where
  stack : memory.stack = .ofCalls limit sites
  active : memory.active = CallSite.keys sites

namespace Memory.Has

variable {limit : Nat} {sites : List CallSite} {memory : Memory}

theorem enter (has : memory.Has limit sites) (site : CallSite) :
    (memory.enter site).Has limit (site :: sites) where
  stack := by
    simp only [Memory.enter]
    rw [has.stack, CallStack.grow_ofCalls]
  active := by
    simp only [Memory.enter]
    rw [has.active, CallSite.keys_cons]

theorem leave {site : CallSite} (has : memory.Has limit (site :: sites)) :
    (memory.leave site.isDefinition).Has limit sites where
  stack := by
    simp only [Memory.leave]
    rw [has.stack, CallStack.pop_ofCalls]
  active := by
    simp only [Memory.leave]
    rw [has.active, CallSite.keys_cons]
    split <;> rfl

theorem serve (has : memory.Has limit sites) (s : Setting σ) (q : Query) (shared : Shared σ) :
    (s.serve q shared memory).2.2.Has limit sites where
  stack := (Setting.Yields.serve_calls s q shared memory).1.trans has.stack
  active := (Setting.Yields.serve_calls s q shared memory).2.trans has.active

end Memory.Has

def Frame.leaves? : Frame → Option Bool
  | .resume _ => none
  | .leave isDefinition => some isDefinition

def Task.calls (task : Task) : List CallSite :=
  List.zipWith CallSite.mk task.memory.stack.frames.toList.reverse
    (task.frames.filterMap Frame.leaves?)

inductive Setting.Live (s : Setting σ) (bottom : List Frame) (base : List CallSite) :
    List Frame → List CallSite → Prop
  | bottom : Live s bottom base bottom base
  | resume {next frames c idle} (below : Live s bottom base frames c)
    (rest : ∀ v, (next v).Guarded s idle) (off : ∀ key ∈ idle, key ∉ CallSite.keys c) :
    Live s bottom base (.resume next :: frames) c
  | leave {site frames c} (below : Live s bottom base frames c)
    (room : c.length < s.config.maxCallDepth)
    (known : site.isDefinition → site.name ∉ CallSite.keys c ∧ s.Defines site.name) :
    Live s bottom base (.leave site.isDefinition :: frames) (site :: c)

namespace Setting.Live

variable {s : Setting σ} {bottom frames : List Frame} {base c : List CallSite}

theorem trans {bottom' : List Frame} {base' : List CallSite}
    (below : s.Live bottom base bottom' base') (live : s.Live bottom' base' frames c) :
    s.Live bottom base frames c := by
  induction live with
  | bottom => exact below
  | resume _ rest off ih => exact .resume ih rest off
  | leave _ room known ih => exact .leave ih room known

theorem length_le (live : s.Live bottom base frames c) : bottom.length ≤ frames.length := by
  induction live with
  | bottom => exact Nat.le_refl _
  | resume _ _ _ ih | leave _ _ _ ih => exact Nat.le_succ_of_le ih

/-- Back at the bottom, no call is live that was not before. -/
theorem back (live : s.Live bottom base frames c) (there : frames = bottom) : c = base := by
  cases live with
  | bottom => rfl
  | resume below | leave below =>
    have shorter := below.length_le
    rw [← there, List.length_cons] at shorter
    omega

theorem sound (live : s.Live [] [] frames c) : s.Sound c := by
  induction live with
  | bottom => exact ⟨Nat.zero_le _, List.nodup_nil, nofun⟩
  | resume _ _ _ ih => exact ih
  | @leave site _ _ _ room known ih =>
    refine ⟨room, ?_, ?_⟩
    · rw [CallSite.keys_cons]
      split
      · next own => exact List.nodup_cons.mpr ⟨(known own).1, ih.nodup⟩
      · exact ih.nodup
    · rw [CallSite.keys_cons]
      split
      · next own => exact List.forall_mem_cons.mpr ⟨(known own).2, ih.defined⟩
      · exact ih.defined

theorem leaves (live : s.Live [] [] frames c) :
    frames.filterMap Frame.leaves? = c.map CallSite.isDefinition := by
  induction live with
  | bottom => rfl
  | resume _ _ _ ih => exact ih
  | leave _ _ _ ih => exact congrArg (List.cons _) ih

end Setting.Live

/-- A task above some frames whose live calls are known, and that checks before it acts. -/
structure Task.Accounts (s : Setting σ) (bottom : List Frame) (base c : List CallSite)
    (task : Task) : Prop where
  control : ∃ idle, task.control.Guarded s idle ∧ ∀ key ∈ idle, key ∉ CallSite.keys c
  frames : s.Live bottom base task.frames c
  stack : task.memory.stack = .ofCalls s.config.maxCallDepth c
  active : task.memory.active = CallSite.keys c

namespace Task.Accounts

variable {s : Setting σ} {bottom frames : List Frame} {base c : List CallSite} {control : Plan Next}
  {memory : Memory} {shared shared' : Shared σ} {task task' : Task}

theorem begin (job : Job) (live : s.Live bottom base frames c)
    (stack : memory.stack = .ofCalls s.config.maxCallDepth c)
    (active : memory.active = CallSite.keys c) :
    Accounts s bottom base c ⟨s.plan job, frames, memory⟩ :=
  ⟨⟨[], s.plan_guarded job, nofun⟩, live, stack, active⟩

theorem has (accounts : Accounts s bottom base c task) :
    task.memory.Has s.config.maxCallDepth c := ⟨accounts.stack, accounts.active⟩

/-- Leaving the innermost call. -/
theorem leave {isDefinition : Bool} (accounts :
      Accounts s bottom base c ⟨control, .leave isDefinition :: frames, memory⟩)
    (above : Frame.leave isDefinition :: frames ≠ bottom) (outcome : Except Fault Value) :
    ∃ c', Accounts s bottom base c' ⟨.ending outcome, frames, memory.leave isDefinition⟩ := by
  have has := accounts.has
  have live := accounts.frames
  have ending : (Plan.ending outcome).Guarded s [] := by
    cases outcome with
    | ok v => exact .done trivial
    | error fault => exact .fail trivial
  cases live with
  | bottom => exact absurd rfl above
  | @leave site _ c below _ _ =>
    exact ⟨c, ⟨[], ending, nofun⟩, below, has.leave.stack, has.leave.active⟩

/-- A call, where there is room for it. -/
theorem enter {site : CallSite} {job : Job} {next : Value → Plan Next}
    (accounts : Accounts s bottom base c ⟨.call site job next, frames, memory⟩)
    (free : memory.stack.isFull = false) :
    Accounts s bottom base (site :: c)
      ⟨s.plan job, .leave site.isDefinition :: .resume next :: frames, memory.enter site⟩ := by
  have has : memory.Has s.config.maxCallDepth c := accounts.has
  obtain ⟨⟨idle, guarded, off⟩, live, -, -⟩ := accounts
  cases guarded with
  | call known rest =>
    rw [has.stack, CallStack.isFull_ofCalls] at free
    have room : c.length < s.config.maxCallDepth := Nat.lt_of_not_le (of_decide_eq_false free)
    have entered := has.enter site
    have waits := Setting.Live.resume live (Plan.Guarded.resumed rest) off
    refine begin job (.leave waits room fun own => ?_) entered.stack entered.active
    exact ⟨off _ (known own).1, (known own).2⟩

/-- What an answer says is not running is not. -/
theorem answer {q : Query} {next : q.Answer → Plan Next}
    (accounts : Accounts s bottom base c ⟨.ask q next, frames, memory⟩) :
    Accounts s bottom base c
      ⟨next (s.serve q shared memory).1, frames, (s.serve q shared memory).2.2⟩ := by
  have has : memory.Has s.config.maxCallDepth c := accounts.has
  have served := has.serve s q shared
  obtain ⟨⟨idle, guarded, off⟩, live, -, -⟩ := accounts
  cases guarded with
  | ask sound rest =>
    refine ⟨⟨_, rest _ _ rfl, fun key member => ?_⟩, live, served.stack, served.active⟩
    rcases List.mem_append.mp member with told | old
    · cases q with
      | isActive key' =>
        have asked : key ∈ if memory.active.contains key' then [] else [key'] := told
        rw [has.active] at asked
        intro running
        split at asked
        · cases asked
        · next absent =>
          cases List.mem_singleton.mp asked
          exact absent (by simpa using running)
      | _ => cases told
    · exact off key old

theorem step (accounts : Accounts s bottom base c task)
    (goes : ∀ outcome, task.control = Plan.ending outcome → task.frames ≠ bottom)
    (stepped : task.step s shared = .running shared' task') :
    ∃ c', Accounts s bottom base c' task' := by
  obtain ⟨control, frames, memory⟩ := task
  have delivered (outcome : Except Fault Value) (ends : control = Plan.ending outcome) :=
    goes outcome ends
  cases control with
  | done next =>
    cases next with
    | job job =>
      cases stepped
      exact ⟨c, begin job accounts.frames accounts.stack accounts.active⟩
    | value v =>
      have above := delivered (.ok v) rfl
      match frames, accounts, above with
      | .leave isDefinition :: frames, accounts, above =>
        cases stepped
        exact accounts.leave above (.ok v)
      | .resume next :: frames, ⟨_, live, stack, active⟩, above =>
        cases stepped
        cases live with
        | bottom => exact absurd rfl above
        | @resume _ _ _ idle below rest off => exact ⟨c, ⟨idle, rest v, off⟩, below, stack, active⟩
  | fail fault =>
    have above := delivered (.error fault) rfl
    match frames, accounts, above with
    | .leave isDefinition :: frames, accounts, above =>
      cases stepped
      exact accounts.leave above (.error _)
    | .resume next :: frames, ⟨_, live, stack, active⟩, above =>
      cases stepped
      cases live with
      | bottom => exact absurd rfl above
      | resume below _ _ => exact ⟨c, ⟨[], .fail trivial, nofun⟩, below, stack, active⟩
  | eval job next =>
    cases stepped
    obtain ⟨⟨idle, guarded, off⟩, live, stack, active⟩ := accounts
    cases guarded with
    | eval _ rest =>
      exact ⟨c, begin job (.resume live (Plan.Guarded.resumed rest) off) stack active⟩
  | call site job next =>
    cases free : memory.stack.isFull with
    | true =>
      rw [step_full free] at stepped
      cases stepped
      exact ⟨c, ⟨[], .fail trivial, nofun⟩, accounts.frames, accounts.stack, accounts.active⟩
    | false =>
      rw [step_free free] at stepped
      cases stepped
      exact ⟨_, accounts.enter free⟩
  | ask q next =>
    cases stepped
    exact ⟨c, accounts.answer⟩
  | fork | await => cases stepped

end Task.Accounts
end LayeredIR
