import LayeredIR.Proofs.Backtraces.Bare
import LayeredIR.Proofs.Calls

/-! An evaluator without a call stack. It evaluates what a plan asks for by recursion and passes the
calls around it down; a failure gets their names where it is created, and is only handed up from
there. A task steps along with it: where the task unwinds a failure through its frames, the failure
of the other already has the backtrace that the innermost call among them will give it. -/
namespace LayeredIR

def Fault.stamped (cause : Cause) (sites : List CallSite) : Fault where
  cause := cause
  backtrace := if sites.isEmpty then none else some ⟨(sites.map CallSite.name).reverse⟩

def Fault.Within (fault : Fault) (limit : Nat) : Prop :=
  ∀ backtrace, fault.backtrace = some backtrace → backtrace.frames.length ≤ limit

def Query.answer? (sites : List CallSite) : (q : Query) → Option q.Answer
  | .isActive key => some ((CallSite.keys sites).contains key)
  | .innermost => some (sites.head?.map CallSite.name)
  | _ => none

namespace Plan

def pause : Plan Unit := .ask .innermost fun _ => .done ()

def unfinished : Plan (Except Fault Value) :=
  .await entryTask fun outcome => .done (outcome.mapError fun e => .ofCause (.raised e))

def onSuccess (result : Except Fault Value) (next : Value → Plan (Except Fault Value)) :
    Plan (Except Fault Value) :=
  match result with
  | .ok v => next v
  | .error fault => .done (.error fault)

end Plan

open Plan in
/-- How a plan ends within some calls, through at most so many requests within or after each other.
It pauses where a task moves from one frame to another, so that it takes as many steps. -/
def Setting.reference {σ : Type} (s : Setting σ) :
    Nat → List CallSite → Plan Next → Plan (Except Fault Value)
  | 0, _, _ => unfinished
  | _ + 1, _, .done (.value v) => .done (.ok v)
  | n + 1, sites, .done (.job job) => do
    pause
    reference s n sites (s.plan job)
  | _ + 1, sites, .fail fault => .done (.error (.stamped fault.cause sites))
  | n + 1, sites, .eval job next => do
    pause
    let result ← reference s n sites (s.plan job)
    pause
    onSuccess result fun v => reference s n sites (next v)
  | n + 1, sites, .call site job next => do
    pause
    if s.config.maxCallDepth ≤ sites.length then
      .done (.error (.stamped (.recursionLimitExceeded s.config.maxCallDepth) sites))
    else do
      let result ← reference s n (site :: sites) (s.plan job)
      -- a task leaves the call and then resumes what waits for it
      pause
      pause
      onSuccess result fun v => reference s n sites (next v)
  | n + 1, sites, .ask q next =>
    match q.answer? sites with
    | some a => do
      pause
      reference s n sites (next a)
    | none => .ask q fun a => reference s n sites (next a)
  | n + 1, sites, .fork label registers next =>
    .fork label registers fun id => reference s n sites (next id)
  | n + 1, sites, .await future next =>
    .await future fun outcome => reference s n sites (next outcome)

def Memory.callless (memory : Memory) : Memory :=
  { memory with stack := .empty memory.stack.limit, active := [] }

def Task.stamping {σ : Type} (s : Setting σ) (fuel : Nat) (task : Task) : Task :=
  ⟨s.reference fuel [] task.control >>= Plan.ending, [], task.memory⟩

variable {σ : Type}

section Stamps

variable {limit : Nat} {sites : List CallSite} {memory : Memory} {fault : Fault}

theorem Fault.stamped_within (cause : Cause) (room : sites.length ≤ limit) :
    (stamped cause sites).Within limit := by
  intro backtrace captured
  simp only [stamped] at captured
  split at captured
  · cases captured
  · cases captured
    simpa using room

/-- Leaving a call stamps a bare failure as it should have been where it arose. -/
theorem CallStack.attach_ofCalls (bare : fault.Bare) :
    (ofCalls limit sites).attach fault = .stamped fault.cause sites := by
  obtain ⟨cause, backtrace⟩ := fault
  cases bare
  cases sites with
  | nil => rfl
  | cons site rest =>
    simp [attach, ofCalls, Fault.withBacktrace, Fault.stamped, capture]

theorem CallStack.attach_ofCalls_nil : (ofCalls limit []).attach fault = fault := rfl

/-- Only the innermost call that a failure leaves gives it a backtrace. -/
theorem CallStack.attach_attach (stack : CallStack) (site : CallSite) :
    stack.attach ((ofCalls limit (site :: sites)).attach fault) =
      (ofCalls limit (site :: sites)).attach fault := by
  have live : (ofCalls limit (site :: sites)).frames.isEmpty = false := by simp [ofCalls]
  have given : ((ofCalls limit (site :: sites)).attach fault).backtrace.isSome := by
    cases known : fault.backtrace with
    | none => simp [attach, live, known, Fault.withBacktrace]
    | some backtrace => simp [attach, known]
  rw [attach, given, Bool.or_true, if_pos rfl]

namespace Memory.Has

theorem attach (has : memory.Has limit sites) (bare : fault.Bare) :
    memory.stack.attach fault = .stamped fault.cause sites := by
  rw [has.stack, CallStack.attach_ofCalls bare]

theorem within (has : memory.Has limit sites) (bare : fault.Bare) (room : sites.length ≤ limit) :
    (memory.stack.attach fault).Within limit := by
  rw [has.attach bare]
  exact Fault.stamped_within _ room

end Memory.Has

/-- A query that the calls do not answer is answered from the rest of the memory. -/
theorem Setting.serve_callless (s : Setting σ) {q : Query} (free : q.answer? sites = none)
    (shared : Shared σ) (memory : Memory) : s.serve q shared memory.callless =
      ((s.serve q shared memory).1, (s.serve q shared memory).2.1,
        (s.serve q shared memory).2.2.callless) := by
  cases q with
  | isActive | innermost => cases free
  | perform effect args =>
    simp only [serve]
    cases s.handler? effect <;> rfl
  | _ => rfl

/-- A query that the calls answer leaves everything as it is. -/
theorem Memory.Has.serve_of_answer? (has : memory.Has limit sites) (s : Setting σ) {q : Query}
    {a : q.Answer} (known : q.answer? sites = some a) (shared : Shared σ) :
    s.serve q shared memory = (a, shared, memory) := by
  cases q with
  | isActive key =>
    cases known
    simp only [Setting.serve, has.active]
  | innermost =>
    cases known
    simp only [Setting.serve, has.stack]
    cases sites <;> simp [CallStack.top?, CallStack.ofCalls]
  | _ => cases known

end Stamps

inductive Setting.Continues (s : Setting σ) (k : Nat) :
    List Frame → List CallSite → (Except Fault Value → Plan Next) → Prop
  | bottom : Continues s k [] [] Plan.ending
  | resume {next frames sites rest n} (below : Continues s k frames sites rest) (enough : k ≤ n)
    (bare : ∀ v, (next v).Bare) :
    Continues s k (.resume next :: frames) sites fun result => do
      Plan.pause
      Plan.onSuccess result (fun v => s.reference n sites (next v)) >>= rest
  | leave {site frames sites rest} (below : Continues s k frames sites rest)
    (room : sites.length < s.config.maxCallDepth) :
    Continues s k (.leave site.isDefinition :: frames) (site :: sites) fun result => do
      Plan.pause
      rest result

inductive Task.Follows (s : Setting σ) (k : Nat) : Task → Task → Prop
  | runs {plan frames sites rest n memory} (enough : k ≤ n) (bare : plan.Bare)
    (continues : s.Continues k frames sites rest) (has : memory.Has s.config.maxCallDepth sites) :
    Follows s k ⟨plan, frames, memory⟩ ⟨s.reference n sites plan >>= rest, [], memory.callless⟩
  | ends (result) {frames sites rest memory} (continues : s.Continues k frames sites rest)
    (has : memory.Has s.config.maxCallDepth sites)
    (within : ∀ fault, result = .error fault →
      (memory.stack.attach fault).Within s.config.maxCallDepth) :
    Follows s k ⟨.ending result, frames, memory⟩
      ⟨rest (result.mapError memory.stack.attach), [], memory.callless⟩

inductive Progress.Follows (s : Setting σ) (k : Nat) : Progress σ → Progress σ → Prop
  | running {shared task task'} (follows : task.Follows s k task') :
    Follows s k (.running shared task) (.running shared task')
  | ended {outcome shared memory memory'}
    (within : ∀ fault, outcome = .error fault → fault.Within s.config.maxCallDepth) :
    Follows s k (.ended outcome shared memory) (.ended outcome shared memory')
  | waiting {shared task task'} (follows : task.Follows s k task') :
    Follows s k (.waiting shared task) (.waiting shared task')

variable {s : Setting σ} {k : Nat} {frames : List Frame} {sites : List CallSite}
  {rest : Except Fault Value → Plan Next} {memory : Memory} {task task' : Task}

namespace Setting.Continues

theorem mono {j : Nat} (continues : s.Continues k frames sites rest) (le : j ≤ k) :
    s.Continues j frames sites rest := by
  induction continues with
  | bottom => exact .bottom
  | resume _ enough bare ih => exact .resume ih (le.trans enough) bare
  | leave _ room ih => exact .leave ih room

theorem room (continues : s.Continues k frames sites rest) :
    sites.length ≤ s.config.maxCallDepth := by
  induction continues with
  | bottom => exact Nat.zero_le _
  | resume _ _ _ ih => exact ih
  | leave _ room => exact room

end Setting.Continues

namespace Task.Follows

theorem mono {j : Nat} (follows : task.Follows s k task') (le : j ≤ k) :
    task.Follows s j task' := by
  cases follows with
  | runs enough bare continues has => exact .runs (le.trans enough) bare (continues.mono le) has
  | ends result continues has within => exact .ends result (continues.mono le) has within

/-- A failure that arises is stamped with the calls around it. -/
theorem raised {fault : Fault} (bare : fault.Bare) (continues : s.Continues k frames sites rest)
    (has : memory.Has s.config.maxCallDepth sites) :
    Follows s k ⟨.fail fault, frames, memory⟩
      ⟨rest (.error (.stamped fault.cause sites)), [], memory.callless⟩ := by
  rw [← has.attach bare]
  refine .ends (.error fault) continues has fun _ same => ?_
  cases same
  exact has.within bare continues.room

variable {shared : Shared σ}
  (handlers : ∀ name handler, s.handler? name = some handler → handler.Bare)

/-- What waits for a plan gets its outcome. -/
theorem ends_step (result : Except Fault Value) (continues : s.Continues (k + 1) frames sites rest)
    (has : memory.Has s.config.maxCallDepth sites)
    (within : ∀ fault, result = .error fault →
      (memory.stack.attach fault).Within s.config.maxCallDepth) :
    Progress.Follows s k (Task.step s shared ⟨.ending result, frames, memory⟩)
      (Task.step s shared ⟨rest (result.mapError memory.stack.attach), [], memory.callless⟩) := by
  have le : k ≤ k + 1 := Nat.le_succ k
  cases continues with
  | bottom =>
    cases result with
    | ok v => exact .ended nofun
    | error fault =>
      have outside : memory.stack.attach fault = fault := by
        rw [has.stack, CallStack.attach_ofCalls_nil]
      have within := within fault rfl
      simp only [Except.mapError]
      rw [outside] at within ⊢
      refine .ended fun _ same => ?_
      cases same
      exact within
  | resume below enough bare =>
    cases result with
    | ok v => exact .running (.runs (le.trans enough) (bare v) (below.mono le) has)
    | error fault => exact .running (.ends (.error fault) (below.mono le) has within)
  | @leave site _ _ rest below _ =>
    cases result with
    | ok v => exact .running (.ends (.ok v) (below.mono le) has.leave nofun)
    | error fault =>
      -- the stack of the call has been captured, so that of the calls around it is not
      have once : (memory.leave site.isDefinition).stack.attach (memory.stack.attach fault) =
          memory.stack.attach fault := by
        rw [has.stack, CallStack.attach_attach]
      have left := Follows.ends (.error (memory.stack.attach fault)) (below.mono le) has.leave
        (fun _ same => by
          cases same
          rw [once]
          exact within fault rfl)
      simp only [Except.mapError, once] at left
      exact .running left

theorem step_ask {q : Query} {next : q.Answer → Plan Next} :
    Task.step s shared ⟨.ask q next, frames, memory⟩ = .running (s.serve q shared memory).2.1
      ⟨next (s.serve q shared memory).1, frames, (s.serve q shared memory).2.2⟩ := rfl

/-- Both tasks enter a call or both are refused: one counts on its stack, the other in what is
passed down to it. -/
theorem call_step {site : CallSite} {job : Job} {next : Value → Plan Next} {n : Nat}
    (enough : k ≤ n) (bare : ∀ v, (next v).Bare) (continues : s.Continues (k + 1) frames sites rest)
    (has : memory.Has s.config.maxCallDepth sites) :
    Progress.Follows s k (Task.step s shared ⟨.call site job next, frames, memory⟩)
      (Task.step s shared
        ⟨s.reference (n + 1) sites (.call site job next) >>= rest, [], memory.callless⟩) := by
  have below := continues.mono (Nat.le_succ k)
  have full : memory.stack.isFull = decide (s.config.maxCallDepth ≤ sites.length) := by
    rw [has.stack, CallStack.isFull_ofCalls]
  by_cases room : s.config.maxCallDepth ≤ sites.length
  · rw [step_full (full.trans (decide_eq_true room)), has.stack]
    simp only [Setting.reference, if_pos room]
    exact .running (raised (Fault.ofCause_bare _) below has)
  · rw [step_free (full.trans (decide_eq_false room))]
    simp only [Setting.reference, if_neg room, bind_assoc]
    refine .running (.runs enough (s.plan_bare job) (.leave ?_ (Nat.lt_of_not_le room))
      (has.enter site))
    exact .resume below enough bare

include handlers in
theorem ask_step {q : Query} {next : q.Answer → Plan Next} {n : Nat}
    (enough : k ≤ n) (bare : ∀ a, q.Bare a → (next a).Bare)
    (continues : s.Continues (k + 1) frames sites rest)
    (has : memory.Has s.config.maxCallDepth sites) :
    Progress.Follows s k (Task.step s shared ⟨.ask q next, frames, memory⟩)
      (Task.step s shared ⟨s.reference (n + 1) sites (.ask q next) >>= rest, [], memory.callless⟩)
    := by
  have below := continues.mono (Nat.le_succ k)
  have told := s.serve_bare handlers q shared memory
  cases known : q.answer? sites with
  | some a =>
    rw [has.serve_of_answer? s known] at told
    simp only [step_ask, has.serve_of_answer? s known, Setting.reference, known, bind_assoc]
    exact .running (.runs enough (bare a told) below has)
  | none =>
    have asks : s.reference (n + 1) sites (.ask q next) >>= rest =
        .ask q fun a => s.reference n sites (next a) >>= rest := by
      simp only [Setting.reference, known]
      rfl
    simp only [asks, step_ask, s.serve_callless known]
    exact .running (.runs enough (bare _ told) below (has.serve s q shared))

include handlers in
theorem runs_step {plan : Plan Next} {n : Nat} (enough : k ≤ n) (bare : plan.Bare)
    (continues : s.Continues (k + 1) frames sites rest)
    (has : memory.Has s.config.maxCallDepth sites) :
    Progress.Follows s k (Task.step s shared ⟨plan, frames, memory⟩)
      (Task.step s shared ⟨s.reference (n + 1) sites plan >>= rest, [], memory.callless⟩) := by
  have below := continues.mono (Nat.le_succ k)
  cases bare with
  | @done _ next =>
    cases next with
    | value v => exact ends_step (.ok v) continues has nofun
    | job job => exact .running (.runs enough (s.plan_bare job) below has)
  | @fail _ fault bare =>
    rw [show s.reference (n + 1) sites (.fail fault) >>= rest =
        rest (.error (.stamped fault.cause sites)) from rfl, ← has.attach bare]
    refine ends_step (.error fault) continues has fun _ same => ?_
    cases same
    exact has.within bare continues.room
  | @eval _ job next _ bare =>
    simp only [Setting.reference, bind_assoc]
    exact .running (.runs enough (s.plan_bare job) (.resume below enough (.resumed bare)) has)
  | call _ bare => exact call_step enough (.resumed bare) continues has
  | ask _ bare => exact ask_step handlers enough (bare ()) continues has
  | fork _ bare =>
    exact .waiting (.runs (enough.trans (Nat.le_succ n)) (.fork trivial bare) below has)
  | await _ bare =>
    exact .waiting (.runs (enough.trans (Nat.le_succ n)) (.await trivial bare) below has)

include handlers in
/-- The two tasks take the same steps. -/
theorem step (follows : task.Follows s (k + 1) task') (shared : Shared σ) :
    Progress.Follows s k (task.step s shared) (task'.step s shared) := by
  cases follows with
  | @runs _ _ _ _ n _ enough bare continues has =>
    match n, enough with
    | n + 1, enough => exact runs_step handlers (Nat.le_of_succ_le_succ enough) bare continues has
  | ends result continues has within => exact ends_step result continues has within

end Task.Follows
end LayeredIR
