import LayeredIR.Proofs.Protocol.Forms

/-! Rules without stages. They say which values a run may hold, which jobs it may evaluate in place,
and which it may call, and that it forks no task and waits for none. A likeness compares two runs
and sees of a job only what it holds; rules can also tell a job from the one that it is part of. -/
namespace LayeredIR

def Captured.All (P : Value → Prop) : Captured → Prop
  | .shared _ => True
  | .frozen entries => ∀ entry ∈ entries, P entry.2

structure Rules where
  value : Value → Prop
  domain : Domain → Prop
  job : Job → Prop
  call : Job → Prop

namespace Rules

variable (r : Rules)

def Queries : Query → Prop
  | .define _ _ v _ | .assign _ _ v | .remember _ v => r.value v
  | .enter captured => captured.All r.value
  | .compute _ args | .perform _ args => ∀ arg ∈ args, r.value arg
  | .dispatch domain _ args => r.domain domain ∧ ∀ arg ∈ args, r.value arg
  | .lookup _ _ | .child _ | .flatten _ | .fresh | .isActive _ | .innermost | .recollect _ => True

def Answers (q : Query) (a : q.Answer) : Prop := ∀ v, q.Tells a v → r.value v

def protocol : Protocol Unit where
  le _ _ := True
  value _ := r.value
  scope _ _ := True
  made _ _ _ := True
  fails _ := True
  evals _ := r.job
  calls _ _ := r.call
  asks _ := r.Queries
  answers _ q _ := r.Answers q
  forks _ _ _ := False
  awaits := False
  bodies := True
  refl _ := trivial
  trans _ _ := trivial
  later _ := trivial

/-- What permitted values there are in a setting, whatever form is evaluated. -/
structure Fit {σ : Type} (s : Setting σ) : Prop where
  literal : ∀ l, r.value (.ofLiteral l)
  list : ∀ of items, (∀ item ∈ items, r.value item) → r.value (.list of items)
  input : ∀ name v, s.input? name = some v → r.value v
  domain : ∀ name d, s.domains.find? name = some d → r.domain d

variable {r}

theorem Fit.laws {σ : Type} {s : Setting σ} (fit : r.Fit s) : r.protocol.Laws s where
  value_mono _ held := held
  scope_mono _ _ := trivial
  tells answers told := answers _ told
  fails _ _ := trivial
  opens _ _ _ := trivial
  binds _ := rfl
  scope_made _ := trivial
  define_made _ _ _ held := held
  own _ := trivial
  inquires {_ q} free := by cases q <;> first | exact trivial | exact free.elim
  child _ := trivial
  root _ := trivial
  flatten _ _ _ := trivial
  remember held := held
  compute _ held _ := held
  dispatch _ found held _ := ⟨fit.domain _ _ found, held⟩
  perform _ held _ := held
  literal _ := fit.literal
  list of _ := fit.list of _
  input found := fit.input _ _ found

theorem all_of_captures {σ : Type} {s : Setting σ} {k : Unit} {a : ScopeId} {captured : Captured}
    (captures : r.protocol.Captures s k a captured) : captured.All r.value := by
  cases captures with
  | copied _ held => exact held
  | shared => trivial

end Rules

end LayeredIR
