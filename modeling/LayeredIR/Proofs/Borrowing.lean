import LayeredIR.Proofs.Discipline

/-! Settings that bring no closures of their own. Their domains and handlers pass on what they are
given, so whatever holds of all closures in a run goes on to hold of them. -/
namespace LayeredIR

/-- A setting whose inputs are literals and whose operations give back only closures that they have
been given: as operands, by settled futures, or before, where `kept` says that a host keeps them. -/
structure Setting.Borrows {σ : Type} (s : Setting σ) (kept : σ → Closure → Prop) : Prop where
  inputs : ∀ entry ∈ s.inputs, ∃ l, entry.2 = .ofLiteral l
  domains : ∀ name d, s.domains.find? name = some d → d.Conserves
  handlers : ∀ name handler futures args host (P : Closure → Prop),
    s.handler? name = some handler → (∀ arg ∈ args, arg.Closures P) →
    (∀ id v, futures.outcome? id = some (.ok v) → v.Closures P) → (∀ c, kept host c → P c) →
    (∀ v, (handler futures args host).1 = .ok v → v.Closures P) ∧
      ∀ c, kept (handler futures args host).2 c → P c

namespace Setting.Borrows

variable {σ : Type} {s : Setting σ} {kept : σ → Closure → Prop} (borrows : s.Borrows kept)
include borrows

theorem registers {P : Closure → Prop} : ∀ entry ∈ s.inputs, entry.2.Closures P := by
  intro entry member
  obtain ⟨l, literal⟩ := borrows.inputs entry member
  rw [literal]
  exact .literal l

theorem input {P : Closure → Prop} {name : String} {v : Value} (found : s.input? name = some v) :
    v.Closures P := by
  obtain ⟨before, after, split, -⟩ := List.lookup_eq_some_iff.mp found
  exact borrows.registers (name, v) (by simp [split])

theorem domain {P : Closure → Prop} {name : String} {d : Domain} (typeOf : Value → Option Ty)
    (op : String) {args : List Value} {v : Value} (found : s.domains.find? name = some d)
    (held : ∀ arg ∈ args, arg.Closures P) (answered : d.call typeOf op args = .ok v) :
    v.Closures P := .of_from (borrows.domains name d found typeOf op args v answered) held

omit borrows in
theorem handler {D : Discipline s} (borrows : s.Borrows D.kept) {w : Shape} {name : String}
    {handler : Handler σ} {futures : Futures} {args : List Value} {host host' : σ}
    {result : Except Fault Value} (found : s.handler? name = some handler)
    (ran : handler futures args host = (result, host')) (held : ∀ arg ∈ args, D.value w arg)
    (shares : D.Shares w futures host) :
    (∀ v, result = .ok v → D.value w v) ∧ D.Shares w futures host' := by
  have passed := borrows.handlers name handler futures args host
    (fun c => D.closure w c.body c.captured) found held shares.settled shares.kept
  rw [ran] at passed
  exact ⟨passed.1, shares.settled, passed.2⟩

/-- What a setting borrows does not depend on the document. -/
theorem of_same {t : Setting σ} (inputs : t.inputs = s.inputs) (domains : t.domains = s.domains)
    (handlers : ∀ name handler, t.handler? name = some handler → s.handler? name = some handler) :
    t.Borrows kept where
  inputs := inputs ▸ borrows.inputs
  domains := domains ▸ borrows.domains
  handlers name handler futures args host P found :=
    borrows.handlers name handler futures args host P (handlers name handler found)

end Setting.Borrows
end LayeredIR
