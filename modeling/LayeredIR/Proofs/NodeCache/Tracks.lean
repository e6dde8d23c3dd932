import LayeredIR.Proofs.Lookups
import LayeredIR.Proofs.NodeCache.Stage

/-! Heaps of a run with the node cache and of one without. Scopes that stand for each other bind the
same names to values that stand for each other. Of the root scopes this is asked for some names
only, those that the code at hand may look up: between the times at which a node is evaluated, the
root scope may be given other names. -/
namespace LayeredIR

def Bindings.AllLiteral (bindings : Bindings) : Prop :=
  ∀ entry ∈ bindings, ∃ l, entry.2.value = .ofLiteral l

theorem Bindings.AllLiteral.set {bindings : Bindings} (literal : bindings.AllLiteral)
    (name : String) (l : Literal) (mutability : Mutability) :
    (bindings.set name ⟨.ofLiteral l, mutability⟩).AllLiteral := by
  intro entry member
  rcases mem_set member with rfl | old
  · exact ⟨l, rfl⟩
  · exact literal entry old

def Binding.SameLiteral (b b' : Binding) : Prop :=
  b.value = b'.value ∧ ∃ l, b.value = .ofLiteral l

namespace Heap

def RootsAgree (reads : String → Prop) (heap heap' : Heap) : Prop :=
  ∃ bindings bindings', heap.get? rootScope = some ⟨bindings, none⟩ ∧
    heap'.get? rootScope = some ⟨bindings', none⟩ ∧
    ∀ name, reads name →
      Option.Rel Binding.SameLiteral (bindings.find? name) (bindings'.find? name)

theorem findWithin_root {heap : Heap} {bindings : Bindings}
    (root : heap.get? rootScope = some ⟨bindings, none⟩) (name : String) (fuel : Nat) :
    heap.findWithin name (fuel + 1) rootScope = (bindings.find? name).map (rootScope, ·) := by
  simp only [findWithin, root]
  cases bindings.find? name <;> rfl

theorem lookup_root {heap : Heap} {bindings : Bindings}
    (root : heap.get? rootScope = some ⟨bindings, none⟩) (name : String) :
    heap.lookup rootScope name = (bindings.find? name).map Binding.value := by
  unfold lookup find?
  rw [findWithin_root root, Option.map_map]
  rfl

namespace RootsAgree

variable {reads reads' : String → Prop} {heap heap' later later' : Heap}

theorem self {bindings : Bindings} (root : heap.get? rootScope = some ⟨bindings, none⟩)
    (literal : bindings.AllLiteral) (reads : String → Prop) : heap.RootsAgree reads heap := by
  refine ⟨bindings, bindings, root, root, fun name _ => ?_⟩
  cases found : bindings.find? name with
  | none => exact .none
  | some binding => exact .some ⟨rfl, literal _ (Bindings.mem_of_find? found)⟩

/-- A name is defined that has the same value already, or that is not asked for. -/
theorem define {bindings : Bindings} (root : heap.get? rootScope = some ⟨bindings, none⟩)
    (literal : bindings.AllLiteral) {name : String} {l : Literal}
    (kept : reads name → heap.lookup rootScope name = some (.ofLiteral l))
    (mutability : Mutability) :
    heap.RootsAgree reads (heap.define rootScope name ⟨.ofLiteral l, mutability⟩) := by
  refine ⟨bindings, bindings.set name ⟨.ofLiteral l, mutability⟩, root, ?_, fun other read => ?_⟩
  · rw [get?_define, if_pos rfl, root]
    rfl
  · rw [Bindings.find?_set]
    split
    · next same =>
      subst same
      have held := kept read
      rw [lookup_root root] at held
      obtain ⟨binding, found, value⟩ := Option.map_eq_some_iff.mp held
      rw [found]
      exact .some ⟨value, l, value⟩
    · obtain ⟨_, _, own, own', agree⟩ := self root literal reads
      cases root.symm.trans own
      cases root.symm.trans own'
      exact agree other read

theorem imp (agree : heap.RootsAgree reads heap') (fewer : ∀ name, reads' name → reads name) :
    heap.RootsAgree reads' heap' := by
  obtain ⟨bindings, bindings', root, root', same⟩ := agree
  exact ⟨bindings, bindings', root, root', fun name read => same name (fewer name read)⟩

theorem trans (first : heap.RootsAgree reads later) (second : later.RootsAgree reads heap') :
    heap.RootsAgree reads heap' := by
  obtain ⟨bindings, middle, root, around, same⟩ := first
  obtain ⟨middle', bindings', around', root', same'⟩ := second
  cases around.symm.trans around'
  refine ⟨bindings, bindings', root, root', fun name read => ?_⟩
  have pair := same name read
  have pair' := same' name read
  generalize bindings.find? name = own, middle.find? name = between,
    bindings'.find? name = own' at pair pair' ⊢
  cases pair with
  | none =>
    cases pair'
    exact .none
  | some equal =>
    cases pair' with
    | some equal' => exact .some ⟨equal.1.trans equal'.1, equal.2⟩

theorem congr (agree : heap.RootsAgree reads heap')
    (same : later.get? rootScope = heap.get? rootScope)
    (same' : later'.get? rootScope = heap'.get? rootScope) : later.RootsAgree reads later' := by
  obtain ⟨bindings, bindings', root, root', names⟩ := agree
  exact ⟨bindings, bindings', same.trans root, same'.trans root', names⟩

theorem after {n m : Nat} (agree : heap.RootsAgree reads heap') (first : heap.Extends n later)
    (second : heap'.Extends m later') (fence : rootScope < n) (fence' : rootScope < m) :
    later.RootsAgree reads later' :=
  agree.congr (first.same rootScope fence) (second.same rootScope fence')

end RootsAgree

end Heap

namespace NodeCache

section Tracks

variable {σ : Type} (s : Setting σ) (code : Arg → Prop) (reads : String → Prop)

structure Tracks (scopes : ScopeId → ScopeId → Prop) (heap heap' : Heap) : Prop where
  inner : ∀ a b, scopes a b → a ≠ rootScope →
    Option.Rel (Scope.Alike ((resemblanceOf s code).value scopes) scopes a b) (heap.get? a)
      (heap'.get? b)
  within : ∀ a b, scopes a b → a < heap.size ∧ b < heap'.size
  level : ∀ a b, scopes a b → (a = rootScope ↔ b = rootScope)
  roots : heap.RootsAgree reads heap'

end Tracks

namespace Tracks

variable {σ : Type} {s : Setting σ} {code code' : Arg → Prop} {reads reads' : String → Prop}
  {scopes scopes' : ScopeId → ScopeId → Prop} {heap heap' later later' : Heap}

/-- The root scopes alone. -/
theorem of_roots (agree : heap.RootsAgree reads heap') :
    Tracks s code reads (fun a b => a = rootScope ∧ b = rootScope) heap heap' where
  inner := by
    rintro a b ⟨rfl, rfl⟩ inner
    exact absurd rfl inner
  within := by
    obtain ⟨bindings, bindings', root, root', -⟩ := agree
    rintro a b ⟨rfl, rfl⟩
    exact ⟨Heap.lt_size_of_get? root, Heap.lt_size_of_get? root'⟩
  level := by
    rintro a b ⟨rfl, rfl⟩
    exact Iff.rfl
  roots := agree

variable (tracks : Tracks s code reads scopes heap heap')
include tracks

theorem imp (more : ∀ arg, code arg → code' arg) (roots : heap.RootsAgree reads' heap') :
    Tracks s code' reads' scopes heap heap' where
  inner a b same inner :=
    rel_imp (fun _ _ alike => alike.mono (fun _ _ => value_imp more) fun _ _ around => around)
      (tracks.inner a b same inner)
  within := tracks.within
  level := tracks.level
  roots := roots

theorem root_lt : rootScope < heap.size ∧ rootScope < heap'.size := by
  obtain ⟨_, _, root, root', -⟩ := tracks.roots
  exact ⟨Heap.lt_size_of_get? root, Heap.lt_size_of_get? root'⟩

/-- Of what is found under a name, the values stand for each other; the scopes that bind it need not
be told. -/
theorem findWithin {name : String} (read : reads name) {a b : ScopeId} {fuel fuel' : Nat}
    (enough : a < fuel) (enough' : b < fuel') (same : scopes a b) :
    Option.Rel (fun p p' => (resemblanceOf s code).value scopes p.2.value p'.2.value)
      (heap.findWithin name fuel a) (heap'.findWithin name fuel' b) := by
  induction fuel generalizing fuel' a b with
  | zero => exact absurd enough (Nat.not_lt_zero a)
  | succ fuel ih =>
    obtain ⟨fuel', rfl⟩ := Nat.exists_eq_succ_of_ne_zero (Nat.ne_zero_of_lt enough')
    by_cases root : a = rootScope
    · obtain rfl := (tracks.level a b same).mp root
      subst root
      obtain ⟨bindings, bindings', held, held', agree⟩ := tracks.roots
      have found := agree name read
      rw [Heap.findWithin_root held, Heap.findWithin_root held']
      generalize bindings.find? name = own, bindings'.find? name = own' at found ⊢
      cases found with
      | none => exact .none
      | @some b b' pair =>
        obtain ⟨equal, l, literal⟩ := pair
        refine .some ?_
        change (resemblanceOf s code).value scopes b.value b'.value
        rw [← equal, literal]
        exact (resemblanceOf s code).value_literal scopes l
    · have pair := tracks.inner a b same root
      simp only [Heap.findWithin]
      generalize heap.get? a = scope, heap'.get? b = scope' at pair ⊢
      cases pair with
      | none => exact .none
      | @some scope scope' alike =>
        have bindings := alike.bindings.find? name
        have parents := alike.parent
        simp only
        generalize scope.bindings.find? name = own, scope'.bindings.find? name = own'
          at bindings ⊢
        generalize scope.parent = around, scope'.parent = around' at parents ⊢
        cases bindings with
        | some pair => exact .some pair.1
        | none =>
          cases parents with
          | none => exact .none
          | some parents =>
            obtain ⟨same', older, older'⟩ := parents
            exact ih (Nat.lt_of_lt_of_le older (Nat.le_of_lt_succ enough))
              (Nat.lt_of_lt_of_le older' (Nat.le_of_lt_succ enough')) same'

theorem lookup {name : String} (read : reads name) {a b : ScopeId} (same : scopes a b) :
    Option.Rel ((resemblanceOf s code).value scopes) (heap.lookup a name)
      (heap'.lookup b name) := by
  have found := tracks.findWithin read (Nat.lt_succ_self a) (Nat.lt_succ_self b) same
  unfold Heap.lookup Heap.find?
  generalize heap.findWithin name (a + 1) a = p, heap'.findWithin name (b + 1) b = p' at found ⊢
  cases found with
  | none => exact .none
  | some values => exact .some values

/-- A new scope on either side, which stands for the other. -/
theorem add {bindings bindings' : Bindings} {parent parent' : Option ScopeId}
    (entries : Bindings.Alike ((resemblanceOf s code).value scopes) bindings bindings')
    (parents : Option.Rel scopes parent parent') :
    Tracks s code reads (fun a b => scopes a b ∨ a = heap.size ∧ b = heap'.size)
      (heap.add bindings parent).2 (heap'.add bindings' parent').2 where
  inner := by
    have wider (a b : ScopeId) (same : scopes a b) :
        scopes a b ∨ a = heap.size ∧ b = heap'.size := .inl same
    intro a b either inner
    rw [Heap.get?_add, Heap.get?_add]
    rcases either with same | ⟨rfl, rfl⟩
    · obtain ⟨bound, bound'⟩ := tracks.within a b same
      rw [if_neg (Nat.ne_of_lt bound), if_neg (Nat.ne_of_lt bound')]
      exact rel_imp (fun _ _ alike => alike.mono (fun _ _ => value_mono wider) wider)
        (tracks.inner a b same inner)
    · rw [if_pos rfl, if_pos rfl]
      refine .some ⟨entries.mono fun _ _ => value_mono wider, ?_⟩
      exact rel_imp (fun p q around => ⟨.inl around, tracks.within p q around⟩) parents
  within := by
    intro a b either
    simp only [Heap.size_add]
    rcases either with same | ⟨rfl, rfl⟩
    · obtain ⟨bound, bound'⟩ := tracks.within a b same
      exact ⟨Nat.lt_succ_of_lt bound, Nat.lt_succ_of_lt bound'⟩
    · exact ⟨Nat.lt_succ_self _, Nat.lt_succ_self _⟩
  level := by
    rintro a b (same | ⟨rfl, rfl⟩)
    · exact tracks.level a b same
    · exact iff_of_false (Nat.ne_of_gt tracks.root_lt.1) (Nat.ne_of_gt tracks.root_lt.2)
  roots := tracks.roots.after (.add _ _ _ (Nat.le_refl _)) (.add _ _ _ (Nat.le_refl _))
    tracks.root_lt.1 tracks.root_lt.2

/-- Scopes that stand for each other alone are given a name. -/
theorem define {a b : ScopeId} (inner : a ≠ rootScope) (inner' : b ≠ rootScope)
    (only : ∀ a' b', scopes a' b' → (a = a' ↔ b = b')) (name : String) (mutability : Mutability)
    {v v' : Value} (values : (resemblanceOf s code).value scopes v v') :
    Tracks s code reads scopes (heap.define a name ⟨v, mutability⟩)
      (heap'.define b name ⟨v', mutability⟩) where
  inner := by
    intro a' b' same other
    have pair := tracks.inner a' b' same other
    rw [Heap.get?_define, Heap.get?_define]
    by_cases here : a = a'
    · rw [if_pos here, if_pos ((only a' b' same).mp here)]
      generalize heap.get? a' = scope, heap'.get? b' = scope' at pair ⊢
      cases pair with
      | none => exact .none
      | some alike => exact .some ⟨alike.bindings.set name mutability values, alike.parent⟩
    · rw [if_neg here, if_neg fun there => here ((only a' b' same).mpr there)]
      exact pair
  within := by
    simp only [Heap.size_define]
    exact tracks.within
  level := tracks.level
  roots := tracks.roots.congr ((Heap.get?_define ..).trans (if_neg inner))
    ((Heap.get?_define ..).trans (if_neg inner'))

/-- The first heap goes on, and leaves the scopes that stand for others as they are. -/
theorem extends_ {n : Nat} (positive : rootScope < n) (bound : ∀ a b, scopes a b → a < n)
    (older : heap.Extends n later) : Tracks s code reads scopes later heap' where
  inner a b same inner := by
    rw [older.same a (bound a b same)]
    exact tracks.inner a b same inner
  within a b same :=
    ⟨Nat.lt_of_lt_of_le (bound a b same) older.size, (tracks.within a b same).2⟩
  level := tracks.level
  roots := tracks.roots.congr (older.same rootScope positive) rfl

/-- A name is defined in the first root scope. -/
theorem define_root {name : String} {binding : Binding}
    (agree : (heap.define rootScope name binding).RootsAgree reads heap') :
    Tracks s code reads scopes (heap.define rootScope name binding) heap' where
  inner a b same inner := by
    rw [Heap.get?_define, if_neg (Ne.symm inner)]
    exact tracks.inner a b same inner
  within := by
    simp only [Heap.size_define]
    exact tracks.within
  level := tracks.level
  roots := agree

/-- What two runs make at different times, taken together. -/
theorem join (further : Tracks s code reads' scopes' heap later')
    (newer : heap'.Extends heap'.size later') :
    Tracks s code reads (fun a b => scopes a b ∨ scopes' a b) heap later' where
  inner := by
    have wider (a b : ScopeId) (same : scopes a b) : scopes a b ∨ scopes' a b := .inl same
    have wider' (a b : ScopeId) (same : scopes' a b) : scopes a b ∨ scopes' a b := .inr same
    rintro a b (same | same) inner
    · rw [newer.same b (tracks.within a b same).2]
      exact rel_imp (fun _ _ alike => alike.mono (fun _ _ => value_mono wider) wider)
        (tracks.inner a b same inner)
    · exact rel_imp (fun _ _ alike => alike.mono (fun _ _ => value_mono wider') wider')
        (further.inner a b same inner)
  within := by
    rintro a b (same | same)
    · obtain ⟨bound, bound'⟩ := tracks.within a b same
      exact ⟨bound, Nat.lt_of_lt_of_le bound' newer.size⟩
    · exact further.within a b same
  level a b either := either.elim (tracks.level a b) (further.level a b)
  roots := tracks.roots.congr rfl (newer.same rootScope tracks.root_lt.2)

/-- Where the root scopes are the same, so are all the scopes that stand for each other. -/
theorem alike {bindings : Bindings} (root : heap.get? rootScope = some ⟨bindings, none⟩)
    (root' : heap'.get? rootScope = some ⟨bindings, none⟩) (literal : bindings.AllLiteral) :
    Heap.Alike ((resemblanceOf s code).value scopes) scopes heap heap' := by
  intro a b same
  by_cases inner : a = rootScope
  · obtain rfl := (tracks.level a b same).mp inner
    rw [inner, root, root']
    refine .some ⟨List.forall₂_same.mpr fun entry member => ⟨rfl, ?_, rfl⟩, .none⟩
    obtain ⟨l, held⟩ := literal entry member
    rw [held]
    exact (resemblanceOf s code).value_literal scopes l
  · exact tracks.inner a b same inner

end Tracks

end NodeCache
end LayeredIR
