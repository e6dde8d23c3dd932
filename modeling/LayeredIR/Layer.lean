/-! The four layers, in the order of what they allow. Each layer is a set of policies: which forms
may run, whether bindings can be rebound, whether tasks can be forked, and how closures capture. -/
namespace LayeredIR

inductive Layer
  /-- Primitive recursive expressions. -/
  | air
  /-- Adds closures and fixpoints. -/
  | cir
  /-- Adds sequencing, rebinding, loops and effects. -/
  | eir
  /-- Control-flow graphs, with forked tasks. -/
  | lir
  deriving DecidableEq, Inhabited, Repr

namespace Layer

def all : List Layer := [.air, .cir, .eir, .lir]

def rank : Layer → Nat
  | .air => 0
  | .cir => 1
  | .eir => 2
  | .lir => 3

instance : LT Layer := ⟨fun a b => a.rank < b.rank⟩

instance (a b : Layer) : Decidable (a < b) := inferInstanceAs (Decidable (a.rank < b.rank))

def below (layer : Layer) : List Layer := all.filter fun other => other < layer

def name : Layer → String
  | .air => "air"
  | .cir => "cir"
  | .eir => "eir"
  | .lir => "lir"

def ofName? (name : String) : Option Layer := all.find? fun layer => layer.name = name

def hasClosures (layer : Layer) : Bool := layer ≠ .air

def hasEffects (layer : Layer) : Bool := layer = .eir || layer = .lir

def hasMutation (layer : Layer) : Bool := layer = .eir || layer = .lir

def hasFork (layer : Layer) : Bool := layer = .lir

/-- Whether a closure takes a read-only copy of its scope along. A register frame changes after
the closure is made, and a closure may travel to another task, so neither may see the other. -/
def copiesCaptures (layer : Layer) : Bool := layer = .lir

end Layer
end LayeredIR
