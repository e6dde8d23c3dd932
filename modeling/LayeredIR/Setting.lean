import LayeredIR.Config
import LayeredIR.Definitions
import LayeredIR.Domain.Builtin
import LayeredIR.Effect
import LayeredIR.Flow
import LayeredIR.Scope

/-! What every task of a run has in common and none changes. -/
namespace LayeredIR

structure Setting (σ : Type) where
  nodes : Nodes := .empty
  definitions : Definitions := .empty
  inputs : List (String × Value) := []
  domains : Domains := .builtin
  /-- None where no host takes part. -/
  effects : Option (Effects σ) := none
  layer : Layer := .air
  config : Config := {}
  blocks : List Block := []

namespace Setting

variable {σ : Type}

def localMutability (s : Setting σ) : Mutability :=
  if s.layer.hasMutation then .mutable else .immutable

def input? (s : Setting σ) (name : String) : Option Value := s.inputs.lookup name

def inputRegisters (s : Setting σ) : Bindings := .ofValues .mutable s.inputs

def handler? (s : Setting σ) (name : String) : Option (Handler σ) :=
  s.effects.bind fun registry => registry.find? name

def hasHandler (s : Setting σ) (name : String) : Bool := (s.handler? name).isSome

def block? (s : Setting σ) (label : String) : Option Block :=
  s.blocks.find? fun block => block.id = label

end Setting
end LayeredIR
