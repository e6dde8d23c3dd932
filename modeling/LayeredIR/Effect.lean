import LayeredIR.Fault
import LayeredIR.Text.Quoted
import LayeredIR.Value.Text

/-! Effects: named operations of a host, whose state they may read and change. -/
namespace LayeredIR

abbrev Handler (σ : Type) := Futures → List Value → σ → Except Fault Value × σ

structure Effects (σ : Type) where
  handlers : List (String × Handler σ)

namespace Effects

variable {σ : Type}

def empty : Effects σ := ⟨[]⟩

def register (registry : Effects σ) (name : String) (handler : Handler σ) :
    Effects σ :=
  ⟨registry.handlers.filter (fun entry => entry.1 ≠ name) ++ [(name, handler)]⟩

def find? (registry : Effects σ) (name : String) : Option (Handler σ) :=
  registry.handlers.lookup name

def contains (registry : Effects σ) (name : String) : Bool := (registry.find? name).isSome

def names (registry : Effects σ) : List String :=
  (registry.handlers.map Prod.fst).mergeSort fun a b => a ≤ b

def debug (registry : Effects σ) : String :=
  "EffectRegistry \x7b effects: " ++ Text.Quoted.quoteList registry.names ++ " \x7d"

def printName : String := "print"

def registerPrint (registry : Effects σ) (writeLine : String → σ → σ) : Effects σ :=
  registry.register printName fun futures args host =>
    (.ok .void, writeLine (String.intercalate " " (args.map (Value.display futures))) host)

end Effects

inductive Sink
  | buffer (content : String)
  | silent

namespace Sink

def writeLine (line : String) : Sink → Sink
  | .buffer content => .buffer (content ++ line ++ "\n")
  | .silent => .silent

def content : Sink → String
  | .buffer content => content
  | .silent => ""

def clear : Sink → Sink
  | .buffer _ => .buffer ""
  | .silent => .silent

end Sink
end LayeredIR
