import LayeredIR.Binary64
import LayeredIR.Binary64.Notation
import LayeredIR.Binary64.Rounding
import LayeredIR.Binary64.Shortest
import LayeredIR.CallStack
import LayeredIR.Cell
import LayeredIR.CheckedInt
import LayeredIR.Codec.Config
import LayeredIR.Codec.Document
import LayeredIR.Codec.Expr
import LayeredIR.Codec.Flow
import LayeredIR.Codec.Literal
import LayeredIR.Codec.Ty
import LayeredIR.Codec.Value
import LayeredIR.Config
import LayeredIR.Definitions
import LayeredIR.Document
import LayeredIR.Domain
import LayeredIR.Domain.Builtin
import LayeredIR.Domain.List
import LayeredIR.Domain.Set
import LayeredIR.Effect
import LayeredIR.Evaluate
import LayeredIR.Expr
import LayeredIR.Fault
import LayeredIR.Flow
import LayeredIR.Future
import LayeredIR.Host
import LayeredIR.Interpreter
import LayeredIR.Json
import LayeredIR.Json.Printer
import LayeredIR.Json.Reader
import LayeredIR.Json.Record
import LayeredIR.Layer
import LayeredIR.Literal
import LayeredIR.Operator
import LayeredIR.Operator.Evaluation
import LayeredIR.Plan
import LayeredIR.Proofs.Arising
import LayeredIR.Proofs.Arithmetic
import LayeredIR.Proofs.Backtraces
import LayeredIR.Proofs.Balance
import LayeredIR.Proofs.Bodies
import LayeredIR.Proofs.Bodies.Apart
import LayeredIR.Proofs.Bodies.Twins
import LayeredIR.Proofs.Borrowing
import LayeredIR.Proofs.CallLimit
import LayeredIR.Proofs.Calls
import LayeredIR.Proofs.Causes
import LayeredIR.Proofs.Cell
import LayeredIR.Proofs.Charter
import LayeredIR.Proofs.Charter.Evaluations
import LayeredIR.Proofs.Charter.Forms
import LayeredIR.Proofs.Charter.Tasks
import LayeredIR.Proofs.Charter.Worlds
import LayeredIR.Proofs.Codec.Documents
import LayeredIR.Proofs.Codec.Expressions
import LayeredIR.Proofs.Codec.Literals
import LayeredIR.Proofs.Codec.Records
import LayeredIR.Proofs.Codec.Values
import LayeredIR.Proofs.Copies
import LayeredIR.Proofs.Copies.Stage
import LayeredIR.Proofs.Copies.Standing
import LayeredIR.Proofs.Copies.Values
import LayeredIR.Proofs.DefinitionTables
import LayeredIR.Proofs.Depth
import LayeredIR.Proofs.Discipline
import LayeredIR.Proofs.Discipline.Forms
import LayeredIR.Proofs.Discipline.Snapshots
import LayeredIR.Proofs.Discipline.Tasks
import LayeredIR.Proofs.Discipline.Within
import LayeredIR.Proofs.Discipline.Worlds
import LayeredIR.Proofs.ElementTypes
import LayeredIR.Proofs.Environments
import LayeredIR.Proofs.ErrorOperands
import LayeredIR.Proofs.ExistingScopes
import LayeredIR.Proofs.Fixed
import LayeredIR.Proofs.Futures
import LayeredIR.Proofs.Graph
import LayeredIR.Proofs.Guarded
import LayeredIR.Proofs.Heap
import LayeredIR.Proofs.Instructions
import LayeredIR.Proofs.Keeping
import LayeredIR.Proofs.Knots
import LayeredIR.Proofs.Layers
import LayeredIR.Proofs.Likeness
import LayeredIR.Proofs.Likeness.Alignment
import LayeredIR.Proofs.Likeness.Blocks
import LayeredIR.Proofs.Likeness.Forms
import LayeredIR.Proofs.Likeness.Tasks
import LayeredIR.Proofs.Lookups
import LayeredIR.Proofs.NodeCache
import LayeredIR.Proofs.NodeCache.Involved
import LayeredIR.Proofs.NodeCache.Replay
import LayeredIR.Proofs.NodeCache.Simulation
import LayeredIR.Proofs.NodeCache.Stage
import LayeredIR.Proofs.NodeCache.Standing
import LayeredIR.Proofs.NodeCache.Tracks
import LayeredIR.Proofs.NodeCache.Upkeep
import LayeredIR.Proofs.Openings
import LayeredIR.Proofs.Preorder
import LayeredIR.Proofs.Protocol
import LayeredIR.Proofs.Protocol.Blocks
import LayeredIR.Proofs.Protocol.Forms
import LayeredIR.Proofs.Purity
import LayeredIR.Proofs.References
import LayeredIR.Proofs.References.Forms
import LayeredIR.Proofs.References.Memories
import LayeredIR.Proofs.References.Plans
import LayeredIR.Proofs.References.Spelling
import LayeredIR.Proofs.References.Tasks
import LayeredIR.Proofs.Resemblance
import LayeredIR.Proofs.Resemblance.Operations
import LayeredIR.Proofs.RootScope
import LayeredIR.Proofs.Rules
import LayeredIR.Proofs.Rules.Memories
import LayeredIR.Proofs.Sequences
import LayeredIR.Proofs.Sessions
import LayeredIR.Proofs.SetAlgebra
import LayeredIR.Proofs.Sets
import LayeredIR.Proofs.Syntax
import LayeredIR.Proofs.Termination
import LayeredIR.Proofs.Termination.Grounded
import LayeredIR.Proofs.Value.Alike
import LayeredIR.Proofs.Value.Built
import LayeredIR.Proofs.Value.Distinct
import LayeredIR.Proofs.Value.Elements
import LayeredIR.Proofs.Value.Parts
import LayeredIR.Proofs.Value.Recoded
import LayeredIR.Proofs.Value.Symmetry
import LayeredIR.Proofs.World.Acyclic
import LayeredIR.Proofs.World.Blind
import LayeredIR.Proofs.World.Foretold
import LayeredIR.Proofs.World.Forks
import LayeredIR.Proofs.World.InPlace
import LayeredIR.Proofs.World.Joins
import LayeredIR.Proofs.World.Labels
import LayeredIR.Proofs.World.Moves
import LayeredIR.Proofs.World.Nested
import LayeredIR.Proofs.World.Outcomes
import LayeredIR.Proofs.World.Precedence
import LayeredIR.Proofs.World.Regime
import LayeredIR.Proofs.World.Registers
import LayeredIR.Proofs.World.Runs
import LayeredIR.Proofs.World.Sequential
import LayeredIR.Proofs.World.Serial
import LayeredIR.Proofs.World.Slots
import LayeredIR.Proofs.World.Snapshots
import LayeredIR.Proofs.World.Tidy
import LayeredIR.Proofs.World.Trace
import LayeredIR.Proofs.World.Waits
import LayeredIR.Proofs.Yields
import LayeredIR.Scope
import LayeredIR.Semantics.Block
import LayeredIR.Semantics.Expression
import LayeredIR.Setting
import LayeredIR.Task
import LayeredIR.Text.Quoted
import LayeredIR.Text.Unprintable
import LayeredIR.Ty
import LayeredIR.Value
import LayeredIR.Value.Equality
import LayeredIR.Value.Text
import LayeredIR.World
