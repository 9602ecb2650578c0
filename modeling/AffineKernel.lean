import AffineKernel.Affine.Expr
import AffineKernel.Affine.Map
import AffineKernel.Build.Access
import AffineKernel.Build.Construct
import AffineKernel.Build.Context
import AffineKernel.Build.Control
import AffineKernel.Build.Drawing
import AffineKernel.Build.Error
import AffineKernel.Build.Expr
import AffineKernel.Build.Indexing
import AffineKernel.Build.Kinds
import AffineKernel.Build.Lowering
import AffineKernel.Build.Materialize
import AffineKernel.Build.Mode
import AffineKernel.Build.Promotion
import AffineKernel.DType.Basic
import AffineKernel.DType.Scale
import AffineKernel.DType.Text
import AffineKernel.Event
import AffineKernel.IR.Attribute
import AffineKernel.IR.Listing
import AffineKernel.IR.LoopBand
import AffineKernel.IR.Module
import AffineKernel.IR.OpKind
import AffineKernel.IR.Predicate
import AffineKernel.Power
import AffineKernel.Proofs.Affine.Coefficients
import AffineKernel.Proofs.Affine.Divisors
import AffineKernel.Proofs.Affine.Exactness
import AffineKernel.Proofs.Affine.Folding
import AffineKernel.Proofs.Affine.Indices
import AffineKernel.Proofs.Affine.Reading
import AffineKernel.Proofs.Affine.Slots
import AffineKernel.Proofs.Build.Access
import AffineKernel.Proofs.Build.Bindings
import AffineKernel.Proofs.Build.Constructors
import AffineKernel.Proofs.Build.Dominance
import AffineKernel.Proofs.Build.Drawing
import AffineKernel.Proofs.Build.Frame
import AffineKernel.Proofs.Build.Lockstep
import AffineKernel.Proofs.Build.Nodes
import AffineKernel.Proofs.Build.Occurrences
import AffineKernel.Proofs.Build.Outcome
import AffineKernel.Proofs.Build.Pool
import AffineKernel.Proofs.Build.Promotion
import AffineKernel.Proofs.Build.Readiness
import AffineKernel.Proofs.Build.Refusals
import AffineKernel.Proofs.Build.Regions
import AffineKernel.Proofs.Build.Runs
import AffineKernel.Proofs.Build.Sharing
import AffineKernel.Proofs.Build.Stages
import AffineKernel.Proofs.Build.Steps
import AffineKernel.Proofs.Build.Success
import AffineKernel.Proofs.Build.Terminators
import AffineKernel.Proofs.Build.Twins
import AffineKernel.Proofs.Build.Typing
import AffineKernel.Proofs.Build.Upholds
import AffineKernel.Proofs.DType.Spelling
import AffineKernel.Proofs.IR.Additions
import AffineKernel.Proofs.IR.Ancestry
import AffineKernel.Proofs.IR.Dominance
import AffineKernel.Proofs.IR.Enclosure
import AffineKernel.Proofs.IR.Growth
import AffineKernel.Proofs.IR.LoopBands
import AffineKernel.Proofs.IR.Nesting
import AffineKernel.Proofs.IR.Printing
import AffineKernel.Proofs.IR.Signature
import AffineKernel.Proofs.IR.Terminators
import AffineKernel.Proofs.IR.Tour
import AffineKernel.Proofs.IR.TypeText
import AffineKernel.Proofs.Modes.Abreast
import AffineKernel.Proofs.Modes.Agreement
import AffineKernel.Proofs.Modes.Ahead
import AffineKernel.Proofs.Modes.Coherence
import AffineKernel.Proofs.Modes.Commands
import AffineKernel.Proofs.Modes.Constructing
import AffineKernel.Proofs.Modes.Contexts
import AffineKernel.Proofs.Modes.Emission
import AffineKernel.Proofs.Modes.Evaluation
import AffineKernel.Proofs.Modes.Lockstep
import AffineKernel.Proofs.Modes.Matching
import AffineKernel.Proofs.Modes.Pairs
import AffineKernel.Proofs.Modes.Regions
import AffineKernel.Proofs.Modes.Runs
import AffineKernel.Proofs.Modes.Sessions
import AffineKernel.Proofs.Modes.Statements
import AffineKernel.Proofs.Modes.Trees
import AffineKernel.Proofs.Script.Bindings
import AffineKernel.Proofs.Script.Bodies
import AffineKernel.Proofs.Script.Buffers
import AffineKernel.Proofs.Script.Commands
import AffineKernel.Proofs.Script.Comparisons
import AffineKernel.Proofs.Script.Control
import AffineKernel.Proofs.Script.Deferral
import AffineKernel.Proofs.Script.Dominance
import AffineKernel.Proofs.Script.Invariants
import AffineKernel.Proofs.Script.Literals
import AffineKernel.Proofs.Script.Locality
import AffineKernel.Proofs.Script.Neutrality
import AffineKernel.Proofs.Script.Origins
import AffineKernel.Proofs.Script.Pool
import AffineKernel.Proofs.Script.Readiness
import AffineKernel.Proofs.Script.Sharing
import AffineKernel.Proofs.Script.Stack
import AffineKernel.Proofs.Script.Stages
import AffineKernel.Proofs.Script.Terminators
import AffineKernel.Proofs.Script.Typing
import AffineKernel.Proofs.Semantics.Activations
import AffineKernel.Proofs.Semantics.Bits
import AffineKernel.Proofs.Semantics.Calls
import AffineKernel.Proofs.Semantics.Comparison
import AffineKernel.Proofs.Semantics.Control
import AffineKernel.Proofs.Semantics.Conversions
import AffineKernel.Proofs.Semantics.Deeds
import AffineKernel.Proofs.Semantics.Definedness
import AffineKernel.Proofs.Semantics.Delivery
import AffineKernel.Proofs.Semantics.Exactness
import AffineKernel.Proofs.Semantics.Failures
import AffineKernel.Proofs.Semantics.Fitting
import AffineKernel.Proofs.Semantics.FixedPoint
import AffineKernel.Proofs.Semantics.Frames
import AffineKernel.Proofs.Semantics.Integers
import AffineKernel.Proofs.Semantics.Meaning
import AffineKernel.Proofs.Semantics.Operations
import AffineKernel.Proofs.Semantics.Origins
import AffineKernel.Proofs.Semantics.Persistence
import AffineKernel.Proofs.Semantics.Ranges
import AffineKernel.Proofs.Semantics.Reduction
import AffineKernel.Proofs.Semantics.Relocation
import AffineKernel.Proofs.Semantics.Representatives
import AffineKernel.Proofs.Semantics.Returns
import AffineKernel.Proofs.Semantics.RowMajor
import AffineKernel.Proofs.Semantics.Safety
import AffineKernel.Proofs.Semantics.Scopes
import AffineKernel.Proofs.Semantics.Soundness
import AffineKernel.Proofs.Semantics.Steps
import AffineKernel.Proofs.Semantics.Termination
import AffineKernel.Proofs.Semantics.Typing
import AffineKernel.Proofs.Simulation.Aggregates
import AffineKernel.Proofs.Simulation.Bands
import AffineKernel.Proofs.Simulation.Comparisons
import AffineKernel.Proofs.Simulation.Computation
import AffineKernel.Proofs.Simulation.Expressions
import AffineKernel.Proofs.Simulation.Functions
import AffineKernel.Proofs.Simulation.Headers
import AffineKernel.Proofs.Simulation.Indices
import AffineKernel.Proofs.Simulation.Programs
import AffineKernel.Proofs.Simulation.Reductions
import AffineKernel.Proofs.Simulation.Regions
import AffineKernel.Proofs.Simulation.Statements
import AffineKernel.Proofs.Simulation.Values
import AffineKernel.Real.Binary64
import AffineKernel.Real.Layout
import AffineKernel.Real.Shortest
import AffineKernel.Script.Command
import AffineKernel.Script.Program
import AffineKernel.Script.Query
import AffineKernel.Script.Record
import AffineKernel.Script.Session
import AffineKernel.Script.Workbench
import AffineKernel.Semantics.Arithmetic
import AffineKernel.Semantics.Buffer
import AffineKernel.Semantics.Error
import AffineKernel.Semantics.Machine
import AffineKernel.Semantics.Scalar
import AffineKernel.Table
import AffineKernel.Text.Blank
import AffineKernel.Text.Escape
import AffineKernel.Text.Quoted
