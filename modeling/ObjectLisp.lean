import ObjectLisp.Arithmetic
import ObjectLisp.Arity
import ObjectLisp.Assoc
import ObjectLisp.ClassSpace
import ObjectLisp.CommandLine
import ObjectLisp.Counters
import ObjectLisp.Datum
import ObjectLisp.DynamicStack
import ObjectLisp.Expr
import ObjectLisp.Expr.Text
import ObjectLisp.Failure
import ObjectLisp.Files
import ObjectLisp.Frame
import ObjectLisp.Globals
import ObjectLisp.Graph.Preorder
import ObjectLisp.Heap
import ObjectLisp.Interp.Analysis
import ObjectLisp.Interp.Basic
import ObjectLisp.Interp.Behavior
import ObjectLisp.Interp.Call
import ObjectLisp.Interp.Dispatch
import ObjectLisp.Interp.Engine
import ObjectLisp.Interp.Evaluate
import ObjectLisp.Interp.Member
import ObjectLisp.Interp.Object
import ObjectLisp.Interp.Quasi
import ObjectLisp.Interp.Run
import ObjectLisp.Interp.Source
import ObjectLisp.Interp.Start
import ObjectLisp.LambdaList
import ObjectLisp.Library.Argument
import ObjectLisp.Library.Call
import ObjectLisp.Library.Lists
import ObjectLisp.Library.Objects
import ObjectLisp.Library.Texts
import ObjectLisp.Main
import ObjectLisp.MethodChain
import ObjectLisp.Number.Binary64
import ObjectLisp.Number.Decimal
import ObjectLisp.Number.Digits
import ObjectLisp.Number.Integer
import ObjectLisp.Operator
import ObjectLisp.Prelude
import ObjectLisp.Primitive
import ObjectLisp.Printer
import ObjectLisp.Proofs.Classes.Chains
import ObjectLisp.Proofs.Classes.Hierarchy
import ObjectLisp.Proofs.Classes.Linearization
import ObjectLisp.Proofs.Classes.Order
import ObjectLisp.Proofs.Classes.Synthetic
import ObjectLisp.Proofs.CommandLine.Prompt
import ObjectLisp.Proofs.Evaluation.Analysis
import ObjectLisp.Proofs.Evaluation.Backtrace
import ObjectLisp.Proofs.Evaluation.Calls
import ObjectLisp.Proofs.Evaluation.Commands
import ObjectLisp.Proofs.Evaluation.Control
import ObjectLisp.Proofs.Evaluation.Data
import ObjectLisp.Proofs.Evaluation.Discipline
import ObjectLisp.Proofs.Evaluation.Fuel
import ObjectLisp.Proofs.Evaluation.Gains
import ObjectLisp.Proofs.Evaluation.Holdings
import ObjectLisp.Proofs.Evaluation.Informed
import ObjectLisp.Proofs.Evaluation.Library
import ObjectLisp.Proofs.Evaluation.Objects
import ObjectLisp.Proofs.Evaluation.Quiet
import ObjectLisp.Proofs.Evaluation.Reach
import ObjectLisp.Proofs.Evaluation.Regime
import ObjectLisp.Proofs.Evaluation.Run
import ObjectLisp.Proofs.Evaluation.Steps
import ObjectLisp.Proofs.Frame.Archive
import ObjectLisp.Proofs.Frame.Chain
import ObjectLisp.Proofs.Frame.Pointwise
import ObjectLisp.Proofs.Frame.Recycling
import ObjectLisp.Proofs.Frame.Stores
import ObjectLisp.Proofs.Frame.WellFormed
import ObjectLisp.Proofs.Globals.Constants
import ObjectLisp.Proofs.Graph.Unfolding
import ObjectLisp.Proofs.Graph.Walk
import ObjectLisp.Proofs.Number.Exactness
import ObjectLisp.Proofs.Number.Rounding
import ObjectLisp.Proofs.Number.Shortest
import ObjectLisp.Proofs.Objects.Custody
import ObjectLisp.Proofs.Objects.Customization
import ObjectLisp.Proofs.Operators.Dispatch
import ObjectLisp.Proofs.Reading.Comments
import ObjectLisp.Proofs.Reading.Composition
import ObjectLisp.Proofs.Reading.Floats
import ObjectLisp.Proofs.Reading.Idempotence
import ObjectLisp.Proofs.Reading.Naming
import ObjectLisp.Proofs.Reading.Rereading
import ObjectLisp.Proofs.Reading.RoundTrip
import ObjectLisp.Proofs.Reading.Spelling
import ObjectLisp.Proofs.Reading.Tokens
import ObjectLisp.Proofs.Scoping.Addressing
import ObjectLisp.Proofs.Scoping.Expr
import ObjectLisp.Proofs.Scoping.Innermost
import ObjectLisp.Proofs.Scoping.Resolution
import ObjectLisp.Proofs.Scoping.Surroundings
import ObjectLisp.Proofs.Symbols.Arrangement
import ObjectLisp.Proofs.Symbols.Identity
import ObjectLisp.Proofs.Symbols.Interning
import ObjectLisp.Proofs.Symbols.Keywords
import ObjectLisp.Proofs.Symbols.Lookup
import ObjectLisp.Proofs.Symbols.Records
import ObjectLisp.Proofs.Values.Bisimilarity
import ObjectLisp.ReadTable
import ObjectLisp.Reader.All
import ObjectLisp.Reader.Machine
import ObjectLisp.Reader.Token
import ObjectLisp.Scope
import ObjectLisp.Session
import ObjectLisp.SourceLoc
import ObjectLisp.Symbol.Basic
import ObjectLisp.Symbol.Store
import ObjectLisp.Template
import ObjectLisp.Text.Blank
import ObjectLisp.Value.Basic
import ObjectLisp.Value.Equality
import ObjectLisp.Value.Printing
import ObjectLisp.Vocabulary
import ObjectLisp.Proofs.Calls.Binding
import ObjectLisp.Proofs.Calls.Grammar
import ObjectLisp.Proofs.Calls.Parsing
import ObjectLisp.Proofs.Values.Lists
import ObjectLisp.Proofs.Templates.Assembly
import ObjectLisp.Proofs.Templates.Substitution
import ObjectLisp.Proofs.Objects.Combination
import ObjectLisp.Proofs.Classes.Refusal
import ObjectLisp.Proofs.Reading.Progress
import ObjectLisp.Proofs.Objects.Atomicity
import ObjectLisp.Proofs.Objects.Stability
import ObjectLisp.Proofs.Frame.Reclamation
import ObjectLisp.Proofs.Globals.Definitions
