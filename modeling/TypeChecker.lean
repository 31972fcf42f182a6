import TypeChecker.Assign.Basic
import TypeChecker.Assign.Direction
import TypeChecker.Bounded
import TypeChecker.Bounds
import TypeChecker.Checking.Aggregate
import TypeChecker.Checking.Apply
import TypeChecker.Checking.Binding
import TypeChecker.Checking.Branching
import TypeChecker.Checking.Candidates
import TypeChecker.Checking.Checker
import TypeChecker.Checking.Context
import TypeChecker.Checking.Coverage
import TypeChecker.Checking.Destructure
import TypeChecker.Checking.Inject
import TypeChecker.Checking.Number
import TypeChecker.Checking.Reference
import TypeChecker.Checking.Settle
import TypeChecker.Config.Limits
import TypeChecker.Config.Reader
import TypeChecker.Config.Toml.Reader
import TypeChecker.Config.Toml.Scalar
import TypeChecker.Config.Toml.Value
import TypeChecker.Core
import TypeChecker.Draft
import TypeChecker.Fault.Basic
import TypeChecker.Fault.Code
import TypeChecker.Fault.Message
import TypeChecker.Fault.Report
import TypeChecker.Inference.Attempt
import TypeChecker.Inference.Basic
import TypeChecker.Names
import TypeChecker.Number.Binary64
import TypeChecker.Number.Decimal
import TypeChecker.Number.Literal
import TypeChecker.Number.Width
import TypeChecker.Program.Body
import TypeChecker.Program.Check
import TypeChecker.Program.ImportGraph
import TypeChecker.Proofs.Assign.Admission
import TypeChecker.Proofs.Assign.Between
import TypeChecker.Proofs.Assign.Bindings
import TypeChecker.Proofs.Assign.Closed
import TypeChecker.Proofs.Assign.Depth
import TypeChecker.Proofs.Assign.Evolution
import TypeChecker.Proofs.Assign.ExactMatch
import TypeChecker.Proofs.Assign.Frame
import TypeChecker.Proofs.Assign.Inferred
import TypeChecker.Proofs.Assign.Instances
import TypeChecker.Proofs.Assign.Likeness
import TypeChecker.Proofs.Assign.Mirror
import TypeChecker.Proofs.Assign.Monotone
import TypeChecker.Proofs.Assign.Occurrences
import TypeChecker.Proofs.Assign.Order
import TypeChecker.Proofs.Assign.Parts
import TypeChecker.Proofs.Assign.Preorder
import TypeChecker.Proofs.Assign.Results
import TypeChecker.Proofs.Assign.Rules
import TypeChecker.Proofs.Assign.Steps
import TypeChecker.Proofs.Assign.Uses
import TypeChecker.Proofs.Assign.Variance
import TypeChecker.Proofs.Assign.WithinBounds
import TypeChecker.Proofs.Bundles
import TypeChecker.Proofs.Checking.Accepted
import TypeChecker.Proofs.Checking.Boxed
import TypeChecker.Proofs.Checking.BundleLiterals
import TypeChecker.Proofs.Checking.Combinations
import TypeChecker.Proofs.Checking.DefaultedCalls
import TypeChecker.Proofs.Checking.KnownTypes
import TypeChecker.Proofs.Checking.Lifted
import TypeChecker.Proofs.Checking.LiftedOrder
import TypeChecker.Proofs.Checking.Literals
import TypeChecker.Proofs.Checking.Locals
import TypeChecker.Proofs.Checking.MarkedDrafts
import TypeChecker.Proofs.Checking.MarkedTerms
import TypeChecker.Proofs.Checking.Marks
import TypeChecker.Proofs.Checking.MultiSwitches
import TypeChecker.Proofs.Checking.Names
import TypeChecker.Proofs.Checking.OpenBoxes
import TypeChecker.Proofs.Checking.Overloads
import TypeChecker.Proofs.Checking.Rejected
import TypeChecker.Proofs.Checking.Settled
import TypeChecker.Proofs.Checking.StandardDrafts
import TypeChecker.Proofs.Checking.StandardTerms
import TypeChecker.Proofs.Checking.Standards
import TypeChecker.Proofs.Checking.Switches
import TypeChecker.Proofs.Ensures
import TypeChecker.Proofs.Formers
import TypeChecker.Proofs.Number.Reading
import TypeChecker.Proofs.Program.Bodies
import TypeChecker.Proofs.Program.BuiltGraphs
import TypeChecker.Proofs.Program.Failures
import TypeChecker.Proofs.Program.ImportCircles
import TypeChecker.Proofs.Program.ImportOrder
import TypeChecker.Proofs.Program.Intake
import TypeChecker.Proofs.Program.NamedOrder
import TypeChecker.Proofs.Program.Offers
import TypeChecker.Proofs.Program.OverloadSets
import TypeChecker.Proofs.Program.ProductSizes
import TypeChecker.Proofs.Program.Progress
import TypeChecker.Proofs.Registry.Circles
import TypeChecker.Proofs.Registry.Collected
import TypeChecker.Proofs.Registry.Completing
import TypeChecker.Proofs.Registry.CoreTypes
import TypeChecker.Proofs.Registry.Defaults
import TypeChecker.Proofs.Registry.FullReferences
import TypeChecker.Proofs.Registry.ParameterScope
import TypeChecker.Proofs.Registry.Reading
import TypeChecker.Proofs.Registry.Registered
import TypeChecker.Proofs.Registry.Relocation
import TypeChecker.Proofs.Registry.Reordering
import TypeChecker.Proofs.Registry.Reports
import TypeChecker.Proofs.Registry.Rounds
import TypeChecker.Proofs.Registry.Stored
import TypeChecker.Proofs.Registry.Validated
import TypeChecker.Proofs.Replacing
import TypeChecker.Proofs.Runs
import TypeChecker.Proofs.Schemas
import TypeChecker.Proofs.Slots
import TypeChecker.Proofs.Tables
import TypeChecker.Proofs.Unboxing.Chains
import TypeChecker.Proofs.Unboxing.Endings
import TypeChecker.Proofs.Unboxing.Hidden
import TypeChecker.Proofs.Unboxing.Patterns
import TypeChecker.Proofs.Unboxing.Shapes
import TypeChecker.Registry.Basic
import TypeChecker.Registry.Build
import TypeChecker.Registry.Collect
import TypeChecker.Registry.Cycles
import TypeChecker.Registry.Params
import TypeChecker.Registry.Register
import TypeChecker.Registry.Tags
import TypeChecker.Registry.Validity
import TypeChecker.Resolve.Convert
import TypeChecker.Resolve.Written
import TypeChecker.Schema
import TypeChecker.Scope
import TypeChecker.Source.Expr
import TypeChecker.Source.Item
import TypeChecker.Source.Name
import TypeChecker.Source.TypeExpr
import TypeChecker.Span
import TypeChecker.Symbol
import TypeChecker.Table
import TypeChecker.Term
import TypeChecker.Text.Blank
import TypeChecker.Text.Letter
import TypeChecker.Text.Order
import TypeChecker.Text.Position
import TypeChecker.Text.Split
import TypeChecker.Ty.Basic
import TypeChecker.Ty.Printer
import TypeChecker.Ty.Subst
import TypeChecker.Unboxing
import TypeChecker.Variance.Basic
import TypeChecker.Variance.Usage
