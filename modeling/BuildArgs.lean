import BuildArgs.FileTree
import BuildArgs.Main
import BuildArgs.Proofs.Assignment.Grammar
import BuildArgs.Proofs.Assignment.ReadBack
import BuildArgs.Proofs.Assignment.WholeValue
import BuildArgs.Proofs.Build.Dependencies
import BuildArgs.Proofs.CommandLine.Check
import BuildArgs.Proofs.Evaluation.Advance
import BuildArgs.Proofs.Evaluation.ListedValues
import BuildArgs.Proofs.Evaluation.Lookup
import BuildArgs.Proofs.Evaluation.Reevaluation
import BuildArgs.Proofs.Evaluation.ReportStability
import BuildArgs.Proofs.Evaluation.Resolution
import BuildArgs.Proofs.Evaluation.ScheduleIndependence
import BuildArgs.Proofs.Evaluation.Schedules
import BuildArgs.Proofs.Evaluation.StableReport
import BuildArgs.Proofs.Json.Compact
import BuildArgs.Proofs.Json.ReadBack
import BuildArgs.Proofs.Listing.Lines
import BuildArgs.Proofs.Listing.ShortForm
import BuildArgs.Proofs.Manifest.Validation
import BuildArgs.Proofs.Session.ActiveValues
import BuildArgs.Proofs.Session.Audit
import BuildArgs.Proofs.Session.Bookkeeping
import BuildArgs.Proofs.Session.Duplicates
import BuildArgs.Proofs.Session.Isolation
import BuildArgs.Proofs.Session.ListedArguments
import BuildArgs.Proofs.Session.Permanence
import BuildArgs.Proofs.Session.RecordedDefaults
import BuildArgs.Proofs.Session.Run
import BuildArgs.Proofs.Session.ScopeContents
import BuildArgs.Proofs.Spelling.BoundedDistance
import BuildArgs.Proofs.Spelling.Words
import BuildArgs.Proofs.Splitting
import BuildArgs.Proofs.Store.BatchOutcome
import BuildArgs.Proofs.Store.ConflictSymmetry
import BuildArgs.Proofs.Store.Context
import BuildArgs.Proofs.Store.DeclarationOrder
import BuildArgs.Proofs.Store.Preparation
import BuildArgs.Proofs.Store.Seeding
import BuildArgs.Proofs.Store.SingleDeclaration
import BuildArgs.Proofs.Store.Suggestion
import BuildArgs.Proofs.Toml.Building
import BuildArgs.Proofs.Toml.Remainder
import BuildArgs.Proofs.Toml.Rendering
import BuildArgs.Proofs.Toml.Resolving
import BuildArgs.Proofs.Toml.Splice
import BuildArgs.Proofs.Toml.Statements
import BuildArgs.Proofs.Toml.Strings
import BuildArgs.Proofs.Toml.Values
import BuildArgs.Proofs.Value.Comparison
import BuildArgs.Proofs.Value.Conversion
import BuildArgs.Value.Order
