import LoopPragma.Text.Lines
import LoopPragma.Text.Blank
import LoopPragma.Text.Substring
import LoopPragma.Text.Decimal
import LoopPragma.Json.Printer
import LoopPragma.Json.Reader
import LoopPragma.Model.Draft
import LoopPragma.Model.Defect
import LoopPragma.Nesting.Walk
import LoopPragma.Model.LoopNesting
import LoopPragma.Model.RegionNesting
import LoopPragma.Model.Program
import LoopPragma.LineSpan
import LoopPragma.Annotations.Listing
import LoopPragma.LineList
import LoopPragma.Counts
import LoopPragma.Settings
import LoopPragma.FactTable
import LoopPragma.Routines
import LoopPragma.Placement.Annotate
import LoopPragma.Document.Input
import LoopPragma.Document.Report
import LoopPragma.Main
import LoopPragma.Proofs.Placement.Descent
import LoopPragma.Proofs.Model.Validation
import LoopPragma.Proofs.Model.Checks
import LoopPragma.Proofs.Model.Requirement
import LoopPragma.Proofs.Routines.Reachability
import LoopPragma.Proofs.Facts.Marks
import LoopPragma.Proofs.Placement.Simulation
import LoopPragma.Proofs.Model.Attached
import LoopPragma.Proofs.Counts.Sum
import LoopPragma.Proofs.Placement.Carryover
import LoopPragma.Proofs.Placement.Independence
import LoopPragma.Proofs.Annotations.Sourced
import LoopPragma.Proofs.Placement.Triple
import LoopPragma.Proofs.Placement.Provenance
import LoopPragma.Proofs.Nesting.Frontier
import LoopPragma.Proofs.Counts.Total
import LoopPragma.Proofs.Placement.Credit
import LoopPragma.Proofs.Facts.Answers
import LoopPragma.Proofs.Annotations.Growth
import LoopPragma.Proofs.Placement.LoopVisits
import LoopPragma.Proofs.Placement.Handed
import LoopPragma.Proofs.Placement.Completeness
import LoopPragma.Proofs.Placement.Writing
import LoopPragma.Proofs.Placement.Gates
import LoopPragma.Proofs.Placement.Replay
import LoopPragma.Proofs.Placement.Visits
import LoopPragma.Proofs.Placement.KernelScope
import LoopPragma.Proofs.Annotations.Pieces
import LoopPragma.Proofs.Annotations.Filled
import LoopPragma.Proofs.Annotations.Placeholders
import LoopPragma.Proofs.Annotations.Braces
import LoopPragma.Proofs.Placement.Requests
import LoopPragma.Proofs.Placement.Closing
import LoopPragma.Proofs.Routines.CallPaths
import LoopPragma.Proofs.Placement.DeviceRoutines
import LoopPragma.Proofs.Placement.Course
import LoopPragma.Proofs.Placement.DanglingForms
import LoopPragma.Proofs.Placement.CoarseGate
import LoopPragma.Proofs.Placement.ParallelKernels
import LoopPragma.Proofs.Placement.Disjointness
import LoopPragma.Proofs.Model.Resolution
import LoopPragma.Proofs.Placement.Lookups
import LoopPragma.Proofs.Annotations.Merging
import LoopPragma.Proofs.Annotations.Distinct
import LoopPragma.Proofs.Placement.MergedReports
import LoopPragma.Proofs.Placement.Survey
import LoopPragma.Proofs.Placement.FailedAttempts
import LoopPragma.Proofs.Placement.NamedRequests
import LoopPragma.Proofs.Document.Shape
import LoopPragma.Proofs.Document.RoundTrip
import LoopPragma.Proofs.Nesting.Topmost
import LoopPragma.Proofs.Placement.KernelSearch
import LoopPragma.Proofs.Nesting.Preorder
import LoopPragma.Proofs.Nesting.Deepest
import LoopPragma.Proofs.Placement.Stamping
import LoopPragma.Proofs.Model.CleanNesting
import LoopPragma.Proofs.Model.Extent
import LoopPragma.Proofs.Nesting.BreadthFirst
import LoopPragma.Proofs.Model.LoopNests
import LoopPragma.Proofs.Model.AttachedTree
import LoopPragma.Proofs.Model.CycleReports
import LoopPragma.Proofs.Annotations.Grouping
import LoopPragma.Proofs.Annotations.Edits
import LoopPragma.Proofs.Annotations.Listing
import LoopPragma.Proofs.Annotations.ListedLines
import LoopPragma.Proofs.Model.Building
import LoopPragma.Proofs.Model.Surplus
