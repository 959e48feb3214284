import SelectShape.Main
import SelectShape.Select
import SelectShape.Proofs.Selection.Canonical
import SelectShape.Proofs.Shape.Normal
import SelectShape.Proofs.Shape.Same
import SelectShape.Proofs.Shape.Semilattice
import SelectShape.Proofs.Shape.Pairs
import SelectShape.Proofs.Shape.Paths
import SelectShape.Proofs.Projection.Basic
import SelectShape.Proofs.Projection.Chains
import SelectShape.Proofs.Projection.Checks
import SelectShape.Proofs.Projection.Siblings
import SelectShape.Proofs.Projection.Append
import SelectShape.Proofs.Selection.Position
import SelectShape.Proofs.Selection.Viable
import SelectShape.Proofs.Selection.Fault
import SelectShape.Proofs.Projection.Normal
import SelectShape.Proofs.Selection.Shortest
import SelectShape.Proofs.Selection.Spacing
import SelectShape.Proofs.Settings.Sources
import SelectShape.Proofs.CommandLine.Arguments
import SelectShape.Proofs.CommandLine.Limits
import SelectShape.Proofs.Selection.Nesting
import SelectShape.Proofs.Projection.Nesting
import SelectShape.Proofs.CommandLine.Nesting
import SelectShape.Proofs.Catalog.Suggestion
import SelectShape.Proofs.Catalog.Keyed
import SelectShape.Proofs.Projection.Catalogs
import SelectShape.Proofs.Shape.Uncertain
import SelectShape.Proofs.Projection.Hints
import SelectShape.Proofs.Json.Literal
import SelectShape.Proofs.Json.Layout
import SelectShape.Proofs.Shape.Document
import SelectShape.Proofs.Selection.Document
import SelectShape.Proofs.CommandLine.Trees
import SelectShape.Proofs.Projection.Wildcards
import SelectShape.Proofs.Catalog.Document
import SelectShape.Proofs.Selection.Joined
import SelectShape.Proofs.Catalog.EditDistance
import SelectShape.Proofs.Projection.Suggestions
import SelectShape.Proofs.Catalog.Relationships
import SelectShape.Proofs.Projection.Relationships
import SelectShape.Proofs.Shape.TypeText
import SelectShape.Proofs.Selection.Descent
import SelectShape.Proofs.Selection.Progress
import SelectShape.Proofs.Settings.Environments
import SelectShape.Proofs.Shape.Lines
import SelectShape.Proofs.Shape.Grouping
