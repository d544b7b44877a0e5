import WebAtlas.Main
import WebAtlas.Service
import WebAtlas.Proofs.FileSystem.Leads
import WebAtlas.Proofs.FileSystem.RealPath
import WebAtlas.Proofs.Project.Containment
import WebAtlas.Proofs.Graph.NodeIds
import WebAtlas.Proofs.Graph.Edges
import WebAtlas.Proofs.FileSystem.WellFormed
import WebAtlas.Proofs.Walk.Contents
import WebAtlas.Proofs.Walk.Tour
import WebAtlas.Proofs.Walk.Coverage
import WebAtlas.Proofs.Walk.Sources
import WebAtlas.Proofs.Walk.Depth
import WebAtlas.Proofs.Text.Scan
import WebAtlas.Proofs.Schema.Relationships
import WebAtlas.Proofs.Schema.Pairs
import WebAtlas.Proofs.Schema.Document
import WebAtlas.Proofs.Schema.Opaque
import WebAtlas.Proofs.Graph.Truncation
import WebAtlas.Proofs.FileSystem.Subtree
import WebAtlas.Proofs.Project.Isolation
import WebAtlas.Proofs.Import.Probing
import WebAtlas.Proofs.FileSystem.Writing
import WebAtlas.Proofs.Json.RoundTrip
import WebAtlas.Proofs.CommandLine.Reports
import WebAtlas.Proofs.FileSystem.Extension
import WebAtlas.Proofs.CommandLine.Rounds
import WebAtlas.Proofs.Project.Analysis
import WebAtlas.Proofs.Repetitions
import WebAtlas.Proofs.Sorting
import WebAtlas.Proofs.Source.RelativeName
import WebAtlas.Proofs.Walk.Roots
import WebAtlas.Proofs.Route.Scan
import WebAtlas.Proofs.Component.Scan
import WebAtlas.Proofs.Metrics.Health
import WebAtlas.Proofs.Metrics.Importance
import WebAtlas.Proofs.FileSystem.Enclosed
import WebAtlas.Proofs.FileSystem.SelfLink
import WebAtlas.Proofs.Project.Reported
import WebAtlas.Proofs.Graph.Clusters
import WebAtlas.Proofs.Source.Lines
import WebAtlas.Proofs.Project.LineEnds
import WebAtlas.Proofs.Project.ListingOrder
import WebAtlas.Proofs.FileSystem.RealDirectory
import WebAtlas.Proofs.FileSystem.Ends
import WebAtlas.Proofs.Project.Passes
import WebAtlas.Proofs.Import.LastSegment
import WebAtlas.Proofs.Component.Dependencies
import WebAtlas.Proofs.Project.Ignored
import WebAtlas.Proofs.Project.Validation
import WebAtlas.Proofs.Json.Injective
import WebAtlas.Proofs.Wire
import WebAtlas.Proofs.Import.Statement
import WebAtlas.Proofs.Graph.Grouping
import WebAtlas.Proofs.Import.Alias
import WebAtlas.Proofs.Project.Candidates
import WebAtlas.Proofs.Text.Places
import WebAtlas.Proofs.Schema.Declared
import WebAtlas.Proofs.Text.Strict
import WebAtlas.Proofs.Json.Grammar
import WebAtlas.Proofs.Json.Reading
import WebAtlas.Proofs.Json.Relined
import WebAtlas.Proofs.Project.Name
import WebAtlas.Proofs.Text.Lowercase
import WebAtlas.Proofs.Route.Access
import WebAtlas.Proofs.Component.Interactive
import WebAtlas.Proofs.Walk.Cap
import WebAtlas.Proofs.Path.Steps
import WebAtlas.Proofs.Project.SourcePaths
