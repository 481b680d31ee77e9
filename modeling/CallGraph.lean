import CallGraph.Analyzer
import CallGraph.Build.Run
import CallGraph.Build.Script
import CallGraph.Cache
import CallGraph.CommandLine.Run
import CallGraph.Config
import CallGraph.Decimal.Shortest
import CallGraph.Drawing
import CallGraph.Extraction
import CallGraph.FileSystem
import CallGraph.Graph.Indexed
import CallGraph.Json.Reader
import CallGraph.Json.Writer
import CallGraph.Layout
import CallGraph.Main
import CallGraph.Plan
import CallGraph.Progress
import CallGraph.Project
import CallGraph.Projection
import CallGraph.Render
import CallGraph.Resolution
import CallGraph.Scope
import CallGraph.Scope.Document
import CallGraph.Session
import CallGraph.Snapshot.Binary
import CallGraph.Snapshot.Document
import CallGraph.SymbolTable
import CallGraph.Syntax.CallSite
import CallGraph.Syntax.Declaration
import CallGraph.Text.Uppercase
import CallGraph.Toml.Statement
import CallGraph.Proofs.Keyed
import CallGraph.Proofs.Plan
import CallGraph.Proofs.Extraction
import CallGraph.Proofs.Build.Log
import CallGraph.Proofs.Build.Round
import CallGraph.Proofs.Build.Course
import CallGraph.Proofs.Build.Nesting
import CallGraph.Proofs.Build.Store
import CallGraph.Proofs.Build.Conduct
import CallGraph.Proofs.Build.History
import CallGraph.Proofs.Build.Consistency
import CallGraph.Proofs.Build.Completeness
import CallGraph.Proofs.Build.Soundness
import CallGraph.Proofs.Build.Supersession
import CallGraph.Proofs.Build.Rebuild
import CallGraph.Proofs.Analyzer
import CallGraph.Proofs.Session.Build
import CallGraph.Proofs.Session.Stages
import CallGraph.Proofs.Snapshot.Binary
import CallGraph.Proofs.Build.Overtaking
import CallGraph.Proofs.Build.Interleaving
import CallGraph.Proofs.Text.Digits
import CallGraph.Proofs.Snapshot.Codec
import CallGraph.Proofs.Session.Restart
import CallGraph.Proofs.Build.Merge
import CallGraph.Proofs.Json.Compact
import CallGraph.Proofs.Snapshot.Document
import CallGraph.Proofs.Snapshot.Store
import CallGraph.Proofs.Session.Drawn
import CallGraph.Proofs.Session.Renewal
import CallGraph.Proofs.CommandLine.Repeat
import CallGraph.Proofs.Build.Planning
import CallGraph.Proofs.Reach
import CallGraph.Proofs.Graph
import CallGraph.Proofs.Projection
import CallGraph.Proofs.Layout.Rank
import CallGraph.Proofs.Layout.Place
import CallGraph.Proofs.Analyzer.History
import CallGraph.Proofs.Analyzer.Index
import CallGraph.Proofs.Analyzer.Kept
import CallGraph.Proofs.Analyzer.Inside
import CallGraph.Proofs.Session.Inside
import CallGraph.Proofs.SourceUnit
import CallGraph.Proofs.Syntax.Tree
import CallGraph.Proofs.Syntax.CallSite
import CallGraph.Proofs.Syntax.Declaration
import CallGraph.Proofs.Analyzer.Delegation
import CallGraph.Proofs.FileSystem.Tree
import CallGraph.Proofs.FileSystem.Write
import CallGraph.Proofs.Path.Extension
import CallGraph.Proofs.Project.Tracked
import CallGraph.Proofs.Project.Directory
import CallGraph.Proofs.Render.Dot
import CallGraph.Proofs.Drawing
import CallGraph.Proofs.Method.Identity
import CallGraph.Proofs.Method.Selector
import CallGraph.Proofs.SymbolTable.History
import CallGraph.Proofs.Graph.Indexed
import CallGraph.Proofs.Cache.Saving
