import Rebuild.Broadcast
import Rebuild.Bundle.Artifact
import Rebuild.Bundle.Gzip
import Rebuild.Bundle.Report
import Rebuild.Bundle.Treemap
import Rebuild.Cache.Basic
import Rebuild.Cache.Record
import Rebuild.Cache.Store
import Rebuild.CommandLine.Arguments
import Rebuild.CommandLine.Invocation
import Rebuild.CommandLine.Run
import Rebuild.CommandLine.Text
import Rebuild.Compilation.Basic
import Rebuild.Compilation.Freshness
import Rebuild.Compilation.Report
import Rebuild.Config.Basic
import Rebuild.Config.Layer
import Rebuild.Config.Load
import Rebuild.Digest.Basic
import Rebuild.Digest.Sha256
import Rebuild.Elimination.Basic
import Rebuild.Elimination.Unit
import Rebuild.Error
import Rebuild.Event
import Rebuild.Files.AtomicWrite
import Rebuild.Files.OsError
import Rebuild.Files.Tree
import Rebuild.Glob.Basic
import Rebuild.Glob.Reader
import Rebuild.Graph.Basic
import Rebuild.Imports.Package
import Rebuild.Imports.Passthrough
import Rebuild.Imports.Relative
import Rebuild.Json.Basic
import Rebuild.Json.Decode
import Rebuild.Json.Printer
import Rebuild.Json.Reader
import Rebuild.Main
import Rebuild.Path.Basic
import Rebuild.Path.Json
import Rebuild.Path.Map
import Rebuild.Path.Normal
import Rebuild.Pool.Basic
import Rebuild.Pool.Flight
import Rebuild.Pool.Task
import Rebuild.Project.Basic
import Rebuild.Proofs.Bundle.Balance
import Rebuild.Proofs.Cache.Archive
import Rebuild.Proofs.Cache.Documents
import Rebuild.Proofs.Cache.Failing
import Rebuild.Proofs.Cache.Fresh
import Rebuild.Proofs.Cache.History
import Rebuild.Proofs.Cache.Keeping
import Rebuild.Proofs.Cache.Logbook
import Rebuild.Proofs.Cache.Opening
import Rebuild.Proofs.Cache.Persistence
import Rebuild.Proofs.Cache.Stamping
import Rebuild.Proofs.Cache.Storing
import Rebuild.Proofs.Cache.Tables
import Rebuild.Proofs.Compilation.Accounts
import Rebuild.Proofs.Compilation.Closure
import Rebuild.Proofs.Compilation.Demotion
import Rebuild.Proofs.Compilation.Division
import Rebuild.Proofs.Compilation.Ending
import Rebuild.Proofs.Compilation.Interleaving
import Rebuild.Proofs.Compilation.Overflow
import Rebuild.Proofs.Compilation.Pass
import Rebuild.Proofs.Compilation.Schedule
import Rebuild.Proofs.Compilation.Twice
import Rebuild.Proofs.Config.Precedence
import Rebuild.Proofs.Config.Settings
import Rebuild.Proofs.Config.Watched
import Rebuild.Proofs.Elimination.Edges
import Rebuild.Proofs.Elimination.Marking
import Rebuild.Proofs.Elimination.Pruning
import Rebuild.Proofs.Elimination.Repeats
import Rebuild.Proofs.Elimination.Worklist
import Rebuild.Proofs.Files.Failing
import Rebuild.Proofs.Files.Lineage
import Rebuild.Proofs.Files.Places
import Rebuild.Proofs.Files.Reading
import Rebuild.Proofs.Files.Replacing
import Rebuild.Proofs.Files.Whole
import Rebuild.Proofs.Glob.Backslash
import Rebuild.Proofs.Glob.Literal
import Rebuild.Proofs.Graph.Edges
import Rebuild.Proofs.Graph.Nearest
import Rebuild.Proofs.Graph.Nodes
import Rebuild.Proofs.Graph.Refinement
import Rebuild.Proofs.Graph.Repair
import Rebuild.Proofs.Graph.Search
import Rebuild.Proofs.Graph.Spelling
import Rebuild.Proofs.Imports.Calls
import Rebuild.Proofs.Imports.Packages
import Rebuild.Proofs.Imports.Scan
import Rebuild.Proofs.Json.Compact
import Rebuild.Proofs.Json.Numerals
import Rebuild.Proofs.Json.Records
import Rebuild.Proofs.Json.Rereading
import Rebuild.Proofs.Json.Scalars
import Rebuild.Proofs.Json.Spelling
import Rebuild.Proofs.Path.Deleting
import Rebuild.Proofs.Path.Excursion
import Rebuild.Proofs.Path.Json
import Rebuild.Proofs.Path.Normal
import Rebuild.Proofs.Path.Relative
import Rebuild.Proofs.Path.Spelling
import Rebuild.Proofs.Path.Table
import Rebuild.Proofs.Path.Writing
import Rebuild.Proofs.Pool.Bounded
import Rebuild.Proofs.Pool.Crew
import Rebuild.Proofs.Pool.Handing
import Rebuild.Proofs.Pool.Ordered
import Rebuild.Proofs.Pool.Orders
import Rebuild.Proofs.Pool.Overflow
import Rebuild.Proofs.Pool.Shutdown
import Rebuild.Proofs.Pool.Sound
import Rebuild.Proofs.Pool.Steps
import Rebuild.Proofs.Pool.Threads
import Rebuild.Proofs.Pool.Underway
import Rebuild.Proofs.Sorting
import Rebuild.Proofs.SourceMap.Building
import Rebuild.Proofs.SourceMap.Delivery
import Rebuild.Proofs.SourceMap.Groups
import Rebuild.Proofs.SourceMap.Lookup
import Rebuild.Proofs.SourceMap.Mappings
import Rebuild.Proofs.SourceMap.Merging
import Rebuild.Proofs.SourceMap.Reopening
import Rebuild.Proofs.SourceMap.Restoring
import Rebuild.Proofs.SourceMap.Search
import Rebuild.Proofs.SourceMap.Sound
import Rebuild.Proofs.SourceMap.Tables
import Rebuild.Proofs.SourceMap.Vlq
import Rebuild.Proofs.SourceMap.Words
import Rebuild.Proofs.SourceMap.Writing
import Rebuild.Proofs.Text
import Rebuild.Proofs.Text.Base64
import Rebuild.Proofs.Text.Pattern
import Rebuild.Proofs.Text.Utf8
import Rebuild.Proofs.Watch.Debounce
import Rebuild.Proofs.Watch.Feed
import Rebuild.Proofs.Watch.Filter
import Rebuild.Proofs.Watch.Removal
import Rebuild.Proofs.Watch.Session
import Rebuild.Proofs.Watch.Timeline
import Rebuild.Reach
import Rebuild.SourceMap.Builder
import Rebuild.SourceMap.Document
import Rebuild.SourceMap.Fault
import Rebuild.SourceMap.Lookup
import Rebuild.SourceMap.Mapping
import Rebuild.SourceMap.Vlq
import Rebuild.Text.Base64
import Rebuild.Text.Basic
import Rebuild.Text.Decimal
import Rebuild.Text.Hex
import Rebuild.Text.Pattern
import Rebuild.Text.Utf8
import Rebuild.Text.Word
import Rebuild.Timestamp
import Rebuild.Toml.Basic
import Rebuild.Toml.Reader
import Rebuild.Watch.Change
import Rebuild.Watch.Debounce
import Rebuild.Watch.Difference
import Rebuild.Watch.Filter
import Rebuild.Watch.Session
import Rebuild.Watch.Timeline
