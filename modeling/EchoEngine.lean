import EchoEngine.Agent.Context
import EchoEngine.Agent.Memory
import EchoEngine.Agent.Store
import EchoEngine.Capability.DataAnalysis
import EchoEngine.Capability.Defaults
import EchoEngine.Capability.FindFiles
import EchoEngine.Capability.Handler
import EchoEngine.Capability.ReadFile
import EchoEngine.Capability.Registry
import EchoEngine.Capability.TextProcessing
import EchoEngine.Capability.TextTools
import EchoEngine.Capability.Workspace
import EchoEngine.Cognition.Backend
import EchoEngine.Cognition.Coherence
import EchoEngine.Cognition.Diagnostics
import EchoEngine.Cognition.Evolution
import EchoEngine.Cognition.Health
import EchoEngine.Cognition.Integration
import EchoEngine.Cognition.State
import EchoEngine.Cognition.Tracker
import EchoEngine.CommandLine.Arguments
import EchoEngine.CommandLine.Help
import EchoEngine.CommandLine.Report
import EchoEngine.CommandLine.Session
import EchoEngine.Decimal.Binary
import EchoEngine.Decimal.Layout
import EchoEngine.Decimal.Numeral
import EchoEngine.Decimal.Shortest
import EchoEngine.Engine.Basic
import EchoEngine.Engine.Execution
import EchoEngine.Error
import EchoEngine.Files.Glob
import EchoEngine.Files.Path
import EchoEngine.Files.World
import EchoEngine.Identifier
import EchoEngine.Introspection.Salience
import EchoEngine.Introspection.Scan
import EchoEngine.Introspection.Snapshot
import EchoEngine.Json.Basic
import EchoEngine.Json.Parser
import EchoEngine.Json.Printer
import EchoEngine.Json.Record
import EchoEngine.Main
import EchoEngine.Memory.FoldPlan
import EchoEngine.Memory.Graph
import EchoEngine.Memory.KeySets
import EchoEngine.ParamValue
import EchoEngine.Parameters
import EchoEngine.Proofs.Agent.Recall
import EchoEngine.Proofs.Agent.Summaries
import EchoEngine.Proofs.Capability.DataAnalysis
import EchoEngine.Proofs.Capability.Defaults
import EchoEngine.Proofs.Capability.FindFiles
import EchoEngine.Proofs.Capability.FoundPaths
import EchoEngine.Proofs.Capability.Listing
import EchoEngine.Proofs.Capability.MissingRoot
import EchoEngine.Proofs.Capability.ReadFile
import EchoEngine.Proofs.Capability.Registry
import EchoEngine.Proofs.Cognition.Checks
import EchoEngine.Proofs.Cognition.Commuting
import EchoEngine.Proofs.Cognition.History
import EchoEngine.Proofs.Cognition.Range
import EchoEngine.Proofs.Cognition.Refresh
import EchoEngine.Proofs.Cognition.Resonance
import EchoEngine.Proofs.Cognition.Status
import EchoEngine.Proofs.Cognition.Timeline
import EchoEngine.Proofs.Decimal.Layout
import EchoEngine.Proofs.Decimal.Numeral
import EchoEngine.Proofs.Decimal.Order
import EchoEngine.Proofs.Decimal.Shortest
import EchoEngine.Proofs.Engine.Execution
import EchoEngine.Proofs.Engine.Isolation
import EchoEngine.Proofs.Engine.Memories
import EchoEngine.Proofs.Engine.Runs
import EchoEngine.Proofs.Engine.Thoughts
import EchoEngine.Proofs.FirstKind
import EchoEngine.Proofs.Introspection.Relative
import EchoEngine.Proofs.Introspection.Scan
import EchoEngine.Proofs.Introspection.Score
import EchoEngine.Proofs.Introspection.Snapshot
import EchoEngine.Proofs.Memory.EdgeOrigins
import EchoEngine.Proofs.Memory.Edges
import EchoEngine.Proofs.Memory.Extension
import EchoEngine.Proofs.Memory.FileOrder
import EchoEngine.Proofs.Memory.FirstMeeting
import EchoEngine.Proofs.Memory.FoldPlan
import EchoEngine.Proofs.Memory.Growth
import EchoEngine.Proofs.Memory.Halves
import EchoEngine.Proofs.Memory.Hyperedges
import EchoEngine.Proofs.Memory.Keys
import EchoEngine.Proofs.Memory.Kinds
import EchoEngine.Proofs.Memory.Linear
import EchoEngine.Proofs.Memory.Lookup
import EchoEngine.Proofs.Memory.Parents
import EchoEngine.Proofs.Memory.Partners
import EchoEngine.Proofs.Memory.Prefixes
import EchoEngine.Proofs.Memory.Recording
import EchoEngine.Proofs.Memory.Refold
import EchoEngine.Proofs.Memory.Replay
import EchoEngine.Proofs.Memory.TopicEdges
import EchoEngine.Proofs.Memory.WellFormed
import EchoEngine.Proofs.Parameters
import EchoEngine.Proofs.SettingsFile
import EchoEngine.Proofs.Text.Lines
import EchoEngine.Proofs.Text.Terms
import EchoEngine.Proofs.Text.Topics
import EchoEngine.Proofs.Toml.Documents
import EchoEngine.Proofs.Toml.Strings
import EchoEngine.Proofs.Toml.Values
import EchoEngine.Scalar
import EchoEngine.Settings
import EchoEngine.SettingsFile
import EchoEngine.Task
import EchoEngine.Text.Blank
import EchoEngine.Text.CaseMap
import EchoEngine.Text.CaseTable
import EchoEngine.Text.Lines
import EchoEngine.Text.Sentences
import EchoEngine.Text.Terms
import EchoEngine.Timestamp
import EchoEngine.Toml.Document
import EchoEngine.Toml.Parser
import EchoEngine.Toml.Printer
