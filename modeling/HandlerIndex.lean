import HandlerIndex.Blob
import HandlerIndex.CommandLine.Arguments
import HandlerIndex.CommandLine.Report
import HandlerIndex.CommandLine.Usage
import HandlerIndex.Database
import HandlerIndex.Disk
import HandlerIndex.EventKey
import HandlerIndex.Extraction
import HandlerIndex.Ignore.Glob
import HandlerIndex.Ignore.Rules
import HandlerIndex.Json.Basic
import HandlerIndex.Json.Printer
import HandlerIndex.Json.Reader
import HandlerIndex.Main
import HandlerIndex.Path
import HandlerIndex.Payload
import HandlerIndex.Php.Nesting
import HandlerIndex.Php.Quoting
import HandlerIndex.Php.Reader
import HandlerIndex.Php.Token
import HandlerIndex.Php.Tree
import HandlerIndex.Settings
import HandlerIndex.Single
import HandlerIndex.Store.Handle
import HandlerIndex.Store.Queries
import HandlerIndex.Store.Search
import HandlerIndex.Store.Snapshot
import HandlerIndex.Store.Tables
import HandlerIndex.Store.Updates
import HandlerIndex.Subscription
import HandlerIndex.SyntaxNode
import HandlerIndex.Text.Blank
import HandlerIndex.Text.Digest
import HandlerIndex.Text.Lowercase
import HandlerIndex.Text.Occurrence
import HandlerIndex.Text.Utf8
import HandlerIndex.Timestamp
import HandlerIndex.Workspace.Discovery
import HandlerIndex.Workspace.Index
import HandlerIndex.Workspace.Watcher
import HandlerIndex.Workspace.Workers
import HandlerIndex.Proofs.BlobRoundTrip
import HandlerIndex.Proofs.Ascending
import HandlerIndex.Proofs.ExtractionMeaning
import HandlerIndex.Proofs.StoreRefinement
import HandlerIndex.Proofs.ServiceRuns
import HandlerIndex.Proofs.Caching
import HandlerIndex.Proofs.WorkspaceMirror
import HandlerIndex.Proofs.BlobTruncation
import HandlerIndex.Proofs.VersionGate
import HandlerIndex.Proofs.JsonSpelling
import HandlerIndex.Proofs.JsonReading
import HandlerIndex.Proofs.JsonRoundTrip
import HandlerIndex.Proofs.DiskWrites
import HandlerIndex.Proofs.SettingsRoundTrip
import HandlerIndex.Proofs.FileProspects
import HandlerIndex.Proofs.WorkerSchedules
import HandlerIndex.Proofs.FilterAgreement
import HandlerIndex.Proofs.CaseFolding
import HandlerIndex.Proofs.EventTotals
import HandlerIndex.Proofs.KeyGrammar
import HandlerIndex.Proofs.WellFormedAnswers
import HandlerIndex.Proofs.SingleRounding
import HandlerIndex.Proofs.SearchCompleteness
import HandlerIndex.Proofs.Places
import HandlerIndex.Proofs.SourceOrder
import HandlerIndex.Proofs.TornReads
import HandlerIndex.Proofs.CommitInterleavings
import HandlerIndex.Proofs.RegularFiles
import HandlerIndex.Proofs.CurrentEntries
import HandlerIndex.Proofs.WatcherSessions
import HandlerIndex.Proofs.WatchedRuns
import HandlerIndex.Proofs.KeyReading
import HandlerIndex.Proofs.Ranking
import HandlerIndex.Proofs.DiscoveryOrder
import HandlerIndex.Proofs.FileKeys
import HandlerIndex.Proofs.SurroundingCode
import HandlerIndex.Proofs.NamespaceScan
import HandlerIndex.Proofs.DamagedTables
import HandlerIndex.Proofs.AppliedChanges
import HandlerIndex.Proofs.LiteralQuoting
import HandlerIndex.Proofs.CanonicalEvents
import HandlerIndex.Proofs.GroupingLaws
import HandlerIndex.Proofs.SettingsMembers
import HandlerIndex.Proofs.SignatureReading
import HandlerIndex.Proofs.WalkRounds
