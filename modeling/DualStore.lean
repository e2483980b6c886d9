import DualStore.Backlog
import DualStore.Batch
import DualStore.Body
import DualStore.Bytes
import DualStore.Collection.SortedMap
import DualStore.Collection.SortedSet
import DualStore.Command.Flags
import DualStore.Command.Input
import DualStore.Command.Run
import DualStore.Config
import DualStore.Decimal.Binary64
import DualStore.Decimal.Format
import DualStore.Decimal.Shortest
import DualStore.Error
import DualStore.Grammar.Fault
import DualStore.Grammar.Pattern
import DualStore.Grammar.Prologue
import DualStore.Grammar.Query
import DualStore.Grammar.Reference
import DualStore.Grammar.Scan
import DualStore.Grammar.Statement
import DualStore.Grammar.Token
import DualStore.Grammar.Tree
import DualStore.Grammar.Update
import DualStore.Http.Message
import DualStore.Http.Target
import DualStore.Index.Basic
import DualStore.Index.Fault
import DualStore.Index.Memory
import DualStore.Index.Pinned
import DualStore.Index.Request
import DualStore.Index.Results
import DualStore.Index.Server
import DualStore.Invalid
import DualStore.Json.Read
import DualStore.Json.Value
import DualStore.Json.Write
import DualStore.LinkedData.Context
import DualStore.LinkedData.Fault
import DualStore.LinkedData.Read
import DualStore.LinkedData.Write
import DualStore.Main
import DualStore.Plan
import DualStore.Proofs.AnsweredTerms
import DualStore.Proofs.AppliedBatches
import DualStore.Proofs.Backlogs
import DualStore.Proofs.BatchOrders
import DualStore.Proofs.BuiltTerms
import DualStore.Proofs.Checks
import DualStore.Proofs.Choices
import DualStore.Proofs.Collections
import DualStore.Proofs.Contexts
import DualStore.Proofs.Convergence
import DualStore.Proofs.Coverage
import DualStore.Proofs.Dictionaries
import DualStore.Proofs.Differences
import DualStore.Proofs.DistinctValues
import DualStore.Proofs.DocumentRoundTrip
import DualStore.Proofs.Effects
import DualStore.Proofs.GraphLists
import DualStore.Proofs.GraphOperations
import DualStore.Proofs.IndexCalls
import DualStore.Proofs.Interruptions
import DualStore.Proofs.Keys
import DualStore.Proofs.LateChecks
import DualStore.Proofs.Lexing
import DualStore.Proofs.Lifecycle
import DualStore.Proofs.LinkedNodes
import DualStore.Proofs.LinkedValues
import DualStore.Proofs.ListedGraphs
import DualStore.Proofs.Lockstep
import DualStore.Proofs.Mailboxes
import DualStore.Proofs.MirroredAnswers
import DualStore.Proofs.MirroredSolutions
import DualStore.Proofs.Mirroring
import DualStore.Proofs.NamedBlocks
import DualStore.Proofs.NestedNodes
import DualStore.Proofs.Operations
import DualStore.Proofs.Outcomes
import DualStore.Proofs.ParsedRequests
import DualStore.Proofs.Planning
import DualStore.Proofs.PrintedQueries
import DualStore.Proofs.PrintedRequests
import DualStore.Proofs.PrintedTriples
import DualStore.Proofs.QueryAnswers
import DualStore.Proofs.QueuedScopes
import DualStore.Proofs.Races
import DualStore.Proofs.ReadNodes
import DualStore.Proofs.ReadQueries
import DualStore.Proofs.Rebuilding
import DualStore.Proofs.RebuiltGraphs
import DualStore.Proofs.ReferenceParts
import DualStore.Proofs.References
import DualStore.Proofs.RefusedRequests
import DualStore.Proofs.Registries
import DualStore.Proofs.RestoredScopes
import DualStore.Proofs.Runs
import DualStore.Proofs.Scans
import DualStore.Proofs.Separation
import DualStore.Proofs.ServiceCalls
import DualStore.Proofs.SharedBacklogs
import DualStore.Proofs.Solutions
import DualStore.Proofs.SpaceViews
import DualStore.Proofs.Staging
import DualStore.Proofs.StorableQuads
import DualStore.Proofs.StoreCalls
import DualStore.Proofs.StoreRuns
import DualStore.Proofs.Stores
import DualStore.Proofs.TableRuns
import DualStore.Proofs.TemplateUpdates
import DualStore.Proofs.TermNumbers
import DualStore.Proofs.TermRecords
import DualStore.Proofs.TokenRuns
import DualStore.Proofs.WellFormedTerms
import DualStore.Proofs.WrittenTables
import DualStore.Quad.Basic
import DualStore.Quad.Key
import DualStore.Quad.Position
import DualStore.Records
import DualStore.Report
import DualStore.Service.Apply
import DualStore.Service.Basic
import DualStore.Service.Check
import DualStore.Service.Mailbox
import DualStore.Service.Reconcile
import DualStore.Service.Settings
import DualStore.Solution.Answer
import DualStore.Solution.Basic
import DualStore.Solution.Detail
import DualStore.Solution.Group
import DualStore.Solution.Template
import DualStore.Source
import DualStore.Space.Name
import DualStore.Space.Registry
import DualStore.Store.Basic
import DualStore.Store.Dictionary
import DualStore.Store.Tables
import DualStore.Term.Basic
import DualStore.Term.Check
import DualStore.Term.Record
import DualStore.Text.CharClass
import DualStore.Text.Hex
import DualStore.Text.HiddenRanges
import DualStore.Text.Integer
import DualStore.Text.LetterRanges
import DualStore.Text.Percent
import DualStore.Text.Quoted
import DualStore.Text.Read
import DualStore.Text.Split
import DualStore.Toml.Basic
import DualStore.Toml.Number
import DualStore.Toml.Read
import DualStore.Toml.Text
import DualStore.Vocabulary
