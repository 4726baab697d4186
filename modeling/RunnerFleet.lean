import RunnerFleet.Actions.Client
import RunnerFleet.Actions.Endpoint
import RunnerFleet.Actions.Error
import RunnerFleet.Api.Handler
import RunnerFleet.Api.Message
import RunnerFleet.Api.Queues
import RunnerFleet.Api.Route
import RunnerFleet.Binary64.Basic
import RunnerFleet.Binary64.Rounding
import RunnerFleet.Binary64.Shortest
import RunnerFleet.CommandLine.Arguments
import RunnerFleet.CommandLine.Folder
import RunnerFleet.CommandLine.Help
import RunnerFleet.CommandLine.Startup
import RunnerFleet.Config.Basic
import RunnerFleet.Config.Wire
import RunnerFleet.Controller.Backoff
import RunnerFleet.Controller.Inbox
import RunnerFleet.Controller.Loop
import RunnerFleet.Controller.WorkQueue
import RunnerFleet.Daemon.Machine
import RunnerFleet.Daemon.Site
import RunnerFleet.Document.Fields
import RunnerFleet.Document.Node
import RunnerFleet.Document.Reader
import RunnerFleet.Duration
import RunnerFleet.Fleet
import RunnerFleet.Http.MediaType
import RunnerFleet.Http.Method
import RunnerFleet.Http.Percent
import RunnerFleet.Http.Target
import RunnerFleet.Json.Number
import RunnerFleet.Json.Quoted
import RunnerFleet.Json.Token
import RunnerFleet.Json.Tree
import RunnerFleet.Json.Value
import RunnerFleet.KeyMap
import RunnerFleet.KeySet
import RunnerFleet.Main
import RunnerFleet.Reconcile.Environment
import RunnerFleet.Reconcile.Error
import RunnerFleet.Reconcile.Pass
import RunnerFleet.Reconcile.Program
import RunnerFleet.Reconcile.Teardown
import RunnerFleet.Resource.Metadata
import RunnerFleet.Resource.Runner
import RunnerFleet.Resource.RunnerSet
import RunnerFleet.Resource.Wire
import RunnerFleet.Scaling.Decision
import RunnerFleet.Scaling.Listener
import RunnerFleet.Store.Error
import RunnerFleet.Store.Event
import RunnerFleet.Store.File
import RunnerFleet.Store.Operation
import RunnerFleet.Store.Table
import RunnerFleet.Text.Blank
import RunnerFleet.Text.Decimal
import RunnerFleet.Text.Digits
import RunnerFleet.Text.Printable
import RunnerFleet.Text.Quoted
import RunnerFleet.Text.Split
import RunnerFleet.Timestamp.Basic
import RunnerFleet.Timestamp.Text
import RunnerFleet.Toml.Document
import RunnerFleet.Toml.Literal
import RunnerFleet.Toml.Number
import RunnerFleet.Toml.Printer
import RunnerFleet.Toml.Quoted
import RunnerFleet.Toml.Reader
import RunnerFleet.Toml.Value
import RunnerFleet.Proofs.Store.Effect
import RunnerFleet.Proofs.Store.Keyed
import RunnerFleet.Proofs.Api.Requests
import RunnerFleet.Proofs.Api.Effects
import RunnerFleet.Proofs.Fleet.Groups
import RunnerFleet.Proofs.Fleet.Order
import RunnerFleet.Proofs.Reconcile.Answers
import RunnerFleet.Proofs.Reconcile.Calls
import RunnerFleet.Proofs.Reconcile.Deletion
import RunnerFleet.Proofs.Reconcile.Sharing
import RunnerFleet.Proofs.System.Interleaving
import RunnerFleet.Proofs.System.Orphans
import RunnerFleet.Proofs.Daemon.Adoption
import RunnerFleet.Proofs.Reconcile.Sizing
import RunnerFleet.Proofs.Controller.Wakeups
import RunnerFleet.Proofs.Controller.Queue
import RunnerFleet.Proofs.Daemon.Ceiling
import RunnerFleet.Proofs.Reconcile.Settling
import RunnerFleet.Proofs.System.Removals
import RunnerFleet.Proofs.Store.Atomicity
import RunnerFleet.Proofs.Text.ByteOrder
import RunnerFleet.Proofs.Store.Lifespan
import RunnerFleet.Proofs.Store.Ownership
import RunnerFleet.Proofs.Scaling.Writes
import RunnerFleet.Proofs.System.Listening
import RunnerFleet.Proofs.Reconcile.Frame
import RunnerFleet.Proofs.Reconcile.Twins
import RunnerFleet.Proofs.Reconcile.Interference
import RunnerFleet.Proofs.Json.Tokens
import RunnerFleet.Proofs.Json.Trees
import RunnerFleet.Proofs.Document.Spelling
import RunnerFleet.Proofs.Timestamp.Text
import RunnerFleet.Proofs.Resource.Spelling
import RunnerFleet.Proofs.Store.Texts
import RunnerFleet.Proofs.Store.Retrieval
import RunnerFleet.Proofs.Scaling.History
import RunnerFleet.Proofs.Reconcile.Transcript
import RunnerFleet.Proofs.Reconcile.Scene
import RunnerFleet.Proofs.Reconcile.Finalizers
import RunnerFleet.Proofs.Reconcile.Reclaiming
import RunnerFleet.Proofs.Reconcile.Accounting
import RunnerFleet.Proofs.Reconcile.Creation
import RunnerFleet.Proofs.Reconcile.PartialGrowth
import RunnerFleet.Proofs.Controller.QueueRuns
import RunnerFleet.Proofs.Reconcile.Chronicle
import RunnerFleet.Proofs.Reconcile.Resilience
import RunnerFleet.Proofs.Reconcile.Status
import RunnerFleet.Proofs.Reconcile.Draining
import RunnerFleet.Proofs.Fleet.Classification
import RunnerFleet.Proofs.Config.Validity
import RunnerFleet.Proofs.Controller.Backoff
import RunnerFleet.Proofs.Binary64.Nearest
import RunnerFleet.Proofs.Binary64.Shortest
import RunnerFleet.Proofs.Config.RoundTrip
import RunnerFleet.Proofs.Document.Records
import RunnerFleet.Proofs.Toml.Lines
import RunnerFleet.Proofs.Toml.Scalars
import RunnerFleet.Proofs.Toml.Strings
import RunnerFleet.Proofs.Toml.Tables
import RunnerFleet.Proofs.Daemon.Work
import RunnerFleet.Proofs.Daemon.Serving
import RunnerFleet.Proofs.System.Views
import RunnerFleet.Proofs.System.Machine
import RunnerFleet.Proofs.Controller.Accompaniment
