import Nodecast.Api.Client
import Nodecast.Api.Request
import Nodecast.Api.Response
import Nodecast.Backoff
import Nodecast.Build
import Nodecast.Cache
import Nodecast.Cli.Arguments
import Nodecast.Collector.Cycle
import Nodecast.Collector.Replay
import Nodecast.Collector.State
import Nodecast.Daemon
import Nodecast.Decimal.Shortest
import Nodecast.Entry
import Nodecast.Event
import Nodecast.Event.Wire
import Nodecast.Failure
import Nodecast.Http.EventStream
import Nodecast.Http.Path
import Nodecast.Http.Routes
import Nodecast.Hub.Config
import Nodecast.Hub.State
import Nodecast.Hub.Stream
import Nodecast.Json.Printer
import Nodecast.Json.Reader
import Nodecast.Json.Value
import Nodecast.Key
import Nodecast.KeyedLock
import Nodecast.Kind
import Nodecast.Kubeconfig
import Nodecast.Labels
import Nodecast.Log.File
import Nodecast.Log.Path
import Nodecast.Log.Record
import Nodecast.Main
import Nodecast.Metadata
import Nodecast.Metrics.Point
import Nodecast.Metrics.Report
import Nodecast.Named
import Nodecast.Net.Address
import Nodecast.Net.Url
import Nodecast.NodeSet
import Nodecast.PodIndex.Buckets
import Nodecast.PodIndex.Pods
import Nodecast.PodIndex.Record
import Nodecast.PodIndex.ReplicaSets
import Nodecast.PodIndex.State
import Nodecast.Proofs.Api.Answers
import Nodecast.Proofs.Arguments
import Nodecast.Proofs.Backlog.Conserved
import Nodecast.Proofs.Backlog.Retries
import Nodecast.Proofs.Backlog.Steps
import Nodecast.Proofs.Backoff
import Nodecast.Proofs.Event.RoundTrip
import Nodecast.Proofs.Histories
import Nodecast.Proofs.Http.Messages
import Nodecast.Proofs.Http.Served
import Nodecast.Proofs.Hub.Chronicle
import Nodecast.Proofs.Hub.Happenings
import Nodecast.Proofs.Hub.Lifecycle
import Nodecast.Proofs.Hub.Pacing
import Nodecast.Proofs.Hub.Pushes
import Nodecast.Proofs.Hub.Refusal
import Nodecast.Proofs.Hub.Room
import Nodecast.Proofs.Hub.Statistics
import Nodecast.Proofs.Hub.Steps
import Nodecast.Proofs.Hub.Tally
import Nodecast.Proofs.Json.Strings
import Nodecast.Proofs.Json.Unique
import Nodecast.Proofs.Launched.Frames
import Nodecast.Proofs.Launched.Numbers
import Nodecast.Proofs.Launched.Steps
import Nodecast.Proofs.Locks
import Nodecast.Proofs.Locks.Callers
import Nodecast.Proofs.Locks.Entries
import Nodecast.Proofs.Locks.Exclusion
import Nodecast.Proofs.Locks.Operations
import Nodecast.Proofs.Locks.Order
import Nodecast.Proofs.Metrics.Legible
import Nodecast.Proofs.Metrics.Lines
import Nodecast.Proofs.PodIndex.Consistent
import Nodecast.Proofs.PodIndex.Links
import Nodecast.Proofs.PodIndex.Moments
import Nodecast.Proofs.PodIndex.Scan
import Nodecast.Proofs.Queues
import Nodecast.Proofs.Sums
import Nodecast.Proofs.System.Accounts
import Nodecast.Proofs.System.Atomic
import Nodecast.Proofs.System.Crews
import Nodecast.Proofs.System.Deeds
import Nodecast.Proofs.System.Denials
import Nodecast.Proofs.System.Fair
import Nodecast.Proofs.System.Generated
import Nodecast.Proofs.System.Glimpses
import Nodecast.Proofs.System.Joins
import Nodecast.Proofs.System.Known
import Nodecast.Proofs.System.Lined
import Nodecast.Proofs.System.Moves
import Nodecast.Proofs.System.Observed
import Nodecast.Proofs.System.Omission
import Nodecast.Proofs.System.Order
import Nodecast.Proofs.System.Progress
import Nodecast.Proofs.System.Quiescence
import Nodecast.Proofs.System.Receipts
import Nodecast.Proofs.System.Renamed
import Nodecast.Proofs.System.Returns
import Nodecast.Proofs.System.Rounds
import Nodecast.Proofs.System.Runs
import Nodecast.Proofs.System.Sound
import Nodecast.Proofs.System.Turn
import Nodecast.Proofs.System.Turns
import Nodecast.Proofs.System.Watched
import Nodecast.Proofs.System.Watching
import Nodecast.Proofs.System.World
import Nodecast.Proofs.Tasks
import Nodecast.Proofs.Transitions
import Nodecast.Proofs.Triggers.Calls
import Nodecast.Proofs.Triggers.Changes
import Nodecast.Proofs.Triggers.Complete
import Nodecast.Proofs.Triggers.Services
import Nodecast.Proofs.Triggers.Waiting
import Nodecast.Proofs.Views
import Nodecast.Resolver
import Nodecast.Router
import Nodecast.Schedule
import Nodecast.Settings
import Nodecast.Simulation.Cluster
import Nodecast.Simulation.Cycles
import Nodecast.Simulation.Holders
import Nodecast.Simulation.Jobs
import Nodecast.Simulation.Launch
import Nodecast.Simulation.Pushes
import Nodecast.Simulation.Replays
import Nodecast.Simulation.Runner
import Nodecast.Simulation.Script
import Nodecast.Simulation.Server
import Nodecast.Simulation.Session
import Nodecast.Simulation.Site
import Nodecast.Simulation.Subscribed
import Nodecast.Simulation.Watching
import Nodecast.Table
import Nodecast.Text.Blank
import Nodecast.Text.Hidden
import Nodecast.Text.Quoted
import Nodecast.Text.Utf8
import Nodecast.Time.Duration
import Nodecast.Time.Instant
import Nodecast.Tracked
import Nodecast.View
import Nodecast.Watch.Feed
import Nodecast.Watch.Notice
import Nodecast.Watch.Reaction
import Nodecast.WorkQueue
import Nodecast.Yaml.Flow
import Nodecast.Yaml.Reader
import Nodecast.Yaml.Scalar
