import Coalesce.Main
import Coalesce.Registry
import Coalesce.Simulation.Folder
import Coalesce.Simulation.Merger
import Coalesce.Simulation.Report
import Coalesce.Simulation.Server
import Coalesce.Proofs.Batch.Agree
import Coalesce.Proofs.Batch.Clusters
import Coalesce.Proofs.Batch.Digests
import Coalesce.Proofs.Batch.Exact
import Coalesce.Proofs.Batch.Order
import Coalesce.Proofs.Batch.Ranks
import Coalesce.Proofs.Batch.Renaming
import Coalesce.Proofs.Batch.Restore
import Coalesce.Proofs.Batch.RoundTrip
import Coalesce.Proofs.Batch.Series
import Coalesce.Proofs.Batch.Sizes
import Coalesce.Proofs.Batch.Strategy
import Coalesce.Proofs.Batch.Walk
import Coalesce.Proofs.Codec.Failures
import Coalesce.Proofs.Codec.Lists
import Coalesce.Proofs.Codec.Members
import Coalesce.Proofs.Dispatch.Agreement
import Coalesce.Proofs.Dispatch.Answered
import Coalesce.Proofs.Dispatch.Covering
import Coalesce.Proofs.Dispatch.Exchange
import Coalesce.Proofs.Dispatch.Execution
import Coalesce.Proofs.Dispatch.Guards
import Coalesce.Proofs.Dispatch.Shares
import Coalesce.Proofs.Clockwork
import Coalesce.Proofs.Deadline
import Coalesce.Proofs.Interleaving
import Coalesce.Proofs.Lending
import Coalesce.Proofs.Options.Settings
import Coalesce.Proofs.Registry
import Coalesce.Proofs.Scheduler.Apart
import Coalesce.Proofs.Scheduler.Batches
import Coalesce.Proofs.Scheduler.Change
import Coalesce.Proofs.Scheduler.Clock
import Coalesce.Proofs.Scheduler.Crash
import Coalesce.Proofs.Scheduler.Custody
import Coalesce.Proofs.Scheduler.Execution
import Coalesce.Proofs.Scheduler.Failure
import Coalesce.Proofs.Scheduler.Frame
import Coalesce.Proofs.Scheduler.Handover
import Coalesce.Proofs.Scheduler.History
import Coalesce.Proofs.Scheduler.Inputs
import Coalesce.Proofs.Scheduler.Late
import Coalesce.Proofs.Scheduler.Leaving
import Coalesce.Proofs.Scheduler.Once
import Coalesce.Proofs.Scheduler.Order
import Coalesce.Proofs.Scheduler.Renaming
import Coalesce.Proofs.Scheduler.Responses
import Coalesce.Proofs.Scheduler.Results
import Coalesce.Proofs.Scheduler.Told
import Coalesce.Proofs.Scheduler.Whole
import Coalesce.Proofs.Scheduler.Window
import Coalesce.Proofs.Gateway.Apart
import Coalesce.Proofs.Gateway.Build
import Coalesce.Proofs.Gateway.Clock
import Coalesce.Proofs.Gateway.Composition
import Coalesce.Proofs.Gateway.Crash
import Coalesce.Proofs.Gateway.Deadline
import Coalesce.Proofs.Gateway.Execution
import Coalesce.Proofs.Gateway.Failure
import Coalesce.Proofs.Gateway.Guards
import Coalesce.Proofs.Gateway.Isolation
import Coalesce.Proofs.Gateway.Kinds
import Coalesce.Proofs.Gateway.Lane
import Coalesce.Proofs.Gateway.Lanes
import Coalesce.Proofs.Gateway.Leaving
import Coalesce.Proofs.Gateway.Once
import Coalesce.Proofs.Gateway.Order
import Coalesce.Proofs.Gateway.Renaming
import Coalesce.Proofs.Gateway.Results
import Coalesce.Proofs.Gateway.Targets
import Coalesce.Proofs.Batch.Refusal
import Coalesce.Proofs.Codec.Merging
import Coalesce.Proofs.Gateway.Merging
import Coalesce.Proofs.Batch.Clustering
import Coalesce.Proofs.Batch.Places
import Coalesce.Proofs.FirstReads
import Coalesce.Proofs.Batch.Callers
import Coalesce.Proofs.Text.Utf8
import Coalesce.Proofs.Header.Comparable
import Coalesce.Proofs.Header.Digest
import Coalesce.Proofs.Timeouts
import Coalesce.Options.Modes
import Coalesce.Proofs.Options.Report
import Coalesce.Proofs.Options.Strict
import Coalesce.Proofs.Json.Members
import Coalesce.Proofs.Json.Values
import Coalesce.Proofs.Decode.Records
import Coalesce.Proofs.Json.Records
import Coalesce.Proofs.Request
import Coalesce.Proofs.Config.Spelling
import Coalesce.Proofs.Config.RoundTrip
import Coalesce.Proofs.Except
import Coalesce.Proofs.Config.Validation
import Coalesce.Proofs.Gateway.Exact
import Coalesce.Proofs.CommandLine
import Coalesce.Proofs.Header.Arrival
import Coalesce.Proofs.Http.Truncation
import Coalesce.Proofs.Http.CallId
import Coalesce.Proofs.Simulation.Dispatch
import Coalesce.Proofs.Simulation.Clock
