import Tidemark.Backoff
import Tidemark.Broadcast
import Tidemark.Bulkhead
import Tidemark.Commons
import Tidemark.Config.Basic
import Tidemark.Config.Form
import Tidemark.Daemon.Basic
import Tidemark.Daemon.Call
import Tidemark.Daemon.Form
import Tidemark.Daemon.Health
import Tidemark.Daemon.Tasks
import Tidemark.Fault
import Tidemark.HighWater.Agent
import Tidemark.HighWater.Form
import Tidemark.HighWater.Loop
import Tidemark.HighWater.Pass
import Tidemark.HighWater.Scan
import Tidemark.HighWater.Statistics
import Tidemark.Json.Form
import Tidemark.Json.Reader
import Tidemark.Json.Value
import Tidemark.Log.Basic
import Tidemark.Log.Form
import Tidemark.Log.Memory
import Tidemark.Log.Rows
import Tidemark.Log.Table
import Tidemark.Metrics.Basic
import Tidemark.Metrics.Binary64
import Tidemark.Metrics.Form
import Tidemark.Policy.Continuation
import Tidemark.Policy.Failure
import Tidemark.Policy.Filter
import Tidemark.Policy.Form
import Tidemark.Policy.Rule
import Tidemark.Position
import Tidemark.Projection
import Tidemark.Rehearsal.Agent
import Tidemark.Rehearsal.Daemon
import Tidemark.Rehearsal.Log
import Tidemark.Rehearsal.Projection
import Tidemark.Rehearsal.Retry
import Tidemark.Rehearsal.Tables
import Tidemark.Rehearsal.Tracker
import Tidemark.Retry.Block
import Tidemark.Schedule
import Tidemark.Shard.Consumer
import Tidemark.Shard.Form
import Tidemark.Shard.Handle
import Tidemark.Shard.Name
import Tidemark.Shard.State
import Tidemark.Shard.Supervisor
import Tidemark.Text.Blank
import Tidemark.Text.Digits
import Tidemark.Text.Hex
import Tidemark.Text.Infix
import Tidemark.Text.Quoted
import Tidemark.Text.Unprintable
import Tidemark.Time.Calendar
import Tidemark.Time.Duration
import Tidemark.Time.Form
import Tidemark.Time.Grammar
import Tidemark.Time.Moment
import Tidemark.Time.Rfc3339
import Tidemark.Time.Timestamp
import Tidemark.Tracker
import Tidemark.Watched
import Tidemark.Proofs.Tracker
import Tidemark.Proofs.Log.Memory
import Tidemark.Proofs.HighWater.Pass
import Tidemark.Proofs.HighWater.Safety
import Tidemark.Proofs.HighWater.Sole
import Tidemark.Proofs.HighWater.Gap
import Tidemark.Proofs.HighWater.Zone
import Tidemark.Proofs.Log.Lawful
import Tidemark.Proofs.Shard.Handle
import Tidemark.Proofs.Shard.Surroundings
import Tidemark.Proofs.Shard.Supervisor
import Tidemark.Proofs.Shard.Beat
import Tidemark.Proofs.Shard.Run
import Tidemark.Proofs.Shard.Coverage
import Tidemark.Proofs.Shard.Cursor
import Tidemark.Proofs.Shard.Once
import Tidemark.Proofs.Shard.Chain
import Tidemark.Proofs.Shard.Steering
import Tidemark.Proofs.Daemon.Stop
import Tidemark.Proofs.Daemon.Moves
import Tidemark.Proofs.Daemon.Durable
import Tidemark.Proofs.Log.Edited
import Tidemark.Proofs.HighWater.Detector
import Tidemark.Proofs.Shard.Name
import Tidemark.Proofs.Daemon.Registration
import Tidemark.Proofs.Daemon.SignOff
import Tidemark.Proofs.Daemon.Bearing
import Tidemark.Proofs.Log.Alike
import Tidemark.Proofs.Log.Overwriting
import Tidemark.Proofs.Retry.Conservation
import Tidemark.Proofs.HighWater.Rescan
import Tidemark.Proofs.Retry.Handover
import Tidemark.Proofs.Retry.Dispatch
import Tidemark.Proofs.Retry.Agreement
import Tidemark.Proofs.Retry.Draining
import Tidemark.Proofs.Daemon.Pauses
import Tidemark.Proofs.HighWater.Outrun
import Tidemark.Proofs.Shard.Batches
import Tidemark.Proofs.Daemon.Streaks
import Tidemark.Proofs.Policy.Resolution
import Tidemark.Proofs.Shard.Reading
import Tidemark.Proofs.Policy.Conjunction
import Tidemark.Proofs.Daemon.Alone
import Tidemark.Proofs.Daemon.FalseStart
import Tidemark.Proofs.Daemon.Listing
import Tidemark.Proofs.HighWater.FirstRun
