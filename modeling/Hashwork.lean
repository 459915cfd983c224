import Hashwork.Algorithm.Basic
import Hashwork.Algorithm.Choice
import Hashwork.Algorithm.Detection
import Hashwork.Algorithm.Document
import Hashwork.Benchmark.Harness
import Hashwork.Benchmark.Isolation
import Hashwork.Benchmark.Measure
import Hashwork.Benchmark.Rehearsal
import Hashwork.Benchmark.Result
import Hashwork.Benchmark.Sample
import Hashwork.Bytes
import Hashwork.Bytes.Format
import Hashwork.Bytes.Hex
import Hashwork.Clock
import Hashwork.CommandLine.Grammar
import Hashwork.CommandLine.Help
import Hashwork.CommandLine.Options
import Hashwork.CommandLine.Program
import Hashwork.CommandLine.Rehearsal
import Hashwork.Decimal.Binary64
import Hashwork.Decimal.Places
import Hashwork.Decimal.Shortest
import Hashwork.Duration
import Hashwork.Header
import Hashwork.Json.Number
import Hashwork.Json.Reader
import Hashwork.Kernel.Hasher
import Hashwork.Kernel.Run
import Hashwork.Lanes.Basic
import Hashwork.Lanes.Engine
import Hashwork.Log
import Hashwork.Main
import Hashwork.Mining.Collector
import Hashwork.Mining.Crew
import Hashwork.Mining.Miner
import Hashwork.Mining.Progress
import Hashwork.Mining.Rate
import Hashwork.Mining.Worker
import Hashwork.Proofs.Benchmark.Account
import Hashwork.Proofs.Benchmark.Deadline
import Hashwork.Proofs.Benchmark.Outcome
import Hashwork.Proofs.Benchmark.Pipe
import Hashwork.Proofs.Benchmark.Rate
import Hashwork.Proofs.Benchmark.Sample
import Hashwork.Proofs.Benchmark.Supervisor
import Hashwork.Proofs.Benchmark.Turn
import Hashwork.Proofs.Binary64.Magnitude
import Hashwork.Proofs.Binary64.Order
import Hashwork.Proofs.Binary64.Rounding
import Hashwork.Proofs.Header
import Hashwork.Proofs.Kernel.Batch
import Hashwork.Proofs.Kernel.Exact
import Hashwork.Proofs.Kernel.Outcome
import Hashwork.Proofs.Kernel.Run
import Hashwork.Proofs.Kernel.Steady
import Hashwork.Proofs.Lanes.Engine
import Hashwork.Proofs.Lanes.Lawful
import Hashwork.Proofs.Lanes.Simulation
import Hashwork.Proofs.Loop
import Hashwork.Proofs.Mining.Books
import Hashwork.Proofs.Mining.Completion
import Hashwork.Proofs.Mining.Coverage
import Hashwork.Proofs.Mining.Delivery
import Hashwork.Proofs.Mining.Duty
import Hashwork.Proofs.Mining.Ledger
import Hashwork.Proofs.Mining.Portions
import Hashwork.Proofs.Mining.Processed
import Hashwork.Proofs.Mining.Total
import Hashwork.Proofs.Mining.Turn
import Hashwork.Proofs.Mining.Workers
import Hashwork.Proofs.Routine.Trace
import Hashwork.Proofs.Scan.Agreement
import Hashwork.Proofs.Scan.Call
import Hashwork.Proofs.Scan.History
import Hashwork.Proofs.Scan.Overflow
import Hashwork.Proofs.Scan.Search
import Hashwork.Proofs.Scan.World
import Hashwork.Proofs.Schedule
import Hashwork.Proofs.Scrypt.Scratch
import Hashwork.Proofs.Selection.Agreement
import Hashwork.Proofs.Selection.Fastest
import Hashwork.Proofs.Selection.History
import Hashwork.Proofs.Selection.Sound
import Hashwork.Proofs.Selection.Stage
import Hashwork.Proofs.Sha256.Midstate
import Hashwork.Proofs.Sha256.Schedule
import Hashwork.Proofs.ShaExtension.Compression
import Hashwork.Proofs.Target
import Hashwork.Proofs.Word
import Hashwork.Proofs.Work.Accepted
import Hashwork.Proofs.Work.Operations
import Hashwork.Proofs.Work.Prepared
import Hashwork.Proofs.Work.Reachable
import Hashwork.Proofs.Work.Template
import Hashwork.Routine
import Hashwork.Scan.Basic
import Hashwork.Scrypt.Hash
import Hashwork.Scrypt.KeyDerivation
import Hashwork.Scrypt.Mix
import Hashwork.Scrypt.Salsa
import Hashwork.Selection.Alone
import Hashwork.Selection.Arena
import Hashwork.Selection.Cell
import Hashwork.Selection.Fastest
import Hashwork.Sha256.Compression
import Hashwork.Sha256.DoubleHash
import Hashwork.Sha256.Message
import Hashwork.Sha256.Round
import Hashwork.ShaExtension.Compression
import Hashwork.ShaExtension.Instructions
import Hashwork.Target
import Hashwork.Text.Pad
import Hashwork.Text.Quoted
import Hashwork.Text.Similarity
import Hashwork.Text.Unprintable
import Hashwork.Text.Whole
import Hashwork.Word
import Hashwork.Work.CancelFlag
import Hashwork.Work.Item
import Hashwork.Work.Prepared
import Hashwork.Work.Share
import Hashwork.Proofs.Scrypt.Standard
import Hashwork.Proofs.ShaExtension.Instructions
import Hashwork.Proofs.Scrypt.Core
import Hashwork.Proofs.Scrypt.Agreement
import Hashwork.Proofs.Benchmark.Check
import Hashwork.Proofs.Routine.Watched
import Hashwork.Proofs.Scan.Watched
import Hashwork.Proofs.Scan.Cancellation
import Hashwork.Proofs.Benchmark.Breakdown
import Hashwork.Proofs.Target.Compact
import Hashwork.Proofs.CommandLine.Miner
import Hashwork.Proofs.WrittenForm
import Hashwork.Proofs.Sha256.Standard
import Hashwork.Proofs.Sha256.Agreement
import Hashwork.Proofs.PadLock
import Hashwork.Proofs.Benchmark.Deed
import Hashwork.Proofs.Benchmark.Limit
import Hashwork.PadLock.Engine
import Hashwork.PadLock.Detection
