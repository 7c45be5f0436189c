import BcDuplicate.Types
import BcDuplicate.Base.Classes
import BcDuplicate.Base.Copy
import BcDuplicate.Base.Decimals
import BcDuplicate.Base.Json
import BcDuplicate.Base.JsonGrammar
import BcDuplicate.Base.Lines
import BcDuplicate.Base.Overlap
import BcDuplicate.Base.Regions
import BcDuplicate.Base.Repeats
import BcDuplicate.Base.Resources
import BcDuplicate.Base.Runs
import BcDuplicate.Base.Search
import BcDuplicate.Base.Slices
import BcDuplicate.Base.Slots
import BcDuplicate.Base.Sort
import BcDuplicate.Base.Traces
import BcDuplicate.Base.Updates
import BcDuplicate.Base.Utf8
import BcDuplicate.FileSystem
import BcDuplicate.Filter
import BcDuplicate.Filter.Segments
import BcDuplicate.Dispatch
import BcDuplicate.Dispatch.Monotone
import BcDuplicate.Output
import BcDuplicate.Output.Document
import BcDuplicate.Output.Lines
import BcDuplicate.Output.Summary
import BcDuplicate.Output.Validity
import BcDuplicate.Throughput
import BcDuplicate.Throughput.Cache
import BcDuplicate.Throughput.Torn
import BcDuplicate.Throughput.History
import BcDuplicate.Throughput.Once
import BcDuplicate.Grouping
import BcDuplicate.Grouping.Blocks
import BcDuplicate.Grouping.ByHash
import BcDuplicate.Grouping.BySize
import BcDuplicate.Grouping.Copies
import BcDuplicate.Grouping.Exact
import BcDuplicate.Reader
import BcDuplicate.Reader.Stream
import BcDuplicate.Reader.Whole
import BcDuplicate.Ring
import BcDuplicate.Ring.Acceptance
import BcDuplicate.Ring.Batch
import BcDuplicate.Ring.Calls
import BcDuplicate.Ring.Chunk
import BcDuplicate.Ring.Closing
import BcDuplicate.Ring.Confluence
import BcDuplicate.Ring.Drive
import BcDuplicate.Ring.Once
import BcDuplicate.Ring.Prepare
import BcDuplicate.Ring.Served
import BcDuplicate.Ring.Slot
import BcDuplicate.Ring.Tally
import BcDuplicate.Worker
import BcDuplicate.Worker.Batch
import BcDuplicate.Worker.Candidates
import BcDuplicate.Worker.Content
import BcDuplicate.Worker.Fast
import BcDuplicate.Worker.Full
import BcDuplicate.Worker.Outcomes
import BcDuplicate.Worker.Resources
import BcDuplicate.Worker.Released
import BcDuplicate.Worker.Skipped
import BcDuplicate.Stages
import BcDuplicate.Stages.Bytes
import BcDuplicate.Stages.Classes
import BcDuplicate.Stages.Content
import BcDuplicate.Stages.FastHash
import BcDuplicate.Stages.Groups
import BcDuplicate.Stages.Order
import BcDuplicate.Stages.Outcomes
import BcDuplicate.Stages.Places
import BcDuplicate.Discovery
import BcDuplicate.Discovery.Agreement
import BcDuplicate.Discovery.Disturbed
import BcDuplicate.Discovery.DisturbedParallel
import BcDuplicate.Discovery.Ends
import BcDuplicate.Discovery.Exact
import BcDuplicate.Discovery.Expansion
import BcDuplicate.Discovery.Failures
import BcDuplicate.Discovery.OneFileSystem
import BcDuplicate.Discovery.Options
import BcDuplicate.Discovery.Owners
import BcDuplicate.Discovery.Parallel
import BcDuplicate.Discovery.Reference
import BcDuplicate.Discovery.Scope
import BcDuplicate.Discovery.Serial
import BcDuplicate.Discovery.Silence
import BcDuplicate.Discovery.Steps
import BcDuplicate.Discovery.Tree
import BcDuplicate.Discovery.Walk
import BcDuplicate.Discovery.WalkParallel
import BcDuplicate.Application
import BcDuplicate.Application.Cleanup
import BcDuplicate.Application.Counters
import BcDuplicate.Application.Errors
import BcDuplicate.Application.Exact
import BcDuplicate.Application.Faults
import BcDuplicate.Application.Independence
import BcDuplicate.Application.Interrupted
import BcDuplicate.Application.Options
import BcDuplicate.Application.Readers
import BcDuplicate.Application.Released
import BcDuplicate.Application.Reported
import BcDuplicate.Application.Sums
import BcDuplicate.Application.WellFormed
import BcDuplicate.Cli
import BcDuplicate.Cli.Binding
import BcDuplicate.Cli.Expressible
import BcDuplicate.Program
import BcDuplicate.Program.Exact
import BcDuplicate.Program.Exit
