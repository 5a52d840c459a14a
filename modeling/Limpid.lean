import Limpid.Arms
import Limpid.Binary64
import Limpid.Bytes
import Limpid.Check.Analyze
import Limpid.Check.Cycles
import Limpid.Check.Function
import Limpid.Check.NameError
import Limpid.Check.Purity
import Limpid.Check.Resolved
import Limpid.Check.ResolvedCode
import Limpid.Check.ResolvedPipeline
import Limpid.Check.ResolvedProgram
import Limpid.Check.ResolvedRun
import Limpid.Check.Termination
import Limpid.Check.Unwalked
import Limpid.Control.Envelope
import Limpid.Control.EnvelopeDecode
import Limpid.Control.EnvelopeWhole
import Limpid.Control.Inject
import Limpid.Control.InjectWhole
import Limpid.Ctl.CallTree
import Limpid.Ctl.ProcessTree
import Limpid.Ctl.Reading
import Limpid.Ctl.Stats
import Limpid.Ctl.Table
import Limpid.Decimal
import Limpid.Disk.Ack
import Limpid.Disk.AtLeastOnce
import Limpid.Disk.Consumer
import Limpid.Disk.Model
import Limpid.Disk.Read
import Limpid.Disk.ReaderRace
import Limpid.Disk.Unread
import Limpid.Disk.Write
import Limpid.Dsl.Ast
import Limpid.Dsl.Concludes
import Limpid.Dsl.Conforms
import Limpid.Dsl.Equality
import Limpid.Dsl.Eval
import Limpid.Dsl.Grammar
import Limpid.Dsl.Nearest
import Limpid.Dsl.Negation
import Limpid.Dsl.Numeral
import Limpid.Dsl.Parser
import Limpid.Dsl.Precedence
import Limpid.Dsl.Props
import Limpid.Dsl.ReadBack
import Limpid.Dsl.ReadPath
import Limpid.Dsl.Rel
import Limpid.Dsl.RoundTrip
import Limpid.Dsl.SameText
import Limpid.Dsl.Schema
import Limpid.Dsl.Serialize
import Limpid.Dsl.Settle
import Limpid.Dsl.Statement
import Limpid.Dsl.Termination
import Limpid.Dsl.Units
import Limpid.Dsl.Value
import Limpid.Dsl.ValueJson
import Limpid.EditScript
import Limpid.Entries
import Limpid.Event
import Limpid.Event.Json
import Limpid.Exposition
import Limpid.Fields
import Limpid.Functions.CefParse
import Limpid.Functions.CefRoundTrip
import Limpid.Functions.Extremum
import Limpid.Functions.FixedOffset
import Limpid.Functions.JsonText
import Limpid.Functions.KeyValue
import Limpid.Functions.NestDottedKeys
import Limpid.Functions.ParseKv
import Limpid.Functions.Pri
import Limpid.Functions.Primitives
import Limpid.Functions.RegexParse
import Limpid.Functions.SyslogParse
import Limpid.Functions.SyslogRoundTrip
import Limpid.Graph
import Limpid.Grouping
import Limpid.Include.Complete
import Limpid.Include.Load
import Limpid.Include.Loaded
import Limpid.Include.Path
import Limpid.Journal.Limits
import Limpid.Journal.Model
import Limpid.Journal.Resume
import Limpid.Lines
import Limpid.Ltp.EstablishedPeers
import Limpid.Ltp.Frame
import Limpid.Ltp.Hop
import Limpid.Ltp.Listener
import Limpid.Ltp.ListenerGroups
import Limpid.Ltp.Stream
import Limpid.Ltp.Walk
import Limpid.Metrics.Bound
import Limpid.Metrics.Observed
import Limpid.Metrics.Registered
import Limpid.Metrics.Registry
import Limpid.Metrics.Schema
import Limpid.Net
import Limpid.Net.Display
import Limpid.Otlp.Batch
import Limpid.Otlp.Encode
import Limpid.Otlp.Message
import Limpid.Otlp.RoundTrip
import Limpid.Output.Accounts
import Limpid.Output.Batched
import Limpid.Output.Conservation
import Limpid.Output.Dlq
import Limpid.Output.FilePath
import Limpid.Output.LtpSender
import Limpid.Output.Peers
import Limpid.Output.Rotation
import Limpid.Output.Settlement
import Limpid.Output.Stream
import Limpid.Output.SyslogTcp
import Limpid.Output.UnixSocket
import Limpid.Peg
import Limpid.Pipeline.Accounting
import Limpid.Pipeline.Assignment
import Limpid.Pipeline.Blueprint
import Limpid.Pipeline.BlueprintSound
import Limpid.Pipeline.BodyTrace
import Limpid.Pipeline.CallGraph
import Limpid.Pipeline.CatchScope
import Limpid.Pipeline.Checked
import Limpid.Pipeline.Compiled
import Limpid.Pipeline.CompiledBlueprint
import Limpid.Pipeline.Execution
import Limpid.Pipeline.Failure
import Limpid.Pipeline.FrameAccount
import Limpid.Pipeline.FrameCounts
import Limpid.Pipeline.Frames
import Limpid.Pipeline.MetricForest
import Limpid.Pipeline.Process
import Limpid.Pipeline.Reach
import Limpid.Pipeline.Seal
import Limpid.Pipeline.Sealed
import Limpid.Pipeline.SealedRun
import Limpid.Pipeline.Switch
import Limpid.Pipeline.Trace
import Limpid.Pipeline.Worker
import Limpid.Precedence
import Limpid.Prometheus.Accepted
import Limpid.Prometheus.Declared
import Limpid.Prometheus.Derived
import Limpid.Prometheus.Faithful
import Limpid.Prometheus.OwnDrops
import Limpid.Prometheus.ReadBack
import Limpid.Prometheus.Registrations
import Limpid.Prometheus.Render
import Limpid.Prometheus.Snapshot
import Limpid.Queue.Ack
import Limpid.Queue.Config
import Limpid.Queue.Conservation
import Limpid.Queue.Consumer
import Limpid.Queue.Settled
import Limpid.Runs
import Limpid.Slots
import Limpid.Syslog.Framing
import Limpid.Syslog.NonTransparent
import Limpid.Syslog.Octet
import Limpid.Tables
import Limpid.Tail.Emission
import Limpid.Tail.Model
import Limpid.Tail.Watermark
import Limpid.Trie
import Limpid.Utf8
import Limpid.Wire
