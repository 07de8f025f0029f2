import AlpacaCore.System.Run
import AlpacaCore.Io.Channel
import AlpacaCore.Io.Operations
import AlpacaCore.Io.Waiting
import AlpacaCore.Io.Queues
import AlpacaCore.Io.StepChange
import AlpacaCore.Io.WakeUp
import AlpacaCore.Io.Delivery
import AlpacaCore.Io.Turns
import AlpacaCore.Schema.Dict
import AlpacaCore.Schema.Field
import AlpacaCore.Schema.Serialize
import AlpacaCore.Schema.RoundTrip
import AlpacaCore.Schema.Reencode
import AlpacaCore.Schema.Describe
import AlpacaCore.Resource.Store
import AlpacaCore.Resource.Lookup
import AlpacaCore.Resource.Contract
import AlpacaCore.Session.Frame
import AlpacaCore.Session.Service
import AlpacaCore.Session.Net
import AlpacaCore.Schema.Fit
import AlpacaCore.Session.Meaning
import AlpacaCore.Session.Conduct
import AlpacaCore.Session.Assets
import AlpacaCore.Session.Escape
import AlpacaCore.Session.Course
import AlpacaCore.Session.Helper
import AlpacaCore.Session.Ledger
import AlpacaCore.Session.Replies
import AlpacaCore.Session.Pipeline
import AlpacaCore.Local.PluginDirs
import AlpacaCore.Local.FileUri
import AlpacaCore.Local.Collector
import AlpacaCore.Local.PluginManager
import AlpacaCore.Resource.Release
import AlpacaCore.Schema.Required
import AlpacaCore.Schema.Relieved
import AlpacaCore.Schema.Convert
import AlpacaCore.Session.Nested
import AlpacaCore.Session.State
import AlpacaCore.Xec.Coro
import AlpacaCore.Xec.Direct
import AlpacaCore.Xec.Stack
import AlpacaCore.Xec.CoFor
import AlpacaCore.Xec.Links
import AlpacaCore.Xec.Execute
import AlpacaCore.Astl.ScQueue
import AlpacaCore.Io.Callbacks
import AlpacaCore.Local.Connect
import AlpacaCore.Io.SyncIo
import AlpacaCore.Xec.Stale
import AlpacaCore.Xec.Discard
import AlpacaCore.Jalog.Logger
import AlpacaCore.Jalog.AsyncLogging
import AlpacaCore.Jalog.Delivery
import AlpacaCore.Jalog.Shutdown
import AlpacaCore.Jalog.QWrite
import AlpacaCore.Astl.MemStreambuf
import AlpacaCore.Jalog.Stream
import AlpacaCore.Session.Transcript
import AlpacaCore.Session.Interface
import AlpacaCore.Session.Attended
import AlpacaCore.Session.Yield
import AlpacaCore.Local.Services
import AlpacaCore.Local.Wires
import AlpacaCore.Local.Refinement
import AlpacaCore.System.Tagged
import AlpacaCore.Jalog.Instance
import AlpacaCore.Jalog.Arrival
import AlpacaCore.Jalog.Flushing
import AlpacaCore.Jalog.Returning
