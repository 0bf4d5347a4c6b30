import Linko.ByteArray.FlatBuffer
import Linko.ByteArray.Fixed
import Linko.Lib.CString
import Linko.Http.RequestMachine
import Linko.Http.ResponseMachine
import Linko.Http.Message
import Linko.Http.RequestParser
import Linko.Http.ResponseParser
import Linko.Http.Session
import Linko.Http.Cuts
import Linko.Http.Connection
import Linko.Http.Chunked
import Linko.Http.Body
import Linko.Http.RequestText
import Linko.Http.RoundTrip
import Linko.Http.ResponseRoundTrip
import Linko.Sched.Ownership
import Linko.Sched.Accounting
import Linko.Lib.OrderedSet
import Linko.Timer.Model
import Linko.Timer.Invariant
import Linko.Timer.History
import Linko.Timer.Wakeup
import Linko.Io.Model
import Linko.Io.Registration
import Linko.Io.Dispatch
import Linko.Hook.Calls
import Linko.Hook.Disabled
import Linko.Sched.Pinning
import Linko.Sched.Stopping
import Linko.ByteArray.Scatter
import Linko.ByteArray.Gather
import Linko.Http.Method
import Linko.Config.Var
import Linko.Hook.FdManager
import Linko.Http.Buffer
import Linko.Http.Pool
import Linko.Log.Formatter
import Linko.Log.Initer
import Linko.Lib.Buckets
import Linko.Lib.Follow
import Linko.Uri.Components
import Linko.Uri.Literal
import Linko.ByteArray.Cursor
import Linko.ByteArray.File
import Linko.ByteArray.Float
import Linko.ByteArray.Positional
import Linko.ByteArray.StringVint
import Linko.Io.Idle
import Linko.Io.Table
import Linko.Timer.Expiry
import Linko.Timer.Handles
import Linko.Lib.Registers
import Linko.Hook.Timeouts
import Linko.Socket.Timeout
import Linko.Hook.Sleep
import Linko.Lib.Transfer
import Linko.Stream.FixSize
import Linko.Stream.Partial
import Linko.Stream.Failure
import Linko.Http.Servlet
import Linko.Address.Model
import Linko.Address.Subnet
import Linko.Lib.GroupText
import Linko.Address.Text
import Linko.Address.Lookup
import Linko.Log.Pattern
import Linko.Log.Event
import Linko.Log.Escape
import Linko.Lib.Yaml
import Linko.Lib.FlowText
import Linko.Log.Define
import Linko.Log.Attach
import Linko.Lib.Comparator
import Linko.Config.Cast
import Linko.Config.Load
import Linko.Http.Storage
import Linko.Http.HeaderEdits
import Linko.Http.Delivery
import Linko.Http.Server
import Linko.Uri.Dump
import Linko.Http.Client
import Linko.Http.Exchange
import Linko.Lib.Holdings
import Linko.Socket.Model
import Linko.Socket.Ownership
import Linko.Tcp.Server
import Linko.Tcp.Lifetime
import Linko.Thread.Mutex
import Linko.Thread.Start
import Linko.Lib.Refine
import Linko.Timer.Alarms
import Linko.ByteArray.Program
import Linko.ByteArray.Record
