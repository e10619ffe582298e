import Kode.Library.StepSystem
import Kode.Library.Monitor
import Kode.Library.Family
import Kode.Library.Linearizability
import Kode.Library.WorkPool
import Kode.Library.PosixPath
import Kode.Library.LexicalPath
import Kode.Library.Promise
import Kode.Library.Utf8
import Kode.Library.HttpMessage
import Kode.Library.Sha256
import Kode.Library.Json
import Kode.Library.Substring
import Kode.Library.Decimal
import Kode.Concurrency.Channel
import Kode.Concurrency.ChannelHistory
import Kode.Concurrency.ChannelWakeup
import Kode.Concurrency.ChannelRelease
import Kode.Concurrency.ChannelLinearizability
import Kode.Concurrency.ChannelUnbuffered
import Kode.Concurrency.ChannelRegistry
import Kode.Concurrency.BoundedQueues
import Kode.Concurrency.Scheduler
import Kode.Concurrency.SchedulerConservation
import Kode.Concurrency.SchedulerMap
import Kode.Concurrency.SchedulerQuiescence
import Kode.Concurrency.SchedulerPlaces
import Kode.Concurrency.SchedulerReturn
import Kode.Concurrency.SchedulerPool
import Kode.Concurrency.SchedulerCancel
import Kode.Concurrency.SchedulerState
import Kode.Concurrency.SchedulerSafepoint
import Kode.Concurrency.SchedulerYield
import Kode.Concurrency.SchedulerProgress
import Kode.Concurrency.Shutdown
import Kode.Concurrency.Pipeline
import Kode.Concurrency.PipelineProgress
import Kode.Concurrency.PipelineDeadlock
import Kode.Modules.Loader
import Kode.Modules.Balance
import Kode.Modules.BaseDirectory
import Kode.Modules.Lifecycle
import Kode.Modules.Depth
import Kode.Modules.Script
import Kode.Modules.ModuleGraph
import Kode.Modules.DependencyOrder
import Kode.Scope.Bootstrap
import Kode.Scope.Chains
import Kode.Scope.ChainSteps
import Kode.Scope.Ownership
import Kode.Scope.Failure
import Kode.Scope.Tracking
import Kode.Scope.Counters
import Kode.Runtime.EventLoop
import Kode.Runtime.Process
import Kode.Filesystem.ModernFS
import Kode.Filesystem.Bindings
import Kode.Filesystem.RoundTrip
import Kode.Filesystem.ThreadPool
import Kode.Filesystem.Errors
import Kode.Filesystem.Json
import Kode.Encoding.Text
import Kode.Paths.Path
import Kode.Paths.Normalize
import Kode.Paths.Join
import Kode.Paths.Split
import Kode.Paths.Extension
import Kode.Crypto.Hash
import Kode.Crypto.Digest
import Kode.Crypto.Padding
import Kode.Http.Server
import Kode.Http.ConnectionClose
import Kode.Http.Dispatch
import Kode.Http.Routing
import Kode.Http.Listener
import Kode.Http.Serialization
import Kode.Parser.Lines
import Kode.Parser.Arguments
import Kode.Parser.Parse
import Kode.Parser.Calls
import Kode.Parser.Execute
import Kode.Parser.Program
import Kode.Parser.Layout
import Kode.Parser.Interpreter
