import Kcom.Conc.System
import Kcom.Conc.Pool
import Kcom.Conc.FetchUpdate
import Kcom.Refcount.Saturation
import Kcom.Executor.Tracker
import Kcom.Executor.Dpc.Model
import Kcom.Executor.Dpc.Accounting
import Kcom.Executor.Dpc.Memory
import Kcom.Executor.Dpc.Wakeups
import Kcom.Executor.Dpc.Polling
import Kcom.Executor.WorkItem.Model
import Kcom.Executor.WorkItem.LifeCycle
import Kcom.Executor.WorkItem.Polling
import Kcom.Executor.WorkItem.Accounting
import Kcom.Executor.WorkItem.Memory
import Kcom.Executor.WorkItem.Futures
import Kcom.Com.Vtable
import Kcom.ReprC.Memory
import Kcom.Com.Object
import Kcom.Com.Shims
import Kcom.Com.Dispatch
import Kcom.Com.Inheritance
import Kcom.Com.Dealloc
import Kcom.Com.Lifetime.Model
import Kcom.Com.Lifetime.Ownership
import Kcom.Com.Lifetime.Sequential
import Kcom.Conc.Deterministic
import Kcom.Com.Resurrection
import Kcom.Com.QueryInterface
import Kcom.Macros.Declare
import Kcom.Macros.Accept
import Kcom.Macros.Vtables
import Kcom.Macros.Limits
import Kcom.Macros.ReturnTypes
import Kcom.Async.Operation
import Kcom.Async.Method.Task
import Kcom.Async.Method.Shim
import Kcom.Async.Method.Outlives
import Kcom.Utf16
import Kcom.Unicode
import Kcom.ReprC.Bytes
import Kcom.Allocator.Pool
import Kcom.Allocator.Overaligned
import Kcom.Executor.Timer.Model
import Kcom.Executor.Timer.Memory
import Kcom.Executor.Timer.Wake
import Kcom.Conc.History
import Kcom.Executor.WorkItem.Serving
import Kcom.Executor.WorkItem.Wakeups
import Kcom.Executor.WorkItem.Resources
import Kcom.Executor.WorkItem.Fleet
import Kcom.Executor.WorkItem.Draining
import Kcom.Executor.Dpc.Processors
import Kcom.Executor.Dpc.Machine
import Kcom.Executor.Dpc.Requests
import Kcom.Async.Outcome
import Kcom.Async.Life
import Kcom.Executor.Dpc.Activation
import Kcom.Executor.Dpc.PollBudget
import Kcom.Executor.Dpc.TimeBudget
import Kcom.Async.TryFinally
import Kcom.Unicode.Local
import Kcom.Unicode.Literal
import Kcom.Unicode.Decoding
import Kcom.Allocator.Alignment
import Kcom.Com.Aggregation.Object
import Kcom.Com.Aggregation.Calls
import Kcom.Com.Aggregation.Counters
import Kcom.ReprC.Regions
import Kcom.Allocator.Resolve
import Kcom.Allocator.Shared
import Kcom.Conc.Hosting
import Kcom.Executor.Dpc.FirstPoll
import Kcom.Executor.Dpc.Hosting
import Kcom.Executor.Dpc.Fleet
import Kcom.Executor.Dpc.Unload
import Kcom.Executor.Signal
import Kcom.Async.Hosted
import Kcom.Unicode.Pooled
import Kcom.Owners
import Kcom.Executor.Sleeper
