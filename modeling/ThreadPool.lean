import ThreadPool.PriorityQueue.Basic
import ThreadPool.PriorityQueue.Representation
import ThreadPool.PriorityQueue.Promotion
import ThreadPool.PriorityQueue.Runs
import ThreadPool.PriorityQueue.Refinement
import ThreadPool.PriorityQueue.ServiceOrder
import ThreadPool.PriorityQueue.AgingPass
import ThreadPool.Deadline
import ThreadPool.Mandelbrot.Bitmap
import ThreadPool.Mandelbrot.Layout
import ThreadPool.Mandelbrot.Decode
import ThreadPool.Foundation.Text
import ThreadPool.Server.Query
import ThreadPool.Server.Render
import ThreadPool.Foundation.Ring
import ThreadPool.Foundation.Handles
import ThreadPool.Server.LogRing
import ThreadPool.Server.Request
import ThreadPool.Server.RequestLog
import ThreadPool.Foundation.Reachability
import ThreadPool.Foundation.Locks
import ThreadPool.Pool.State
import ThreadPool.Pool.Code
import ThreadPool.Pool.Transitions
import ThreadPool.Pool.Mutexes
import ThreadPool.Pool.Books
import ThreadPool.Pool.Counters
import ThreadPool.Pool.Execution
import ThreadPool.Pool.Shutdown
import ThreadPool.Pool.PopSection
import ThreadPool.Pool.Stranding
import ThreadPool.Pool.NotEmpty
import ThreadPool.Pool.Drain
import ThreadPool.Pool.AgingScan
import ThreadPool.Foundation.Observation
import ThreadPool.Pool.Pausing
import ThreadPool.Pool.Capacity
import ThreadPool.Pool.Gauges
import ThreadPool.Pool.SubmitNotes
import ThreadPool.Pool.Submission
import ThreadPool.Foundation.Wakeups
import ThreadPool.Pool.Resuming
import ThreadPool.Pool.AgingControl
import ThreadPool.Foundation.Simulation
import ThreadPool.Monitor.Code
import ThreadPool.Monitor.Override
import ThreadPool.Monitor.Steps
import ThreadPool.Monitor.Account
import ThreadPool.Monitor.Lifecycle
import ThreadPool.FilterLock
import ThreadPool.BakeryLock
import ThreadPool.Baseline.Shutdown
import ThreadPool.Server.Delivery
import ThreadPool.Server.Connections
import ThreadPool.Server.Accounting
import ThreadPool.Server.Completion
import ThreadPool.Server.Subscribers
import ThreadPool.Server.Admin
import ThreadPool.Pool.LeftAlone
import ThreadPool.Pool.Executor
import ThreadPool.Baseline.AtRest
import ThreadPool.FilterLock.Progress
import ThreadPool.BakeryLock.Progress
import ThreadPool.Server.Streams
import ThreadPool.Server.Wire
