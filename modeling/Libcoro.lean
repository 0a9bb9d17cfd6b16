import Libcoro.Foundations.Machine
import Libcoro.Foundations.Linearizability
import Libcoro.Foundations.LinkedStack
import Libcoro.Foundations.LinkedQueue
import Libcoro.Foundations.HandoverLock
import Libcoro.Foundations.Ownership
import Libcoro.Foundations.Placement
import Libcoro.Foundations.RingStore
import Libcoro.Foundations.WrappedStore
import Libcoro.Foundations.TimedQueue
import Libcoro.Foundations.InterestList
import Libcoro.Foundations.Tally
import Libcoro.Foundations.Roster
import Libcoro.Foundations.Channel
import Libcoro.Foundations.Closing
import Libcoro.Foundations.Dialogue
import Libcoro.Foundations.Custody
import Libcoro.Foundations.Descriptors
import Libcoro.Foundations.Duration
import Libcoro.Task.Model
import Libcoro.Task.Calls
import Libcoro.Task.Frames
import Libcoro.Task.Lockstep
import Libcoro.Task.Adequacy
import Libcoro.SyncWait
import Libcoro.Detail.Pipe
import Libcoro.Mutex.Model
import Libcoro.Mutex.Refinement
import Libcoro.Mutex.Safety
import Libcoro.Mutex.ScopedLock
import Libcoro.ConditionVariable.Model
import Libcoro.ConditionVariable.Waiters
import Libcoro.ConditionVariable.LostWakeup
import Libcoro.Notification.Model
import Libcoro.Notification.Transitions
import Libcoro.Notification.Conservation
import Libcoro.AwaiterList.Model
import Libcoro.AwaiterList.Refinement
import Libcoro.AwaiterList.Soundness
import Libcoro.AwaiterList.Stack
import Libcoro.AwaiterList.Linearizable
import Libcoro.TimedWait.Model
import Libcoro.TimedWait.Record
import Libcoro.TimedWait.Transitions
import Libcoro.TimedWait.Invariant
import Libcoro.TimedWait.Ownership
import Libcoro.TimedWait.Completion
import Libcoro.TimedWait.Lifetime
import Libcoro.SharedMutex.Model
import Libcoro.SharedMutex.Transitions
import Libcoro.SharedMutex.Waiters
import Libcoro.SharedMutex.Exclusion
import Libcoro.SharedMutex.Fairness
import Libcoro.SharedMutex.Scoped
import Libcoro.Semaphore.Model
import Libcoro.Semaphore.Transitions
import Libcoro.Semaphore.Waiters
import Libcoro.Semaphore.Conservation
import Libcoro.Semaphore.AcquireResult
import Libcoro.Semaphore.AfterShutdown
import Libcoro.Queue.Model
import Libcoro.Queue.Transitions
import Libcoro.Queue.Fifo
import Libcoro.Queue.Shutdown
import Libcoro.Queue.Draining
import Libcoro.RingBuffer.Model
import Libcoro.RingBuffer.Transitions
import Libcoro.RingBuffer.Waiters
import Libcoro.RingBuffer.Conservation
import Libcoro.RingBuffer.ProduceResult
import Libcoro.RingBuffer.Shutdown
import Libcoro.RingBuffer.Stranding
import Libcoro.RingBuffer.Draining
import Libcoro.RingBuffer.Wraparound
import Libcoro.Draining
import Libcoro.Event.Model
import Libcoro.Event.Lists
import Libcoro.Event.Delivery
import Libcoro.Latch.Model
import Libcoro.Latch.Opening
import Libcoro.TaskGroup.Model
import Libcoro.TaskGroup.Counting
import Libcoro.TaskGroup.EmptyEvent
import Libcoro.TaskGroup.Destructor
import Libcoro.WhenAll.Model
import Libcoro.WhenAll.Latch
import Libcoro.WhenAny.Model
import Libcoro.WhenAny.Race
import Libcoro.WhenAny.Delivery
import Libcoro.WhenAny.Progress
import Libcoro.ThreadPool.Model
import Libcoro.ThreadPool.Accounting
import Libcoro.ThreadPool.Shutdown
import Libcoro.ThreadPool.Rejection
import Libcoro.ThreadPool.ResumeRange
import Libcoro.Scheduler.TimedEvents
import Libcoro.Scheduler.Timer
import Libcoro.Scheduler.Poll
import Libcoro.Scheduler.PollRegistrations
import Libcoro.Scheduler.PollRefusal
import Libcoro.Detail.IoNotifierEpoll
import Libcoro.Scheduler.PollCompletion
import Libcoro.Scheduler.ExactlyOnce
import Libcoro.Scheduler.PollSimulation
import Libcoro.Scheduler.StaleEvents
import Libcoro.Scheduler.Schedule
import Libcoro.Scheduler.Handshake
import Libcoro.Scheduler.EventLoop
import Libcoro.Scheduler.Accounting
import Libcoro.Scheduler.LoopExit
import Libcoro.Scheduler.Rejection
import Libcoro.Scheduler.Deadlines
import Libcoro.Scheduler.YieldUntil
import Libcoro.Scheduler.ScheduleTimeout
import Libcoro.Net.IoStatus
import Libcoro.Net.Resolver
import Libcoro.Net.TcpClient
import Libcoro.Net.ReadExact
import Libcoro.Net.WriteAll
import Libcoro.Net.SpuriousReadiness
import Libcoro.Net.TlsClient
import Libcoro.Net.TlsProgress
import Libcoro.Net.TlsUnsent
import Libcoro.Net.Socket
import Libcoro.Net.ElementSpans
import Libcoro.Net.IpAddress
