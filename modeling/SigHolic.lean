import SigHolic.Base.Framing
import SigHolic.Base.OrderedMap
import SigHolic.Base.Runs
import SigHolic.Iocp.PoolClear
import SigHolic.Network.Binding
import SigHolic.Network.Broadcast
import SigHolic.Network.Buffers
import SigHolic.Network.ByteCount
import SigHolic.Network.Closing
import SigHolic.Network.Completions
import SigHolic.Network.Connection
import SigHolic.Network.Echo
import SigHolic.Network.Flushing
import SigHolic.Network.FrameSize
import SigHolic.Network.Framing
import SigHolic.Network.Orphans
import SigHolic.Network.PoolLocks
import SigHolic.Network.Rejection
import SigHolic.Network.Relay
import SigHolic.Network.SendStream
import SigHolic.Network.Sessions
import SigHolic.Socket.RegistryOrder
import SigHolic.Socket.SendLock
import SigHolic.Socket.SessionLocks
import SigHolic.Utility.BufferLimits
import SigHolic.Utility.BufferQueue
import SigHolic.Utility.Deadlines
import SigHolic.Utility.JobProcessor
import SigHolic.Utility.Scheduler
import SigHolic.Utility.JobSystem
import SigHolic.Base.Settling
import SigHolic.Network.Draining
import SigHolic.Network.Answering
import SigHolic.Network.Leaks
import SigHolic.Network.Crashes
import SigHolic.Network.PoolSize
import SigHolic.Network.Startup
import SigHolic.Base.Entries
import SigHolic.Network.Delivery
