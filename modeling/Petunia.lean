import Petunia.Default.Fifo
import Petunia.Default.Latest
import Petunia.Default.AtMostOnce
import Petunia.Default.Serial
import Petunia.Inprocess.Conservation
import Petunia.Inprocess.Isolation
import Petunia.Inprocess.Order
import Petunia.Nanomsg.Stream
import Petunia.Nanomsg.Drain
import Petunia.Nanomsg.Deadlock
import Petunia.Threads.SendLoop
import Petunia.Threads.Shutdown
import Petunia.Default.Slot
import Petunia.Nanomsg.Faults
import Petunia.Threads.Wakeup
import Petunia.Inprocess.Locks
import Petunia.Inprocess.LockOrder
import Petunia.Default.Opening
import Petunia.Inprocess.Session
import Petunia.Default.Folder
import Petunia.Media.Roles
import Petunia.Media.Overwrite
import Petunia.Default.Receivers
import Petunia.Listeners
import Petunia.Nanomsg.Lone
import Petunia.Media.Types
import Petunia.Registry
import Petunia.Dispatch
import Petunia.Default.Stored
import Petunia.Default.SendFaults
import Petunia.Default.ReceiveFaults
import Petunia.Unregister
import Petunia.Ipc.Progress
import Petunia.Nanomsg.Stack
import Petunia.Threads.Termination
import Petunia.Inprocess.Races
import Petunia.Default.Release
import Petunia.Inprocess.Election
import Petunia.Ipc.Exclusive
import Petunia.Ipc.Network
import Petunia.Media.Channel
import Petunia.Media.EndToEnd.Sqlite
import Petunia.Media.EndToEnd.Nanomsg
