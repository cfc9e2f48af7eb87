import ZeOS.Run
import ZeOS.CircularList
import ZeOS.List
import ZeOS.Writes
import ZeOS.RingBuffer
import ZeOS.BreadthFirst
import ZeOS.SharedPages
import ZeOS.X86.Memory
import ZeOS.X86.Machine
import ZeOS.X86.Frame
import ZeOS.X86.Interrupt
import ZeOS.Practica.Mm
import ZeOS.Practica.Sched
import ZeOS.Practica.Utils
import ZeOS.Practica.CBuffer
import ZeOS.Practica.Sys
import ZeOS.Practica.Interrupt
import ZeOS.Practica.System
import ZeOS.Practica.FrameAlloc
import ZeOS.Practica.Allocator
import ZeOS.Practica.Libc
import ZeOS.Practica.Copy
import ZeOS.Practica.Schedule
import ZeOS.Practica.Threads
import ZeOS.Practica.ForkPages
import ZeOS.Practica.FaultPages
import ZeOS.Practica.Outcome
import ZeOS.Practica.Shm
import ZeOS.Practica.ExitPages
import ZeOS.Practica.Boot
import ZeOS.Practica.Runs
import ZeOS.Practica.Tables
import ZeOS.Practica.AccessOk
import ZeOS.Practica.Entry
import ZeOS.Practica.Console
import ZeOS.Practica.Cursor
import ZeOS.Practica.DataPages
import ZeOS.Practica.DataReads
import ZeOS.Practica.Exhaustion
import ZeOS.Practica.LiveFrames
import ZeOS.Practica.CopyOnWrite
import ZeOS.Practica.SharedMemory
import ZeOS.Practica.TableBounds
import ZeOS.Practica.Attach
import ZeOS.Practica.FaultRoutine
import ZeOS.Practica.CopyBranch
import ZeOS.Practica.Isolation
import ZeOS.Practica.Quantum
import ZeOS.Practica.ExitShared
import ZeOS.Practica.Erase
import ZeOS.Practica.Taken
import ZeOS.Practica.Queues
import ZeOS.Practica.FrameLeak
import ZeOS.Practica.ForkAtomic
import ZeOS.Practica.Protection
import ZeOS.Practica.Keyboard
import ZeOS.Practica.UserMemory
import ZeOS.Practica.PidTable
import ZeOS.Practica.Waiting
import ZeOS.Practica.Books
import ZeOS.Practica.Accounts
import ZeOS.Practica.Attribution
import ZeOS.Practica.ForkShared
import ZeOS.Practica.Removal
import ZeOS.Practica.Legitimate
import ZeOS.Practica.CopyExact
import ZeOS.Practica.Resume
import ZeOS.Practica.TlbCopy
import ZeOS.Practica.Tlb
import ZeOS.Practica.CopyApart
import ZeOS.Practica.Handlers
import ZeOS.Practica.Sysenter
import ZeOS.Practica.UserUtils
import ZeOS.Practica.TaskSwitch
import ZeOS.Practica.Coroutines
import ZeOS.Game.Board
import ZeOS.Game.Bfs
import ZeOS.Game.ShortestPath
import ZeOS.Game.Play
import ZeOS.Game.Units
import ZeOS.Game.Movements
import ZeOS.Game.Score
import ZeOS.Game.Mailbox
import ZeOS.Zeos.Sched
import ZeOS.Zeos.Sys
import ZeOS.Zeos.Tree
import ZeOS.Zeos.Queues
import ZeOS.Zeos.Calls
import ZeOS.Zeos.ForkPages
import ZeOS.Zeos.Family
import ZeOS.Zeos.Fork
import ZeOS.Zeos.Tables
import ZeOS.Zeos.Steps
import ZeOS.Zeos.Boot
import ZeOS.Zeos.Console
import ZeOS.Zeos.PageFault
import ZeOS.Zeos.Turns
import ZeOS.Zeos.Orphans
import ZeOS.Zeos.Duplicate
import ZeOS.Zeos.Frames
import ZeOS.Zeos.Pending
import ZeOS.Zeos.Places
import ZeOS.Zeos.Semaphore
