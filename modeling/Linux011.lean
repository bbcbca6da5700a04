import Linux011.Lib.RefCount
import Linux011.Lib.Run
import Linux011.Lib.Loop
import Linux011.Lib.Coop
import Linux011.Lib.Cpu
import Linux011.Lib.Cells
import Linux011.Lib.Elevator
import Linux011.Lib.Prog
import Linux011.Lib.Block
import Linux011.Lib.Fifo
import Linux011.Lib.Depth
import Linux011.Lib.Delta
import Linux011.Lib.Bytes
import Linux011.Mm.Entry
import Linux011.Mm.Memory
import Linux011.Mm.Spare
import Linux011.Mm.Tables
import Linux011.Mm.Store
import Linux011.Mm.Change
import Linux011.Mm.Free
import Linux011.Mm.Fork
import Linux011.Mm.Fault
import Linux011.Kernel.Task
import Linux011.Kernel.Refs
import Linux011.Kernel.Steps
import Linux011.Kernel.PageFault
import Linux011.Kernel.Fork
import Linux011.Kernel.Exec
import Linux011.Kernel.System
import Linux011.Kernel.Private
import Linux011.Kernel.Progress
import Linux011.Kernel.Counts
import Linux011.Kernel.Isolation
import Linux011.Kernel.Signal
import Linux011.Kernel.Sleep
import Linux011.Kernel.Wakeups
import Linux011.Kernel.Switch
import Linux011.Kernel.SwitchCode
import Linux011.Kernel.SwitchRuns
import Linux011.Kernel.Fpu
import Linux011.Kernel.Schedule
import Linux011.Kernel.Process
import Linux011.Kernel.Reaping
import Linux011.Kernel.Pids
import Linux011.Kernel.Counters
import Linux011.Kernel.Timers
import Linux011.Kernel.Image
import Linux011.Chr.Console
import Linux011.Chr.ConsoleGeometry
import Linux011.Chr.ConsoleScroll
import Linux011.Chr.Tty
import Linux011.Chr.TtyQueues
import Linux011.Chr.LineEditing
import Linux011.Chr.LineCount
import Linux011.Chr.TtyRead
import Linux011.Chr.ConWrite
import Linux011.Chr.TtyWrite
import Linux011.Blk.Request
import Linux011.Blk.Queue
import Linux011.Blk.Elevator
import Linux011.Blk.Hd
import Linux011.Blk.HdTransfers
import Linux011.Blk.HdPartitions
import Linux011.Blk.Current
import Linux011.Blk.CurrentSafe
import Linux011.Fs.Format
import Linux011.Fs.Inode
import Linux011.Fs.InodeLock
import Linux011.Fs.InodeTable
import Linux011.Fs.Zones
import Linux011.Fs.Grow
import Linux011.Fs.DirectoryRaces
import Linux011.Fs.File
import Linux011.Fs.Scan
import Linux011.Fs.Names
import Linux011.Fs.ExecMemory
import Linux011.Fs.ExecPages
import Linux011.Fs.Execve
import Linux011.Fs.ExecFail
import Linux011.Fs.ExecStrings
import Linux011.Fs.ExecArgs
import Linux011.Fs.ExecTooBig
import Linux011.Fs.ExecStack
import Linux011.Fs.Permission
import Linux011.Fs.Pipe
import Linux011.Fs.AllocExact
