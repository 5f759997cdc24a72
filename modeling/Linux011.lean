import Linux011.Lib.Wp
import Linux011.Lib.Refs
import Linux011.Lib.Bits
import Linux011.Mm.Routines
import Linux011.Mm.Faults
import Linux011.Lib.Run
import Linux011.Mm.Tasks
import Linux011.Mm.Run
import Linux011.Mm.Steps
import Linux011.Mm.Directory
import Linux011.Mm.Verify
import Linux011.Mm.KernelTables
import Linux011.Mm.Area
import Linux011.Mm.Arguments
import Linux011.Mm.Pristine
import Linux011.Mm.Cow
import Linux011.Lib.Linked
import Linux011.Lib.Logged
import Linux011.Buffer.Cache
import Linux011.Buffer.Queues
import Linux011.Buffer.Requests
import Linux011.Buffer.Frames
import Linux011.Buffer.Tasks
import Linux011.Buffer.Writers
import Linux011.Buffer.Calls
import Linux011.Buffer.Race
import Linux011.Buffer.Effects
import Linux011.Buffer.InFlight
import Linux011.Buffer.Coherence
import Linux011.Buffer.Content
import Linux011.Buffer.Breada
import Linux011.Buffer.Callers
import Linux011.Buffer.Cleanable
import Linux011.Lib.Chain
import Linux011.Lib.Sweeps
import Linux011.Block.Requests
import Linux011.Block.Elevator
import Linux011.Block.Accounting
import Linux011.Pipe.Ring
import Linux011.Pipe.Fifo
import Linux011.Pipe.Overlap
import Linux011.Console.Screen
import Linux011.Console.Safety
import Linux011.Console.Scroll
import Linux011.Console.Saved
import Linux011.Tty.Queue
import Linux011.Tty.Line
import Linux011.Tty.Editing
import Linux011.Tty.Drain
import Linux011.Tty.Counter
import Linux011.Tty.Writers
import Linux011.Tty.Alarm
import Linux011.Tty.Keyboard
import Linux011.Tty.Blind
import Linux011.Malloc.Buckets
import Linux011.Malloc.Objects
import Linux011.Malloc.Runs
import Linux011.Hd.Driver
import Linux011.Hd.Transfers
import Linux011.Hd.Retries
import Linux011.Hd.Absent
import Linux011.Floppy.Driver
import Linux011.Floppy.Phases
import Linux011.Floppy.Heads
import Linux011.Floppy.Absent
import Linux011.Kernel.Signals
import Linux011.Kernel.Kill
import Linux011.Kernel.Sched
import Linux011.Kernel.Choice
import Linux011.Kernel.Timers
import Linux011.Kernel.Identity
import Linux011.Kernel.WaitQueue
import Linux011.Kernel.Fork
import Linux011.Kernel.Process
import Linux011.Kernel.Family
import Linux011.Kernel.Exit
import Linux011.Kernel.Reaping
import Linux011.Fs.Bitmap
import Linux011.Fs.Namei
import Linux011.Fs.Confined
import Linux011.Fs.Open
import Linux011.Fs.Offsets
import Linux011.Fs.Access
import Linux011.Fs.Bmap
import Linux011.Fs.Directory
import Linux011.Fs.Names
import Linux011.Fs.Lookups
import Linux011.Fs.EmptyDir
import Linux011.Fs.Effects
import Linux011.Fs.Adding
import Linux011.Fs.Whole
import Linux011.Fs.Truncated
import Linux011.Fs.Balance
import Linux011.Fs.Room
import Linux011.Fs.InCore
import Linux011.Fs.Exhausted
import Linux011.Fs.Refused
import Linux011.Fs.Granted
import Linux011.Fs.Mkdir
import Linux011.Fs.Tidy
import Linux011.Fs.Ledger
import Linux011.Fs.Entries
import Linux011.Fs.Steps
import Linux011.Fs.Clean
import Linux011.Fs.Created
import Linux011.Fs.Files
import Linux011.Fs.Runs
import Linux011.Fs.Mount
import Linux011.Inodes.Table
import Linux011.Inodes.SelfWait
import Linux011.Inodes.Iget
import Linux011.Inodes.OneCopy
import Linux011.Inodes.Schedules
import Linux011.Inodes.Changes
import Linux011.Inodes.Marked
import Linux011.Inodes.Mounting
import Linux011.Inodes.References
import Linux011.Inodes.Supers
import Linux011.Inodes.Clean
import Linux011.Lib.Bytes
import Linux011.Exec.Space
import Linux011.Exec.Execve
import Linux011.Exec.Access
import Linux011.Exec.Copy
import Linux011.Exec.Bounds
import Linux011.Exec.Tables
import Linux011.Exec.Arguments
import Linux011.Exec.Counts
import Linux011.Exec.Failure
import Linux011.Exec.Accepted
import Linux011.Exec.Demand
import Linux011.Lib.Calendar
import Linux011.Kernel.Mktime
import Linux011.Tty.PutQueue
import Linux011.Lib.StringOps
import Linux011.Mm.FreePage
import Linux011.Strings.Routines
import Linux011.Strings.Compare
import Linux011.Strings.Search
import Linux011.Strings.Standard
import Linux011.Buffer.Pointers
import Linux011.Buffer.Strays
import Linux011.Buffer.Init
import Linux011.Buffer.Stored
import Linux011.Lib.Countdown
import Linux011.Kernel.Number
import Linux011.Lib.Cursor
import Linux011.Kernel.Format
import Linux011.Kernel.Vsprintf
