import OK210Drivers.Library.Runs
import OK210Drivers.Library.Mem
import OK210Drivers.Library.Heap
import OK210Drivers.Library.Fifo
import OK210Drivers.Tdd.Driver
import OK210Drivers.Tdd.Fifo
import OK210Drivers.RamDisk.Device
import OK210Drivers.RamDisk.Flat
import OK210Drivers.Library.Slots
import OK210Drivers.Server.Common
import OK210Drivers.Server.Select
import OK210Drivers.Server.Epoll
import OK210Drivers.Server.SelectBookkeeping
import OK210Drivers.Server.EpollClose
import OK210Drivers.Server.EpollDispatch
import OK210Drivers.Nand.Controller
import OK210Drivers.Nand.Layouts
import OK210Drivers.Nand.Pages
import OK210Drivers.Nand.Steps
import OK210Drivers.Nand.RoundTrip
import OK210Drivers.Key.Driver
import OK210Drivers.Key.LatestEvent
import OK210Drivers.Key.Lines
import OK210Drivers.Key.OpenClose
import OK210Drivers.Buttons.Debounce
import OK210Drivers.Touch.AdcLock
import OK210Drivers.RamDisk.Partition
import OK210Drivers.RamDisk.Reveal
import OK210Drivers.Tdd.OpenRelease
import OK210Drivers.Usb.MouseAsKey
import OK210Drivers.Ingbenfs.Counter
import OK210Drivers.Ingbenfs.Readers
import OK210Drivers.Touch.Averages
import OK210Drivers.Vhdd.Driver
import OK210Drivers.Server.Poll
import OK210Drivers.Server.PollSimulation
import OK210Drivers.Server.PollBounds
import OK210Drivers.Server.Fork
import OK210Drivers.Server.ForkAccounting
import OK210Drivers.Server.Pthread
import OK210Drivers.Server.PthreadClose
import OK210Drivers.Ingbenfs.Chunks
import OK210Drivers.Ingbenfs.WriteBack
import OK210Drivers.Key.FreshEvent
import OK210Drivers.Tdd.Failures
import OK210Drivers.Library.XorPatch
import OK210Drivers.Nand.Report
import OK210Drivers.Nand.StrayBits
import OK210Drivers.Nand.Detect
import OK210Drivers.Nand.Probe
import OK210Drivers.Aufs.Create
import OK210Drivers.Aufs.Links
import OK210Drivers.Aufs.Tree
import OK210Drivers.BottomHalf.Driver
import OK210Drivers.BottomHalf.Pending
import OK210Drivers.Aufs.LookupError
import OK210Drivers.Lcd.Palette
import OK210Drivers.Library.Confined
import OK210Drivers.RamDisk.Agreement
import OK210Drivers.RamDisk.BootRecords
import OK210Drivers.RamDisk.Window
import OK210Drivers.Samplefs.Grammar
import OK210Drivers.Server.SelectDescriptors
import OK210Drivers.Sysfs.Store
import OK210Drivers.Library.IntExpr
import OK210Drivers.Library.Best
import OK210Drivers.Touch.ProcWrite
import OK210Drivers.Touch.Calibration
import OK210Drivers.Mmc.ClockSource
import OK210Drivers.Buttons.ArmedAtInit
import OK210Drivers.Led.Status
import OK210Drivers.Led.Ioctl
import OK210Drivers.Semaphore.Alternation
import OK210Drivers.Server.SlotSearch
import OK210Drivers.Server.SelectFdmax
import OK210Drivers.Nand.Oob
import OK210Drivers.Nand.Store
import OK210Drivers.Nand.SingleBit
import OK210Drivers.Server.Clients
import OK210Drivers.Server.Conversation
import OK210Drivers.Server.Progress
import OK210Drivers.Server.Deadlock
import OK210Drivers.Server.Exchanges
import OK210Drivers.Touch.Release
import OK210Drivers.Library.Loading
import OK210Drivers.Mmc.Probe
import OK210Drivers.Touch.Probe
import OK210Drivers.RamDisk.Loading
import OK210Drivers.Sysfs.Kset
import OK210Drivers.Mmc.Bus
import OK210Drivers.Library.Threads
import OK210Drivers.Library.Counter
import OK210Drivers.Counter.Rwlock
import OK210Drivers.Counter.Seqlock
import OK210Drivers.Led.Platform
import OK210Drivers.Nand.Contents
