import BezOS.System.RangeFinding
import BezOS.System.Ledger
import BezOS.Container.BTreeInvariant
import BezOS.Container.BTreeIterator
import BezOS.Container.BTreeAtomicity
import BezOS.Std.RingQueueSafety
import BezOS.Std.RcuGuardMoves
import BezOS.Std.RcuRetirement
import BezOS.Std.RingRefinement
import BezOS.Task.RescueSlot
import BezOS.Task.RoundRobin
import BezOS.Task.SleepDeadlines
import BezOS.Task.Termination
import BezOS.Memory.BlockNormal
import BezOS.Memory.TableCompleteness
import BezOS.Memory.BitmapSafety
import BezOS.Std.RcuPtrBalance
import BezOS.System.DueWakes
import BezOS.System.ProcessAccess
import BezOS.Memory.MappingLookup
import BezOS.Memory.PageReaders
import BezOS.Memory.PageStats
import BezOS.User.UserMemorySafety
import BezOS.Task.Accounting
import BezOS.Fs.PathGrammar
import BezOS.Fs.VfsRemoval
import BezOS.Fs.FolderIteration
import BezOS.Fs.TarMount
import BezOS.Acpi.AmlElse
import BezOS.Acpi.AmlPackages
import BezOS.Memory.PoolRuns
import BezOS.Memory.PageAllocator
import BezOS.Memory.TlsfInvariant
import BezOS.Memory.TlsfResizing
import BezOS.Memory.TlsfReserving
import BezOS.Memory.TlsfPartition
import BezOS.Memory.TlsfReset
import BezOS.System.MappingFailure
import BezOS.Fs.RamFsFile
import BezOS.Fs.TarSafety
import BezOS.User.ProcessArgs
import BezOS.Acpi.Tables
import BezOS.Devices.StreamDevice
import BezOS.Firmware.Smbios
import BezOS.Drivers.Partition
import BezOS.Drivers.GptScan
import BezOS.Devices.PciProbe
import BezOS.Elf.LoadBounds
import BezOS.Devices.IoApic
import BezOS.Devices.Canvas
import BezOS.Posix.Numerals
import BezOS.Posix.StringOrder
import BezOS.Util.Format
import BezOS.Util.Uuid
import BezOS.Memory.LargeRanges
import BezOS.Memory.RangeSets
import BezOS.Std.FlatMap
import BezOS.Std.StickyCounter
import BezOS.Std.DequeRemoval
import BezOS.Std.SpinLocks
import BezOS.Std.InlinedVector
