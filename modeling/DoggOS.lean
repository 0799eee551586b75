import DoggOS.Boot.MemoryMapScan
import DoggOS.Mem.VirtualRangeRuns
import DoggOS.Mem.VirtualRangeFrees
import DoggOS.Mem.PhysicalPageTotals
import DoggOS.Mem.MappableRuns
import DoggOS.Mem.PageMapWindow
import DoggOS.Mem.PageMapPermissions
import DoggOS.Mem.PageMapSizes
import DoggOS.Mem.HeaderRoom
import DoggOS.Rt.PoolTrims
import DoggOS.Rt.SmallHeapRuns
import DoggOS.Rt.CopyBytes
import DoggOS.Rt.SetBytes
import DoggOS.Rt.QueueRuns
import DoggOS.Rt.PoolLayout
import DoggOS.Rt.BigAllocs
import DoggOS.Rt.NumberParse
import DoggOS.Rt.StringSearch
import DoggOS.Rt.SpinLock
import DoggOS.Rt.ObjectListRuns
import DoggOS.KString.FormatJoins
import DoggOS.Proc.ContextRuns
import DoggOS.Proc.SchedulerLocks
import DoggOS.Proc.ThreadEnds
import DoggOS.Proc.ThreadJoinRuns
import DoggOS.Proc.ProcessList
import DoggOS.Proc.StackPageReuse
import DoggOS.Dev.DiskCmdPageRuns
import DoggOS.Dev.DiskQueueRuns
import DoggOS.Dev.IdeCommands
import DoggOS.Dev.IdeErrors
import DoggOS.Dev.KeyboardTiming
import DoggOS.Io.TerminalStream
import DoggOS.Io.StreamRecyclingRuns
import DoggOS.Fs.PupFormatMount
import DoggOS.Fs.PupBitmap
import DoggOS.Fs.PupRemount
import DoggOS.Fs.PupRefCounts
import DoggOS.Fs.PupCacheThreads
import DoggOS.Fs.PupEntryPageRuns
import DoggOS.Fs.PupNodeRuns
import DoggOS.Fs.OpenFileRuns
import DoggOS.Fs.PupSessionRuns
import DoggOS.Fs.PupContents
import DoggOS.Fs.PupFormatSizes
import DoggOS.Sys.TerminalRuns
import DoggOS.Sys.TerminalReadLine
import DoggOS.Mkfs.ParseArg
import DoggOS.Fs.PupCacheReaderRuns
import DoggOS.Proc.SchedulerWaits
import DoggOS.Sys.TypedLines
import DoggOS.Fs.PupBlockStore
import DoggOS.Irq.InterruptRings
import DoggOS.Irq.InterruptReturns
import DoggOS.Sys.SystemCallReturns
import DoggOS.Rt.KernelHeapBlocks
import DoggOS.Rt.Atomics
