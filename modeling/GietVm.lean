import GietVm.Library.Linked
import GietVm.Library.Tiling
import GietVm.Library.Buddies
import GietVm.Malloc.Heap
import GietVm.Malloc.Invariant
import GietVm.Malloc.Allocator
import GietVm.Malloc.Kernel
import GietVm.Malloc.User
import GietVm.Library.CombiningTree
import GietVm.Barrier.Build
import GietVm.Library.Exits
import GietVm.Library.Bytes
import GietVm.Library.RadixTree
import GietVm.Fat.Files
import GietVm.Fat.Boot
import GietVm.Fat.View
import GietVm.Fat.Codec
import GietVm.Fat.Edit
import GietVm.Fat.Lookup
import GietVm.Fat.Create
import GietVm.Fat.AddedEntry
import GietVm.Library.Ring
import GietVm.Mwmr.Channel
import GietVm.Mwmr.Calls
import GietVm.Barrier.Simple
import GietVm.Library.TicketLock
import GietVm.Locks.Sqt
import GietVm.Barrier.Mesh
import GietVm.Locks.SqtInvariant
import GietVm.Locks.SqtBuild
import GietVm.Boot.Pmem
import GietVm.Library.Bits
import GietVm.Library.Owners
import GietVm.Boot.PageTable
import GietVm.Boot.Translate
import GietVm.Malloc.Coalesce
import GietVm.Drivers.Sched
import GietVm.Drivers.Bdv
import GietVm.Drivers.BdvInvariant
import GietVm.Drivers.Hba
import GietVm.Drivers.HbaInvariant
import GietVm.Drivers.HbaExecutions
import GietVm.Drivers.HbaWakeup
import GietVm.Drivers.HbaStatus
import GietVm.Kernel.Channels
import GietVm.Kernel.ChannelOwners
import GietVm.Library.RoundRobin
import GietVm.Kernel.CtxSwitch
import GietVm.Kernel.Selection
import GietVm.Kernel.Restart
import GietVm.Coproc.Calls
import GietVm.Coproc.Ownership
import GietVm.Coproc.Irq
import GietVm.Coproc.Completion
import GietVm.Library.Fairness
import GietVm.Barrier.OneRound
import GietVm.Sqt.Footprint
import GietVm.Sqt.Init
import GietVm.Sqt.Participants
import GietVm.Library.Logged
import GietVm.Fat.Sections
import GietVm.Fat.Descriptors
import GietVm.Fat.SectionSafety
import GietVm.Fat.DescriptorRuns
import GietVm.Drivers.Sdc
import GietVm.Library.ByteMemory
import GietVm.Common.Copy
import GietVm.Drivers.Chbuf
import GietVm.Tty.Terminal
import GietVm.Tty.Printf
import GietVm.Tty.BusyTerminal
import GietVm.Kernel.Mailboxes
import GietVm.Kernel.MailboxOwners
import GietVm.Library.ChainTable
import GietVm.Fat.Volume
import GietVm.Fat.Allocator
import GietVm.Fat.Extend
import GietVm.Fat.LastCluster
import GietVm.Fat.FreedSlots
import GietVm.Fat.Truncate
import GietVm.Drivers.SdcInvariant
import GietVm.Fat.Calm
import GietVm.Fat.MakeDirectory
import GietVm.Fat.InodeTree
import GietVm.Library.RadixWalk
import GietVm.Fat.WriteBack
import GietVm.Malloc.Release
import GietVm.Fat.Listing
import GietVm.Fat.Readdir
import GietVm.Fat.ChainEnd
import GietVm.Fat.RemoveEntry
import GietVm.Fat.EntryIndex
import GietVm.Fat.Loads
import GietVm.Fat.Transfers
import GietVm.Fat.TransferBounds
import GietVm.Fat.WriteFailure
import GietVm.Fat.NameBuffers
import GietVm.Fat.NameSafety
import GietVm.Library.Cells
import GietVm.Tty.Getw
import GietVm.Tty.Numerals
import GietVm.Tty.Formats
import GietVm.Fat.IndexMap
import GietVm.Memo.PSeg
import GietVm.Kernel.NicMove
import GietVm.Kernel.NicChannels
import GietVm.Boot.Schedulers
import GietVm.Boot.Placement
import GietVm.Boot.Placed
import GietVm.Boot.ElfLoaded
import GietVm.Xml.Attributes
import GietVm.Library.Numbering
import GietVm.Library.Records
import GietVm.Genmap.Objects
import GietVm.Genmap.Serial
import GietVm.Genmap.Accessors
import GietVm.Genmap.Layout
import GietVm.Genmap.Declared
import GietVm.Genmap.References
import GietVm.Genmap.Lookups
import GietVm.Genmap.Clusters
import GietVm.Genmap.Contents
import GietVm.Library.LeadsTo
import GietVm.Locks.SqtProgress
import GietVm.Library.Splice
import GietVm.Fat.FileBytes
import GietVm.Fat.FileStore
import GietVm.Fat.FileClose
import GietVm.Fat.FileSessions
import GietVm.Library.LinkedMemory
import GietVm.Locks.Atomics
import GietVm.Locks.Spin
import GietVm.Locks.SimpleLock
