import RecoverOS.Base.Bytes
import RecoverOS.Base.Prog
import RecoverOS.Base.Ownership
import RecoverOS.Base.Run
import RecoverOS.Base.Ring
import RecoverOS.Base.Count
import RecoverOS.Base.Words
import RecoverOS.LibKernel.Bitmap
import RecoverOS.Fs.Format
import RecoverOS.Fs.Content
import RecoverOS.Fs.Proofs.Alloc
import RecoverOS.Fs.Invariant
import RecoverOS.Fs.Proofs.WriteCall
import RecoverOS.Fs.Proofs.Lifecycle
import RecoverOS.Fs.Proofs.Mount
import RecoverOS.Fs.DataRegion
import RecoverOS.Fs.Reach
import RecoverOS.Fs.Sequential
import RecoverOS.Fs.Dir
import RecoverOS.Fs.Directory
import RecoverOS.Fs.Path
import RecoverOS.Fs.Proofs.Sizes
import RecoverOS.Fs.Calls
import RecoverOS.Fs.Tree
import RecoverOS.Fs.Proofs.Names
import RecoverOS.Fs.Proofs.Search
import RecoverOS.Fs.Proofs.Root
import RecoverOS.Fs.Proofs.Unlink
import RecoverOS.Fs.Proofs.Calls
import RecoverOS.Fs.PathCalls
import RecoverOS.Fs.OpenCounts
import RecoverOS.Fs.Positions
import RecoverOS.Fs.Remount
import RecoverOS.Fs.ReadWrite
import RecoverOS.Fs.Directories
import RecoverOS.Fs.FailedOpen
import RecoverOS.Fs.Resolution
import RecoverOS.Fs.NameBuffers
import RecoverOS.Fs.Listing
import RecoverOS.Fs.InodeCodec
import RecoverOS.Pipe.Calls
import RecoverOS.Pipe.BadDescriptors
import RecoverOS.Pipe.Lifetime
import RecoverOS.Pipe.AllOrNothing
import RecoverOS.Pipe.Kinds
import RecoverOS.Fs.Concurrent.BlockBitmap
import RecoverOS.Thread.Sync
import RecoverOS.Thread.Sched
import RecoverOS.Fs.Concurrent.InodeTable
import RecoverOS.Fs.Concurrent.OpenInodes
import RecoverOS.Fs.Concurrent.DirLink
import RecoverOS.Memory.Paging
import RecoverOS.Memory.PageMap
import RecoverOS.Memory.Pages
import RecoverOS.Memory.Accounting
import RecoverOS.Memory.FailedAlloc
import RecoverOS.Memory.PoolMemory
import RecoverOS.Memory.Heap
import RecoverOS.Memory.HeapBlocks
import RecoverOS.Device.Ide
import RecoverOS.Device.Transfers
import RecoverOS.Device.Completion
import RecoverOS.Device.Ioqueue
import RecoverOS.Device.Waiting
import RecoverOS.UserProg.Descriptors
import RecoverOS.UserProg.WaitExit
import RecoverOS.UserProg.Release
import RecoverOS.UserProg.Exec
import RecoverOS.UserProg.FailedFork
import RecoverOS.Shell.CmdParse
import RecoverOS.Shell.Execute
import RecoverOS.Shell.Main
import RecoverOS.Lib.Stdio
import RecoverOS.LibKernel.Print
import RecoverOS.Device.Keyboard
import RecoverOS.Fs.CloseInode
import RecoverOS.LibKernel.RunAlloc
import RecoverOS.LibKernel.PutNum
import RecoverOS.Shell.Readline
import RecoverOS.LibKernel.ElemList
import RecoverOS.Command.Game2048
import RecoverOS.Command.Tiles
import RecoverOS.Command.Snake
import RecoverOS.LibKernel.Roll
import RecoverOS.Shell.TypedLine
import RecoverOS.Fs.Texts
import RecoverOS.Fs.Store
import RecoverOS.Base.Serial
import RecoverOS.Device.Console
import RecoverOS.Thread.Turns
import RecoverOS.UserProg.MappedPages
import RecoverOS.UserProg.TwoSpaces
import RecoverOS.UserProg.CopyPages
import RecoverOS.UserProg.CopyBody
import RecoverOS.UserProg.FreedPages
import RecoverOS.UserProg.UserPages
import RecoverOS.UserProg.LoadedImage
import RecoverOS.UserProg.Isolation
import RecoverOS.Shell.Commands
