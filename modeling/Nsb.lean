import Nsb.Lib.Memory
import Nsb.Lib.Bits
import Nsb.Lib.Bytes
import Nsb.Lib.Buffer
import Nsb.Lib.Preorder
import Nsb.Lib.CText
import Nsb.Lib.Machine
import Nsb.Lib.Loop
import Nsb.Lib.Run
import Nsb.Lib.Layers
import Nsb.Lib.Groups
import Nsb.Lib.SortedSearch
import Nsb.Lib.Ring
import Nsb.Lib.Fields
import Nsb.Patcher.Types
import Nsb.Patcher.Backtrace
import Nsb.Patcher.StackCheck
import Nsb.Patcher.X86
import Nsb.Patcher.CallStub
import Nsb.Patcher.Vma
import Nsb.Patcher.DlMap
import Nsb.Patcher.Collect
import Nsb.Patcher.Process
import Nsb.Patcher.Elf
import Nsb.Patcher.LoadBase
import Nsb.Patcher.Relocations
import Nsb.Patcher.Binding
import Nsb.Patcher.RelocCoverage
import Nsb.Patcher.Patch
import Nsb.Patcher.StackRange
import Nsb.Patcher.Revert
import Nsb.Patcher.RevertExact
import Nsb.Patcher.Placement
import Nsb.Patcher.LowestPlace
import Nsb.Patcher.Mapping
import Nsb.Patcher.Apply
import Nsb.Patcher.PinnedImage
import Nsb.Patcher.Image
import Nsb.Patcher.Session
import Nsb.Patcher.AddrLookup
import Nsb.Patcher.Maps
import Nsb.Patcher.Recollect
import Nsb.Patcher.Stacked
import Nsb.Patcher.Restack
import Nsb.Patcher.History
import Nsb.Patcher.Infect
import Nsb.Patcher.Dentry
import Nsb.Patcher.InfectSafety
import Nsb.Patcher.Suspend
import Nsb.Patcher.SuspendRelease
import Nsb.Patcher.Release
import Nsb.Patcher.RemoteCall
import Nsb.Patcher.InfectLoop
import Nsb.Patcher.ListHead
import Nsb.Generator.StaticSymbol
import Nsb.Patcher.StaticRef
import Nsb.Patcher.DryRun
import Nsb.Patcher.Removal
import Nsb.Service.Messages
import Nsb.Service.LinkMap
import Nsb.Service.Plugin
import Nsb.Service.Isolation
import Nsb.Service.Client
import Nsb.Service.Load
import Nsb.Service.Rollback
import Nsb.Patcher.Rtld
import Nsb.Patcher.NeededArray
import Nsb.Service.NeededList
import Nsb.Service.Socket
import Nsb.Service.Conversation
import Nsb.Generator.DebugInfo
import Nsb.Generator.DieLookup
import Nsb.Generator.AddressSpace
import Nsb.Generator.MemoryStream
import Nsb.Generator.DiKey
import Nsb.Generator.TypeObject
import Nsb.Generator.VzpMeta
import Nsb.Generator.PatchSymbol
import Nsb.Generator.StaticBinding
import Nsb.Generator.FileScopes
import Nsb.Generator.BindingContext
import Nsb.Generator.ReadPatch
import Nsb.Generator.Resolve
import Nsb.Generator.BinPatch
import Nsb.Generator.ObjectFile
import Nsb.Generator.StaticResolve
import Nsb.Patcher.Protobuf
import Nsb.Patcher.Delivery
import Nsb.Patcher.StaticDelivery
import Nsb.Generator.PrefixTest
import Nsb.Generator.InnerRef
import Nsb.Generator.SymbolOrigins
import Nsb.Generator.ReadExact
