import CheatEngine.ByteStream
import CheatEngine.BitField
import CheatEngine.TransitionSystem
import CheatEngine.DoublyLinked
import CheatEngine.ExtentPacking
import CheatEngine.FailingChannel
import CheatEngine.ObservedRun
import CheatEngine.ByteMemory
import CheatEngine.RadixTree
import CheatEngine.PointerValueList
import CheatEngine.PointerValueListRoundTrip
import CheatEngine.PointerValueListCreate
import CheatEngine.PointerValueListExact
import CheatEngine.PointerValueListSearch
import CheatEngine.PointerscanStructures
import CheatEngine.PointerscanPathStream
import CheatEngine.PointerscanTransmission
import CheatEngine.PointerscanPathQueues
import CheatEngine.PointerscanPathExchange
import CheatEngine.PointerscanPathConservation
import CheatEngine.PointerscanQueueAccounting
import CheatEngine.PointerscanResume
import CheatEngine.PointerscanFraming
import CheatEngine.PointerscanRscan
import CheatEngine.PointerscanScheduling
import CheatEngine.PointerscanRecord
import CheatEngine.MemScanSplit
import CheatEngine.MemScanResults
import CheatEngine.ScanFileWriter
import CheatEngine.Base85
import CheatEngine.RemoteWrites
import CheatEngine.RemoteReadCache
import CheatEngine.NetworkFraming
import CheatEngine.Ultimap
import CheatEngine.VirtualQueryExCache
import CheatEngine.SymbolList
import CheatEngine.SearchTree
import CheatEngine.SymbolLookup
import CheatEngine.DbvmMalloc
import CheatEngine.HexText
import CheatEngine.TokenText
import CheatEngine.AutoAssembler
import CheatEngine.AutoAssemblerDefines
import CheatEngine.AssemblerRewriteValue
import CheatEngine.AssemblerRelativeAddress
import CheatEngine.AssemblerRexPrefix
import CheatEngine.AssemblerBranches
import CheatEngine.X86Addressing
import CheatEngine.PointerPaths
import CheatEngine.PointerAddressList
import CheatEngine.PointerAddressListLoad
import CheatEngine.PointerscanRescan
import CheatEngine.PointerValueListNearest
import CheatEngine.PointerscanSoundness
import CheatEngine.ArrayRange
import CheatEngine.PointerValueListSort
import CheatEngine.PointerValueListRegions
import CheatEngine.PointerValueListPrepare
import CheatEngine.ScannedText
import CheatEngine.CeserverRegions
import CheatEngine.CeserverRegionsAgree
import CheatEngine.Deflate
import CheatEngine.CeserverSymbols
import CheatEngine.CeserverSymbolsPacking
import CheatEngine.CeserverSymbolsRoundTrip
import CheatEngine.PascalText
import CheatEngine.DocumentNodes
import CheatEngine.MemoryRecordUnit
import CheatEngine.MemoryRecordFields
import CheatEngine.MemoryRecordBody
import CheatEngine.MemoryRecordKept
import CheatEngine.MemoryRecordRoundTrip
import CheatEngine.PointerscanParentQueue
import CheatEngine.PointerscanChildren
import CheatEngine.MemScanRanges
import CheatEngine.PointerscanValueSeeding
import CheatEngine.MemScanBinary
import CheatEngine.MemScanBatches
import CheatEngine.MemScanAllTypes
import CheatEngine.MemScanRegions
import CheatEngine.MemScanOnlyOne
import CheatEngine.AobPattern
import CheatEngine.SimpleAobScanner
import CheatEngine.PointerscanPathArrays
import CheatEngine.PointerscanResultReader
import CheatEngine.MemScanChunks
import CheatEngine.MemScanFastScan
import CheatEngine.MemScanFirstScan
import CheatEngine.MemScanSavedRegions
import CheatEngine.MemScanSnapshot
import CheatEngine.MemScanSignedBetween
import CheatEngine.CircularBuffer
import CheatEngine.SavedScanRegions
import CheatEngine.SavedScanAddresses
import CheatEngine.SavedScanInOrder
import CheatEngine.SavedScanAnyOrder
import CheatEngine.GroupScan
import CheatEngine.GroupScanInterference
import CheatEngine.GroupScanCommand
import CheatEngine.GroupScanCommandRun
import CheatEngine.GroupScanLayout
import CheatEngine.GroupScanOutOfOrder
import CheatEngine.ScanResultBuffers
import CheatEngine.RegisteredSymbolLists
import CheatEngine.SignedExpressions
import CheatEngine.AddressParser
import CheatEngine.AutoAssemblerResolution
import CheatEngine.AutoAssemblerDeclarations
import CheatEngine.AutoAssemblerAllocation
import CheatEngine.AutoAssemblerComments
import CheatEngine.TokenSubstitution
import CheatEngine.AutoAssemblerUnlabeled
import CheatEngine.AutoAssemblerStruct
import CheatEngine.SymhandlerAddress
import CheatEngine.PointerExpressions
import CheatEngine.AddressExpressionLevel
import CheatEngine.AddressExpressionItems
import CheatEngine.AddressExpressions
import CheatEngine.HandleTable
import CheatEngine.PartialTransfer
import CheatEngine.SocketTransfers
import CheatEngine.ModuleRegions
import CheatEngine.GlobalAllocations
import CheatEngine.ThreadBreakpoints
import CheatEngine.CeserverWrites
import CheatEngine.CeserverPagedRegions
import CheatEngine.RealModeGuest
import CheatEngine.RealModeInstructions
import CheatEngine.RealModeAddressing
import CheatEngine.NumberText
import CheatEngine.BuildString
import CheatEngine.ArmOperand
import CheatEngine.MnemonicIndex
import CheatEngine.PageMap
