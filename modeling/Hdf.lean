import Hdf.HcGen.Unexpanded
import Hdf.HcGen.Deletion
import Hdf.VNode.EventQueue
import Hdf.HcGen.IncludeCycles
import Hdf.HcGen.DecompileGen
import Hdf.Core.ServiceVisibility
import Hdf.Core.ServiceLifeCycle
import Hdf.Wifi.PriorityQueue
import Hdf.Platform.PlatformQueue
import Hdf.Platform.PlatformEvent
import Hdf.Platform.RegulatorLocks
import Hdf.Platform.PlatformDevice
import Hdf.Platform.GpioManager
import Hdf.Platform.I3c
import Hdf.Storage.MtdTransfer
import Hdf.Audio.RenderRing
import Hdf.Audio.SapmChains
import Hdf.Wifi.SharedObj
import Hdf.HcsParser.Building
import Hdf.HcsParser.NodeSearch
import Hdf.HcGen.Comments
import Hdf.HcGen.Buffering
import Hdf.HcGen.Numbers
import Hdf.HcGen.Conformance
import Hdf.HdiGen.CompileOrder
import Hdf.Sbuf.NoTrace
import Hdf.Core.BoundedWait
import Hdf.Core.DriverEntries
import Hdf.Core.PriorityLists
import Hdf.Core.WakeLock
import Hdf.Utils.MapAllocation
import Hdf.Core.FailedAddDevice
import Hdf.Core.PollTable
import Hdf.HcGen.MacroNames
import Hdf.Utils.MessageQueue
import Hdf.Wifi.FrameClasses
import Hdf.Wifi.FlowControlStop
import Hdf.Platform.DmacDescriptors
import Hdf.Platform.RegulatorTopology
import Hdf.Hdmi.AudioDataBlock
import Hdf.Hdmi.Y420Capability
import Hdf.Hdmi.SinkFields
import Hdf.Audio.ByteOrder
import Hdf.Platform.Rtc
import Hdf.Storage.MmcCommand
import Hdf.Storage.MmcAddresses
import Hdf.Platform.I3cIbi
import Hdf.Audio.SapmEndPoints
import Hdf.Platform.GpioIrqFreed
import Hdf.Storage.MtdBounds
import Hdf.Audio.SapmSwitch
import Hdf.HdiGen.StringSearches
import Hdf.HdiGen.PackagePaths
import Hdf.Storage.SdioBlocks
import Hdf.Storage.SdioCis
import Hdf.Storage.SdioIrqThread
import Hdf.HdiGen.OutArrays
import Hdf.HdiGen.TokenText
import Hdf.VNode.ServiceCall
