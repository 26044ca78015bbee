import FerrumVM.Completion
import FerrumVM.Confinement
import FerrumVM.TransportReset
import FerrumVM.InterruptDelivery
import FerrumVM.MmioWindow
import FerrumVM.UsedLength
import FerrumVM.FolderFailures
import FerrumVM.FolderRename
import FerrumVM.FuseTransport
import FerrumVM.FirmwareConsole
import FerrumVM.Timer
import FerrumVM.FirmwareNetReceive
import FerrumVM.EfiHandles
import FerrumVM.FolderAttributes
import FerrumVM.PeImage
import FerrumVM.FuseWalks
import FerrumVM.GpuTransfer
import FerrumVM.GpuReplies
import FerrumVM.MemoryCarving
import FerrumVM.EfiDescriptors
import FerrumVM.FirmwareMedia
import FerrumVM.FirmwarePool
import FerrumVM.EfiPages
import FerrumVM.BootCorrupt
import FerrumVM.FirmwareCrc
