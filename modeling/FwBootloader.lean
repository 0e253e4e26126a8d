import FwBootloader.Android.Equiv.Image
import FwBootloader.Equiv.Zone
import FwBootloader.Hid.Equiv.Bounds
import FwBootloader.Hid.Equiv.Verified
import FwBootloader.Link.AndroidUpdate
import FwBootloader.Link.CommandRoundTrip
import FwBootloader.Link.Corruption
import FwBootloader.Link.CrcList
import FwBootloader.Link.DeviceCheck
import FwBootloader.Link.EraseRange
import FwBootloader.Link.FlashCrc
import FwBootloader.Link.LossyUboot
import FwBootloader.Link.LossyUpdate
import FwBootloader.Link.Noise
import FwBootloader.Link.Recovery
import FwBootloader.Link.ReplyPairing
import FwBootloader.Link.ReplyRoundTrip
import FwBootloader.Link.UartUpdate
import FwBootloader.Link.UbootRepair
import FwBootloader.Link.UbootUpdate
import FwBootloader.Link.UsbUpdate
import FwBootloader.Link.Verified
import FwBootloader.Link.Writes
import FwBootloader.Link.WrongKey
import FwBootloader.Uart.Equiv.BlockingQueue
import FwBootloader.Uart.Equiv.Ending
import FwBootloader.Uart.Equiv.Failure
import FwBootloader.Uart.Equiv.Ordering
import FwBootloader.User.Equiv.CopyUboot
import FwBootloader.User.Equiv.EncCmdData
import FwBootloader.User.Equiv.ReplyHistory
import FwBootloader.User.Equiv.Safety
import FwBootloader.User.Equiv.Sessions
