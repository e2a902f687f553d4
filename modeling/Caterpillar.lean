import Caterpillar.ImuLog.PowerLoss
import Caterpillar.ImuLog.Stopping
import Caterpillar.Imu.Pump
import Caterpillar.Settings.FailedPersist
import Caterpillar.Settings.Overlap
import Caterpillar.App.Provenance
import Caterpillar.App.Lifetime
import Caterpillar.App.LinkPolicy
import Caterpillar.App.Advertising
import Caterpillar.Ble.Writes
import Caterpillar.Drivers.Max5419
import Caterpillar.App.FlashMap
import Caterpillar.Settings.Upgrade
import Caterpillar.Ble.DumpThread
import Caterpillar.Ble.Adapt
import Caterpillar.Ble.Messages
import Caterpillar.Ble.Subscription
import Caterpillar.Host.Reassembly
import Caterpillar.ImuLog.Listing
import Caterpillar.ImuLog.Announce
import Caterpillar.ImuLog.Crash
import Caterpillar.ImuLog.WriteErrors
import Caterpillar.ImuLog.Reboot
import Caterpillar.Ble.DumpLog
import Caterpillar.Ble.DumpServe
import Caterpillar.Ble.DumpCancel
import Caterpillar.Imu.Handshake
import Caterpillar.Host.Collect
import Caterpillar.Host.Protocol
import Caterpillar.Ble.LongReads
import Caterpillar.ImuLog.Backlog
import Caterpillar.Settings.Range
import Caterpillar.Drivers.Voltage
import Caterpillar.Host.TimeAxis
import Caterpillar.Drivers.Led
import Caterpillar.Lib.Dict
import Caterpillar.Host.Fleet
import Caterpillar.Host.Registers
import Caterpillar.Host.PowerCycle
import Caterpillar.App.Health
import Caterpillar.App.Ledger
import Caterpillar.Lib.SpiFrame
import Caterpillar.Imu.Asm330lhh
import Caterpillar.Settings.Generate
import Caterpillar.Host.DumpWait
import Caterpillar.App.WallClock
