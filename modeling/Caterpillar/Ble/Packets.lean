/-
  The packets the firmware builds: what the read handlers of 0xFFE6, 0xFFE8, 0xFFEA and 0xFFEF
  (src/ble/ble_interface.c) answer, and what `tx_thread` and `dump_thread` (ble_transport.c) send.

  Each packet is filled by stores at offsets into a buffer that holds anything before, and cut to its
  length, in the order of the source.  Where the stores tile the packet, they are the packet
  (`slice_stores`).
-/
import Caterpillar.App.Advertising
import Caterpillar.Ble.StreamFifo
import Caterpillar.Ble.Writes
import Caterpillar.ImuLog.Listing
import Caterpillar.Lib.Layout

namespace Caterpillar.Ble.Packets

open Caterpillar.Bytes Caterpillar.Drivers Caterpillar.Imu Caterpillar.ImuLog Caterpillar.App
open Caterpillar.App.Advertising (appVersion)
open Caterpillar.Ble.Writes (Peripheral)
open Caterpillar.Ble.Sfifo (Packet)
open Caterpillar.Ble.Dump (DumpChunk)

/-! ## What the handlers read -/

/-- What the coprocessor publishes in the shared block, the configuration apart. -/
structure Flpr where
  /-- Its `APP_VERSION_MAJOR`, `APP_VERSION_MINOR` and `APP_PATCHLEVEL`. -/
  major : UInt8
  minor : UInt8
  patch : UInt8
  imuOk : UInt8
  cfgApplied : Nat
  cfgStatus : Int
  overrun : UInt32

/-- `flpr_version`, as the coprocessor's `main` composes it. -/
def Flpr.flprVersion (f : Flpr) : UInt32 :=
  f.major.toUInt32 <<< 16 ||| f.minor.toUInt32 <<< 8 ||| f.patch.toUInt32

/-- The device: what the write handlers change, the coprocessor, and what the drivers deliver. -/
structure Robot where
  peripheral : Peripheral
  flpr : Flpr
  /-- `max5419_get_target_mv()`. -/
  targetMv : UInt16
  /-- What `drv_vdc_sense_read_mv` measures, unless it fails. -/
  vdcMv : Option Int
  appResetCause : UInt32

/-- A robot that has just booted, its coprocessor running. -/
def Robot.fresh : Robot where
  peripheral := Peripheral.fresh
  flpr := ⟨1, 2, 0, 1, 1, 0, 0⟩
  targetMv := 0
  vdcMv := none
  appResetCause := 0

/-- `IMU_SHARED->magic == IMU_SHARED_MAGIC`. -/
def Robot.flprBooted (r : Robot) : Bool := r.peripheral.board.sh.magic == imuSharedMagic

/-- `imu_pump_overrun`. -/
def imuPumpOverrun (r : Robot) : UInt32 := if r.flprBooted then r.flpr.overrun else 0

/-- `imu_log_policy`: `IMU_LOG_POLICY_CIRCULAR`. -/
def imuLogPolicy : UInt8 := 1

/-- `imu_log_capacity_bytes`. -/
def imuLogCapacityBytes : Nat := dataCapacity

/-- `imu_log_bytes_stored`. -/
def imuLogBytesStored (s : Log) : Nat := min s.curCount recCapacity * recSize

/-- `CLAMP`. -/
def clamp (v low high : Int) : Int := if v ≤ low then low else min v high

/-- A condition as a byte. -/
def flag (c : Bool) : UInt8 := if c then 1 else 0

/-! ## The read handlers -/

/-- `STATUS_PKT_VERSION`. -/
def statusPktVersion : UInt8 := 3

/-- The stores of `on_status_read`. -/
def statusStores (r : Robot) : List (Nat × Field) :=
  let p := r.peripheral
  let b := p.board
  [(0, .u8 statusPktVersion),
    (1, .u8 (appVersion.getD 0 0)),
    (2, .u8 (appVersion.getD 1 0)),
    (3, .u8 (appVersion.getD 2 0)),
    (4, .u16 (drvPwmGetFrequency p.motor.pwm)),
    (6, .u8 (drvPwmGetDuty p.motor.pwm 0)),
    (7, .u8 (drvPwmGetDuty p.motor.pwm 1)),
    (8, .u16 r.targetMv),
    (10, .u16 (UInt16.ofNat (clamp (r.vdcMv.getD 0) 0 65535).toNat)),
    (12, .u8 (flag p.motor.railOn)),
    (13, .u8 (flag p.motor.drvAwake)),
    (14, .u8 (flag (r.flprBooted && r.flpr.imuOk != 0))),
    (15, .u8 (flag p.motor.led.ledEnabled)),
    (16, .u32 (UInt32.ofNat (b.uptime / 1000))),
    (20, .u32 r.appResetCause),
    (24, .u32 (if r.flprBooted then r.flpr.flprVersion else 0)),
    (28, .u8 b.sh.cfgOdr),
    (29, .u8 b.sh.cfgContent),
    (30, .u8 (flag (imuLogActive b.log))),
    (31, .u8 (imuLogPolicy ||| if imuLogDetached b.log then 2 else 0)),
    (32, .u32 (UInt32.ofNat (imuLogBytesStored b.log))),
    (36, .u32 (UInt32.ofNat imuLogCapacityBytes)),
    (40, .u32 (imuPumpOverrun r))]

/-- `on_status_read`. -/
def onStatusRead (r : Robot) (s : Buffer) : List UInt8 := (s.stores (statusStores r)).slice 0 44

/-- The stores of `on_imucfg_read`. -/
def imucfgStores (r : Robot) : List (Nat × Field) :=
  let sh := r.peripheral.board.sh
  [(0, .u8 sh.cfgOdr),
    (1, .u8 sh.cfgContent),
    (2, .u8 sh.cfgAccelFs),
    (3, .u8 sh.cfgGyroFs),
    (4, .u8 (flag (r.flpr.cfgApplied == sh.cfgSeq))),
    (5, .u8 ((Int8.ofInt (clamp r.flpr.cfgStatus (-128) 0)).toUInt8)),
    (6, .u8 r.peripheral.board.stream.streamDecim),
    (7, .u8 0),
    (8, .u32 r.flpr.overrun)]

/-- `on_imucfg_read`. -/
def onImucfgRead (r : Robot) (s : Buffer) : List UInt8 := (s.stores (imucfgStores r)).slice 0 12

/-- The stores of `on_logctl_read`. -/
def logctlStores (r : Robot) : List (Nat × Field) :=
  let log := r.peripheral.board.log
  [(0, .u8 (flag (imuLogActive log))),
    (1, .u8 imuLogPolicy),
    (2, .u8 0),
    (3, .u8 0),
    (4, .u32 (UInt32.ofNat (imuLogBytesStored log))),
    (8, .u32 (UInt32.ofNat imuLogCapacityBytes)),
    (12, .u32 (UInt32.ofNat (imuLogRecordsTotal log))),
    (16, .u32 (imuPumpOverrun r))]

/-- `on_logctl_read`. -/
def onLogctlRead (r : Robot) (s : Buffer) : List UInt8 := (s.stores (logctlStores r)).slice 0 20

/-- The loop of `on_dir_read`, from session `i` on. -/
def dirEntries (i : Nat) : List ImuLogSession → List (Nat × Field)
  | [] => []
  | x :: list =>
      let e := 4 + i * 16
      [(e, .u32 (UInt32.ofNat x.seq)),
        (e + 4, .u32 (UInt32.ofNat x.wallStart)),
        (e + 8, .u32 (UInt32.ofNat x.recCount)),
        (e + 12, .u8 x.odrCode),
        (e + 13, .u8 x.content),
        (e + 14, .u8 x.accelFs),
        (e + 15, .u8 x.gyroFs)] ++ dirEntries (i + 1) list

/-- The stores of `on_dir_read`. -/
def dirStores (list : List ImuLogSession) : List (Nat × Field) :=
  [(0, .u8 (UInt8.ofNat list.length)), (1, .u8 0), (2, .u8 0), (3, .u8 0)] ++ dirEntries 0 list

/-- The packet `on_dir_read` makes of a list of sessions. -/
def dirPacket (list : List ImuLogSession) (s : Buffer) : List UInt8 :=
  (s.stores (dirStores list)).slice 0 (4 + list.length * 16)

/-- `on_dir_read`. -/
def onDirRead (r : Robot) (s : Buffer) : List UInt8 :=
  dirPacket (imuLogSessionList r.peripheral.board.log maxSessions) s

/-! ## The notifications -/

/-- The copies of `tx_thread` into `stream_pkt`, from record `i` on. -/
def copyRecords (s : Buffer) (i : Nat) : List ImuSample → Buffer
  | [] => s
  | x :: xs => copyRecords (s.store (8 + i * 16) x.bytes) (i + 1) xs

/-- The stores of `tx_thread` into the header. -/
def streamStores (p : Packet) : List (Nat × Field) :=
  [(0, .u8 (UInt8.ofNat p.records.length)),
    (1, .u8 p.decim),
    (2, .u8 0),
    (3, .u8 0),
    (4, .u32 (UInt32.ofNat p.dropped))]

/-- `stream_pkt`, as `tx_thread` sends it. -/
def streamPkt (p : Packet) (s : Buffer) : List UInt8 :=
  ((copyRecords s 0 p.records).stores (streamStores p)).slice 0 (8 + p.records.length * 16)

/-- The stores of `dump_thread` into the header. -/
def chunkStores (c : DumpChunk) : List (Nat × Field) :=
  [(0, .u32 (UInt32.ofNat c.offset)),
    (4, .u16 (UInt16.ofNat c.data.length)),
    (6, .u8 (flag c.last)),
    (7, .u8 0)]

/-- `chunk`, as `dump_thread` sends it; the data is read into its place first. -/
def chunkPkt (c : DumpChunk) (s : Buffer) : List UInt8 :=
  ((s.store 8 c.data).stores (chunkStores c)).slice 0 (8 + c.data.length)

end Caterpillar.Ble.Packets
