/-
  The application core as the host sees it: src/app/session.c, src/app/device_cmd.c and the handlers
  of src/ble/ble_interface.c that reach them.

  `Board` puts the statics of these files next to the settings store, the sample log and the stream.
  Each function of the source is one definition here, atomic and under the source's name:

  * session.c        `sessionImuDemand`, `sessionImuRunUpdate`, `sessionOnLogStarted`, …
  * device_cmd.c     `deviceCmdSubmit`, `execute`
  * ble_interface.c  `onLogctlWrite`, `onImucfgWrite`, `streamCccChanged`, `connected`,
                     `disconnected`
  * app.c            `firstArbitration`, what `app_run` does once the coprocessor runs

  Two machines are built on this file: one that takes every handler and command as atomic, and one
  that takes `execute` and `session_on_disconnect` apart.
-/
import Caterpillar.ImuLog.Ops
import Caterpillar.Settings.Store
import Caterpillar.Ble.Stream

namespace Caterpillar.App

open Caterpillar.Word Caterpillar.ImuLog Caterpillar.Settings Caterpillar.Ble

/-! ## The board -/

/-- `IMU_SHARED_MAGIC`. -/
def imuSharedMagic : UInt32 := 0x494D5532

/-- The sampling configuration in the shared block. -/
structure ImuCfg where
  magic : UInt32
  cfgSeq : Nat
  cfgOdr : UInt8
  cfgContent : UInt8
  cfgAccelFs : UInt8
  cfgGyroFs : UInt8

/-- `struct bt_le_conn_param`. -/
structure ConnParam where
  intervalMin : Nat
  intervalMax : Nat
  latency : Nat
  timeout : Nat
  deriving DecidableEq

/-- `struct device_cmd`. -/
inductive DeviceCmd where
  | setVoltMv (voltMv : UInt16)
  | log (op : UInt8)
  deriving DecidableEq

/-- The application core. -/
structure Board where
  /-- `k_uptime_get()`. -/
  uptime : Nat
  wallEpochAtBoot : Nat
  settings : Store
  log : Log
  streamActive : Bool
  sh : ImuCfg
  stream : Stream
  dumpAbort : Bool
  /-- `cur_conn` is not `NULL`. -/
  curConn : Bool
  /-- The connection parameters last requested. -/
  connParam : Option ConnParam
  /-- `cmd_msgq`. -/
  cmdMsgq : List DeviceCmd

/-- `settings_get`, on the board's registry. -/
def Board.setting (b : Board) (id : Nat) : UInt16 := settingsGet settingsGen b.settings id

/-- `settings_set`, on the board's registry. -/
def Board.set (b : Board) (id : Nat) (value : UInt16) : Board :=
  { b with settings := settingsSet settingsGen b.settings id value }

/-! ## session.c -/

/-- `session_time_sync`. -/
def sessionTimeSync (b : Board) (epoch : Nat) : Board :=
  { b with wallEpochAtBoot := u32Sub epoch (u32 (b.uptime / 1000)) }

/-- `session_wall_now`. -/
def sessionWallNow (b : Board) : Nat :=
  if b.wallEpochAtBoot = 0 then 0 else u32 (b.wallEpochAtBoot + b.uptime / 1000)

/-- `session_imu_demand`. -/
def sessionImuDemand (b : Board) : Bool := b.streamActive || imuLogActive b.log

/-- `session_imu_run_update`. -/
def sessionImuRunUpdate (b : Board) : Board :=
  if b.sh.magic ≠ imuSharedMagic then b
  else
    let content := if sessionImuDemand b then (b.setting settingImuContent).toUInt8 else 0
    let sh := { b.sh with
      cfgOdr := (b.setting settingImuOdrCode).toUInt8
      cfgContent := content
      cfgAccelFs := (b.setting settingImuAccelFs).toUInt8
      cfgGyroFs := (b.setting settingImuGyroFs).toUInt8
      cfgSeq := u32 (b.sh.cfgSeq + 1) }
    { b with
      sh
      stream := streamUpdateDecim b.stream sh.cfgOdr (imuLogActive b.log) b.uptime }

/-- `session_set_stream_active`. -/
def sessionSetStreamActive (b : Board) (active : Bool) : Board :=
  sessionImuRunUpdate { b with streamActive := active }

/-- `ble_conn_request_params`. -/
def bleConnRequestParams (b : Board) (slow : Bool) : Board :=
  if b.curConn then
    { b with connParam := some (if slow then ⟨32, 48, 0, 400⟩ else ⟨6, 12, 0, 400⟩) }
  else b

/-- `session_on_log_started`. -/
def sessionOnLogStarted (b : Board) : Board := sessionImuRunUpdate (bleConnRequestParams b true)

/-- `session_on_log_stopped`. -/
def sessionOnLogStopped (b : Board) : Board := sessionImuRunUpdate (bleConnRequestParams b false)

/-- `session_on_disconnect` up to its test of `imu_log_detached`. -/
def stopDataFlows (b : Board) : Board :=
  { b with
    streamActive := false
    stream := streamEnable b.stream false b.sh.cfgOdr (imuLogActive b.log) b.uptime
    dumpAbort := true }

/-- `session_on_disconnect`. -/
def sessionOnDisconnect (b : Board) : Board :=
  let b := stopDataFlows b
  sessionImuRunUpdate
    (if imuLogDetached b.log then b else { b with log := imuLogStop b.log })

/-! The arbitration touches neither the log nor the connection. -/

theorem runUpdate_frame (b : Board) :
    (sessionImuRunUpdate b).log = b.log ∧ (sessionImuRunUpdate b).curConn = b.curConn := by
  unfold sessionImuRunUpdate
  split
  · exact ⟨rfl, rfl⟩
  · exact ⟨rfl, rfl⟩

theorem requestParams_frame (b : Board) (slow : Bool) :
    (bleConnRequestParams b slow).log = b.log ∧
      (bleConnRequestParams b slow).curConn = b.curConn := by
  unfold bleConnRequestParams
  split
  · exact ⟨rfl, rfl⟩
  · exact ⟨rfl, rfl⟩

theorem onLogStarted_frame (b : Board) :
    (sessionOnLogStarted b).log = b.log ∧ (sessionOnLogStarted b).curConn = b.curConn := by
  obtain ⟨h1, h2⟩ := runUpdate_frame (bleConnRequestParams b true)
  obtain ⟨h3, h4⟩ := requestParams_frame b true
  exact ⟨h1.trans h3, h2.trans h4⟩

theorem onLogStopped_frame (b : Board) :
    (sessionOnLogStopped b).log = b.log ∧ (sessionOnLogStopped b).curConn = b.curConn := by
  obtain ⟨h1, h2⟩ := runUpdate_frame (bleConnRequestParams b false)
  obtain ⟨h3, h4⟩ := requestParams_frame b false
  exact ⟨h1.trans h3, h2.trans h4⟩

/-! ## device_cmd.c -/

/-- `CMD_QUEUE_DEPTH`. -/
def cmdQueueDepth : Nat := 8

/-- `device_cmd_submit`; `-ENOMSG` when the queue is full. -/
def deviceCmdSubmit (b : Board) (cmd : DeviceCmd) : Board × Int :=
  if b.cmdMsgq.length < cmdQueueDepth then ({ b with cmdMsgq := b.cmdMsgq ++ [cmd] }, 0)
  else (b, -80)

/-- `DEVICE_LOG_OP_STOP`. -/
def opStop : UInt8 := 0
/-- `DEVICE_LOG_OP_START`. -/
def opStart : UInt8 := 1
/-- `DEVICE_LOG_OP_ERASE`. -/
def opErase : UInt8 := 2
/-- `DEVICE_LOG_OP_START_DETACHED`. -/
def opStartDetached : UInt8 := 3

/-- What `imu_log_start` stamps into the directory entry. -/
def Board.stamp (b : Board) : Stamp where
  wallStart := sessionWallNow b
  odrCode := (b.setting settingImuOdrCode).toUInt8
  content := (b.setting settingImuContent).toUInt8
  accelFs := (b.setting settingImuAccelFs).toUInt8
  gyroFs := (b.setting settingImuGyroFs).toUInt8

/-- `imu_log_start`, on the board's log. -/
def startLog (b : Board) (ret : Int) : Board × Int :=
  ({ b with log := (imuLogStart b.log b.stamp ret).1 }, (imuLogStart b.log b.stamp ret).2)

/-- `execute`; `ret` is what the driver under the command returns, the ramp of the digipot or the
    entry write of a session start. -/
def execute (b : Board) (cmd : DeviceCmd) (ret : Int) : Board :=
  match cmd with
  | .setVoltMv voltMv => if ret < 0 then b else b.set settingMotorVdcMv voltMv
  | .log op =>
      if op = opStop then sessionOnLogStopped { b with log := imuLogStop b.log }
      else if op = opStart then
        let (b, r) := startLog b ret
        if r = 0 then sessionOnLogStarted b else b
      else if op = opStartDetached then
        let (b, r) := startLog b ret
        if r = 0 then sessionOnLogStarted { b with log := imuLogMarkDetached b.log } else b
      else if op = opErase then { b with log := imuLogErase b.log }
      else b

/-! ## ble_interface.c -/

/-- What a write handler answers. -/
inductive AttResult where
  | ok (len : Nat)
  | invalidOffset
  | valueNotAllowed
  | unlikely
  deriving DecidableEq

/-- `on_logctl_write`. -/
def onLogctlWrite (b : Board) (buf : List UInt8) (offset : Nat) : Board × AttResult :=
  match buf, offset with
  | op :: _, 0 =>
      if op > opStartDetached then (b, .valueNotAllowed)
      else if (op = opStart ∨ op = opStartDetached) ∧ imuLogActive b.log = true then
        (b, .valueNotAllowed)
      else
        let (b, ret) := deviceCmdSubmit b (.log op)
        if ret < 0 then (b, .unlikely) else (b, .ok buf.length)
  | _, _ => (b, .invalidOffset)

/-- The values `on_imucfg_write` accepts. -/
def imucfgAllowed (odr content afs gfs : UInt8) : Bool :=
  !(decide (odr < 1) || decide (odr > 10) || content == 0 || (content &&& ~~~ 3) != 0 ||
    decide (afs > 3) || decide (gfs > 3))

/-- `on_imucfg_write` once its values are accepted. -/
def applyImucfg (b : Board) (odr content afs gfs : UInt8) (preview : UInt16) : Board :=
  let b := { b with
    stream := streamSetPreview b.stream preview b.sh.cfgOdr (imuLogActive b.log) b.uptime }
  sessionImuRunUpdate
    (((((b.set settingImuOdrCode odr.toUInt16).set settingImuContent content.toUInt16).set
      settingImuAccelFs afs.toUInt16).set settingImuGyroFs gfs.toUInt16).set
      settingPreviewHz preview)

/-- `on_imucfg_write`. -/
def onImucfgWrite (b : Board) (buf : List UInt8) (offset : Nat) : Board × AttResult :=
  match buf, offset with
  | odr :: content :: afs :: gfs :: rest, 0 =>
      if !imucfgAllowed odr content afs gfs then (b, .valueNotAllowed)
      else if b.sh.magic ≠ imuSharedMagic then (b, .unlikely)
      else
        let preview : UInt16 := match rest with
          | lo :: hi :: _ => lo.toUInt16 ||| hi.toUInt16 <<< 8
          | _ => 0
        (applyImucfg b odr content afs gfs preview, .ok buf.length)
  | _, _ => (b, .invalidOffset)

/-- `stream_ccc_changed`. -/
def streamCccChanged (b : Board) (on : Bool) : Board :=
  sessionSetStreamActive
    { b with
      stream := streamEnable b.stream on b.sh.cfgOdr (imuLogActive b.log) b.uptime } on

/-- `connected`, the connection being established. -/
def connected (b : Board) : Board := bleConnRequestParams { b with curConn := true } false

/-- `disconnected`. -/
def disconnected (b : Board) : Board := sessionOnDisconnect { b with curConn := false }

/-! ## app.c -/

/-- What `app_run` does when it first sees the coprocessor run. -/
def firstArbitration (b : Board) : Board :=
  sessionImuRunUpdate
    { b with
      stream := streamSetPreview b.stream (b.setting settingPreviewHz) b.sh.cfgOdr
        (imuLogActive b.log) b.uptime }

end Caterpillar.App
