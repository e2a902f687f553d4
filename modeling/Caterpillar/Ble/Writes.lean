/-
  The write handlers of the GATT service (src/ble/ble_interface.c).

  A handler decodes, validates and delegates.  What it is to say of a write it refuses is that it did
  nothing: the host is told so by the ATT error.

  1. `Peripheral` — the board with its drivers and the dump request; one definition for each handler,
     `write` puts them behind their characteristics.  Handlers of one byte, and of one word with a
     range, are `writeByte` and `writeWord` at their own values.
  2. `Kept` — what a refused write has to leave alone.
  3. `rejected_keeps` — it does, except that 0xFFE1 remembers the period of a frequency the PWM
     refused.
-/
import Caterpillar.App.Arbiter
import Caterpillar.Ble.DumpThread
import Caterpillar.Drivers.Motor

namespace Caterpillar.Ble.Writes

open Caterpillar.Word Caterpillar.Bytes Caterpillar.Sem Caterpillar.Drivers Caterpillar.Settings Caterpillar.App
open Caterpillar.Ble.Dump (DumpJob)

/-! ## The peripheral -/

/-- The board, its drivers, and the dump request with its semaphore. -/
structure Peripheral where
  board : Board
  motor : Motor
  /-- `dump_req_session`, `dump_req_off`, `dump_req_len`. -/
  dumpReq : DumpJob
  dumpSem : KSem 1

/-- A handler of one byte. -/
def writeByte (p : Peripheral) (buf : List UInt8) (offset : Nat) (allowed : UInt8 → Bool)
    (apply : UInt8 → Peripheral) : Peripheral × AttResult :=
  match buf, offset with
  | [v], 0 => if allowed v then (apply v, .ok 1) else (p, .valueNotAllowed)
  | _, _ => (p, .invalidOffset)

/-- A handler of one word within a range, over an operation that can fail. -/
def writeWord (p : Peripheral) (buf : List UInt8) (offset : Nat) (min max : UInt16)
    (apply : UInt16 → Peripheral × Bool) : Peripheral × AttResult :=
  match buf, offset with
  | [lo, hi], 0 =>
      let v := sysGetLe16 lo hi
      if v < min ∨ v > max then (p, .valueNotAllowed)
      else
        let (p, failed) := apply v
        if failed then (p, .unlikely) else (p, .ok 2)
  | _, _ => (p, .invalidOffset)

/-! ## The handlers -/

/-- What `on_freq_write` does with a frequency in its range, and whether it failed. -/
def applyFreq (p : Peripheral) (r : PwmRet) (hz : UInt16) : Peripheral × Bool :=
  let (pwm, ret) := drvPwmSetFrequency p.motor.pwm hz r
  let p := { p with motor := { p.motor with pwm } }
  if ret < 0 then (p, true) else ({ p with board := p.board.set settingMotorFreqHz hz }, false)

/-- `on_freq_write`. -/
def onFreqWrite (p : Peripheral) (buf : List UInt8) (offset : Nat) (r : PwmRet) :
    Peripheral × AttResult :=
  writeWord p buf offset drvPwmFreqMinHz drvPwmFreqMaxHz (applyFreq p r)

/-- `MAX5419_VOUT_MIN_MV`. -/
def max5419VoutMinMv : UInt16 := 750

/-- `MAX5419_VOUT_MAX_MV`. -/
def max5419VoutMaxMv : UInt16 := 4200

/-- What `on_volt_write` does with a voltage in its range, and whether it failed. -/
def applyVolt (p : Peripheral) (mv : UInt16) : Peripheral × Bool :=
  let (board, ret) := deviceCmdSubmit p.board (.setVoltMv mv)
  ({ p with board }, decide (ret < 0))

/-- `on_volt_write`. -/
def onVoltWrite (p : Peripheral) (buf : List UInt8) (offset : Nat) : Peripheral × AttResult :=
  writeWord p buf offset max5419VoutMinMv max5419VoutMaxMv (applyVolt p)

/-- `on_rail_write`. -/
def onRailWrite (p : Peripheral) (buf : List UInt8) (offset : Nat) : Peripheral × AttResult :=
  writeByte p buf offset (fun on => decide (on ≤ 1)) fun on =>
    { p with motor := drvStbb1ApurSet p.motor (on != 0) }

/-- `on_drv_write`. -/
def onDrvWrite (p : Peripheral) (buf : List UInt8) (offset : Nat) : Peripheral × AttResult :=
  writeByte p buf offset (fun awake => decide (awake ≤ 1)) fun awake =>
    { p with motor := drvDrv8212Set p.motor (awake != 0) }

/-- `on_time_write`. -/
def onTimeWrite (p : Peripheral) (buf : List UInt8) (offset : Nat) : Peripheral × AttResult :=
  match buf, offset with
  | [b0, b1, b2, b3], 0 =>
      let epoch := sysGetLe32 b0 b1 b2 b3
      if epoch = 0 then (p, .valueNotAllowed)
      else ({ p with board := sessionTimeSync p.board epoch.toNat }, .ok 4)
  | _, _ => (p, .invalidOffset)

/-- `on_led_write`. -/
def onLedWrite (p : Peripheral) (buf : List UInt8) (offset : Nat) : Peripheral × AttResult :=
  writeByte p buf offset (fun on => decide (on ≤ 1)) fun on =>
    { p with
      motor := { p.motor with led := drvLedSetEnabled p.motor.led (on != 0) }
      board := p.board.set settingLedEnabled on.toUInt16 }

/-- `on_dump_write`, with `ble_transport_dump_request`. -/
def onDumpWrite (p : Peripheral) (buf : List UInt8) (offset : Nat) : Peripheral × AttResult :=
  match buf, offset with
  | [s0, s1, s2, s3, o0, o1, o2, o3, l0, l1, l2, l3], 0 =>
      ({ p with
        board := { p.board with dumpAbort := true }
        dumpReq := ⟨(sysGetLe32 s0 s1 s2 s3).toNat, (sysGetLe32 o0 o1 o2 o3).toNat,
          (sysGetLe32 l0 l1 l2 l3).toNat⟩
        dumpSem := p.dumpSem.give }, .ok 12)
  | _, _ => (p, .invalidOffset)

/-- `on_robotid_write`. -/
def onRobotidWrite (p : Peripheral) (buf : List UInt8) (offset : Nat) : Peripheral × AttResult :=
  writeByte p buf offset (fun id => decide (id.toUInt16 ≤ settingsMax settingsGen settingRobotId))
    fun id => { p with board := p.board.set settingRobotId id.toUInt16 }

/-- The writable characteristics, the throughput sink apart. -/
inductive Characteristic where
  | freq
  | volt
  | rail
  | drv
  | time
  | led
  | imucfg
  | logctl
  | dump
  | robotid
  deriving DecidableEq

/-- A write; `r` is what the PWM device answers if it is asked. -/
def write (p : Peripheral) (c : Characteristic) (buf : List UInt8) (offset : Nat) (r : PwmRet) :
    Peripheral × AttResult :=
  match c with
  | .freq => onFreqWrite p buf offset r
  | .volt => onVoltWrite p buf offset
  | .rail => onRailWrite p buf offset
  | .drv => onDrvWrite p buf offset
  | .time => onTimeWrite p buf offset
  | .led => onLedWrite p buf offset
  | .imucfg => ({ p with board := (onImucfgWrite p.board buf offset).1 },
      (onImucfgWrite p.board buf offset).2)
  | .logctl => ({ p with board := (onLogctlWrite p.board buf offset).1 },
      (onLogctlWrite p.board buf offset).2)
  | .dump => onDumpWrite p buf offset
  | .robotid => onRobotidWrite p buf offset

/-! ## Refused writes -/

/-- The handler returns an ATT error. -/
def Rejected : AttResult → Prop
  | .ok _ => False
  | _ => True

/-- What a refused write has to leave alone. -/
structure Kept (p p' : Peripheral) : Prop where
  settings : p'.board.settings = p.board.settings
  period : p'.motor.pwm.periodNs = p.motor.pwm.periodNs
  duty0 : p'.motor.pwm.dutyPct0 = p.motor.pwm.dutyPct0
  duty1 : p'.motor.pwm.dutyPct1 = p.motor.pwm.dutyPct1
  cmdMsgq : p'.board.cmdMsgq = p.board.cmdMsgq
  preview : p'.board.stream.streamPreviewHz = p.board.stream.streamPreviewHz
  sh : p'.board.sh = p.board.sh
  wallClock : p'.board.wallEpochAtBoot = p.board.wallEpochAtBoot
  dumpReq : p'.dumpReq = p.dumpReq
  dumpSem : p'.dumpSem = p.dumpSem
  dumpAbort : p'.board.dumpAbort = p.board.dumpAbort
  rail : p'.motor.railOn = p.motor.railOn
  drv : p'.motor.drvAwake = p.motor.drvAwake
  led : p'.motor.led = p.motor.led

theorem Kept.refl (p : Peripheral) : Kept p p :=
  ⟨rfl, rfl, rfl, rfl, rfl, rfl, rfl, rfl, rfl, rfl, rfl, rfl, rfl, rfl⟩

/-- A frequency in its range that a channel of the PWM refuses, and that is not the one in use. -/
def HalfApplied (p : Peripheral) (c : Characteristic) (buf : List UInt8) (offset : Nat)
    (r : PwmRet) : Prop :=
  c = .freq ∧ offset = 0 ∧ r.Fails ∧ ∃ lo hi, buf = [lo, hi] ∧
    drvPwmFreqMinHz ≤ sysGetLe16 lo hi ∧ sysGetLe16 lo hi ≤ drvPwmFreqMaxHz ∧
    periodOf (sysGetLe16 lo hi) ≠ p.motor.pwm.periodNs

/-- A handler of one byte applies it or does nothing. -/
theorem writeByte_rejected {p : Peripheral} {buf : List UInt8} {offset : Nat}
    {allowed : UInt8 → Bool} {apply : UInt8 → Peripheral}
    (h : Rejected (writeByte p buf offset allowed apply).2) :
    (writeByte p buf offset allowed apply).1 = p := by
  unfold writeByte at h ⊢
  split at h
  · split at h
    · exact absurd h id
    · rename_i hv
      rw [if_neg hv]
  · rfl

/-- A handler of one word does nothing, or has asked its operation for a word in the range. -/
theorem writeWord_cases (p : Peripheral) (buf : List UInt8) (offset : Nat) (min max : UInt16)
    (apply : UInt16 → Peripheral × Bool) :
    (writeWord p buf offset min max apply).1 = p ∧
        Rejected (writeWord p buf offset min max apply).2 ∧
        (∀ lo hi, buf = [lo, hi] → offset = 0 → sysGetLe16 lo hi < min ∨ sysGetLe16 lo hi > max) ∨
      ∃ lo hi, buf = [lo, hi] ∧ offset = 0 ∧ min ≤ sysGetLe16 lo hi ∧ sysGetLe16 lo hi ≤ max ∧
        (writeWord p buf offset min max apply).1 = (apply (sysGetLe16 lo hi)).1 ∧
        (Rejected (writeWord p buf offset min max apply).2 ↔
          (apply (sysGetLe16 lo hi)).2 = true) := by
  unfold writeWord
  split
  · rename_i lo hi
    dsimp only
    by_cases hrange : sysGetLe16 lo hi < min ∨ sysGetLe16 lo hi > max
    · rw [if_pos hrange]
      refine Or.inl ⟨rfl, trivial, ?_⟩
      rintro lo' hi' heq -
      obtain ⟨rfl, rfl⟩ : lo = lo' ∧ hi = hi' := by simpa using heq
      exact hrange
    · rw [if_neg hrange]
      obtain ⟨hmin, hmax⟩ := not_or.mp hrange
      refine Or.inr ⟨lo, hi, rfl, rfl, UInt16.not_lt.mp hmin, UInt16.not_lt.mp hmax, ?_⟩
      cases hfailed : (apply (sysGetLe16 lo hi)).2 with
      | true => exact ⟨rfl, iff_of_true trivial rfl⟩
      | false => exact ⟨rfl, iff_of_false id (by decide)⟩
  · rename_i hne
    refine Or.inl ⟨rfl, trivial, ?_⟩
    rintro lo hi rfl rfl
    exact absurd rfl (hne lo hi rfl)

/-- `on_imucfg_write` validates before it touches anything. -/
theorem onImucfgWrite_rejected {b : Board} {buf : List UInt8} {offset : Nat}
    (h : Rejected (onImucfgWrite b buf offset).2) : (onImucfgWrite b buf offset).1 = b := by
  unfold onImucfgWrite at h ⊢
  split at h
  · split at h
    · rename_i hv
      rw [if_pos hv]
    · rename_i hv
      rw [if_neg hv]
      split at h
      · rename_i hmagic
        rw [if_pos hmagic]
      · exact absurd h id
  · rfl

/-- A command the queue has no room for is not queued. -/
theorem deviceCmdSubmit_full {b : Board} {cmd : DeviceCmd} (h : (deviceCmdSubmit b cmd).2 < 0) :
    (deviceCmdSubmit b cmd).1 = b := by
  unfold deviceCmdSubmit at h ⊢
  split at h
  · exact absurd h (Int.lt_irrefl 0)
  · rename_i hfull
    rw [if_neg hfull]

/-- `on_logctl_write` queues last. -/
theorem onLogctlWrite_rejected {b : Board} {buf : List UInt8} {offset : Nat}
    (h : Rejected (onLogctlWrite b buf offset).2) : (onLogctlWrite b buf offset).1 = b := by
  unfold onLogctlWrite at h ⊢
  split at h
  · split at h
    · rename_i hop
      rw [if_pos hop]
    · rename_i hop
      rw [if_neg hop]
      split at h
      · rename_i hbusy
        rw [if_pos hbusy]
      · rename_i hbusy
        rw [if_neg hbusy]
        dsimp only at h ⊢
        split at h
        · rename_i hfull
          rw [if_pos hfull]
          exact deviceCmdSubmit_full hfull
        · exact absurd h id
  · rfl

/-- `on_time_write` syncs a nonzero epoch only. -/
theorem onTimeWrite_rejected {p : Peripheral} {buf : List UInt8} {offset : Nat}
    (h : Rejected (onTimeWrite p buf offset).2) : (onTimeWrite p buf offset).1 = p := by
  unfold onTimeWrite at h ⊢
  split at h
  · dsimp only at h ⊢
    split at h
    · rename_i hzero
      rw [if_pos hzero]
    · exact absurd h id
  · rfl

/-- A dump request of the right length is always taken. -/
theorem onDumpWrite_rejected {p : Peripheral} {buf : List UInt8} {offset : Nat}
    (h : Rejected (onDumpWrite p buf offset).2) : (onDumpWrite p buf offset).1 = p := by
  unfold onDumpWrite at h ⊢
  split at h
  · exact absurd h id
  · rfl

/-- `on_volt_write` queues last. -/
theorem onVoltWrite_rejected {p : Peripheral} {buf : List UInt8} {offset : Nat}
    (h : Rejected (onVoltWrite p buf offset).2) : (onVoltWrite p buf offset).1 = p := by
  rcases writeWord_cases p buf offset max5419VoutMinMv max5419VoutMaxMv (applyVolt p) with
    ⟨hp, -, -⟩ | ⟨lo, hi, -, -, -, -, hp, hrej⟩
  · exact hp
  · have hfull := decide_eq_true_eq.mp (hrej.mp h)
    refine hp.trans ?_
    show { p with board := (deviceCmdSubmit p.board (.setVoltMv (sysGetLe16 lo hi))).1 } = p
    rw [deviceCmdSubmit_full hfull]

/-- Every handler but that of 0xFFE1 does nothing when it refuses. -/
theorem rejected_eq {p : Peripheral} {c : Characteristic} {buf : List UInt8} {offset : Nat}
    {r : PwmRet} (hc : c ≠ .freq) (h : Rejected (write p c buf offset r).2) :
    (write p c buf offset r).1 = p := by
  cases c with
  | freq => exact absurd rfl hc
  | volt => exact onVoltWrite_rejected h
  | rail => exact writeByte_rejected h
  | drv => exact writeByte_rejected h
  | time => exact onTimeWrite_rejected h
  | led => exact writeByte_rejected h
  | imucfg =>
    show { p with board := (onImucfgWrite p.board buf offset).1 } = p
    rw [onImucfgWrite_rejected h]
  | logctl =>
    show { p with board := (onLogctlWrite p.board buf offset).1 } = p
    rw [onLogctlWrite_rejected h]
  | dump => exact onDumpWrite_rejected h
  | robotid => exact writeByte_rejected h

/-- A frequency the PWM refuses is remembered as its period, and nothing else is. -/
theorem applyFreq_kept (p : Peripheral) (r : PwmRet) {hz : UInt16} (hmin : drvPwmFreqMinHz ≤ hz)
    (hmax : hz ≤ drvPwmFreqMaxHz) :
    ((applyFreq p r hz).2 = true ↔ r.Fails) ∧
      (r.Fails → (Kept p (applyFreq p r hz).1 ↔ periodOf hz = p.motor.pwm.periodNs)) := by
  obtain ⟨hperiod, hduty0, hduty1, hfails⟩ := drvPwmSetFrequency_spec p.motor.pwm r hmin hmax
  unfold applyFreq
  dsimp only
  by_cases hlt : (drvPwmSetFrequency p.motor.pwm hz r).2 < 0
  · rw [if_pos hlt]
    refine ⟨iff_of_true rfl (hfails.mp hlt), fun _ => ?_⟩
    constructor
    · intro h
      exact hperiod.symm.trans h.period
    · intro heq
      exact ⟨rfl, hperiod.trans heq, hduty0, hduty1, rfl, rfl, rfl, rfl, rfl, rfl, rfl, rfl, rfl, rfl⟩
  · have hok : ¬ r.Fails := fun h => hlt (hfails.mpr h)
    rw [if_neg hlt]
    exact ⟨iff_of_false Bool.false_ne_true hok, fun h => absurd h hok⟩

/-- **0xFFE1.** -/
theorem onFreqWrite_kept (p : Peripheral) (buf : List UInt8) (offset : Nat) (r : PwmRet) :
    (Rejected (onFreqWrite p buf offset r).2 → Kept p (onFreqWrite p buf offset r).1) ↔
      ¬ HalfApplied p .freq buf offset r := by
  rcases writeWord_cases p buf offset drvPwmFreqMinHz drvPwmFreqMaxHz (applyFreq p r) with
    ⟨hp, -, hrange⟩ | ⟨lo, hi, rfl, rfl, hmin, hmax, hp, hrej⟩
  · refine iff_of_true (fun _ => ?_) ?_
    · rw [onFreqWrite, hp]
      exact .refl p
    · rintro ⟨-, hoff, -, lo, hi, hbuf, hmin, hmax, -⟩
      rcases hrange lo hi hbuf hoff with h | h
      · exact UInt16.not_lt.mpr hmin h
      · exact UInt16.not_lt.mpr hmax h
  · obtain ⟨hfailed, hkept⟩ := applyFreq_kept p r hmin hmax
    rw [onFreqWrite, hp, hrej, hfailed]
    constructor
    · rintro h ⟨-, -, hfails, lo', hi', hbuf, -, -, hne⟩
      obtain ⟨rfl, rfl⟩ : lo = lo' ∧ hi = hi' := by simpa using hbuf
      exact hne ((hkept hfails).mp (h hfails))
    · intro h hfails
      rw [hkept hfails]
      by_contra hne
      exact h ⟨rfl, rfl, hfails, lo, hi, rfl, hmin, hmax, hne⟩

/-- **A refused write changes nothing**, whatever the characteristic, the payload, the state and the
    answers of the operations under the handler, if and only if it is not a frequency in its range
    that the PWM refuses and that differs from the one in use. -/
theorem rejected_keeps (p : Peripheral) (c : Characteristic) (buf : List UInt8) (offset : Nat)
    (r : PwmRet) :
    (Rejected (write p c buf offset r).2 → Kept p (write p c buf offset r).1) ↔
      ¬ HalfApplied p c buf offset r := by
  by_cases hc : c = .freq
  · obtain rfl := hc
    exact onFreqWrite_kept p buf offset r
  · refine iff_of_true (fun h => ?_) fun h => hc h.1
    rw [rejected_eq hc h]
    exact .refl p

/-- A peripheral with default settings, just booted. -/
def Peripheral.fresh : Peripheral where
  board := Board.fresh []
  motor := Motor.booted ((Board.fresh []).setting settingMotorFreqHz)
  dumpReq := ⟨0, 0, 0⟩
  dumpSem := KSem.empty

/-- **A refused frequency becomes the reported one**: 100 Hz is written to a device that runs at 150
    Hz, and the second channel refuses. -/
theorem refused_frequency_reported : ¬ ∀ p c buf offset r,
    Rejected (write p c buf offset r).2 → Kept p (write p c buf offset r).1 := by
  let p := Peripheral.fresh
  let after := write p .freq [100, 0] 0 ⟨0, -5⟩
  intro h
  have hanswer : after.2 = .unlikely := by decide +kernel
  have hkept : Kept p after.1 := by
    refine h p .freq [100, 0] 0 ⟨0, -5⟩ ?_
    show Rejected after.2
    rw [hanswer]
    trivial
  have hbefore : drvPwmGetFrequency p.motor.pwm = 150 := by decide +kernel
  have hafter : drvPwmGetFrequency after.1.motor.pwm = 100 := by decide +kernel
  rw [drvPwmGetFrequency, hkept.period, ← drvPwmGetFrequency, hbefore] at hafter
  exact absurd hafter (by decide)

end Caterpillar.Ble.Writes
