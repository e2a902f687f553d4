/-
  The drivers a GATT write reaches at once: the PWM of the motor (src/drivers/driver_pwm.c), its rail
  and its bridge (driver_stbb1_apur.c, driver_drv8212.c), and the status LED (driver_led.c).

  1. `Pwm` — period and duties as the driver remembers them, and what each channel was last set to.
     `pwmApply` programs the two channels one after the other and stops at the first that fails.
  2. `Led` — the heartbeat: a pattern of steps that a timer plays.
  3. `Motor` — all of them.  Rail and bridge are one pin each, and one flag that remembers it.
-/
import Mathlib.Tactic.Common

namespace Caterpillar.Drivers

/-! ## driver_pwm.c -/

/-- `DRV_PWM_FREQ_MIN_HZ`. -/
def drvPwmFreqMinHz : UInt16 := 4

/-- `DRV_PWM_FREQ_MAX_HZ`. -/
def drvPwmFreqMaxHz : UInt16 := 1000

/-- What a channel was last set to. -/
structure Output where
  period : Nat
  pulse : Nat
  deriving DecidableEq

/-- The statics of driver_pwm.c, and the two channels. -/
structure Pwm where
  periodNs : Nat
  dutyPct0 : UInt8
  dutyPct1 : UInt8
  out0 : Output
  out1 : Output

/-- What `pwm_set` returns on either channel. -/
structure PwmRet where
  ch0 : Int
  ch1 : Int

/-- `pwm_apply` fails. -/
def PwmRet.Fails (r : PwmRet) : Prop := r.ch0 < 0 ∨ r.ch1 < 0

instance (r : PwmRet) : Decidable r.Fails := inferInstanceAs (Decidable (_ ∨ _))

/-- The statics at reset: 113 Hz, in coast. -/
def Pwm.cold : Pwm := ⟨8849558, 0, 0, ⟨0, 0⟩, ⟨0, 0⟩⟩

/-- `pulse` of one channel. -/
def Pwm.pulse (p : Pwm) (duty : UInt8) : Nat := p.periodNs * duty.toNat / 100

/-- `pwm_apply`. -/
def pwmApply (p : Pwm) (r : PwmRet) : Pwm × Int :=
  if r.ch0 < 0 then (p, r.ch0)
  else
    let p := { p with out0 := ⟨p.periodNs, p.pulse p.dutyPct0⟩ }
    if r.ch1 < 0 then (p, r.ch1)
    else ({ p with out1 := ⟨p.periodNs, p.pulse p.dutyPct1⟩ }, 0)

/-- `drv_pwm_set_duty`. -/
def drvPwmSetDuty (p : Pwm) (channel percent : UInt8) (r : PwmRet) : Pwm × Int :=
  if channel > 1 ∨ percent > 100 then (p, -22)
  else pwmApply (if channel = 0 then { p with dutyPct0 := percent }
    else { p with dutyPct1 := percent }) r

/-- `drv_pwm_get_duty`. -/
def drvPwmGetDuty (p : Pwm) (channel : UInt8) : UInt8 :=
  if channel > 1 then 0 else if channel = 0 then p.dutyPct0 else p.dutyPct1

/-- `drv_pwm_get_frequency`. -/
def drvPwmGetFrequency (p : Pwm) : UInt16 := UInt16.ofNat (1000000000 / p.periodNs)

/-- The period of a frequency. -/
def periodOf (hz : UInt16) : Nat := 1000000000 / hz.toNat

/-- `drv_pwm_set_frequency`. -/
def drvPwmSetFrequency (p : Pwm) (hz : UInt16) (r : PwmRet) : Pwm × Int :=
  if hz < drvPwmFreqMinHz ∨ hz > drvPwmFreqMaxHz then (p, -22)
  else pwmApply { p with periodNs := periodOf hz } r

/-- Neither what `pwm_apply` remembers nor its answer depends on more than the two channels'
    answers. -/
theorem pwmApply_spec (p : Pwm) (r : PwmRet) :
    (pwmApply p r).1.periodNs = p.periodNs ∧ (pwmApply p r).1.dutyPct0 = p.dutyPct0 ∧
      (pwmApply p r).1.dutyPct1 = p.dutyPct1 ∧ ((pwmApply p r).2 < 0 ↔ r.Fails) := by
  unfold pwmApply PwmRet.Fails
  split
  · rename_i h0
    exact ⟨rfl, rfl, rfl, iff_of_true h0 (Or.inl h0)⟩
  · rename_i h0
    dsimp only
    split
    · rename_i h1
      exact ⟨rfl, rfl, rfl, iff_of_true h1 (Or.inr h1)⟩
    · rename_i h1
      refine ⟨rfl, rfl, rfl, iff_of_false (Int.lt_irrefl 0) ?_⟩
      rintro (h | h)
      · exact h0 h
      · exact h1 h

/-- In its range a frequency is remembered whether the channels take it or not. -/
theorem drvPwmSetFrequency_spec (p : Pwm) {hz : UInt16} (r : PwmRet) (hmin : drvPwmFreqMinHz ≤ hz)
    (hmax : hz ≤ drvPwmFreqMaxHz) :
    (drvPwmSetFrequency p hz r).1.periodNs = periodOf hz ∧
      (drvPwmSetFrequency p hz r).1.dutyPct0 = p.dutyPct0 ∧
      (drvPwmSetFrequency p hz r).1.dutyPct1 = p.dutyPct1 ∧
      ((drvPwmSetFrequency p hz r).2 < 0 ↔ r.Fails) := by
  rw [drvPwmSetFrequency, if_neg]
  · exact pwmApply_spec { p with periodNs := periodOf hz } r
  · rintro (h | h)
    · exact absurd h (UInt16.not_lt.mpr hmin)
    · exact absurd h (UInt16.not_lt.mpr hmax)

/-! ## driver_led.c -/

/-- `pattern`: the boot marker, or the running heartbeat. -/
inductive LedPattern where
  | boot
  | run
  deriving DecidableEq

/-- The steps of a pattern: on or off, and for how many milliseconds. -/
def LedPattern.steps : LedPattern → List (Bool × Nat)
  | .boot => [(true, 3), (false, 100), (true, 3), (false, 100), (true, 3), (false, 791)]
  | .run => [(true, 3), (false, 997)]

/-- The statics of driver_led.c, the pin, and the time its timer is armed for. -/
structure Led where
  pattern : LedPattern
  stepIdx : Nat
  bootPeriodsLeft : Nat
  ledEnabled : Bool
  pin : Bool
  timer : Option Nat
  deriving DecidableEq

/-- Play the pattern from step `stepIdx` on. -/
def Led.play (l : Led) : Led :=
  let s := l.pattern.steps.getD l.stepIdx (false, 0)
  { l with pin := s.1, timer := some s.2 }

/-- `drv_led_blink_start`. -/
def drvLedBlinkStart (l : Led) : Led :=
  { l with pattern := .boot, bootPeriodsLeft := 3, stepIdx := 0 }.play

/-- `drv_led_set_enabled`. -/
def drvLedSetEnabled (l : Led) (enable : Bool) : Led :=
  if enable = l.ledEnabled then l
  else if enable then
    { l with ledEnabled := true, pattern := .run, bootPeriodsLeft := 0, stepIdx := 0 }.play
  else { l with ledEnabled := false, timer := none, pin := false }

/-! ## The motor's switches -/

/-- The drivers. -/
structure Motor where
  pwm : Pwm
  /-- `rail_on` of driver_stbb1_apur.c. -/
  railOn : Bool
  /-- `drv_awake` of driver_drv8212.c. -/
  drvAwake : Bool
  led : Led

/-- `drv_stbb1_apur_set`. -/
def drvStbb1ApurSet (m : Motor) (enable : Bool) : Motor := { m with railOn := enable }

/-- `drv_drv8212_set`. -/
def drvDrv8212Set (m : Motor) (awake : Bool) : Motor := { m with drvAwake := awake }

/-- The drivers as `app_init` leaves them: rail off, bridge asleep, 50 % duty primed, heartbeat on. -/
def Motor.booted (hz : UInt16) : Motor where
  pwm := (drvPwmSetFrequency (drvPwmSetDuty Pwm.cold 0 50 ⟨0, 0⟩).1 hz ⟨0, 0⟩).1
  railOn := false
  drvAwake := false
  led := drvLedBlinkStart ⟨.boot, 0, 0, true, true, none⟩

end Caterpillar.Drivers
