/-
  The robot as a host sees it: registers that are written over 0xFFE1, 0xFFE4, 0xFFE5, 0xFFE8, 0xFFED
  and 0xFFF1 (src/ble/ble_interface.c).

  1. **Program** — `Event`: a write to any characteristic, an event of the board, the arbitration of
     `app_run`, a boot of the coprocessor.  `shows` is what a register reads, `took` what an event
     writes to it.
  2. **One event** — it shows what it writes, and leaves the registers it does not write
     (`step_shows`).  Only one setting is anyone's but a register's: the voltage, set by the command
     thread.
  3. **Runs** — `registers_read_back`: a register reads what was last taken for it.
-/
import Caterpillar.App.Health
import Caterpillar.Host.Protocol
import Caterpillar.Settings.Persist

namespace Caterpillar.Host.Registers

open Caterpillar.Word Caterpillar.Bytes Caterpillar.Runs Caterpillar.Sem Caterpillar.Drivers
open Caterpillar.Settings Caterpillar.ImuLog Caterpillar.Ble Caterpillar.App
open Caterpillar.Ble.Writes (Peripheral Characteristic Rejected writeByte writeByte_rejected writeWord
  writeWord_cases applyFreq rejected_eq)
open Caterpillar.Ble.Packets (Robot flag onStatusRead)
open Caterpillar.App.Provenance (runUpdate_settings setting_set_ne imucfgAllowed_range)
open Caterpillar.App.Health (board_settings)

/-! ## The program -/

/-- What can happen to a robot. -/
inductive Event where
  /-- A write; the PWM device answers `ret`. -/
  | write (c : Characteristic) (buf : List UInt8) (offset : Nat) (ret : PwmRet)
  | board (e : App.Event)
  /-- `app_run` sees the coprocessor run. -/
  | arbitrate
  /-- The coprocessor boots and publishes its block. -/
  | flpr

/-- One event. -/
def step (p : Peripheral) : Event → Peripheral
  | .write c buf offset ret => (Writes.write p c buf offset ret).1
  | .board e => { p with board := App.step p.board e }
  | .arbitrate => { p with board := firstArbitration p.board }
  | .flpr => { p with board := { p.board with sh := ⟨imuSharedMagic, 1, 7, 0, 0, 0⟩ } }

/-- What a host writes and reads back. -/
inductive Register where
  | freq
  | rail
  | drv
  | led
  | imucfg
  | robotid
  deriving DecidableEq

/-- What a register reads: the frequency, rail, driver and LED of the status packet, the id of 0xFFF1,
    and the configuration the arbiter takes from the settings. -/
def shows (r : Register) (p : Peripheral) : List Nat :=
  match r with
  | .freq => [(drvPwmGetFrequency p.motor.pwm).toNat]
  | .rail => [p.motor.railOn.toNat]
  | .drv => [p.motor.drvAwake.toNat]
  | .led => [p.motor.led.ledEnabled.toNat]
  | .imucfg => [settingImuOdrCode, settingImuContent, settingImuAccelFs, settingImuGyroFs,
      settingPreviewHz].map fun id => (p.board.setting id).toNat
  | .robotid => [(p.board.setting settingRobotId).toUInt8.toNat]

/-- The preview rate in a write to 0xFFE8, as the registry bounds it. -/
def previewOf : List UInt8 → Nat
  | lo :: hi :: _ => min (sysGetLe16 lo hi).toNat 6660
  | _ => 0

/-- What a write asks for. -/
def asked : Characteristic → List UInt8 → Option (Register × List Nat)
  | .freq, [lo, hi] => some (.freq, [(sysGetLe16 lo hi).toNat])
  | .rail, [on] => some (.rail, [on.toNat])
  | .drv, [awake] => some (.drv, [awake.toNat])
  | .led, [on] => some (.led, [on.toNat])
  | .imucfg, odr :: content :: afs :: gfs :: rest =>
      some (.imucfg, [odr.toNat, content.toNat, afs.toNat, gfs.toNat, previewOf rest])
  | .robotid, [id] => some (.robotid, [id.toNat])
  | _, _ => none

/-- What a write is answered when the robot takes what it asks for.  A frequency the PWM refuses is
    taken all the same. -/
def takes (c : Characteristic) : AttResult → Bool
  | .ok _ => true
  | .unlikely => decide (c = .freq)
  | _ => false

/-- What an event writes, and where. -/
def took (p : Peripheral) : Event → Option (Register × List Nat)
  | .write c buf offset ret => if takes c (Writes.write p c buf offset ret).2 then asked c buf else none
  | .board (.imucfg buf offset) =>
      if takes .imucfg (onImucfgWrite p.board buf offset).2 then asked .imucfg buf else none
  | _ => none

/-- What an event writes to a register. -/
def writes (r : Register) (p : Peripheral) (e : Event) : Option (List Nat) :=
  (took p e).bind fun w => if w.1 = r then some w.2 else none

/-! ## What a register reads is in its own fields -/

/-- Everything a register reads. -/
theorem shows_congr {p p' : Peripheral} (hmotor : p'.motor = p.motor)
    (hset : ∀ id, id ≠ settingMotorVdcMv → p'.board.setting id = p.board.setting id) (r : Register) :
    shows r p' = shows r p := by
  cases r with
  | freq => rw [shows, shows, hmotor]
  | rail => rw [shows, shows, hmotor]
  | drv => rw [shows, shows, hmotor]
  | led => rw [shows, shows, hmotor]
  | imucfg =>
    refine List.map_congr_left fun id hid => congrArg UInt16.toNat (hset id ?_)
    rintro rfl
    exact absurd hid (by decide)
  | robotid => rw [shows, shows, hset _ (by decide)]

/-! ## One event -/

/-- After the event, the registers read what it wrote, and what they read before it where it wrote
    nothing. -/
def Shows (p p' : Peripheral) (w : Option (Register × List Nat)) : Prop :=
  ∀ r, shows r p' = (w.bind fun w => if w.1 = r then some w.2 else none).getD (shows r p)

theorem Shows.none {p p' : Peripheral} (hmotor : p'.motor = p.motor)
    (hset : ∀ id, id ≠ settingMotorVdcMv → p'.board.setting id = p.board.setting id) :
    Shows p p' none :=
  fun r => shows_congr hmotor hset r

theorem Shows.refl (p : Peripheral) : Shows p p Option.none := fun _ => rfl

theorem Shows.some {p p' : Peripheral} {r : Register} {v : List Nat} (hself : shows r p' = v)
    (hother : ∀ r', r' ≠ r → shows r' p' = shows r' p) : Shows p p' (some (r, v)) := by
  intro r'
  by_cases hr : r = r'
  · obtain rfl := hr
    rw [hself]
    simp
  · rw [hother r' (Ne.symm hr)]
    simp [hr]

/-- An event that sets the voltage at most shows nothing. -/
theorem Shows.volt {p p' : Peripheral} (hmotor : p'.motor = p.motor)
    (hset : p'.board.settings = p.board.settings ∨ ∃ v, p'.board.settings =
      settingsSet settingsGen p.board.settings settingMotorVdcMv v) : Shows p p' Option.none := by
  refine Shows.none hmotor fun id hid => ?_
  rcases hset with h | ⟨v, h⟩
  · rw [Board.setting, Board.setting, h]
  · rw [Board.setting, Board.setting, h]
    exact settingsGet_set_ne settingsGen _ hid v

/-- A byte is written as it was checked, or refused. -/
theorem writeByte_cases (p : Peripheral) (buf : List UInt8) (offset : Nat) (allowed : UInt8 → Bool)
    (apply : UInt8 → Peripheral) :
    (Rejected (writeByte p buf offset allowed apply).2 ∧
        ∀ c, takes c (writeByte p buf offset allowed apply).2 = false) ∨
      ∃ v, buf = [v] ∧ allowed v = true ∧
        writeByte p buf offset allowed apply = (apply v, .ok 1) := by
  unfold writeByte
  split
  · rename_i v
    by_cases hv : allowed v = true
    · rw [if_pos hv]
      exact Or.inr ⟨v, rfl, hv, rfl⟩
    · rw [if_neg hv]
      exact Or.inl ⟨trivial, fun _ => rfl⟩
  · exact Or.inl ⟨trivial, fun _ => rfl⟩

/-- A register of one byte: its handler shows the byte it applies. -/
theorem byte_shows {p : Peripheral} {buf : List UInt8} {offset : Nat} {allowed : UInt8 → Bool}
    {apply : UInt8 → Peripheral} (c : Characteristic) (r : Register)
    (hasked : ∀ v, asked c [v] = some (r, [v.toNat]))
    (happly : ∀ v, allowed v = true → Shows p (apply v) (some (r, [v.toNat]))) :
    Shows p (writeByte p buf offset allowed apply).1
      (if takes c (writeByte p buf offset allowed apply).2 then asked c buf else Option.none) := by
  rcases writeByte_cases p buf offset allowed apply with ⟨hrej, hno⟩ | ⟨v, rfl, hv, hw⟩
  · rw [hno, writeByte_rejected hrej]
    exact Shows.refl p
  · rw [hw, hasked]
    exact happly v hv

/-- A frequency in the range of 0xFFE1 is its period's. -/
theorem frequency_of_period {hz : UInt16} (hmin : drvPwmFreqMinHz ≤ hz)
    (hmax : hz ≤ drvPwmFreqMaxHz) :
    (UInt16.ofNat (1000000000 / periodOf hz)).toNat = hz.toNat := by
  have hlo : 4 ≤ hz.toNat := UInt16.le_iff_toNat_le.mp hmin
  have hhi : hz.toNat ≤ 1000 := UInt16.le_iff_toNat_le.mp hmax
  -- the remainder of the first division is less than its quotient
  have hquot : 1000000000 / periodOf hz = hz.toNat := by
    have hdiv := Nat.div_add_mod 1000000000 hz.toNat
    have hmod := Nat.mod_lt 1000000000 (show 0 < hz.toNat by omega)
    have hbig : 1000000 ≤ 1000000000 / hz.toNat := by
      rw [Nat.le_div_iff_mul_le (by omega)]
      omega
    rw [periodOf]
    refine Nat.div_eq_of_lt_le (Nat.mul_div_le 1000000000 hz.toNat) ?_
    rw [Nat.succ_mul]
    omega
  rw [hquot]
  simp

/-- The motor driver's frequency is the one asked for, whatever the channels answer. -/
theorem applyFreq_shows (p : Peripheral) (ret : PwmRet) {hz : UInt16}
    (hmin : drvPwmFreqMinHz ≤ hz) (hmax : hz ≤ drvPwmFreqMaxHz) :
    Shows p (applyFreq p ret hz).1 (some (.freq, [hz.toNat])) := by
  obtain ⟨hperiod, -, -, -⟩ := drvPwmSetFrequency_spec p.motor.pwm ret hmin hmax
  have hpwm : (applyFreq p ret hz).1.motor =
      { p.motor with pwm := (drvPwmSetFrequency p.motor.pwm hz ret).1 } := by
    rw [applyFreq]
    dsimp only
    split <;> rfl
  have hset : ∀ id, id ≠ settingMotorFreqHz →
      (applyFreq p ret hz).1.board.setting id = p.board.setting id := by
    intro id hid
    rw [applyFreq]
    dsimp only
    split
    · rfl
    · exact setting_set_ne _ hid hz
  refine Shows.some ?_ fun r hr => ?_
  · rw [shows, hpwm]
    dsimp only
    rw [drvPwmGetFrequency, hperiod, frequency_of_period hmin hmax]
  · cases r with
    | freq => exact absurd rfl hr
    | rail => rw [shows, shows, hpwm]
    | drv => rw [shows, shows, hpwm]
    | led => rw [shows, shows, hpwm]
    | imucfg =>
      refine List.map_congr_left fun id hid => congrArg UInt16.toNat (hset id ?_)
      rintro rfl
      exact absurd hid (by decide)
    | robotid => rw [shows, shows, hset _ (by decide)]

/-- **0xFFE1** shows the frequency it is asked for, also where the PWM refuses it. -/
theorem freq_shows (p : Peripheral) (buf : List UInt8) (offset : Nat) (ret : PwmRet) :
    Shows p (Writes.onFreqWrite p buf offset ret).1
      (if takes .freq (Writes.onFreqWrite p buf offset ret).2 then asked .freq buf else none) := by
  unfold Writes.onFreqWrite writeWord
  split
  · rename_i lo hi
    dsimp only
    by_cases hrange : sysGetLe16 lo hi < drvPwmFreqMinHz ∨ sysGetLe16 lo hi > drvPwmFreqMaxHz
    · rw [if_pos hrange]
      exact Shows.refl p
    · rw [if_neg hrange]
      obtain ⟨hmin, hmax⟩ := not_or.mp hrange
      have happly := applyFreq_shows p ret (UInt16.not_lt.mp hmin) (UInt16.not_lt.mp hmax)
      cases hfailed : (applyFreq p ret (sysGetLe16 lo hi)).2 with
      | true => exact happly
      | false => exact happly
  · exact Shows.refl p

/-- `CLAMP`, in numbers. -/
theorem clamp_toNat {value lo hi : UInt16} (h : lo ≤ hi) :
    (clamp value lo hi).toNat = max lo.toNat (min value.toNat hi.toNat) := by
  have hle := UInt16.le_iff_toNat_le.mp h
  rw [clamp]
  split
  · rename_i hlo
    have hlo := UInt16.le_iff_toNat_le.mp hlo
    omega
  · rename_i hlo
    have hlo := UInt16.lt_iff_toNat_lt.mp (UInt16.not_le.mp hlo)
    split
    · rename_i hhi
      have hhi := UInt16.lt_iff_toNat_lt.mp hhi
      omega
    · rename_i hhi
      have hhi := UInt16.le_iff_toNat_le.mp (UInt16.not_lt.mp hhi)
      omega

/-- The settings `l`, set one after the other. -/
def setAll (s : Store) (l : List (Nat × UInt16)) : Store :=
  l.foldl (fun s x => settingsSet settingsGen s x.1 x.2) s

/-- The settings `on_imucfg_write` writes. -/
def cfgSettings (odr content afs gfs : UInt8) (preview : UInt16) : List (Nat × UInt16) :=
  [(settingImuOdrCode, odr.toUInt16), (settingImuContent, content.toUInt16),
    (settingImuAccelFs, afs.toUInt16), (settingImuGyroFs, gfs.toUInt16), (settingPreviewHz, preview)]

theorem applyImucfg_settings (b : Board) (odr content afs gfs : UInt8) (preview : UInt16) :
    (applyImucfg b odr content afs gfs preview).settings =
      setAll b.settings (cfgSettings odr content afs gfs preview) := by
  rw [applyImucfg, runUpdate_settings]
  rfl

/-- A setting that is not set is kept, -/
theorem setAll_ne {l : List (Nat × UInt16)} {id : Nat} (h : id ∉ l.map Prod.fst) (s : Store) :
    settingsGet settingsGen (setAll s l) id = settingsGet settingsGen s id := by
  induction l generalizing s with
  | nil => rfl
  | cons y l ih =>
    obtain ⟨hy, hl⟩ := not_or.mp (fun hor => h (List.mem_cons.mpr hor))
    rw [setAll, List.foldl_cons]
    exact (ih hl _).trans (settingsGet_set_ne settingsGen s hy y.2)

/-- and one that is set once is what it was set to, clamped. -/
theorem setAll_mem {l : List (Nat × UInt16)} (hd : (l.map Prod.fst).Nodup)
    {x : Nat × UInt16} (hx : x ∈ l) {m : SettingMeta} (hm : metaFor settingsGen x.1 = some m)
    {s : Store} (hl : s.Loaded settingsGen) :
    settingsGet settingsGen (setAll s l) x.1 = clamp x.2 m.min m.max := by
  induction l generalizing s with
  | nil => exact absurd hx (List.not_mem_nil)
  | cons y l ih =>
    obtain ⟨hy, hd⟩ := List.nodup_cons.mp hd
    rw [setAll, List.foldl_cons]
    rcases List.mem_cons.mp hx with rfl | hx
    · exact (setAll_ne hy _).trans (settingsGet_set settingsGen hl.loaded hm x.2)
    · exact ih hd hx (hl.set settingsGen y.1 y.2)

/-- **An accepted configuration** reads back as it was written, its rate bounded. -/
theorem applyImucfg_shows {p : Peripheral} (hload : p.board.settings.Loaded settingsGen)
    {odr content afs gfs : UInt8} (hallowed : imucfgAllowed odr content afs gfs = true)
    (preview : UInt16) :
    Shows p { p with board := applyImucfg p.board odr content afs gfs preview }
      (some (.imucfg, [odr.toNat, content.toNat, afs.toNat, gfs.toNat, min preview.toNat 6660])) := by
  obtain ⟨ho1, ho2, hc1, hc2, ha, hg⟩ := imucfgAllowed_range hallowed
  rw [UInt8.le_iff_toNat_le] at ho1 ho2 hc1 hc2 ha hg
  have hself {x : Nat × UInt16} (hx : x ∈ cfgSettings odr content afs gfs preview)
      {m : SettingMeta} (hm : metaFor settingsGen x.1 = some m) :
      ((applyImucfg p.board odr content afs gfs preview).setting x.1).toNat =
        max m.min.toNat (min x.2.toNat m.max.toNat) := by
    rw [Board.setting, applyImucfg_settings, setAll_mem ?_ hx hm hload]
    · exact clamp_toNat m.min_le_max
    · show [settingImuOdrCode, settingImuContent, settingImuAccelFs, settingImuGyroFs,
        settingPreviewHz].Nodup
      decide
  have hother {id : Nat} (hid : id ∉ [settingImuOdrCode, settingImuContent, settingImuAccelFs,
      settingImuGyroFs, settingPreviewHz]) :
      (applyImucfg p.board odr content afs gfs preview).setting id = p.board.setting id := by
    rw [Board.setting, applyImucfg_settings, setAll_ne hid]
    rfl
  refine Shows.some ?_ fun r hr => ?_
  · have hodr := hself (x := (settingImuOdrCode, odr.toUInt16)) (by simp [cfgSettings]) rfl
    have hcontent := hself (x := (settingImuContent, content.toUInt16)) (by simp [cfgSettings]) rfl
    have hafs := hself (x := (settingImuAccelFs, afs.toUInt16)) (by simp [cfgSettings]) rfl
    have hgfs := hself (x := (settingImuGyroFs, gfs.toUInt16)) (by simp [cfgSettings]) rfl
    have hpreview := hself (x := (settingPreviewHz, preview)) (by simp [cfgSettings]) rfl
    simp only [UInt8.toNat_toUInt16, UInt16.reduceToNat] at hodr hcontent hafs hgfs hpreview
    simp only [UInt8.reduceToNat] at ho1 ho2 hc1 hc2 ha hg
    simp only [shows, List.map_cons, List.map_nil, hodr, hcontent, hafs, hgfs, hpreview,
      List.cons.injEq, and_true]
    omega
  · cases r with
    | freq => rfl
    | rail => rfl
    | drv => rfl
    | led => rfl
    | imucfg => exact absurd rfl hr
    | robotid =>
      show [((applyImucfg p.board odr content afs gfs preview).setting settingRobotId).toUInt8.toNat]
        = _
      rw [hother (by decide)]
      rfl

/-- **0xFFE8** shows the configuration it accepts. -/
theorem imucfg_shows {p : Peripheral} (hload : p.board.settings.Loaded settingsGen)
    (buf : List UInt8) (offset : Nat) :
    Shows p { p with board := (onImucfgWrite p.board buf offset).1 }
      (if takes .imucfg (onImucfgWrite p.board buf offset).2 then asked .imucfg buf else none) := by
  unfold onImucfgWrite
  split
  · rename_i odr content afs gfs rest
    by_cases hallowed : imucfgAllowed odr content afs gfs = true
    · rw [hallowed, Bool.not_true, if_neg Bool.false_ne_true]
      by_cases hmagic : p.board.sh.magic ≠ imuSharedMagic
      · rw [if_pos hmagic]
        exact Shows.refl p
      · rw [if_neg hmagic]
        match rest with
        | [] => exact applyImucfg_shows hload hallowed 0
        | [_] => exact applyImucfg_shows hload hallowed 0
        | lo :: hi :: _ => exact applyImucfg_shows hload hallowed (sysGetLe16 lo hi)
    · rw [Bool.eq_false_iff.mpr hallowed, Bool.not_false, if_pos rfl]
      exact Shows.refl p
  · exact Shows.refl p

/-- A byte that is checked to be a flag. -/
theorem flag_toNat {v : UInt8} (h : decide (v ≤ 1) = true) : (v != 0).toNat = v.toNat := by
  have hle : v.toNat ≤ 1 := UInt8.le_iff_toNat_le.mp (of_decide_eq_true h)
  have hval : v = 0 ∨ v = 1 := by
    rcases Nat.le_one_iff_eq_zero_or_eq_one.mp hle with h | h
    · exact Or.inl (UInt8.toNat_inj.mp h)
    · exact Or.inr (UInt8.toNat_inj.mp h)
  rcases hval with rfl | rfl
  · rfl
  · rfl

/-- The switch of the rail. -/
theorem rail_shows (p : Peripheral) {on : UInt8} (h : decide (on ≤ 1) = true) :
    Shows p { p with motor := drvStbb1ApurSet p.motor (on != 0) } (some (.rail, [on.toNat])) := by
  refine Shows.some (congrArg (fun n => [n]) (flag_toNat h)) fun r hr => ?_
  cases r with
  | rail => exact absurd rfl hr
  | freq => rfl
  | drv => rfl
  | led => rfl
  | imucfg => rfl
  | robotid => rfl

/-- The switch of the bridge. -/
theorem drv_shows (p : Peripheral) {awake : UInt8} (h : decide (awake ≤ 1) = true) :
    Shows p { p with motor := drvDrv8212Set p.motor (awake != 0) } (some (.drv, [awake.toNat])) := by
  refine Shows.some (congrArg (fun n => [n]) (flag_toNat h)) fun r hr => ?_
  cases r with
  | drv => exact absurd rfl hr
  | freq => rfl
  | rail => rfl
  | led => rfl
  | imucfg => rfl
  | robotid => rfl

/-- The heartbeat is a flag of its driver, and a setting. -/
theorem led_shows (p : Peripheral) {on : UInt8} (h : decide (on ≤ 1) = true) :
    Shows p
      { p with
        motor := { p.motor with led := drvLedSetEnabled p.motor.led (on != 0) }
        board := p.board.set settingLedEnabled on.toUInt16 } (some (.led, [on.toNat])) := by
  have hled : (drvLedSetEnabled p.motor.led (on != 0)).ledEnabled = (on != 0) := by
    rw [drvLedSetEnabled]
    split
    · rename_i hsame
      exact hsame.symm
    · split
      · rename_i hon
        exact hon.symm
      · rename_i hoff
        exact (Bool.eq_false_iff.mpr hoff).symm
  refine Shows.some ?_ fun r hr => ?_
  · show [(drvLedSetEnabled p.motor.led (on != 0)).ledEnabled.toNat] = [on.toNat]
    rw [hled, flag_toNat h]
  · cases r with
    | led => exact absurd rfl hr
    | freq => rfl
    | rail => rfl
    | drv => rfl
    | imucfg =>
      refine List.map_congr_left fun id hid => congrArg UInt16.toNat (setting_set_ne _ ?_ _)
      rintro rfl
      exact absurd hid (by decide)
    | robotid => rw [shows, shows, setting_set_ne _ (by decide)]

/-- **0xFFF1** shows the id it accepts. -/
theorem robotid_shows {p : Peripheral} (hload : p.board.settings.Loaded settingsGen) {id : UInt8}
    (h : decide (id.toUInt16 ≤ settingsMax settingsGen settingRobotId) = true) :
    Shows p { p with board := p.board.set settingRobotId id.toUInt16 }
      (some (.robotid, [id.toNat])) := by
  refine Shows.some ?_ fun r hr => ?_
  · have hmeta : metaFor settingsGen settingRobotId = some ⟨settingRobotId, 0, 0, 20, by decide⟩ :=
      rfl
    have hself : (p.board.set settingRobotId id.toUInt16).setting settingRobotId = id.toUInt16 :=
      settingsGet_set_self settingsGen hload.loaded hmeta UInt16.zero_le (of_decide_eq_true h)
    show [((p.board.set settingRobotId id.toUInt16).setting settingRobotId).toUInt8.toNat] = [id.toNat]
    rw [hself, UInt8.toUInt8_toUInt16]
  · cases r with
    | robotid => exact absurd rfl hr
    | freq => rfl
    | rail => rfl
    | drv => rfl
    | led => rfl
    | imucfg =>
      refine List.map_congr_left fun id' hid => congrArg UInt16.toNat (setting_set_ne _ ?_ _)
      rintro rfl
      exact absurd hid (by decide)

/-- `device_cmd_submit` changes the queue at most. -/
theorem deviceCmdSubmit_queue (b : Board) (cmd : DeviceCmd) :
    ∃ q, (deviceCmdSubmit b cmd).1 = { b with cmdMsgq := q } := by
  unfold deviceCmdSubmit
  split
  · exact ⟨_, rfl⟩
  · exact ⟨_, rfl⟩

/-- The voltage is queued, -/
theorem write_volt (p : Peripheral) (buf : List UInt8) (offset : Nat)
    (ret : PwmRet) :
    (Writes.write p .volt buf offset ret).1.motor = p.motor ∧
      (Writes.write p .volt buf offset ret).1.board.settings = p.board.settings := by
  rw [Writes.write, Writes.onVoltWrite]
  rcases writeWord_cases p buf offset Writes.max5419VoutMinMv Writes.max5419VoutMaxMv
      (Writes.applyVolt p) with ⟨hp, -, -⟩ | ⟨lo, hi, -, -, -, -, hp, -⟩
  · rw [hp]
    exact ⟨rfl, rfl⟩
  · obtain ⟨q, hq⟩ := deviceCmdSubmit_queue p.board (.setVoltMv (sysGetLe16 lo hi))
    have hset : (deviceCmdSubmit p.board (.setVoltMv (sysGetLe16 lo hi))).1.settings =
          p.board.settings := by rw [hq]
    rw [hp]
    exact ⟨rfl, hset⟩

/-- and so is a log command; -/
theorem write_logctl (p : Peripheral) (buf : List UInt8) (offset : Nat)
    (ret : PwmRet) :
    (Writes.write p .logctl buf offset ret).1.motor = p.motor ∧
      (Writes.write p .logctl buf offset ret).1.board.settings = p.board.settings := by
  obtain ⟨q, hq⟩ := onLogctlWrite_queue p.board buf offset
  rw [Writes.write, hq]
  exact ⟨rfl, rfl⟩

theorem sessionTimeSync_settings (b : Board) (epoch : Nat) :
    (sessionTimeSync b epoch).settings = b.settings := by
  rw [sessionTimeSync]

theorem onTimeWrite_cases (p : Peripheral) (buf : List UInt8) (offset : Nat) :
    (Writes.onTimeWrite p buf offset).1 = p ∨
      ∃ epoch, (Writes.onTimeWrite p buf offset).1 =
        { p with board := sessionTimeSync p.board epoch } := by
  unfold Writes.onTimeWrite
  split
  · rename_i b0 b1 b2 b3
    dsimp only
    by_cases hzero : sysGetLe32 b0 b1 b2 b3 = 0
    · rw [if_pos hzero]
      exact Or.inl rfl
    · rw [if_neg hzero]
      exact Or.inr ⟨_, rfl⟩
  · exact Or.inl rfl

/-- the clock is not a setting, -/
theorem write_time (p : Peripheral) (buf : List UInt8) (offset : Nat) (ret : PwmRet) :
    (Writes.write p .time buf offset ret).1.motor = p.motor ∧
      (Writes.write p .time buf offset ret).1.board.settings = p.board.settings := by
  rw [Writes.write]
  rcases onTimeWrite_cases p buf offset with h | ⟨epoch, h⟩
  · rw [h]
    exact ⟨rfl, rfl⟩
  · have hsync := sessionTimeSync_settings p.board epoch
    rw [h]
    exact ⟨rfl, hsync⟩

/-- and neither is a dump. -/
theorem write_dump (p : Peripheral) (buf : List UInt8) (offset : Nat)
    (ret : PwmRet) :
    (Writes.write p .dump buf offset ret).1.motor = p.motor ∧
      (Writes.write p .dump buf offset ret).1.board.settings = p.board.settings := by
  rw [Writes.write]
  unfold Writes.onDumpWrite
  split
  · exact ⟨rfl, rfl⟩
  · exact ⟨rfl, rfl⟩

theorem other_shows (p : Peripheral) {c : Characteristic} (buf : List UInt8) (offset : Nat)
    (ret : PwmRet) (hc : c = .volt ∨ c = .time ∨ c = .logctl ∨ c = .dump) :
    Shows p (Writes.write p c buf offset ret).1
      (if takes c (Writes.write p c buf offset ret).2 then asked c buf else none) := by
  have hasked : asked c buf = none := by
    rcases hc with rfl | rfl | rfl | rfl
    · rw [asked] <;> simp
    · rw [asked] <;> simp
    · rw [asked] <;> simp
    · rw [asked] <;> simp
  obtain ⟨hmotor, hset⟩ : (Writes.write p c buf offset ret).1.motor = p.motor ∧
      (Writes.write p c buf offset ret).1.board.settings = p.board.settings := by
    rcases hc with rfl | rfl | rfl | rfl
    · exact write_volt p buf offset ret
    · exact write_time p buf offset ret
    · exact write_logctl p buf offset ret
    · exact write_dump p buf offset ret
  rw [hasked, ite_self]
  exact Shows.volt hmotor (Or.inl hset)

/-- **One event.** -/
theorem step_shows {p : Peripheral} (hload : p.board.settings.Loaded settingsGen) (e : Event) :
    Shows p (step p e) (took p e) := by
  cases e with
  | write c buf offset ret =>
    cases c with
    | freq => exact freq_shows p buf offset ret
    | volt => exact other_shows p buf offset ret (Or.inl rfl)
    | rail => exact byte_shows .rail .rail (fun _ => rfl) fun _ hv => rail_shows p hv
    | drv => exact byte_shows .drv .drv (fun _ => rfl) fun _ hv => drv_shows p hv
    | time => exact other_shows p buf offset ret (Or.inr (Or.inl rfl))
    | led => exact byte_shows .led .led (fun _ => rfl) fun _ hv => led_shows p hv
    | imucfg => exact imucfg_shows hload buf offset
    | logctl => exact other_shows p buf offset ret (Or.inr (Or.inr (Or.inl rfl)))
    | dump => exact other_shows p buf offset ret (Or.inr (Or.inr (Or.inr rfl)))
    | robotid =>
      exact byte_shows .robotid .robotid (fun _ => rfl) fun _ hv => robotid_shows hload hv
  | board e =>
    by_cases he : ∀ buf offset, e ≠ .imucfg buf offset
    · have htook : took p (.board e) = none := by
        cases e with
        | imucfg buf offset => exact absurd rfl (he buf offset)
        | _ => rfl
      rw [htook]
      exact Shows.volt rfl (board_settings p.board e he)
    · obtain ⟨buf, offset, rfl⟩ : ∃ buf offset, e = .imucfg buf offset := by simpa using he
      exact imucfg_shows hload buf offset
  | arbitrate => exact Shows.volt rfl (Or.inl (runUpdate_settings _))
  | flpr => exact Shows.volt rfl (Or.inl rfl)

/-- Where a register is written. -/
def Register.characteristic : Register → Characteristic
  | .freq => .freq
  | .rail => .rail
  | .drv => .drv
  | .led => .led
  | .imucfg => .imucfg
  | .robotid => .robotid

/-- A write asks for its own register. -/
theorem asked_register {c : Characteristic} {buf : List UInt8} {w : Register × List Nat}
    (h : asked c buf = some w) : c = w.1.characteristic := by
  unfold asked at h
  split at h
  · obtain rfl := Option.some.inj h; rfl
  · obtain rfl := Option.some.inj h; rfl
  · obtain rfl := Option.some.inj h; rfl
  · obtain rfl := Option.some.inj h; rfl
  · obtain rfl := Option.some.inj h; rfl
  · obtain rfl := Option.some.inj h; rfl
  · exact absurd h (by simp)

/-- What is not written to a register leaves it. -/
theorem shows_kept {p : Peripheral} (hload : p.board.settings.Loaded settingsGen) {e : Event}
    {r : Register} (hr : r ≠ .imucfg)
    (he : ∀ buf offset ret, e ≠ .write r.characteristic buf offset ret) :
    shows r (step p e) = shows r p := by
  have hother {c : Characteristic} {buf : List UInt8} {w : Register × List Nat}
      (hc : c ≠ r.characteristic) (hw : asked c buf = some w) : w.1 ≠ r := by
    rintro rfl
    exact hc (asked_register hw)
  have hnone (w : Register × List Nat) (hw : took p e = some w) : w.1 ≠ r := by
    cases e with
    | write c buf offset ret =>
      rw [took] at hw
      split at hw
      · refine hother (fun hc => ?_) hw
        rw [hc] at he
        exact he buf offset ret rfl
      · exact absurd hw (by simp)
    | board e =>
      cases e with
      | imucfg buf offset =>
        rw [took] at hw
        split at hw
        · refine hother (fun hc => hr ?_) hw
          cases r with
          | imucfg => rfl
          | _ => exact absurd hc (by decide)
        · exact absurd hw (by simp)
      | _ => exact absurd hw (by simp [took])
    | arbitrate => exact absurd hw (by simp [took])
    | flpr => exact absurd hw (by simp [took])
  rw [step_shows hload e r]
  cases hw : took p e with
  | none => rfl
  | some w =>
    rw [Option.bind_some, if_neg (hnone w hw)]
    rfl

/-! ## The settings under an event -/

/-- The settings an event may set. -/
def setsIds : Event → List Nat
  | .write .freq _ _ _ => [settingMotorFreqHz]
  | .write .led _ _ _ => [settingLedEnabled]
  | .write .robotid _ _ _ => [settingRobotId]
  | .write .imucfg _ _ _ => [settingImuOdrCode, settingImuContent, settingImuAccelFs,
      settingImuGyroFs, settingPreviewHz]
  | .board (.imucfg _ _) => [settingImuOdrCode, settingImuContent, settingImuAccelFs,
      settingImuGyroFs, settingPreviewHz]
  | .board _ => [settingMotorVdcMv]
  | _ => []

/-- The settings `s'` are `s` with some of `ids` set. -/
def SetsOf (ids : List Nat) (s s' : Store) : Prop :=
  ∃ l : List (Nat × UInt16), s' = setAll s l ∧ ∀ x ∈ l, x.1 ∈ ids

theorem SetsOf.refl (ids : List Nat) (s : Store) : SetsOf ids s s := ⟨[], rfl, by simp⟩

theorem SetsOf.one (id : Nat) (s : Store) (value : UInt16) :
    SetsOf [id] s (settingsSet settingsGen s id value) := ⟨[(id, value)], rfl, by simp⟩

/-- What is not among them is kept. -/
theorem SetsOf.kept {ids : List Nat} {s s' : Store} (h : SetsOf ids s s') {id : Nat}
    (hid : id ∉ ids) : settingsGet settingsGen s' id = settingsGet settingsGen s id := by
  obtain ⟨l, rfl, hl⟩ := h
  refine setAll_ne (fun hmem => ?_) s
  obtain ⟨x, hx, rfl⟩ := List.mem_map.mp hmem
  exact hid (hl x hx)

/-- A handler of one byte that sets one setting, or none. -/
theorem writeByte_sets {p : Peripheral} (buf : List UInt8) (offset : Nat) (allowed : UInt8 → Bool)
    (apply : UInt8 → Peripheral) (ids : List Nat)
    (happly : ∀ v, SetsOf ids p.board.settings (apply v).board.settings) :
    SetsOf ids p.board.settings (writeByte p buf offset allowed apply).1.board.settings := by
  rcases writeByte_cases p buf offset allowed apply with ⟨hrej, -⟩ | ⟨v, -, -, hw⟩
  · rw [writeByte_rejected hrej]
    exact SetsOf.refl ids _
  · rw [hw]
    exact happly v

/-- `on_imucfg_write` sets its five settings, or none. -/
theorem onImucfgWrite_sets (b : Board) (buf : List UInt8) (offset : Nat) :
    SetsOf [settingImuOdrCode, settingImuContent, settingImuAccelFs, settingImuGyroFs,
      settingPreviewHz] b.settings (onImucfgWrite b buf offset).1.settings := by
  rcases onImucfgWrite_cases b buf offset with h | ⟨odr, content, afs, gfs, preview, h⟩
  · rw [h]
    exact SetsOf.refl _ _
  · rw [h, applyImucfg_settings]
    exact ⟨_, rfl, by simp [cfgSettings]⟩

/-- **An event does to the settings what some calls of `settings_set` do.** -/
theorem step_sets (p : Peripheral) (e : Event) :
    SetsOf (setsIds e) p.board.settings (step p e).board.settings := by
  have hkept {b' : Board} (h : b'.settings = p.board.settings) :
      SetsOf (setsIds e) p.board.settings b'.settings := ⟨[], h, by simp⟩
  cases e with
  | write c buf offset ret =>
    cases c with
    | freq =>
      show SetsOf [settingMotorFreqHz] _
        (writeWord p buf offset drvPwmFreqMinHz drvPwmFreqMaxHz (applyFreq p ret)).1.board.settings
      rcases writeWord_cases p buf offset drvPwmFreqMinHz drvPwmFreqMaxHz (applyFreq p ret) with
        ⟨hp, -, -⟩ | ⟨lo, hi, -, -, -, -, hp, -⟩
      · rw [hp]
        exact SetsOf.refl _ _
      · rw [hp, applyFreq]
        dsimp only
        split
        · exact SetsOf.refl _ _
        · exact SetsOf.one _ _ _
    | volt => exact hkept (write_volt p buf offset ret).2
    | rail => exact writeByte_sets buf offset _ _ [] fun _ => SetsOf.refl _ _
    | drv => exact writeByte_sets buf offset _ _ [] fun _ => SetsOf.refl _ _
    | time => exact hkept (write_time p buf offset ret).2
    | led => exact writeByte_sets buf offset _ _ [settingLedEnabled] fun _ => SetsOf.one _ _ _
    | imucfg => exact onImucfgWrite_sets p.board buf offset
    | logctl => exact hkept (write_logctl p buf offset ret).2
    | dump => exact hkept (write_dump p buf offset ret).2
    | robotid => exact writeByte_sets buf offset _ _ [settingRobotId] fun _ => SetsOf.one _ _ _
  | board e =>
    by_cases he : ∀ buf offset, e ≠ .imucfg buf offset
    · have hids : setsIds (.board e) = [settingMotorVdcMv] := by
        cases e with
        | imucfg buf offset => exact absurd rfl (he buf offset)
        | _ => rfl
      rcases board_settings p.board e he with h | ⟨v, h⟩
      · exact hkept h
      · rw [hids]
        exact ⟨[(settingMotorVdcMv, v)], h, by simp⟩
    · obtain ⟨buf, offset, rfl⟩ : ∃ buf offset, e = .imucfg buf offset := by simpa using he
      exact onImucfgWrite_sets p.board buf offset
  | arbitrate => exact hkept (runUpdate_settings _)
  | flpr => exact hkept rfl

theorem setAll_loaded {s : Store} (h : s.Loaded settingsGen) (l : List (Nat × UInt16)) :
    (setAll s l).Loaded settingsGen :=
  foldl_keeps (fun _ x hs => hs.set settingsGen x.1 x.2) l h

theorem step_loaded {p : Peripheral} (h : p.board.settings.Loaded settingsGen) (e : Event) :
    (step p e).board.settings.Loaded settingsGen := by
  obtain ⟨l, hl, -⟩ := step_sets p e
  rw [hl]
  exact setAll_loaded h l

/-! ## Runs -/

/-- `on_robotid_read`. -/
def onRobotidRead (p : Peripheral) : List UInt8 := [(p.board.setting settingRobotId).toUInt8]

/-- `on_led_read`. -/
def onLedRead (p : Peripheral) : List UInt8 := [flag p.motor.led.ledEnabled]

/-- What a host reads of a register: the field of the status packet, or the byte of 0xFFF1.  0xFFE8
    tells what the coprocessor is asked for now, not what it was configured to. -/
def hostReads (r : Robot) (s : Buffer) : Register → Option (List Int)
  | .freq => (decodeStatus (onStatusRead r s)).toOption.map fun st => [st.freqHz]
  | .rail => (decodeStatus (onStatusRead r s)).toOption.map fun st => [(st.railOn.toNat : Int)]
  | .drv => (decodeStatus (onStatusRead r s)).toOption.map fun st => [(st.drvAwake.toNat : Int)]
  | .led => (decodeStatus (onStatusRead r s)).toOption.map fun st => [(st.ledOn.toNat : Int)]
  | .imucfg => none
  | .robotid => some ((onRobotidRead r.peripheral).map fun x => (x.toNat : Int))

/-- A host reads what the register shows. -/
theorem hostReads_shows (r : Robot) (s : Buffer) {reg : Register} (h : reg ≠ .imucfg) :
    hostReads r s reg = some ((shows reg r.peripheral).map Int.ofNat) := by
  cases reg with
  | imucfg => exact absurd rfl h
  | robotid => rfl
  | freq => rw [hostReads, status_agrees]; rfl
  | rail => rw [hostReads, status_agrees]; rfl
  | drv => rw [hostReads, status_agrees]; rfl
  | led => rw [hostReads, status_agrees]; rfl

/-- **A register reads back what was last written to it**, by a host that decodes what the robot
    packs, whatever else happens to the robot: other writes, refused ones, commands, connections,
    sessions, boots of the coprocessor.  Before the first write that is taken it reads what it did. -/
theorem registers_read_back {p : Peripheral} (h : p.board.settings.Loaded settingsGen)
    (es : List Event) (reg : Register) :
    shows reg (es.foldl step p) = (written step (writes reg) p es).getD (shows reg p) ∧
      ∀ (r : Robot) (s : Buffer), r.peripheral = es.foldl step p → reg ≠ .imucfg →
        hostReads r s reg =
          some (((written step (writes reg) p es).getD (shows reg p)).map Int.ofNat) := by
  have hobs (q : Peripheral) (e : Event) (hq : q.board.settings.Loaded settingsGen) :
      shows reg (step q e) = (writes reg q e).getD (shows reg q) := step_shows hq e reg
  have hrun := foldl_written (fun _ e hq => step_loaded hq e) hobs es h
  refine ⟨hrun, fun r s hr hreg => ?_⟩
  rw [hostReads_shows r s hreg, hr, hrun]

/-- Asked for 200 Hz by a host, which its second channel refuses, and for the id 99, a robot reads 200
    Hz and is robot 5 as it was. -/
theorem registers_read_back_refused :
    let s : Buffer := fun _ => 0
    let events : List Event := [.write .robotid [5] 0 ⟨0, 0⟩, .write .freq [200, 0] 0 ⟨0, -5⟩,
      .write .robotid [99] 0 ⟨0, 0⟩, .arbitrate]
    let r := { Robot.fresh with peripheral := events.foldl step Peripheral.fresh }
    hostReads r s .freq = some [200] ∧ hostReads r s .robotid = some [5] := by
  intro s events r
  have hload : Peripheral.fresh.board.settings.Loaded settingsGen :=
    settingsStoreInit_loaded settingsGen crc32Ieee Store.cold none
  have hfreq := (registers_read_back hload events .freq).2 r s rfl (by decide)
  have hid := (registers_read_back hload events .robotid).2 r s rfl (by decide)
  exact ⟨hfreq.trans (by decide +kernel), hid.trans (by decide +kernel)⟩

end Caterpillar.Host.Registers
