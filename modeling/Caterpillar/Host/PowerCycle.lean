/-
  What of a robot's registers a power cycle leaves (src/app/app.c, src/settings/settings_store.c).

  1. **Program** — `appInit` is what `app_init` makes of the settings.  `Machine` is a robot with its
     two slots, or its slots without power; beside them stands what the registers showed at the last
     persist whose record is complete.
  2. **Mirrors** — the PWM and the LED carry two settings of their own.  They agree with the store,
     unless the PWM refuses a frequency (`step_mirrors`).
  3. **Refinement** — a step of the machine is some steps of the settings store's `Device`
     (`sound_run`), so its invariant is there to use.
  4. `power_cycle_restores` — after any run a boot shows what was last persisted, with the motor off.

  Flash operations succeed here, and no setting is written during a persist: see Settings/FailedPersist
  and Settings/Overlap for the runs in which they do not, or one is.
-/
import Caterpillar.Host.Registers
import Caterpillar.Settings.Persist

namespace Caterpillar.Host.PowerCycle

open Caterpillar.Word Caterpillar.Bytes Caterpillar.Runs Caterpillar.Sem Caterpillar.Drivers
open Caterpillar.Settings Caterpillar.ImuLog Caterpillar.Ble Caterpillar.App
open Caterpillar.Ble.Writes (Peripheral applyFreq writeByte_rejected writeWord writeWord_cases)
open Caterpillar.Host.Registers (Register shows setAll setsIds step_sets step_loaded shows_kept
  writeByte_cases applyFreq_shows led_shows frequency_of_period)

/-! ## The program -/

/-- The robot as `app_init` leaves it, with the settings of `settings_store_init` and the log of
    `imu_log_init`; `sh` is what the shared block holds. -/
def appInit (settings : Store) (log : Log) (sh : App.ImuCfg) : Peripheral where
  board :=
    { uptime := 0
      wallEpochAtBoot := 0
      settings, log
      streamActive := false
      sh
      stream := Stream.cold
      dumpAbort := false
      curConn := false
      connParam := none
      cmdMsgq := [] }
  motor :=
    let m := Motor.booted (settingsGet settingsGen settings settingMotorFreqHz)
    { m with led :=
      if settingsGet settingsGen settings settingLedEnabled = 0 then drvLedSetEnabled m.led false
      else m.led }
  dumpReq := ⟨0, 0, 0⟩
  dumpSem := KSem.empty

variable (crc : List UInt8 → UInt32)

/-- A robot that runs, with its two slots; or its slots without power.  `saved` is what the registers
    showed at the last persist whose record is complete. -/
inductive Machine where
  | on (p : Peripheral) (slots : Nat → StoreRec) (saved : Option (Register → List Nat))
  | off (slots : Nat → StoreRec) (saved : Option (Register → List Nat))

/-- What can happen to it. -/
inductive Event where
  | run (e : Registers.Event)
  /-- `persist_work_fn`: the flash takes the record, and no setting is written meanwhile. -/
  | persist
  | cut
  /-- Power is cut in the flash write of a persist. -/
  | persistCut (t : Torn)
  /-- `settings_store_init`, which reads both slots, and `app_init`. -/
  | boot (log : Log) (sh : App.ImuCfg)

/-- What all registers show. -/
def shown (p : Peripheral) : Register → List Nat := fun r => shows r p

/-- The store after a persist. -/
def persisted (p : Peripheral) : Peripheral :=
  { p with board := { p.board with settings :=
    { p.board.settings with record := persistRec settingsGen crc p.board.settings.record } } }

/-- One step of a robot and its power. -/
def Machine.step : Machine → Event → Option Machine
  | .on p slots saved, .run e => some (.on (Registers.step p e) slots saved)
  | .on p slots _, .persist =>
      some (.on (persisted crc p)
        (writeSlot slots (persistRec settingsGen crc p.board.settings.record)) (some (shown p)))
  | .on _ slots saved, .cut => some (.off slots saved)
  | .on p slots saved, .persistCut t =>
      let r := persistRec settingsGen crc p.board.settings.record
      match t with
      | .old => some (.off slots saved)
      | .new => some (.off (writeSlot slots r) (some (shown p)))
      | .garbage g =>
          if g.Passes settingsGen crc then none
          else some (.off (Function.update slots (slotOf r) g) saved)
  | .off slots saved, .boot log sh =>
      some (.on (appInit (settingsStoreInit settingsGen crc Store.cold (readable slots)) log sh) slots
        saved)
  | _, _ => none

/-- The step relation. -/
def MachineStep (u : Machine) (e : Event) (u' : Machine) : Prop := u.step crc e = some u'

/-- A robot with two invalid slots. -/
def Factory (u : Machine) : Prop :=
  ∃ slots, u = .off slots none ∧ ∀ k, k < 2 → ¬ (slots k).Passes settingsGen crc

/-- The PWM takes every frequency, and the generation counter of the store does not reach its last
    value. -/
def Quiet : Machine → Event → Prop
  | _, .run (.write .freq _ _ ret) => ¬ ret.Fails
  | .on p _ _, .persist => p.board.settings.record.generation < 4294967295
  | .on p _ _, .persistCut _ => p.board.settings.record.generation < 4294967295
  | _, _ => True

/-- What a register that outlives the power shows of the settings. -/
def showsOf (v : Values) : Register → List Nat
  | .freq => [(v settingMotorFreqHz).toNat]
  | .rail => [0]
  | .drv => [0]
  | .led => [(v settingLedEnabled).toNat]
  | .imucfg => [settingImuOdrCode, settingImuContent, settingImuAccelFs, settingImuGyroFs,
      settingPreviewHz].map fun id => (v id).toNat
  | .robotid => [(v settingRobotId).toUInt8.toNat]

/-- The registers that the settings keep. -/
def Persistent (r : Register) : Prop := r ≠ .rail ∧ r ≠ .drv

/-! ## Mirrors -/

/-- The drivers that remember a setting remember what the store holds. -/
structure Mirrors (p : Peripheral) : Prop where
  freq : shows .freq p = [(p.board.setting settingMotorFreqHz).toNat]
  led : shows .led p = [(p.board.setting settingLedEnabled).toNat]

/-- A registered setting of a loaded store is in its record. -/
theorem setting_record {b : Board} (h : b.settings.Loaded settingsGen) {id : Nat} {m : SettingMeta}
    (hm : metaFor settingsGen id = some m) : b.setting id = b.settings.record.values id := by
  rw [Board.setting, settingsGet, hm]
  exact if_pos h.loaded

/-- So a register that the settings keep shows the record. -/
theorem shows_record {p : Peripheral} (h : p.board.settings.Loaded settingsGen) (hm : Mirrors p)
    {r : Register} (hr : Persistent r) : shows r p = showsOf p.board.settings.record.values r := by
  cases r with
  | rail => exact absurd rfl hr.1
  | drv => exact absurd rfl hr.2
  | freq => rw [hm.freq, setting_record h rfl]; rfl
  | led => rw [hm.led, setting_record h rfl]; rfl
  | imucfg =>
    refine List.map_congr_left fun id hid => congrArg UInt16.toNat ?_
    simp only [List.mem_cons, List.not_mem_nil, or_false] at hid
    rcases hid with rfl | rfl | rfl | rfl | rfl
    · exact setting_record h rfl
    · exact setting_record h rfl
    · exact setting_record h rfl
    · exact setting_record h rfl
    · exact setting_record h rfl
  | robotid => rw [shows, setting_record h rfl]; rfl

/-- A setting that an event does not set is kept. -/
theorem setting_kept (p : Peripheral) {e : Registers.Event} {id : Nat} (hid : id ∉ setsIds e) :
    (Registers.step p e).board.setting id = p.board.setting id :=
  (step_sets p e).kept hid

/-- Only its own characteristic sets the frequency, -/
theorem setsIds_freq {e : Registers.Event} (h : settingMotorFreqHz ∈ setsIds e) :
    ∃ buf offset ret, e = .write .freq buf offset ret := by
  unfold setsIds at h
  split at h
  · exact ⟨_, _, _, rfl⟩
  all_goals exact absurd h (by decide)

/-- and the heartbeat. -/
theorem setsIds_led {e : Registers.Event} (h : settingLedEnabled ∈ setsIds e) :
    ∃ buf offset ret, e = .write .led buf offset ret := by
  unfold setsIds at h
  split at h
  · exact absurd h (by decide)
  · exact ⟨_, _, _, rfl⟩
  all_goals exact absurd h (by decide)

/-- A write to 0xFFE1 that the PWM takes sets the period and the setting alike. -/
theorem freq_mirrors {p : Peripheral} (hload : p.board.settings.Loaded settingsGen)
    (hm : shows .freq p = [(p.board.setting settingMotorFreqHz).toNat]) (buf : List UInt8)
    (offset : Nat) {ret : PwmRet} (hret : ¬ ret.Fails) :
    shows .freq (Registers.step p (.write .freq buf offset ret)) =
      [((Registers.step p (.write .freq buf offset ret)).board.setting settingMotorFreqHz).toNat] := by
  show shows .freq (writeWord p buf offset drvPwmFreqMinHz drvPwmFreqMaxHz (applyFreq p ret)).1 =
    [((writeWord p buf offset drvPwmFreqMinHz drvPwmFreqMaxHz
      (applyFreq p ret)).1.board.setting settingMotorFreqHz).toNat]
  rcases writeWord_cases p buf offset drvPwmFreqMinHz drvPwmFreqMaxHz (applyFreq p ret) with
    ⟨hp, -, -⟩ | ⟨lo, hi, -, -, hmin, hmax, hp, -⟩
  · rw [hp]
    exact hm
  · have hok : ¬ (drvPwmSetFrequency p.motor.pwm (sysGetLe16 lo hi) ret).2 < 0 := fun hlt =>
      hret ((drvPwmSetFrequency_spec p.motor.pwm ret hmin hmax).2.2.2.mp hlt)
    have hset : (applyFreq p ret (sysGetLe16 lo hi)).1.board =
        p.board.set settingMotorFreqHz (sysGetLe16 lo hi) := by
      rw [applyFreq]
      dsimp only
      rw [if_neg hok]
    have hmeta : metaFor settingsGen settingMotorFreqHz =
        some ⟨settingMotorFreqHz, 150, 4, 1000, by decide⟩ := rfl
    have hself : (p.board.set settingMotorFreqHz (sysGetLe16 lo hi)).setting settingMotorFreqHz =
        sysGetLe16 lo hi :=
      settingsGet_set_self settingsGen hload.loaded hmeta hmin hmax
    rw [hp, applyFreq_shows p ret hmin hmax .freq, hset, hself]
    rfl

/-- A write to 0xFFED switches the heartbeat and the setting alike. -/
theorem led_mirrors {p : Peripheral} (hload : p.board.settings.Loaded settingsGen)
    (hm : shows .led p = [(p.board.setting settingLedEnabled).toNat]) (buf : List UInt8)
    (offset : Nat) (ret : PwmRet) :
    shows .led (Registers.step p (.write .led buf offset ret)) =
      [((Registers.step p (.write .led buf offset ret)).board.setting settingLedEnabled).toNat] := by
  show shows .led (Writes.onLedWrite p buf offset).1 =
    [((Writes.onLedWrite p buf offset).1.board.setting settingLedEnabled).toNat]
  rw [Writes.onLedWrite]
  rcases writeByte_cases p buf offset (fun on => decide (on ≤ 1)) fun on =>
      { p with
        motor := { p.motor with led := drvLedSetEnabled p.motor.led (on != 0) }
        board := p.board.set settingLedEnabled on.toUInt16 } with ⟨hrej, -⟩ | ⟨on, -, hon, hw⟩
  · rw [writeByte_rejected hrej]
    exact hm
  · have hle : on.toUInt16 ≤ 1 := UInt8.toUInt16_le.mpr (of_decide_eq_true hon)
    have hmeta : metaFor settingsGen settingLedEnabled =
        some ⟨settingLedEnabled, 1, 0, 1, by decide⟩ := rfl
    have hself : (p.board.set settingLedEnabled on.toUInt16).setting settingLedEnabled =
        on.toUInt16 :=
      settingsGet_set_self settingsGen hload.loaded hmeta UInt16.zero_le hle
    rw [hw, led_shows p hon .led]
    show [on.toNat] = [((p.board.set settingLedEnabled on.toUInt16).setting settingLedEnabled).toNat]
    rw [hself, UInt8.toNat_toUInt16]

/-- **One event keeps the mirrors.** -/
theorem step_mirrors {p : Peripheral} (hload : p.board.settings.Loaded settingsGen) (hm : Mirrors p)
    (e : Registers.Event) (he : ∀ buf offset ret, e = .write .freq buf offset ret → ¬ ret.Fails) :
    Mirrors (Registers.step p e) := by
  constructor
  · by_cases hfreq : ∃ buf offset ret, e = .write .freq buf offset ret
    · obtain ⟨buf, offset, ret, rfl⟩ := hfreq
      exact freq_mirrors hload hm.freq buf offset (he buf offset ret rfl)
    · have hne : ∀ buf offset ret, e ≠ .write .freq buf offset ret := by simpa using hfreq
      rw [shows_kept hload (by decide) hne, setting_kept p fun h => hfreq (setsIds_freq h)]
      exact hm.freq
  · by_cases hled : ∃ buf offset ret, e = .write .led buf offset ret
    · obtain ⟨buf, offset, ret, rfl⟩ := hled
      exact led_mirrors hload hm.led buf offset ret
    · have hne : ∀ buf offset ret, e ≠ .write .led buf offset ret := by simpa using hled
      rw [shows_kept hload (by decide) hne, setting_kept p fun h => hled (setsIds_led h)]
      exact hm.led

/-! ## A boot -/

/-- A frequency the settings allow is one the PWM takes. -/
theorem freq_range {s : Store} (h : s.Loaded settingsGen) :
    drvPwmFreqMinHz ≤ settingsGet settingsGen s settingMotorFreqHz ∧
      settingsGet settingsGen s settingMotorFreqHz ≤ drvPwmFreqMaxHz := by
  have hmeta : metaFor settingsGen settingMotorFreqHz =
      some ⟨settingMotorFreqHz, 150, 4, 1000, by decide⟩ := rfl
  exact h.get settingsGen hmeta

/-- **A boot** mirrors the settings, and leaves the motor off. -/
theorem appInit_mirrors {s : Store} (h : s.Loaded settingsGen) (log : Log) (sh : App.ImuCfg) :
    Mirrors (appInit s log sh) ∧ shows .rail (appInit s log sh) = [0] ∧
      shows .drv (appInit s log sh) = [0] := by
  refine ⟨⟨?_, ?_⟩, rfl, rfl⟩
  · obtain ⟨hmin, hmax⟩ := freq_range h
    obtain ⟨hperiod, -⟩ := drvPwmSetFrequency_spec (drvPwmSetDuty Pwm.cold 0 50 ⟨0, 0⟩).1
      ⟨0, 0⟩ hmin hmax
    show [(drvPwmGetFrequency (drvPwmSetFrequency (drvPwmSetDuty Pwm.cold 0 50 ⟨0, 0⟩).1
      (settingsGet settingsGen s settingMotorFreqHz) ⟨0, 0⟩).1).toNat] = _
    rw [drvPwmGetFrequency, hperiod, frequency_of_period hmin hmax]
    rfl
  · have hmeta : metaFor settingsGen settingLedEnabled =
        some ⟨settingLedEnabled, 1, 0, 1, by decide⟩ := rfl
    have hle := UInt16.le_iff_toNat_le.mp (h.get settingsGen hmeta).2
    show [(if settingsGet settingsGen s settingLedEnabled = 0 then _ else _ : Led).ledEnabled.toNat] =
      [(settingsGet settingsGen s settingLedEnabled).toNat]
    split
    · rename_i hzero
      rw [hzero]
      rfl
    · rename_i hne
      have hpos : (settingsGet settingsGen s settingLedEnabled).toNat ≠ 0 := fun h0 =>
        hne (UInt16.toNat_inj.mp h0)
      have hone : (settingsGet settingsGen s settingLedEnabled).toNat = 1 := by
        simp only [UInt16.reduceToNat] at hle
        omega
      rw [hone]
      rfl

/-! ## The machine refines the store's device -/

/-- What was persisted, as the store's device counts it. -/
def Saves (done : Option Values) (saved : Option (Register → List Nat)) : Prop :=
  (done = none ↔ saved = none) ∧ ∀ v f, done = some v → saved = some f →
    ∀ r, Persistent r → f r = showsOf v r

/-- The invariant of a machine: it is a sound device of the store, with its mirrors. -/
def Machine.Sound : Machine → Prop
  | .on p slots saved => Mirrors p ∧
      ∃ done, (Device.on p.board.settings slots done).Sound settingsGen crc ∧ Saves done saved
  | .off slots saved =>
      ∃ done, (Device.off slots done none).Sound settingsGen crc ∧ Saves done saved

/-- The settings of a sound device are loaded. -/
theorem loaded_of_sound {s : Store} {slots : Nat → StoreRec} {done : Option Values}
    (h : (Device.on s slots done).Sound settingsGen crc) : s.Loaded settingsGen := by
  obtain ⟨hl, -, hv, -, -⟩ := h
  exact ⟨hl, hv⟩

/-- **What an event does is some `set`s of the device.** -/
theorem sound_run {p : Peripheral} {slots : Nat → StoreRec} {done : Option Values}
    (h : (Device.on p.board.settings slots done).Sound settingsGen crc) (e : Registers.Event) :
    (Device.on (Registers.step p e).board.settings slots done).Sound settingsGen crc := by
  obtain ⟨l, hl, -⟩ := step_sets p e
  rw [hl]
  refine foldl_keeps (I := fun s => (Device.on s slots done).Sound settingsGen crc) ?_ l h
  intro s x hs
  exact device_sound settingsGen crc (e := .set x.1 x.2) hs trivial rfl

/-- What the registers show now, saved with the values of the record. -/
theorem saves_shown {p : Peripheral} (h : p.board.settings.Loaded settingsGen) (hm : Mirrors p) :
    Saves (some p.board.settings.record.values) (some (shown p)) := by
  refine ⟨by simp, ?_⟩
  rintro v f hv hf r hr
  obtain rfl := Option.some.inj hv
  obtain rfl := Option.some.inj hf
  exact shows_record h hm hr

/-- **Step lemma.** -/
theorem machine_sound {u u' : Machine} {e : Event} (h : u.Sound crc) (hG : Quiet u e)
    (hst : MachineStep crc u e u') : u'.Sound crc := by
  cases u with
  | on p slots saved =>
    obtain ⟨hm, done, hsound, hsaves⟩ := h
    have hload := loaded_of_sound crc hsound
    cases e with
    | run e =>
      obtain rfl := Option.some.inj hst
      refine ⟨step_mirrors hload hm e ?_, done, sound_run crc hsound e, hsaves⟩
      rintro buf offset ret rfl
      exact hG
    | persist =>
      obtain rfl := Option.some.inj hst
      exact ⟨⟨hm.freq, hm.led⟩, _, device_sound settingsGen crc (e := .persist) hsound hG rfl,
        saves_shown hload hm⟩
    | cut =>
      obtain rfl := Option.some.inj hst
      exact ⟨done, device_sound settingsGen crc (e := .cut) hsound trivial rfl, hsaves⟩
    | persistCut t =>
      cases t with
      | old =>
        obtain rfl := Option.some.inj hst
        have hcut : (Device.off slots done (some (p.board.settings.record.values, false))).Sound
            settingsGen crc :=
          device_sound settingsGen crc (e := .persistCut .old) hsound hG rfl
        exact ⟨done, hcut, hsaves⟩
      | new =>
        obtain rfl := Option.some.inj hst
        have hcut : (Device.off
            (writeSlot slots (persistRec settingsGen crc p.board.settings.record)) done
            (some (p.board.settings.record.values, true))).Sound settingsGen crc :=
          device_sound settingsGen crc (e := .persistCut .new) hsound hG rfl
        exact ⟨_, hcut, saves_shown hload hm⟩
      | garbage g =>
        have hst' : (if g.Passes settingsGen crc then none else some (Machine.off
          (Function.update slots (slotOf (persistRec settingsGen crc p.board.settings.record)) g)
            saved)) = some u' := hst
        split at hst'
        · exact absurd hst' (by simp)
        · rename_i hno
          obtain rfl := Option.some.inj hst'
          have hcut : (Device.off
              (Function.update slots (slotOf (persistRec settingsGen crc p.board.settings.record)) g)
              done (some (p.board.settings.record.values, false))).Sound settingsGen crc :=
            device_sound settingsGen crc (e := .persistCut (.garbage g)) hsound hG (if_neg hno)
          exact ⟨done, hcut, hsaves⟩
    | boot log sh => exact absurd hst (by simp [MachineStep, Machine.step])
  | off slots saved =>
    obtain ⟨done, hsound, hsaves⟩ := h
    cases e with
    | boot log sh =>
      obtain rfl := Option.some.inj hst
      have hboot := device_sound settingsGen crc (e := .boot) hsound trivial rfl
      exact ⟨(appInit_mirrors (loaded_of_sound crc hboot) log sh).1, done, hboot, hsaves⟩
    | run e => exact absurd hst (by simp [MachineStep, Machine.step])
    | persist => exact absurd hst (by simp [MachineStep, Machine.step])
    | cut => exact absurd hst (by simp [MachineStep, Machine.step])
    | persistCut t => exact absurd hst (by simp [MachineStep, Machine.step])

/-- **A power cycle restores what was persisted.**  After any run of writes, events of the board,
    persists that succeed undisturbed, power cuts and boots that starts with two invalid slots, a robot
    that boots has its motor off, and every other register shows what it showed at the last persist
    whose record is complete in flash; without one, what the registry defaults to. -/
theorem power_cycle_restores {slots : Nat → StoreRec} {saved : Option (Register → List Nat)}
    (h : Reach (Factory crc) (guarded Quiet (MachineStep crc)) (.off slots saved)) (log : Log)
    (sh : App.ImuCfg) :
    let p := appInit (settingsStoreInit settingsGen crc Store.cold (readable slots)) log sh
    shows .rail p = [0] ∧ shows .drv p = [0] ∧ ∀ r, Persistent r →
      shows r p = saved.getD (showsOf (defaultValues settingsGen)) r := by
  intro p
  have hsound : (Machine.off slots saved).Sound crc := by
    refine Reach.invariant (I := Machine.Sound crc) ?_ ?_ h
    · rintro u ⟨slots, rfl, hno⟩
      exact ⟨none, ⟨0, by decide, rfl, hno⟩, by simp [Saves]⟩
    · rintro u e u' - hu ⟨hg, hst⟩
      exact machine_sound crc hu hg hst
  obtain ⟨done, ⟨g, hg, hholds⟩, hnone, hsome⟩ := hsound
  obtain ⟨hload, -, -, hvalues, hin, -⟩ := boot_takes settingsGen crc hholds Store.cold
  have hloaded : (settingsStoreInit settingsGen crc Store.cold (readable slots)).Loaded settingsGen :=
    settingsStoreInit_loaded settingsGen crc Store.cold (readable slots)
  obtain ⟨hm, hrail, hdrv⟩ := appInit_mirrors hloaded log sh
  refine ⟨hrail, hdrv, fun r hr => ?_⟩
  have hshows : shows r p = showsOf (done.getD (defaultValues settingsGen)) r := by
    rw [shows_record hloaded hm hr]
    exact congrArg (fun v => showsOf v r) hvalues
  rw [hshows]
  cases hd : done with
  | none =>
    rw [hnone.mp hd]
    rfl
  | some v =>
    cases hs : saved with
    | none => exact absurd (hnone.mpr hs) (by simp [hd])
    | some f => exact (hsome v f hd hs r hr).symm

/-- Robot 5 is persisted with its rail on; power is cut in the write that makes it robot 7, and the
    next boot comes up as robot 5, its rail off. -/
theorem power_cycle_restores_torn : ∃ slots saved,
    Reach (Factory crc32Ieee) (guarded Quiet (MachineStep crc32Ieee)) (.off slots saved) ∧
      let p := appInit (settingsStoreInit settingsGen crc32Ieee Store.cold (readable slots))
        (Log.cold Flash.blank) ⟨0, 0, 0, 0, 0, 0⟩
      shows .robotid p = [5] ∧ shows .rail p = [0] := by
  have h0 : Reach (Factory crc32Ieee) (guarded Quiet (MachineStep crc32Ieee))
      (.off (fun _ => StoreRec.erased) none) :=
    .start ⟨_, rfl, fun _ _ => StoreRec.erased_fails settingsGen crc32Ieee⟩
  have h1 := h0.next (a := Event.boot (Log.cold Flash.blank) ⟨0, 0, 0, 0, 0, 0⟩) ⟨trivial, rfl⟩
  have h2 := h1.next (a := Event.run (.write .robotid [5] 0 ⟨0, 0⟩)) ⟨trivial, rfl⟩
  have h3 := h2.next (a := Event.run (.write .rail [1] 0 ⟨0, 0⟩)) ⟨trivial, rfl⟩
  have h4 := h3.next (a := Event.persist) ⟨by show _ < _; decide +kernel, rfl⟩
  have h5 := h4.next (a := Event.run (.write .robotid [7] 0 ⟨0, 0⟩)) ⟨trivial, rfl⟩
  have h6 := h5.next (a := Event.persistCut (.garbage StoreRec.erased))
    ⟨by show _ < _; decide +kernel,
      if_neg (t := none) (StoreRec.erased_fails settingsGen crc32Ieee)⟩
  refine ⟨_, _, h6, ?_⟩
  obtain ⟨hrail, -, hkept⟩ := power_cycle_restores crc32Ieee h6 (Log.cold Flash.blank)
    ⟨0, 0, 0, 0, 0, 0⟩
  refine ⟨?_, hrail⟩
  rw [hkept .robotid (by simp [Persistent])]
  decide +kernel

end Caterpillar.Host.PowerCycle
