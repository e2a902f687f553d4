/-
  The coprocessor's sampling loop (flpr/src/main.c) and its driver (flpr/src/driver_asm330lhh.c),
  interleaved with the sensor and with the application core's updates of the sampling configuration.

  Three separate pieces of state pace the loop: the sensor's data-ready flags, the level of the INT1
  line they are routed to, and `drdy_sem`, which the interrupt gives on a rising edge of the line only.

  1. `Sensor` — the registers the driver programs, the data-ready flags and the line (`drdy`).
  2. `Flpr`, `step` — the loop, one semaphore call, SPI transfer or access to the shared block at a
     time; the sensor fills its output registers whenever it likes, and an SPI transfer may fail.
  3. `Awake` — the property that keeps the loop from waiting for an edge that never comes: with the line
     high, `drdy_sem` is available or the loop is on its way to a read.
  4. `never_wedged` — it holds in every run in which no sample read fails with the line high and the
     semaphore taken, and no `k_sem_reset` on the timeout path finds the line high;
     `wedged_by_failed_read` and `wedged_by_reset` are runs in which one does.

  The loop is modelled from the moment the block is published (`magic`); what it does with a sample it
  has read is not part of this file.
-/
import Caterpillar.Lib.Runs
import Caterpillar.Lib.Sem
import Caterpillar.Lib.Word

namespace Caterpillar.Imu.Sampler

open Caterpillar.Word Caterpillar.Runs Caterpillar.Sem

/-! ## The sensor -/

/-- The arguments of `drv_asm330lhh_configure`, as they stand in the shared block. -/
structure SampleCfg where
  odr : UInt8
  content : UInt8
  accelFs : UInt8
  gyroFs : UInt8
  deriving DecidableEq

/-- `cfg_odr`, `cfg_content`, `cfg_accel_fs`, `cfg_gyro_fs`. -/
inductive CfgField where
  | odr
  | content
  | accelFs
  | gyroFs
  deriving DecidableEq

/-- A field of the block. -/
def SampleCfg.get (c : SampleCfg) : CfgField → UInt8
  | .odr => c.odr
  | .content => c.content
  | .accelFs => c.accelFs
  | .gyroFs => c.gyroFs

/-- A field is written. -/
def SampleCfg.set (c : SampleCfg) (v : UInt8) : CfgField → SampleCfg
  | .odr => { c with odr := v }
  | .content => { c with content := v }
  | .accelFs => { c with accelFs := v }
  | .gyroFs => { c with gyroFs := v }

theorem SampleCfg.ext_get {c d : SampleCfg} (h : ∀ f, c.get f = d.get f) : c = d := by
  obtain ⟨o, t, a, g⟩ := c
  obtain ⟨o', t', a', g'⟩ := d
  have ho : o = o' := h .odr
  have ht : t = t' := h .content
  have ha : a = a' := h .accelFs
  have hg : g = g' := h .gyroFs
  rw [ho, ht, ha, hg]

/-- The values `drv_asm330lhh_configure` does not answer with `-EINVAL`. -/
def SampleCfg.allowed (c : SampleCfg) : Bool :=
  !(decide (c.odr < 1) || decide (c.odr > 10) || (c.content &&& ~~~ 3) != 0 ||
    decide (c.accelFs > 3) || decide (c.gyroFs > 3))

/-- `CTRL1_XL`, `CTRL2_G` and `INT1_CTRL`. -/
structure Regs where
  ctrl1Xl : UInt8
  ctrl2G : UInt8
  int1Ctrl : UInt8
  deriving DecidableEq

/-- `fs_xl_bits`. -/
def fsXlBits (accelFs : UInt8) : UInt8 := ([0x0, 0x2, 0x3, 0x1] : List UInt8).getD accelFs.toNat 0

/-- `INT1_DRDY_XL`. -/
def int1DrdyXl : UInt8 := 0x01

/-- `INT1_DRDY_G`. -/
def int1DrdyG : UInt8 := 0x02

/-- The register values `drv_asm330lhh_configure` computes. -/
def SampleCfg.regs (c : SampleCfg) : Regs :=
  let accelOn := c.content &&& 0x01 != 0
  let gyroOn := c.content &&& 0x02 != 0
  { ctrl1Xl := if accelOn then c.odr <<< 4 ||| fsXlBits c.accelFs <<< 2 else 0
    ctrl2G := if gyroOn then c.odr <<< 4 ||| c.gyroFs <<< 2 else 0
    int1Ctrl := if gyroOn then int1DrdyG else if accelOn then int1DrdyXl else 0 }

/-- The `k`-th register write of `drv_asm330lhh_configure`. -/
def Regs.write (r target : Regs) : Nat → Regs
  | 0 => { r with ctrl1Xl := target.ctrl1Xl }
  | 1 => { r with ctrl2G := target.ctrl2G }
  | _ => { r with int1Ctrl := target.int1Ctrl }

/-- The sensor. -/
structure Sensor where
  regs : Regs
  /-- A sample of the accelerometer, of the gyroscope is ready. -/
  xlda : Bool
  gda : Bool
  /-- `CTRL1_XL` and `CTRL2_G` as they were when the output registers were last filled. -/
  filledAt : UInt8 × UInt8

/-- The level of the INT1 line. -/
def Sensor.drdy (s : Sensor) : Bool :=
  s.regs.int1Ctrl &&& int1DrdyXl != 0 && s.xlda || s.regs.int1Ctrl &&& int1DrdyG != 0 && s.gda

/-- Output data rate zero is power-down. -/
def Sensor.poweredOn (s : Sensor) : Bool := s.regs.ctrl1Xl != 0 || s.regs.ctrl2G != 0

/-- A sample is ready; with a shared data rate the two halves come together. -/
def Sensor.sample (s : Sensor) : Sensor :=
  if s.poweredOn then
    { s with
      xlda := s.xlda || s.regs.ctrl1Xl != 0
      gda := s.gda || s.regs.ctrl2G != 0
      filledAt := (s.regs.ctrl1Xl, s.regs.ctrl2G) }
  else s

/-- The output registers are read. -/
def Sensor.read (s : Sensor) : Sensor := { s with xlda := false, gda := false }

@[simp] theorem Sensor.read_drdy (s : Sensor) : s.read.drdy = false := by simp [Sensor.read, drdy]

@[simp] theorem Sensor.read_regs (s : Sensor) : s.read.regs = s.regs := rfl

@[simp] theorem Sensor.sample_regs (s : Sensor) : s.sample.regs = s.regs := by
  unfold Sensor.sample
  split
  · rfl
  · rfl

/-! ## The loop -/

/-- What `apply_config` was called on, and so what follows it. -/
inductive Path where
  /-- `drv_asm330lhh_wait_data` timed out: the loop goes back to it. -/
  | timeout
  /-- Every `CFG_POLL_INTERVAL` samples: the sample is read next. -/
  | poll
  deriving DecidableEq

/-- Where the loop is. -/
inductive FlprPc where
  /-- Initialisation failed. -/
  | parked
  /-- In `k_sem_take(&drdy_sem, K_MSEC(100))`. -/
  | wait
  /-- `drdy_sem` is taken. -/
  | ready
  /-- At `apply_config`'s test. -/
  | test (p : Path)
  /-- `cfg_seq` is read; the arguments of the call are being read, in any order. -/
  | fetch (p : Path) (seq : Nat) (got : CfgField → Option UInt8)
  /-- `k` registers are written. -/
  | write (p : Path) (seq : Nat) (c : SampleCfg) (k : Nat)
  /-- At the read of `scratch`. -/
  | scratch (p : Path) (seq : Nat) (c : SampleCfg)
  /-- At `k_sem_reset`. -/
  | reset (p : Path) (seq : Nat) (c : SampleCfg)
  /-- `drv_asm330lhh_configure` has returned. -/
  | status (p : Path) (seq : Nat) (c : SampleCfg) (ret : Int)
  /-- `cfg_status` is written. -/
  | applied (p : Path) (seq : Nat) (c : SampleCfg)
  /-- At the read of the sample. -/
  | read

/-- What follows `apply_config`. -/
def Path.next : Path → FlprPc
  | .timeout => .wait
  | .poll => .read

/-- The loop, the sensor and the configuration in the shared block. -/
structure Flpr where
  sensor : Sensor
  drdySem : KSem 1
  pc : FlprPc
  sinceCfgPoll : Nat
  /-- `cfg_odr`, `cfg_content`, `cfg_accel_fs`, `cfg_gyro_fs`. -/
  cfg : SampleCfg
  cfgSeq : Nat
  cfgApplied : Nat
  cfgStatus : Int
  /-- The update the application core is writing, and how many of its statements are done. -/
  app : Option (SampleCfg × Nat)
  /-- Updates completed. -/
  updates : Nat
  /-- The arguments of the last `drv_asm330lhh_configure` that got to the registers. -/
  programmed : Option SampleCfg

/-- What can happen. -/
inductive Event where
  /-- `k_sem_take` succeeds. -/
  | take
  /-- `k_sem_take` times out. -/
  | timeout
  /-- The loop's next statement, where it needs no answer. -/
  | run
  /-- A configuration field is read. -/
  | fetch (f : CfgField)
  /-- An SPI transfer returns. -/
  | spi (ret : Int)
  /-- The sensor has a sample. -/
  | sample
  /-- `session_imu_run_update` is called; its fields are these. -/
  | update (c : SampleCfg)
  /-- Its next statement. -/
  | appWrite

/-- `CFG_POLL_INTERVAL`. -/
def cfgPollInterval : Nat := 32

/-- `-EINVAL`. -/
def eInval : Int := -22

/-- The sensor changes; the interrupt gives `drdy_sem` if the line rises. -/
def Flpr.sense (s : Flpr) (t : Sensor) : Flpr :=
  { s with
    sensor := t
    drdySem := if !s.sensor.drdy && t.drdy then s.drdySem.give else s.drdySem }

/-- The arguments, once all four are read. -/
def allFetched (got : CfgField → Option UInt8) : Option SampleCfg :=
  match got .odr, got .content, got .accelFs, got .gyroFs with
  | some o, some t, some a, some g => some ⟨o, t, a, g⟩
  | _, _, _, _ => none

/-- One statement that needs no answer. -/
def runStep (s : Flpr) : Option Flpr :=
  match s.pc with
  | .ready =>
      if s.sinceCfgPoll + 1 ≥ cfgPollInterval then some { s with sinceCfgPoll := 0, pc := .test .poll }
      else some { s with sinceCfgPoll := s.sinceCfgPoll + 1, pc := .read }
  | .test p =>
      if s.cfgSeq = s.cfgApplied then some { s with pc := p.next }
      else some { s with pc := .fetch p s.cfgSeq fun _ => none }
  | .fetch p seq got =>
      (allFetched got).map fun c =>
        if c.allowed then { s with pc := .write p seq c 0 } else { s with pc := .status p seq c eInval }
  | .reset p seq c => some { s with drdySem := s.drdySem.reset, pc := .status p seq c 0 }
  | .status p seq c ret => some { s with cfgStatus := ret, pc := .applied p seq c }
  | .applied p seq _ => some { s with cfgApplied := seq, pc := p.next }
  | _ => none

/-- An SPI transfer returns zero or an error. -/
def spiStep (s : Flpr) (ret : Int) : Option Flpr :=
  match s.pc with
  | .write p seq c k =>
      if ret < 0 then some { s with programmed := some c, pc := .status p seq c ret }
      else
        let s := s.sense { s.sensor with regs := s.sensor.regs.write c.regs k }
        some { s with
          programmed := some c
          pc := if k + 1 < 3 then .write p seq c (k + 1) else .scratch p seq c }
  | .scratch p seq c =>
      if ret < 0 then some { s with pc := .reset p seq c }
      else some { s.sense s.sensor.read with pc := .reset p seq c }
  | .read =>
      if ret < 0 then some { s with pc := .wait }
      else some { s.sense s.sensor.read with pc := .wait }
  | _ => none

/-- One statement of `session_imu_run_update`. -/
def appStep (s : Flpr) : Option Flpr :=
  match s.app with
  | none => none
  | some (c, k) =>
      match k with
      | 0 => some { s with cfg := s.cfg.set c.odr .odr, app := some (c, 1) }
      | 1 => some { s with cfg := s.cfg.set c.content .content, app := some (c, 2) }
      | 2 => some { s with cfg := s.cfg.set c.accelFs .accelFs, app := some (c, 3) }
      | 3 => some { s with cfg := s.cfg.set c.gyroFs .gyroFs, app := some (c, 4) }
      | _ => some { s with cfgSeq := u32 (s.cfgSeq + 1), app := none, updates := s.updates + 1 }

/-- One step; `none` where it cannot happen. -/
def step (s : Flpr) : Event → Option Flpr
  | .take =>
      match s.pc with
      | .wait => s.drdySem.take.map fun t => { s with drdySem := t, pc := .ready }
      | _ => none
  | .timeout =>
      match s.pc with
      | .wait => if s.drdySem.count = 0 then some { s with pc := .test .timeout } else none
      | _ => none
  | .run => runStep s
  | .fetch f =>
      match s.pc with
      | .fetch p seq got =>
          if got f = none then
            some { s with pc := .fetch p seq (Function.update got f (some (s.cfg.get f))) }
          else none
      | _ => none
  | .spi ret => if 0 < ret then none else spiStep s ret
  | .sample => some (s.sense s.sensor.sample)
  | .update c => if s.app = none then some { s with app := some (c, 0) } else none
  | .appWrite => appStep s

/-- The step relation. -/
def Step (s : Flpr) (e : Event) (s' : Flpr) : Prop := step s e = some s'

/-- The configuration the loop boots with: `IMU_CFG_DEFAULT_ODR`, and the sensor powered down. -/
def bootCfg : SampleCfg := ⟨7, 0, 0, 0⟩

/-- The block is published and the sensor is powered down; its flags may be left over from before. -/
def Running (s : Flpr) : Prop :=
  ∃ xlda gda filledAt, s = {
    sensor := ⟨bootCfg.regs, xlda, gda, filledAt⟩
    drdySem := KSem.empty
    pc := .wait
    sinceCfgPoll := 0
    cfg := bootCfg
    cfgSeq := 1
    cfgApplied := 1
    cfgStatus := 0
    app := none
    updates := 0
    programmed := some bootCfg }

/-- The block is published, but the sensor could not be initialised or configured. -/
def Parked (s : Flpr) : Prop :=
  ∃ sensor sem programmed ret, ret < 0 ∧ s = {
    sensor := sensor
    drdySem := sem
    pc := .parked
    sinceCfgPoll := 0
    cfg := bootCfg
    cfgSeq := 1
    cfgApplied := 1
    cfgStatus := ret
    app := none
    updates := 0
    programmed := programmed }

/-! ## Awake -/

/-- The loop is on its way to a read of the sample. -/
def FlprPc.committed : FlprPc → Bool
  | .ready | .read => true
  | .test p | .fetch p _ _ | .write p _ _ _ | .scratch p _ _ | .reset p _ _ | .status p _ _ _
  | .applied p _ _ => p = .poll
  | .parked | .wait => false

theorem Path.next_committed (p : Path) : p.next.committed = decide (p = .poll) := by
  cases p with
  | timeout => rfl
  | poll => rfl

/-- With the line high, the semaphore is available or a read is ahead. -/
def Awake (s : Flpr) : Prop :=
  s.sensor.drdy = true → 0 < s.drdySem.count ∨ s.pc.committed = true

/-- The steps that lose no edge: a sample read does not fail with the line high and the semaphore taken,
    and the reset of the semaphore on the timeout path does not find the line high. -/
def losesNoEdge (s : Flpr) : Event → Bool
  | .spi ret =>
      match s.pc with
      | .read => decide (ret < 0 → s.sensor.drdy = true → 0 < s.drdySem.count)
      | _ => true
  | .run =>
      match s.pc with
      | .reset .timeout _ _ => !s.sensor.drdy
      | _ => true
  | _ => true

/-- The line of a sensor without a route is low, whatever its flags. -/
theorem Sensor.unrouted {s : Sensor} (h : s.regs.int1Ctrl = 0) : s.drdy = false := by
  unfold Sensor.drdy
  rw [h]
  rfl

/-- Without the line nothing is asked. -/
theorem Awake.low {s : Flpr} (h : s.sensor.drdy = false) : Awake s := by
  intro hhigh
  rw [h] at hhigh
  exact absurd hhigh (by decide)

/-- **An edge wakes.**  Whatever the sensor does. -/
theorem Awake.sense {s : Flpr} (h : Awake s) (t : Sensor) : Awake (s.sense t) := by
  intro hhigh
  have ht : t.drdy = true := hhigh
  show 0 < (if !s.sensor.drdy && t.drdy then s.drdySem.give else s.drdySem).count ∨ _
  rw [ht]
  cases hline : s.sensor.drdy with
  | true => exact h hline
  | false => exact Or.inl (KSem.give_pos _ (by decide))

/-- The loop moves on, without leaving a read behind. -/
theorem Awake.move {s s' : Flpr} (h : Awake s) (hsensor : s'.sensor = s.sensor)
    (hsem : s'.drdySem = s.drdySem) (hpc : s.pc.committed = true → s'.pc.committed = true) :
    Awake s' := by
  intro hhigh
  rw [hsensor] at hhigh
  rw [hsem]
  exact (h hhigh).imp_right hpc

theorem runStep_awake {s s' : Flpr} (h : Awake s) (hg : losesNoEdge s .run = true)
    (hs : runStep s = some s') : Awake s' := by
  unfold runStep at hs
  cases hpc : s.pc with
  | ready =>
    simp only [hpc] at hs
    split at hs
    · obtain rfl := Option.some.inj hs
      exact h.move rfl rfl fun _ => rfl
    · obtain rfl := Option.some.inj hs
      exact h.move rfl rfl fun _ => rfl
  | test p =>
    simp only [hpc] at hs
    split at hs
    · obtain rfl := Option.some.inj hs
      refine h.move rfl rfl ?_
      rw [hpc, Path.next_committed]
      exact id
    · obtain rfl := Option.some.inj hs
      refine h.move rfl rfl ?_
      rw [hpc]
      exact id
  | fetch p seq got =>
    simp only [hpc] at hs
    obtain ⟨c, -, rfl⟩ := Option.map_eq_some_iff.mp hs
    split
    · refine h.move rfl rfl ?_
      rw [hpc]
      exact id
    · refine h.move rfl rfl ?_
      rw [hpc]
      exact id
  | reset p seq c =>
    simp only [hpc] at hs
    obtain rfl := Option.some.inj hs
    cases p with
    | timeout =>
      -- the semaphore is lost here, so the line has to be low
      unfold losesNoEdge at hg
      rw [hpc] at hg
      exact Awake.low (by simpa using hg)
    | poll => exact fun _ => Or.inr rfl
  | status p seq c ret =>
    simp only [hpc] at hs
    obtain rfl := Option.some.inj hs
    refine h.move rfl rfl ?_
    rw [hpc]
    exact id
  | applied p seq c =>
    simp only [hpc] at hs
    obtain rfl := Option.some.inj hs
    refine h.move rfl rfl ?_
    rw [hpc, Path.next_committed]
    exact id
  | _ =>
    simp only [hpc] at hs
    exact absurd hs (by simp)

theorem spiStep_awake {s s' : Flpr} {ret : Int} (h : Awake s)
    (hg : losesNoEdge s (.spi ret) = true) (hs : spiStep s ret = some s') : Awake s' := by
  unfold spiStep at hs
  cases hpc : s.pc with
  | write p seq c k =>
    simp only [hpc] at hs
    split at hs
    · obtain rfl := Option.some.inj hs
      refine h.move rfl rfl ?_
      rw [hpc]
      exact id
    · obtain rfl := Option.some.inj hs
      refine (h.sense _).move rfl rfl ?_
      show s.pc.committed = true → _
      rw [hpc]
      split
      · exact id
      · exact id
  | scratch p seq c =>
    simp only [hpc] at hs
    split at hs
    · obtain rfl := Option.some.inj hs
      refine h.move rfl rfl ?_
      rw [hpc]
      exact id
    · obtain rfl := Option.some.inj hs
      exact Awake.low s.sensor.read_drdy
  | read =>
    simp only [hpc] at hs
    split at hs
    · rename_i hfail
      obtain rfl := Option.some.inj hs
      unfold losesNoEdge at hg
      rw [hpc] at hg
      intro hhigh
      exact Or.inl (of_decide_eq_true hg hfail hhigh)
    · obtain rfl := Option.some.inj hs
      exact Awake.low s.sensor.read_drdy
  | _ =>
    simp only [hpc] at hs
    exact absurd hs (by simp)

theorem appStep_awake {s s' : Flpr} (h : Awake s) (hs : appStep s = some s') : Awake s' := by
  unfold appStep at hs
  split at hs
  · exact absurd hs (by simp)
  · split at hs
    all_goals
      obtain rfl := Option.some.inj hs
      exact h.move rfl rfl id

/-- **Step lemma.** -/
theorem step_awake {s s' : Flpr} {e : Event} (h : Awake s) (hg : losesNoEdge s e = true)
    (hs : Step s e s') : Awake s' := by
  cases e with
  | take =>
    simp only [Step, step] at hs
    split at hs
    · obtain ⟨t, -, rfl⟩ := Option.map_eq_some_iff.mp hs
      exact fun _ => Or.inr rfl
    · exact absurd hs (by simp)
  | timeout =>
    simp only [Step, step] at hs
    split at hs
    · rename_i hpc
      obtain ⟨hnone, hs⟩ := Option.ite_none_right_eq_some.mp hs
      obtain rfl := Option.some.inj hs
      -- nothing to take and no read ahead: the line is low
      intro hhigh
      rcases h hhigh with hsem | hcommitted
      · omega
      · rw [hpc] at hcommitted
        exact absurd hcommitted (by decide)
    · exact absurd hs (by simp)
  | run => exact runStep_awake h hg hs
  | fetch f =>
    simp only [Step, step] at hs
    split at hs
    · rename_i p seq got hpc
      obtain ⟨-, hs⟩ := Option.ite_none_right_eq_some.mp hs
      obtain rfl := Option.some.inj hs
      refine h.move rfl rfl ?_
      rw [hpc]
      exact id
    · exact absurd hs (by simp)
  | spi ret =>
    obtain ⟨-, hs⟩ := Option.ite_none_left_eq_some.mp hs
    exact spiStep_awake h hg hs
  | sample =>
    obtain rfl := Option.some.inj hs
    exact h.sense _
  | update c =>
    obtain ⟨-, hs⟩ := Option.ite_none_right_eq_some.mp hs
    obtain rfl := Option.some.inj hs
    exact h.move rfl rfl id
  | appWrite => exact appStep_awake h hs

/-- **The sampler does not miss an edge** in any run whose steps lose none: with the sensor on and its
    line high, the semaphore is available or the loop is on its way to a read. -/
theorem never_wedged {s : Flpr}
    (h : Reach Running (guarded (fun s e => losesNoEdge s e = true) Step) s)
    (_ : s.sensor.poweredOn = true) (hhigh : s.sensor.drdy = true) :
    0 < s.drdySem.count ∨ s.pc.committed = true := by
  have hawake : Awake s := by
    refine h.invariant ?_ ?_
    · rintro s ⟨xlda, gda, filledAt, rfl⟩
      exact Awake.low (Sensor.unrouted rfl)
    · rintro s e s' - hinv ⟨hg, hst⟩
      exact step_awake hinv hg hst
  exact hawake hhigh

/-- The application core switches the accelerometer on. -/
def switchOn : List Event := .update ⟨7, 1, 0, 0⟩ :: List.replicate 5 .appWrite

/-- The loop times out and programs the sensor, up to the read of `scratch`. -/
def program : List Event :=
  [.timeout, .run, .fetch .odr, .fetch .content, .fetch .accelFs, .fetch .gyroFs, .run, .spi 0, .spi 0,
    .spi 0]

/-- The rest of `apply_config`, and the first sample. -/
def firstSample : List Event := switchOn ++ program ++ [.spi 0, .run, .run, .run, .sample]

/-- The read of the first sample fails. -/
def failedRead : List Event := firstSample ++ [.take, .run, .spi (-5)]

/-- The first sample is there before the semaphore is reset. -/
def earlySample : List Event := switchOn ++ program ++ [.spi 0, .sample, .run, .run, .run]

/-- The loop at boot, no flags left over. -/
def booted : Flpr where
  sensor := ⟨bootCfg.regs, false, false, (0, 0)⟩
  drdySem := KSem.empty
  pc := .wait
  sinceCfgPoll := 0
  cfg := bootCfg
  cfgSeq := 1
  cfgApplied := 1
  cfgStatus := 0
  app := none
  updates := 0
  programmed := some bootCfg

/-- The first sample after the sensor is switched on. -/
theorem never_wedged_first : ∃ s : Flpr, s.sensor.poweredOn = true ∧ s.sensor.drdy = true ∧
    (0 < s.drdySem.count ∨ s.pc.committed = true) := by
  have hrun : (firstSample.foldlM (fun s e => if losesNoEdge s e then step s e else none) booted).any
      (fun s => s.sensor.poweredOn && s.sensor.drdy) = true := by decide +kernel
  obtain ⟨s, hs, hon⟩ := (Option.any_eq_true _ _).mp hrun
  obtain ⟨hpower, hhigh⟩ := Bool.and_eq_true_iff.mp hon
  have hreach : Reach Running (guarded (fun s e => losesNoEdge s e = true) Step) s :=
    Reach.runGuarded (.start ⟨_, _, _, rfl⟩) hs
  exact ⟨s, hpower, hhigh, never_wedged hreach hpower hhigh⟩

/-- The sensor is on, its line is high, and nothing will make the loop read it. -/
def Flpr.wedged (s : Flpr) : Bool :=
  s.sensor.poweredOn && s.sensor.drdy && s.drdySem.count == 0 && !s.pc.committed

theorem Flpr.wedged_not {s : Flpr} (h : s.wedged = true) : ¬ (s.sensor.poweredOn = true →
    s.sensor.drdy = true → 0 < s.drdySem.count ∨ s.pc.committed = true) := by
  simp only [Flpr.wedged, Bool.and_eq_true, beq_iff_eq, Bool.not_eq_true'] at h
  obtain ⟨⟨⟨hpower, hhigh⟩, hnone⟩, hblocked⟩ := h
  intro hclaim
  rcases hclaim hpower hhigh with hsem | hcommitted
  · omega
  · rw [hblocked] at hcommitted
    exact absurd hcommitted (by decide)

/-- **A failed read wedges the loop**: it has taken the semaphore, and the line stays high. -/
theorem wedged_by_failed_read : ¬ ∀ s : Flpr, Reach Running Step s → s.sensor.poweredOn = true →
    s.sensor.drdy = true → 0 < s.drdySem.count ∨ s.pc.committed = true := by
  intro hall
  have hrun : (failedRead.foldlM step booted).any Flpr.wedged = true := by decide +kernel
  obtain ⟨s, hs, hwedged⟩ := (Option.any_eq_true _ _).mp hrun
  exact Flpr.wedged_not hwedged (hall s (Reach.run (fun _ _ _ hst => hst) (.start ⟨_, _, _, rfl⟩) hs))

/-- No SPI transfer fails. -/
def spiOk (_ : Flpr) : Event → Bool
  | .spi ret => ret == 0
  | _ => true

/-- **So does a sample between the read of `scratch` and the reset**, with no transfer failing. -/
theorem wedged_by_reset : ¬ ∀ s : Flpr, Reach Running (guarded (fun s e => spiOk s e = true) Step) s →
    s.sensor.poweredOn = true → s.sensor.drdy = true →
    0 < s.drdySem.count ∨ s.pc.committed = true := by
  intro hall
  have hrun : (earlySample.foldlM (fun s e => if spiOk s e then step s e else none) booted).any
      Flpr.wedged = true := by decide +kernel
  obtain ⟨s, hs, hwedged⟩ := (Option.any_eq_true _ _).mp hrun
  exact Flpr.wedged_not hwedged (hall s (Reach.runGuarded (.start ⟨_, _, _, rfl⟩) hs))

end Caterpillar.Imu.Sampler
