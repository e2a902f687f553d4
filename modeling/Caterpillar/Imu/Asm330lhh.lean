/-
  The sensor driver (flpr/src/driver_asm330lhh.c), byte by byte over SPI, against the sensor.

  The sensor measures whenever it likes, between any two bytes of a transfer, and a transfer may fail
  with any number of its bytes through.

  1. **The sensor** (`Chip`): a register file (`SpiFrame.Device`) with the two bits of CTRL3_C the
     driver counts on: BDU, with which the high byte of an output word is the one that belonged to the
     low byte read before it, and IF_INC, with which a burst steps through the addresses.  Before the
     first frame it is not in SPI mode and answers with garbage.
  2. **The driver**, function by function: `regWrite`, `regRead`, `drvAsm330lhhInit`,
     `drvAsm330lhhConfigure`, `drvAsm330lhhRead`; and `call`, any of the three.
  3. **Result** — once an initialisation has succeeded, in every run of calls: a read that succeeds
     returns seven values the sensor measured, each the newest when its low byte was clocked out
     (`read_whole`); and a configuration that succeeded stays in force until the next one that is not
     rejected (`configured_stays`).
  4. `boot` — `main` of the coprocessor up to the block it publishes: with status zero the sampling loop
     starts where its own runs start (`boot_published`).
-/
import Caterpillar.Imu.Sampler
import Caterpillar.Imu.Sample
import Caterpillar.Lib.SpiFrame

namespace Caterpillar.Imu

/-- The output words, in the order of their addresses. -/
def Asm330lhhRaw.word (m : Asm330lhhRaw) : Nat → Int16
  | 0 => m.tempRaw
  | 1 => m.gx
  | 2 => m.gy
  | 3 => m.gz
  | 4 => m.ax
  | 5 => m.ay
  | _ => m.az

end Caterpillar.Imu

namespace Caterpillar.Imu.Asm330lhh

open Caterpillar.Bytes Caterpillar.Runs Caterpillar.SpiFrame Caterpillar.Imu.Sampler

/-! ## The sensor -/

/-- `REG_INT1_CTRL`. -/
def regInt1Ctrl : UInt8 := 0x0D
/-- `REG_WHO_AM_I`. -/
def regWhoAmI : UInt8 := 0x0F
/-- `REG_CTRL1_XL`. -/
def regCtrl1Xl : UInt8 := 0x10
/-- `REG_CTRL2_G`. -/
def regCtrl2G : UInt8 := 0x11
/-- `REG_CTRL3_C`. -/
def regCtrl3C : UInt8 := 0x12
/-- `REG_CTRL4_C`. -/
def regCtrl4C : UInt8 := 0x13
/-- `REG_OUT_TEMP_L`. -/
def regOutTempL : UInt8 := 0x20

/-- `WHO_AM_I_EXPECT`. -/
def whoAmIExpect : UInt8 := 0x6B
/-- `CTRL3_C_VAL`: BDU and IF_INC. -/
def ctrl3CVal : UInt8 := 0x44
/-- `CTRL4_C_VAL`: the I2C interface is off. -/
def ctrl4CVal : UInt8 := 0x04

/-- The sensor. -/
structure Chip where
  /-- Its registers, without those of the output. -/
  regs : Nat → UInt8
  /-- The last measurement. -/
  fresh : Asm330lhhRaw
  /-- The output words as they were when their low byte was read. -/
  latched : Nat → Int16
  /-- The first frame is over. -/
  spiMode : Bool

/-- Block data update. -/
def Chip.bdu (c : Chip) : Bool := c.regs regCtrl3C.toNat &&& 0x40 != 0

/-- The address steps on. -/
def Chip.ifInc (c : Chip) : Bool := c.regs regCtrl3C.toNat &&& 0x04 != 0

/-- The address of a byte of the output. -/
def isOut (a : Nat) : Bool := decide (regOutTempL.toNat ≤ a ∧ a < regOutTempL.toNat + 14)

/-- The output word at an address. -/
def wordAt (a : Nat) : Nat := (a - regOutTempL.toNat) / 2

/-- Low byte, high byte of a word. -/
def loByte (x : Int16) : UInt8 := x.toUInt16.toUInt8
/-- The high byte. -/
def hiByte (x : Int16) : UInt8 := (x.toUInt16 >>> 8).toUInt8

/-- An output word is latched. -/
def Chip.latch (c : Chip) (i : Nat) : Chip :=
  { c with latched := Function.update c.latched i (c.fresh.word i) }

/-- A register is read. -/
def Chip.read (c : Chip) (a : Nat) : UInt8 × Chip :=
  if isOut a then
    let i := wordAt a
    if a % 2 = 0 then
      (loByte (c.fresh.word i), c.latch i)
    else (hiByte (if c.bdu then c.latched i else c.fresh.word i), c)
  else (c.regs a, c)

/-- A register is written. -/
def Chip.write (c : Chip) (a : Nat) (v : UInt8) : Chip :=
  if isOut a then c else { c with regs := Function.update c.regs a v }

/-- The sensor behind its port. -/
def sensor : Device Chip := ⟨Chip.read, Chip.write, Chip.ifInc⟩

/-! ## A transfer -/

/-- How a transfer goes. -/
structure Xfer where
  ret : Int
  /-- Zero, or an error. -/
  nonpos : ret ≤ 0
  /-- So many of its bytes get through if it fails. -/
  through : Nat
  /-- What the sensor measures right before a byte. -/
  measured : Nat → Option Asm330lhhRaw
  /-- What the line shows where the sensor shows nothing. -/
  float : Nat → UInt8

/-- The sensor before the `k`-th byte. -/
def Xfer.tick (x : Xfer) (k : Nat) (c : Chip) : Chip :=
  { c with fresh := (x.measured k).getD c.fresh }

/-- The newest measurement when the `k`-th byte goes. -/
def Xfer.freshAt (x : Xfer) (m : Asm330lhhRaw) : Nat → Asm330lhhRaw
  | 0 => (x.measured 0).getD m
  | k + 1 => (x.measured (k + 1)).getD (x.freshAt m k)

/-- `spi_xfer`: what comes back with the bytes `tx`. -/
def spiXfer (c : Chip) (x : Xfer) (tx : List UInt8) : List UInt8 × Chip :=
  if c.spiMode then frame sensor x.tick x.float (if x.ret < 0 then tx.take x.through else tx) c
  else ((List.range tx.length).map x.float, { c with spiMode := true })

/-! ## The driver -/

/-- `SPI_READ_BIT`. -/
def spiReadBit : UInt8 := 0x80

/-- `reg_write`; it returns what the transfer does. -/
def regWrite (c : Chip) (reg val : UInt8) (x : Xfer) : Chip :=
  (spiXfer c x [reg &&& 0x7F, val]).2

/-- `reg_read`, of `len` bytes; it returns what the transfer does. -/
def regRead (c : Chip) (reg : UInt8) (len : Nat) (x : Xfer) : List UInt8 × Chip :=
  let r := spiXfer c x ((reg ||| spiReadBit) :: List.replicate len 0)
  (r.1.drop 1, r.2)

/-- `sign_extend_pair`. -/
def signExtendPair (l h : UInt8) : Int16 := (h.toUInt16 <<< 8 ||| l.toUInt16).toInt16

/-- The statics of the driver, and the sensor. -/
structure Driver where
  chip : Chip
  imuOk : Bool
  lastWhoami : UInt8

/-- The attempts to read WHO_AM_I: whether one has, and the sensor behind them. -/
def probe : List Xfer → Chip → Bool × Chip
  | [], c => (false, c)
  | x :: xs, c =>
      let r := regRead c regWhoAmI 1 x
      if x.ret = 0 ∧ r.1 = [whoAmIExpect] then (true, r.2) else probe xs r.2

/-- What `drv_asm330lhh_init` is answered. -/
structure InitRet where
  spiReady : Bool
  csReady : Bool
  cs : Int
  dummy : Xfer
  attempts : Fin 3 → Xfer
  ctrl3 : Xfer
  ctrl4 : Xfer
  /-- `gpio_pin_configure`, `gpio_add_callback`, `gpio_pin_interrupt_configure`. -/
  pin : Int
  callback : Int
  interrupt : Int

/-- `drdy_int_setup`. -/
def drdyIntSetup (e : InitRet) : Int :=
  if e.pin ≠ 0 then e.pin else if e.callback ≠ 0 then e.callback else e.interrupt

/-- `-ENODEV`. -/
def eNoDev : Int := -19
/-- `-EIO`. -/
def eIo : Int := -5

/-- The part of `drv_asm330lhh_init` behind the attempts. -/
def setUp (d : Driver) (e : InitRet) : Driver × Int :=
  let c₁ := regWrite d.chip regCtrl3C ctrl3CVal e.ctrl3
  if e.ctrl3.ret < 0 then ({ d with chip := c₁ }, e.ctrl3.ret)
  else
    let c₂ := regWrite c₁ regCtrl4C ctrl4CVal e.ctrl4
    if e.ctrl4.ret < 0 then ({ d with chip := c₂ }, e.ctrl4.ret)
    else if drdyIntSetup e < 0 then ({ d with chip := c₂ }, drdyIntSetup e)
    else ({ d with chip := c₂, imuOk := true }, 0)

/-- `drv_asm330lhh_init`. -/
def drvAsm330lhhInit (d : Driver) (e : InitRet) : Driver × Int :=
  if e.spiReady = false ∨ e.csReady = false then (d, eNoDev)
  else if e.cs < 0 then (d, e.cs)
  else
    let c₁ := (regRead d.chip regWhoAmI 1 e.dummy).2
    let p := probe (List.ofFn e.attempts) c₁
    if p.1 then setUp { d with chip := p.2, lastWhoami := whoAmIExpect } e
    else ({ d with chip := p.2 }, eIo)

/-- The transfers of `drv_asm330lhh_configure`. -/
structure ConfigureRet where
  ctrl1 : Xfer
  ctrl2 : Xfer
  int1 : Xfer
  scratch : Xfer

/-- `drv_asm330lhh_read`. -/
def drvAsm330lhhRead (d : Driver) (x : Xfer) : Driver × Option Asm330lhhRaw :=
  let r := regRead d.chip regOutTempL 14 x
  let raw := fun i => r.1.getD i 0
  ({ d with chip := r.2 },
    if x.ret < 0 then none
    else some
      { tempRaw := signExtendPair (raw 0) (raw 1)
        gx := signExtendPair (raw 2) (raw 3)
        gy := signExtendPair (raw 4) (raw 5)
        gz := signExtendPair (raw 6) (raw 7)
        ax := signExtendPair (raw 8) (raw 9)
        ay := signExtendPair (raw 10) (raw 11)
        az := signExtendPair (raw 12) (raw 13) })

/-- `drv_asm330lhh_configure`; the semaphore it resets is the sampling loop's. -/
def drvAsm330lhhConfigure (d : Driver) (c : SampleCfg) (e : ConfigureRet) : Driver × Int :=
  if c.allowed = false then (d, eInval)
  else
    let c₁ := regWrite d.chip regCtrl1Xl c.regs.ctrl1Xl e.ctrl1
    if e.ctrl1.ret ≠ 0 then ({ d with chip := c₁ }, e.ctrl1.ret)
    else
      let c₂ := regWrite c₁ regCtrl2G c.regs.ctrl2G e.ctrl2
      if e.ctrl2.ret ≠ 0 then ({ d with chip := c₂ }, e.ctrl2.ret)
      else
        let c₃ := regWrite c₂ regInt1Ctrl c.regs.int1Ctrl e.int1
        if e.int1.ret ≠ 0 then ({ d with chip := c₃ }, e.int1.ret)
        else ((drvAsm330lhhRead { d with chip := c₃ } e.scratch).1, 0)

/-- A call of the driver. -/
inductive Call where
  | init (e : InitRet)
  | configure (c : SampleCfg) (e : ConfigureRet)
  | read (x : Xfer)

/-- The driver after a call. -/
def call (d : Driver) : Call → Driver
  | .init e => (drvAsm330lhhInit d e).1
  | .configure c e => (drvAsm330lhhConfigure d c e).1
  | .read x => (drvAsm330lhhRead d x).1

/-- Power is up; the driver knows of no sensor. -/
def Boot (d : Driver) : Prop := d.imuOk = false

/-! ## The bus -/

theorem wayOf_write (reg : UInt8) : wayOf (reg &&& 0x7F) = .write := by
  have hbit : (reg &&& 0x7F) &&& 0x80 = 0 := by
    rw [UInt8.and_assoc]
    exact UInt8.and_zero
  exact if_neg (not_not_intro hbit)

theorem wayOf_read (reg : UInt8) : wayOf (reg ||| spiReadBit) = .read := by
  refine if_pos fun hbit => ?_
  have hset : (reg ||| spiReadBit) &&& 0x80 = 0x80 := by
    apply UInt8.toBitVec_inj.mp
    ext i hi
    simp [spiReadBit]
    grind
  rw [hset] at hbit
  exact absurd hbit (by decide)

@[simp] theorem Xfer.tick_regs (x : Xfer) (k : Nat) (c : Chip) : (x.tick k c).regs = c.regs := rfl

@[simp] theorem Xfer.tick_spiMode (x : Xfer) (k : Nat) (c : Chip) :
    (x.tick k c).spiMode = c.spiMode := rfl

@[simp] theorem Chip.read_regs (c : Chip) (a : Nat) : (c.read a).2.regs = c.regs := by
  unfold Chip.read
  split
  · split
    · rfl
    · rfl
  · rfl

@[simp] theorem Chip.read_spiMode (c : Chip) (a : Nat) : (c.read a).2.spiMode = c.spiMode := by
  unfold Chip.read
  split
  · split
    · rfl
    · rfl
  · rfl

@[simp] theorem Chip.read_fresh (c : Chip) (a : Nat) : (c.read a).2.fresh = c.fresh := by
  unfold Chip.read
  split
  · split
    · rfl
    · rfl
  · rfl

@[simp] theorem Chip.write_spiMode (c : Chip) (a : Nat) (v : UInt8) :
    (c.write a v).spiMode = c.spiMode := by
  unfold Chip.write
  split
  · rfl
  · rfl

/-- The first frame, whatever it says. -/
theorem spiXfer_first {c : Chip} (h : c.spiMode = false) (x : Xfer) (tx : List UInt8) :
    (spiXfer c x tx).2 = { c with spiMode := true } := by
  rw [spiXfer, h, if_neg Bool.false_ne_true]

/-- Every other one: so many of its bytes get through. -/
theorem spiXfer_frame {c : Chip} (h : c.spiMode = true) (x : Xfer) (tx : List UInt8) :
    ∃ n, (x.ret = 0 → tx.length ≤ n) ∧ spiXfer c x tx = frame sensor x.tick x.float (tx.take n) c := by
  rw [spiXfer, if_pos h]
  by_cases hneg : x.ret < 0
  · exact ⟨x.through, fun hzero => by omega, by rw [if_pos hneg]⟩
  · exact ⟨tx.length, fun _ => Nat.le_refl _, by rw [if_neg hneg, List.take_length]⟩

/-- A transfer leaves the sensor in SPI mode; a read leaves its registers. -/
theorem regRead_keeps (c : Chip) (reg : UInt8) (len : Nat) (x : Xfer) :
    (regRead c reg len x).2.regs = c.regs ∧ (regRead c reg len x).2.spiMode = true := by
  rw [regRead]
  cases hmode : c.spiMode with
  | false =>
    rw [spiXfer_first hmode]
    exact ⟨rfl, rfl⟩
  | true =>
    obtain ⟨n, -, hframe⟩ := spiXfer_frame hmode x ((reg ||| spiReadBit) :: List.replicate len 0)
    rw [hframe]
    exact frame_keeps (I := fun s : Chip => s.regs = c.regs ∧ s.spiMode = true) sensor x.tick x.float
      (fun _ _ h => h)
      (fun s a h => ⟨(Chip.read_regs s a).trans h.1, (Chip.read_spiMode s a).trans h.2⟩)
      (wayOf_read reg) (List.replicate len 0) n ⟨rfl, hmode⟩

/-- What a register write leaves: the register as it was, or with the value; and with it if the
    transfer succeeds. -/
structure Wrote (c : Chip) (reg val : UInt8) (ret : Int) (c' : Chip) : Prop where
  mode : c'.spiMode = true
  frame : ∀ a, a ≠ reg.toNat → c'.regs a = c.regs a
  self : c'.regs reg.toNat = c.regs reg.toNat ∨ c'.regs reg.toNat = val
  done : c.spiMode = true → ret = 0 → c'.regs reg.toNat = val

theorem Chip.write_wrote {c t : Chip} {reg : UInt8} (hreg : isOut reg.toNat = false) (val : UInt8)
    (ret : Int) (ht : t.regs = c.regs) (hmode : t.spiMode = true) :
    Wrote c reg val ret (t.write reg.toNat val) := by
  have hregs : (t.write reg.toNat val).regs = Function.update c.regs reg.toNat val := by
    rw [Chip.write, hreg, ← ht]
    rfl
  refine ⟨(Chip.write_spiMode t _ _).trans hmode, fun a ha => ?_, Or.inr ?_, fun _ _ => ?_⟩
  · rw [hregs, Function.update_of_ne ha]
  · rw [hregs, Function.update_self]
  · rw [hregs, Function.update_self]

/-- **A register is written.** -/
theorem regWrite_wrote (c : Chip) {reg : UInt8} (hlow : reg &&& 0x7F = reg)
    (hreg : isOut reg.toNat = false) (val : UInt8) (x : Xfer) :
    Wrote c reg val x.ret (regWrite c reg val x) := by
  have haddr : addrOf (reg &&& 0x7F) = reg.toNat := by rw [addrOf, hlow, hlow]
  rw [regWrite]
  cases hmode : c.spiMode with
  | false =>
    rw [spiXfer_first hmode]
    exact ⟨rfl, fun _ _ => rfl, Or.inl rfl, fun h => absurd (h.symm.trans hmode) (by decide)⟩
  | true =>
    obtain ⟨n, hall, hframe⟩ := spiXfer_frame hmode x [reg &&& 0x7F, val]
    rw [hframe]
    rcases n with _ | _ | n
    · exact ⟨hmode, fun _ _ => rfl, Or.inl rfl, fun _ h => absurd (hall h) (by simp)⟩
    · exact ⟨hmode, fun _ _ => rfl, Or.inl rfl, fun _ h => absurd (hall h) (by simp)⟩
    · rw [List.take_of_length_le (by simp), frame_write sensor x.tick x.float (wayOf_write reg), haddr]
      exact Chip.write_wrote hreg val x.ret rfl hmode

/-! ## The output is read whole -/

/-- The sensor is in SPI mode, with block data update and the stepping address. -/
structure Ready (c : Chip) : Prop where
  mode : c.spiMode = true
  ctrl3 : c.regs regCtrl3C.toNat = ctrl3CVal

theorem Ready.of_eq {c c' : Chip} (h : Ready c) (hregs : c'.regs = c.regs)
    (hmode : c'.spiMode = c.spiMode) : Ready c' :=
  ⟨hmode.trans h.mode, by rw [hregs]; exact h.ctrl3⟩

theorem Ready.bdu {c : Chip} (h : Ready c) : c.bdu = true := by
  rw [Chip.bdu, h.ctrl3]
  rfl

theorem Ready.ifInc {c : Chip} (h : Ready c) : c.ifInc = true := by
  rw [Chip.ifInc, h.ctrl3]
  rfl

theorem Ready.tick {c : Chip} (h : Ready c) (x : Xfer) (k : Nat) : Ready (x.tick k c) :=
  h.of_eq rfl rfl

theorem Ready.read {c : Chip} (h : Ready c) (a : Nat) : Ready (c.read a).2 :=
  h.of_eq (Chip.read_regs c a) (Chip.read_spiMode c a)

/-- The bytes of `n` output words from the `i`-th on, the first of them clocked out at the `k`-th
    byte: each word is the newest at its low byte. -/
def Xfer.clocked (x : Xfer) (m : Asm330lhhRaw) : Nat → Nat → Nat → List UInt8
  | _, _, 0 => []
  | k, i, n + 1 =>
      let w := (x.freshAt m k).word i
      loByte w :: hiByte w :: x.clocked m (k + 2) (i + 1) n

theorem Xfer.tick_fresh {x : Xfer} {m : Asm330lhhRaw} {k : Nat} {c : Chip} (h : c.fresh = x.freshAt m k) :
    (x.tick (k + 1) c).fresh = x.freshAt m (k + 1) := by
  rw [Xfer.freshAt, ← h]
  rfl

/-- The low byte of a word latches it. -/
theorem Chip.read_lo (c : Chip) {i : Nat} (hi : i < 7) :
    c.read (regOutTempL.toNat + 2 * i) = (loByte (c.fresh.word i), c.latch i) := by
  have hout : isOut (regOutTempL.toNat + 2 * i) = true := decide_eq_true ⟨by omega, by omega⟩
  have hword : wordAt (regOutTempL.toNat + 2 * i) = i := by rw [wordAt]; omega
  have heven : (regOutTempL.toNat + 2 * i) % 2 = 0 := by
    have h0 : regOutTempL.toNat = 2 * 16 := rfl
    omega
  rw [Chip.read, hout, hword, if_pos rfl, if_pos heven]

/-- With block data update the high byte is that of the latched word. -/
theorem Chip.read_hi {c : Chip} (hbdu : c.bdu = true) {i : Nat} (hi : i < 7) :
    c.read (regOutTempL.toNat + 2 * i + 1) = (hiByte (c.latched i), c) := by
  have hout : isOut (regOutTempL.toNat + 2 * i + 1) = true := decide_eq_true ⟨by omega, by omega⟩
  have hword : wordAt (regOutTempL.toNat + 2 * i + 1) = i := by rw [wordAt]; omega
  have hodd : (regOutTempL.toNat + 2 * i + 1) % 2 ≠ 0 := by
    have h0 : regOutTempL.toNat = 2 * 16 := rfl
    omega
  rw [Chip.read, hout, hword, if_pos rfl, if_neg hodd, hbdu, if_pos rfl]

/-- **Words, not bytes.**  Whatever the sensor measures on the way. -/
theorem sweep_words (x : Xfer) (m : Asm330lhhRaw) (n : Nat) {i k : Nat} {c : Chip} (h : Ready c)
    (hfresh : c.fresh = x.freshAt m k) (hle : i + n ≤ 7) :
    (sweep sensor x.tick (k + 1) (regOutTempL.toNat + 2 * i) (2 * n) c).1 =
      x.clocked m (k + 1) i n := by
  induction n generalizing i k c with
  | zero => rfl
  | succ n ih =>
    obtain ⟨c₁, hc₁⟩ : ∃ c₁, c₁ = (x.tick (k + 1) c).latch i := ⟨_, rfl⟩
    have hfresh₁ : c₁.fresh = x.freshAt m (k + 1) := by
      rw [hc₁]
      exact Xfer.tick_fresh hfresh
    have hready : Ready c₁ := by
      rw [hc₁]
      exact h.of_eq rfl rfl
    have hlo := Chip.read_lo (x.tick (k + 1) c) (i := i) (by omega)
    rw [Xfer.tick_fresh hfresh, ← hc₁] at hlo
    have hlatched : (x.tick (k + 2) c₁).latched i = (x.freshAt m (k + 1)).word i := by
      rw [hc₁, ← Xfer.tick_fresh hfresh]
      exact Function.update_self ..
    have hhi := Chip.read_hi (hready.tick x (k + 2)).bdu (i := i) (by omega)
    rw [hlatched] at hhi
    have hrest := ih (hready.tick x (k + 2)) (Xfer.tick_fresh hfresh₁) (i := i + 1) (by omega)
    have htwo : 2 * (n + 1) = 2 * n + 1 + 1 := by omega
    have haddr : regOutTempL.toNat + 2 * (i + 1) = regOutTempL.toNat + 2 * i + 1 + 1 := by omega
    rw [htwo, Xfer.clocked, ← hrest, haddr, sweep, sweep]
    simp only [sensor, hlo, hhi]

@[simp] theorem signExtendPair_word (w : Int16) : signExtendPair (loByte w) (hiByte w) = w := by
  have hpair : (hiByte w).toUInt16 <<< 8 ||| (loByte w).toUInt16 = w.toUInt16 := by
    rw [UInt16.or_comm]
    exact sysGetLe16_le16 w.toUInt16
  rw [signExtendPair, hpair, Int16.toInt16_toUInt16]

/-- What a read returns of a sensor that is ready. -/
theorem read_ready {d : Driver} (h : Ready d.chip) {x : Xfer} (hret : x.ret = 0) :
    (regRead d.chip regOutTempL 14 x).1 = x.clocked d.chip.fresh 1 0 7 := by
  have hburst := frame_read sensor x.tick x.float (I := Ready) (fun k _ h => h.tick x k)
    (fun _ a h => h.read a) (fun _ h => h.ifInc) (wayOf_read regOutTempL) (List.replicate 14 0) h
  have hwords := sweep_words x d.chip.fresh 7 (i := 0) (k := 0) (h.tick x 0) rfl (by omega)
  obtain ⟨n, hall, hframe⟩ := spiXfer_frame h.mode x
    ((regOutTempL ||| spiReadBit) :: List.replicate 14 0)
  rw [regRead, hframe, List.take_of_length_le (hall hret), hburst]
  exact hwords

/-! ## What a call does -/

/-- A register write keeps the sensor ready, unless it is one of another CTRL3_C. -/
theorem Wrote.ready {c c' : Chip} {reg val : UInt8} {ret : Int} (hw : Wrote c reg val ret c')
    (h : Ready c) (hval : reg = regCtrl3C → val = ctrl3CVal) : Ready c' := by
  refine ⟨hw.mode, ?_⟩
  by_cases hreg : reg = regCtrl3C
  · rcases hw.self with hself | hself
    · rw [← hreg, hself, hreg]
      exact h.ctrl3
    · rw [← hreg, hself]
      exact hval hreg
  · rw [hw.frame _ fun heq => hreg (UInt8.toNat_inj.mp heq.symm)]
    exact h.ctrl3

/-- The attempts only read. -/
theorem probe_keeps (xs : List Xfer) (c : Chip) :
    (probe xs c).2.regs = c.regs ∧ (c.spiMode = true → (probe xs c).2.spiMode = true) := by
  induction xs generalizing c with
  | nil => exact ⟨rfl, id⟩
  | cons x xs ih =>
    obtain ⟨hregs, hmode⟩ := regRead_keeps c regWhoAmI 1 x
    rw [probe]
    split
    · exact ⟨hregs, fun _ => hmode⟩
    · obtain ⟨hregs', hmode'⟩ := ih (regRead c regWhoAmI 1 x).2
      exact ⟨hregs'.trans hregs, fun _ => hmode' hmode⟩

/-- What an initialisation leaves. -/
structure Initialised (d : Driver) (r : Driver × Int) : Prop where
  frame : ∀ a, a ≠ regCtrl3C.toNat → a ≠ regCtrl4C.toNat → r.1.chip.regs a = d.chip.regs a
  ready : Ready d.chip → Ready r.1.chip
  imuOk : r.1.imuOk = true → d.imuOk = true ∨ Ready r.1.chip
  nonpos : r.2 ≤ 0
  done : r.2 = 0 → r.1.imuOk = true ∧ r.1.lastWhoami = whoAmIExpect ∧ Ready r.1.chip ∧
    r.1.chip.regs regCtrl4C.toNat = ctrl4CVal

theorem setUp_spec {d : Driver} (hmode : d.chip.spiMode = true) (hwho : d.lastWhoami = whoAmIExpect)
    (e : InitRet) : Initialised d (setUp d e) := by
  obtain ⟨c₁, hc₁⟩ : ∃ c₁, c₁ = regWrite d.chip regCtrl3C ctrl3CVal e.ctrl3 := ⟨_, rfl⟩
  obtain ⟨c₂, hc₂⟩ : ∃ c₂, c₂ = regWrite c₁ regCtrl4C ctrl4CVal e.ctrl4 := ⟨_, rfl⟩
  have hw₁ : Wrote d.chip regCtrl3C ctrl3CVal e.ctrl3.ret c₁ := by
    rw [hc₁]
    exact regWrite_wrote d.chip (by decide) (by decide) ctrl3CVal e.ctrl3
  have hw₂ : Wrote c₁ regCtrl4C ctrl4CVal e.ctrl4.ret c₂ := by
    rw [hc₂]
    exact regWrite_wrote c₁ (by decide) (by decide) ctrl4CVal e.ctrl4
  have hready₁ : Ready d.chip → Ready c₁ := fun h => hw₁.ready h fun _ => rfl
  have hready₂ : Ready c₁ → Ready c₂ := fun h => hw₂.ready h fun h => absurd h (by decide)
  have hframe₂ : ∀ a, a ≠ regCtrl3C.toNat → a ≠ regCtrl4C.toNat → c₂.regs a = d.chip.regs a :=
    fun a ha ha' => (hw₂.frame a ha').trans (hw₁.frame a ha)
  rw [setUp, ← hc₁]
  simp only [← hc₂]
  split
  · rename_i hneg
    exact ⟨fun a ha _ => hw₁.frame a ha, hready₁, Or.inl, e.ctrl3.nonpos, fun h => absurd hneg (by omega)⟩
  · rename_i hret₁
    have hzero : e.ctrl3.ret = 0 := by
      have := e.ctrl3.nonpos
      omega
    have hset : Ready c₁ := ⟨hw₁.mode, hw₁.done hmode hzero⟩
    split
    · rename_i hneg
      exact ⟨hframe₂, fun h => hready₂ (hready₁ h), Or.inl, e.ctrl4.nonpos, fun h => absurd hneg (by omega)⟩
    · rename_i hret₂
      have hzero₂ : e.ctrl4.ret = 0 := by
        have := e.ctrl4.nonpos
        omega
      split
      · rename_i hneg
        exact ⟨hframe₂, fun h => hready₂ (hready₁ h), Or.inl, Int.le_of_lt hneg,
          fun h => absurd hneg (by omega)⟩
      · exact ⟨hframe₂, fun h => hready₂ (hready₁ h), fun _ => Or.inr (hready₂ hset), Int.le_refl _,
          fun _ => ⟨rfl, hwho, hready₂ hset, hw₂.done hw₁.mode hzero₂⟩⟩

/-- **Initialisation.** -/
theorem init_spec (d : Driver) (e : InitRet) : Initialised d (drvAsm330lhhInit d e) := by
  obtain ⟨hregs, hmode⟩ := regRead_keeps d.chip regWhoAmI 1 e.dummy
  obtain ⟨c₁, hc₁⟩ : ∃ c₁, c₁ = (regRead d.chip regWhoAmI 1 e.dummy).2 := ⟨_, rfl⟩
  obtain ⟨hregs', hmode'⟩ := probe_keeps (List.ofFn e.attempts) c₁
  rw [← hc₁] at hregs hmode
  have hsame : Ready d.chip → Ready (probe (List.ofFn e.attempts) c₁).2 := fun h =>
    h.of_eq (hregs'.trans hregs) ((hmode' hmode).trans h.mode.symm)
  rw [drvAsm330lhhInit]
  simp only [← hc₁]
  split
  · exact ⟨fun _ _ _ => rfl, id, Or.inl, show eNoDev ≤ 0 by decide,
      fun h => absurd (show eNoDev = 0 from h) (by decide)⟩
  · split
    · rename_i hneg
      exact ⟨fun _ _ _ => rfl, id, Or.inl, Int.le_of_lt hneg, fun h => absurd hneg (by omega)⟩
    · split
      · have hset := setUp_spec (d := ⟨(probe (List.ofFn e.attempts) c₁).2, d.imuOk, whoAmIExpect⟩)
          (hmode' hmode) rfl e
        refine ⟨fun a ha ha' => ?_, fun h => hset.ready (hsame h), hset.imuOk, hset.nonpos, hset.done⟩
        rw [hset.frame a ha ha', hregs', hregs]
      · refine ⟨fun a _ _ => ?_, hsame, Or.inl, show eIo ≤ 0 by decide,
          fun h => absurd (show eIo = 0 from h) (by decide)⟩
        show (probe (List.ofFn e.attempts) c₁).2.regs a = d.chip.regs a
        rw [hregs', hregs]

/-- The registers the configuration is in. -/
def Chip.programmed (c : Chip) : Regs :=
  ⟨c.regs regCtrl1Xl.toNat, c.regs regCtrl2G.toNat, c.regs regInt1Ctrl.toNat⟩

/-- A read leaves all that is not output. -/
theorem read_keeps (d : Driver) (x : Xfer) :
    (drvAsm330lhhRead d x).1.chip.regs = d.chip.regs ∧
      (drvAsm330lhhRead d x).1.chip.spiMode = true ∧ (drvAsm330lhhRead d x).1.imuOk = d.imuOk ∧
      (drvAsm330lhhRead d x).1.lastWhoami = d.lastWhoami := by
  obtain ⟨hregs, hmode⟩ := regRead_keeps d.chip regOutTempL 14 x
  exact ⟨hregs, hmode, rfl, rfl⟩

/-- What a configuration leaves. -/
structure Configured (d : Driver) (c : SampleCfg) (r : Driver × Int) : Prop where
  rejected : c.allowed = false → r = (d, eInval)
  frame : ∀ a, a ≠ regCtrl1Xl.toNat → a ≠ regCtrl2G.toNat → a ≠ regInt1Ctrl.toNat →
    r.1.chip.regs a = d.chip.regs a
  ready : Ready d.chip → Ready r.1.chip
  imuOk : r.1.imuOk = d.imuOk
  whoami : r.1.lastWhoami = d.lastWhoami
  nonpos : r.2 ≤ 0
  done : d.chip.spiMode = true → r.2 = 0 → r.1.chip.programmed = c.regs

/-- **Configuration.** -/
theorem configure_spec (d : Driver) (c : SampleCfg) (e : ConfigureRet) :
    Configured d c (drvAsm330lhhConfigure d c e) := by
  obtain ⟨c₁, hc₁⟩ : ∃ c₁, c₁ = regWrite d.chip regCtrl1Xl c.regs.ctrl1Xl e.ctrl1 := ⟨_, rfl⟩
  obtain ⟨c₂, hc₂⟩ : ∃ c₂, c₂ = regWrite c₁ regCtrl2G c.regs.ctrl2G e.ctrl2 := ⟨_, rfl⟩
  obtain ⟨c₃, hc₃⟩ : ∃ c₃, c₃ = regWrite c₂ regInt1Ctrl c.regs.int1Ctrl e.int1 := ⟨_, rfl⟩
  have hw₁ : Wrote d.chip regCtrl1Xl c.regs.ctrl1Xl e.ctrl1.ret c₁ := by
    rw [hc₁]
    exact regWrite_wrote d.chip (by decide) (by decide) _ e.ctrl1
  have hw₂ : Wrote c₁ regCtrl2G c.regs.ctrl2G e.ctrl2.ret c₂ := by
    rw [hc₂]
    exact regWrite_wrote c₁ (by decide) (by decide) _ e.ctrl2
  have hw₃ : Wrote c₂ regInt1Ctrl c.regs.int1Ctrl e.int1.ret c₃ := by
    rw [hc₃]
    exact regWrite_wrote c₂ (by decide) (by decide) _ e.int1
  have hready₁ : Ready d.chip → Ready c₁ := fun h => hw₁.ready h fun h => absurd h (by decide)
  have hready₂ : Ready d.chip → Ready c₂ := fun h =>
    hw₂.ready (hready₁ h) fun h => absurd h (by decide)
  have hready₃ : Ready d.chip → Ready c₃ := fun h =>
    hw₃.ready (hready₂ h) fun h => absurd h (by decide)
  have hframe₁ : ∀ a, a ≠ regCtrl1Xl.toNat → a ≠ regCtrl2G.toNat → a ≠ regInt1Ctrl.toNat →
      c₁.regs a = d.chip.regs a := fun a ha _ _ => hw₁.frame a ha
  have hframe₂ : ∀ a, a ≠ regCtrl1Xl.toNat → a ≠ regCtrl2G.toNat → a ≠ regInt1Ctrl.toNat →
      c₂.regs a = d.chip.regs a := fun a h₁ h₂ h₃ => (hw₂.frame a h₂).trans (hframe₁ a h₁ h₂ h₃)
  have hframe₃ : ∀ a, a ≠ regCtrl1Xl.toNat → a ≠ regCtrl2G.toNat → a ≠ regInt1Ctrl.toNat →
      c₃.regs a = d.chip.regs a := fun a h₁ h₂ h₃ => (hw₃.frame a h₃).trans (hframe₂ a h₁ h₂ h₃)
  rw [drvAsm330lhhConfigure]
  cases hallowed : c.allowed with
  | false =>
    rw [if_pos rfl]
    exact ⟨fun _ => rfl, fun _ _ _ _ => rfl, id, rfl, rfl, show eInval ≤ 0 by decide,
      fun _ h => absurd (show eInval = 0 from h) (by decide)⟩
  | true =>
    rw [if_neg (by decide)]
    simp only [← hc₁, ← hc₂, ← hc₃]
    split
    · rename_i hret
      exact ⟨fun h => absurd (hallowed.symm.trans h) (by decide), hframe₁, hready₁, rfl, rfl, e.ctrl1.nonpos,
        fun _ h => absurd h hret⟩
    · rename_i hret₁
      split
      · rename_i hret
        exact ⟨fun h => absurd (hallowed.symm.trans h) (by decide), hframe₂, hready₂, rfl, rfl, e.ctrl2.nonpos,
          fun _ h => absurd h hret⟩
      · rename_i hret₂
        split
        · rename_i hret
          exact ⟨fun h => absurd (hallowed.symm.trans h) (by decide), hframe₃, hready₃, rfl, rfl, e.int1.nonpos,
            fun _ h => absurd h hret⟩
        · rename_i hret₃
          obtain ⟨hregs, hmode, hok, hwho⟩ := read_keeps { d with chip := c₃ } e.scratch
          refine ⟨fun h => absurd (hallowed.symm.trans h) (by decide), fun a ha₁ ha₂ ha₃ => ?_,
            fun h => ?_, hok, hwho, Int.le_refl _, fun hspi _ => ?_⟩
          · rw [hregs]
            exact hframe₃ a ha₁ ha₂ ha₃
          · exact (hready₃ h).of_eq hregs (hmode.trans hw₃.mode.symm)
          · have h₁ := hw₁.done hspi (not_not.mp hret₁)
            have h₂ := hw₂.done hw₁.mode (not_not.mp hret₂)
            have h₃ := hw₃.done hw₂.mode (not_not.mp hret₃)
            show (⟨_, _, _⟩ : Regs) = _
            rw [hregs]
            show (⟨c₃.regs _, c₃.regs _, c₃.regs _⟩ : Regs) = _
            rw [h₃, hw₃.frame regCtrl2G.toNat (by decide), h₂, hw₃.frame regCtrl1Xl.toNat (by decide),
              hw₂.frame regCtrl1Xl.toNat (by decide), h₁]

/-! ## Runs -/

/-- Where the driver knows of the sensor, the sensor is ready. -/
def Sound (d : Driver) : Prop := d.imuOk = true → Ready d.chip

theorem call_ready {d : Driver} (h : Ready d.chip) (k : Call) : Ready (call d k).chip := by
  cases k with
  | init e => exact (init_spec d e).ready h
  | configure c e => exact (configure_spec d c e).ready h
  | read x =>
    obtain ⟨hregs, hmode, -, -⟩ := read_keeps d x
    exact h.of_eq hregs (hmode.trans h.mode.symm)

theorem call_sound {d : Driver} (h : Sound d) (k : Call) : Sound (call d k) := by
  intro hok
  cases k with
  | init e =>
    rcases (init_spec d e).imuOk hok with hbefore | hready
    · exact (init_spec d e).ready (h hbefore)
    · exact hready
  | configure c e => exact call_ready (h ((configure_spec d c e).imuOk.symm.trans hok)) (.configure c e)
  | read x => exact call_ready (h ((read_keeps d x).2.2.1.symm.trans hok)) (.read x)

theorem run_sound (ks : List Call) {d₀ : Driver} (h₀ : Boot d₀) : Sound (ks.foldl call d₀) :=
  foldl_keeps (I := Sound) (fun _ k h => call_sound h k) ks
    fun hok => absurd ((show d₀.imuOk = false from h₀).symm.trans hok) (by decide)

/-- **Every sample read is one the sensor took, word by word.** -/
theorem read_whole (ks : List Call) {d₀ : Driver} (h₀ : Boot d₀)
    (hok : (ks.foldl call d₀).imuOk = true) {x : Xfer} (hret : x.ret = 0) :
    (drvAsm330lhhRead (ks.foldl call d₀) x).2 = some
      { tempRaw := (x.freshAt (ks.foldl call d₀).chip.fresh 1).tempRaw
        gx := (x.freshAt (ks.foldl call d₀).chip.fresh 3).gx
        gy := (x.freshAt (ks.foldl call d₀).chip.fresh 5).gy
        gz := (x.freshAt (ks.foldl call d₀).chip.fresh 7).gz
        ax := (x.freshAt (ks.foldl call d₀).chip.fresh 9).ax
        ay := (x.freshAt (ks.foldl call d₀).chip.fresh 11).ay
        az := (x.freshAt (ks.foldl call d₀).chip.fresh 13).az } := by
  have hread := read_ready (run_sound ks h₀ hok) hret
  rw [drvAsm330lhhRead, if_neg (by omega)]
  simp only [hread, Xfer.clocked, List.getD_cons_zero, List.getD_cons_succ, signExtendPair_word]
  rfl

/-- A sensor at power-up, and transfers that succeed. -/
def asleep : Driver :=
  ⟨⟨fun a => if a = regWhoAmI.toNat then whoAmIExpect else 0, ⟨0, 0, 0, 0, 0, 0, 0⟩, fun _ => 0, false⟩,
    false, 0⟩

/-- A transfer during which the sensor measures nothing. -/
def calm : Xfer := ⟨0, Int.le_refl 0, 0, fun _ => none, fun _ => 0xFF⟩

/-- One with a measurement in front of its address byte, and another in the middle of a word. -/
def busy : Xfer :=
  { calm with
    measured := fun k =>
      if k = 0 then some ⟨1, 2, 3, 4, 5, 6, 7⟩
      else if k = 6 then some ⟨0x101, 0x102, 0x103, 0x104, 0x105, 0x106, 0x107⟩ else none }

/-- An initialisation that succeeds. -/
def calmInit : InitRet := ⟨true, true, 0, calm, fun _ => calm, calm, calm, 0, 0, 0⟩

/-- A configuration that does. -/
def calmConfigure : ConfigureRet := ⟨calm, calm, calm, calm⟩

theorem read_whole_busy : (drvAsm330lhhRead ([.init calmInit].foldl call asleep) busy).2 =
    some ⟨0x101, 0x102, 0x103, 4, 5, 0x106, 7⟩ :=
  read_whole [.init calmInit] (show Boot asleep from rfl) rfl rfl

/-- Without block data update the word being read is torn: its low byte is of the one measurement, its
    high byte of the other. -/
example : (drvAsm330lhhRead
    { asleep with chip := ⟨fun a => if a = regCtrl3C.toNat then 0x04 else 0, ⟨0, 0, 0, 0, 0, 0, 0⟩,
        fun _ => 0, true⟩ } busy).2 = some ⟨0x101, 0x102, 0x103, 4, 0x105, 0x106, 7⟩ := by
  decide +kernel

/-! ## What the registers mean -/

/-- What the two halves of the sensor measure: at which data rate, and to which full scale. -/
structure Measuring where
  /-- In g. -/
  accel : Option (UInt8 × Nat)
  /-- In degrees per second. -/
  gyro : Option (UInt8 × Nat)
  deriving DecidableEq

/-- FS_XL: the register coding is not monotonic. -/
def fsXlG (bits : UInt8) : Nat := ([2, 16, 4, 8] : List Nat).getD bits.toNat 0

/-- FS_G. -/
def fsGDps (bits : UInt8) : Nat := ([250, 500, 1000, 2000] : List Nat).getD bits.toNat 0

/-- A half with data rate zero is powered down. -/
def half (ctrl : UInt8) (fs : UInt8 → Nat) : Option (UInt8 × Nat) :=
  if ctrl >>> 4 = 0 then none else some (ctrl >>> 4, fs (ctrl >>> 2 &&& 3))

/-- What the sensor does with these registers. -/
def measuring (r : Regs) : Measuring := ⟨half r.ctrl1Xl fsXlG, half r.ctrl2G fsGDps⟩

/-- `ACCEL_FS_G` (scripts/protocol.py). -/
def accelFsG (i : UInt8) : Nat := ([2, 4, 8, 16] : List Nat).getD i.toNat 0

/-- `GYRO_FS_DPS`. -/
def gyroFsDps (i : UInt8) : Nat := ([250, 500, 1000, 2000] : List Nat).getD i.toNat 0

/-- What the host takes a configuration to mean. -/
def meant (c : SampleCfg) : Measuring :=
  ⟨if c.content &&& 0x01 != 0 then some (c.odr, accelFsG c.accelFs) else none,
    if c.content &&& 0x02 != 0 then some (c.odr, gyroFsDps c.gyroFs) else none⟩

/-- INT1 carries the data-ready flag of a half that measures, if any does. -/
structure Routed (r : Regs) : Prop where
  accel : r.int1Ctrl &&& int1DrdyXl ≠ 0 → (measuring r).accel ≠ none
  gyro : r.int1Ctrl &&& int1DrdyG ≠ 0 → (measuring r).gyro ≠ none
  some : measuring r ≠ ⟨none, none⟩ → r.int1Ctrl &&& (int1DrdyXl ||| int1DrdyG) ≠ 0

theorem allowed_bounds {c : SampleCfg} (h : c.allowed = true) :
    (1 ≤ c.odr.toNat ∧ c.odr.toNat < 11) ∧ c.accelFs.toNat < 4 ∧ c.gyroFs.toNat < 4 := by
  simp only [SampleCfg.allowed, Bool.not_eq_true', Bool.or_eq_false_iff, decide_eq_false_iff_not,
    UInt8.not_lt, UInt8.le_iff_toNat_le] at h
  obtain ⟨⟨⟨⟨h₁, h₂⟩, -⟩, h₃⟩, h₄⟩ := h
  exact ⟨⟨h₁, Nat.lt_succ_of_le h₂⟩, Nat.lt_succ_of_le h₃, Nat.lt_succ_of_le h₄⟩

theorem half_off (fs : UInt8 → Nat) : half 0 fs = none := rfl

/-- The accelerometer's code reads back. -/
theorem half_accel {odr fs : UInt8} (ho : 1 ≤ odr.toNat ∧ odr.toNat < 11) (hf : fs.toNat < 4) :
    half (odr <<< 4 ||| fsXlBits fs <<< 2) fsXlG = some (odr, accelFsG fs) := by
  have hall : ∀ o < 11, ∀ f < 4, 1 ≤ o →
      half (UInt8.ofNat o <<< 4 ||| fsXlBits (UInt8.ofNat f) <<< 2) fsXlG =
        some (UInt8.ofNat o, accelFsG (UInt8.ofNat f)) := by decide
  have hone := hall odr.toNat ho.2 fs.toNat hf ho.1
  rwa [UInt8.ofNat_toNat, UInt8.ofNat_toNat] at hone

/-- The gyroscope's. -/
theorem half_gyro {odr fs : UInt8} (ho : 1 ≤ odr.toNat ∧ odr.toNat < 11) (hf : fs.toNat < 4) :
    half (odr <<< 4 ||| fs <<< 2) fsGDps = some (odr, gyroFsDps fs) := by
  have hall : ∀ o < 11, ∀ f < 4, 1 ≤ o →
      half (UInt8.ofNat o <<< 4 ||| UInt8.ofNat f <<< 2) fsGDps =
        some (UInt8.ofNat o, gyroFsDps (UInt8.ofNat f)) := by decide
  have hone := hall odr.toNat ho.2 fs.toNat hf ho.1
  rwa [UInt8.ofNat_toNat, UInt8.ofNat_toNat] at hone

/-- The registers of a configuration mean what the host takes it to mean. -/
theorem regs_measuring {c : SampleCfg} (h : c.allowed = true) : measuring c.regs = meant c := by
  obtain ⟨ho, ha, hg⟩ := allowed_bounds h
  have haccel : half c.regs.ctrl1Xl fsXlG = (meant c).accel := by
    simp only [SampleCfg.regs, meant]
    cases c.content &&& 0x01 != 0 with
    | false => exact half_off fsXlG
    | true => exact half_accel ho ha
  have hgyro : half c.regs.ctrl2G fsGDps = (meant c).gyro := by
    simp only [SampleCfg.regs, meant]
    cases c.content &&& 0x02 != 0 with
    | false => exact half_off fsGDps
    | true => exact half_gyro ho hg
  rw [measuring, haccel, hgyro]

/-- And route the line to a half that is on. -/
theorem regs_routed {c : SampleCfg} (h : c.allowed = true) : Routed c.regs := by
  have hmeant := regs_measuring h
  cases haccel : c.content &&& 0x01 != 0 with
  | false =>
    cases hgyro : c.content &&& 0x02 != 0 with
    | false =>
      have hoff : measuring c.regs = ⟨none, none⟩ := by rw [hmeant, meant, haccel, hgyro]; rfl
      have hint : c.regs.int1Ctrl = 0 := by simp only [SampleCfg.regs, haccel, hgyro]; rfl
      exact ⟨fun hbit => absurd (by rw [hint]; decide) hbit,
        fun hbit => absurd (by rw [hint]; decide) hbit, fun hon => absurd hoff hon⟩
    | true =>
      have hint : c.regs.int1Ctrl = int1DrdyG := by simp only [SampleCfg.regs, hgyro]; rfl
      refine ⟨fun hbit => absurd (by rw [hint]; decide) hbit, fun _ => ?_, fun _ => ?_⟩
      · rw [hmeant, meant, hgyro]
        exact Option.some_ne_none _
      · rw [hint]
        decide
  | true =>
    cases hgyro : c.content &&& 0x02 != 0 with
    | false =>
      have hint : c.regs.int1Ctrl = int1DrdyXl := by simp only [SampleCfg.regs, haccel, hgyro]; rfl
      refine ⟨fun _ => ?_, fun hbit => absurd (by rw [hint]; decide) hbit, fun _ => ?_⟩
      · rw [hmeant, meant, haccel]
        exact Option.some_ne_none _
      · rw [hint]
        decide
    | true =>
      have hint : c.regs.int1Ctrl = int1DrdyG := by simp only [SampleCfg.regs, hgyro]; rfl
      refine ⟨fun hbit => absurd (by rw [hint]; decide) hbit, fun _ => ?_, fun _ => ?_⟩
      · rw [hmeant, meant, hgyro]
        exact Option.some_ne_none _
      · rw [hint]
        decide

/-- Only a configuration touches the registers of one. -/
theorem call_programmed (d : Driver) {k : Call} (hk : ∀ c e, k = .configure c e → c.allowed = false) :
    (call d k).chip.programmed = d.chip.programmed := by
  cases k with
  | init e =>
    have hframe := (init_spec d e).frame
    show (⟨_, _, _⟩ : Regs) = ⟨_, _, _⟩
    rw [call, hframe _ (by decide) (by decide), hframe _ (by decide) (by decide),
      hframe _ (by decide) (by decide)]
  | configure c e => rw [call, (configure_spec d c e).rejected (hk c e rfl)]
  | read x =>
    show (⟨_, _, _⟩ : Regs) = ⟨_, _, _⟩
    rw [call, (read_keeps d x).1]

/-- **A configuration that succeeds on a driver marked ok stays in force**, and it is the one the host
    scales the samples by, until the next that is not rejected. -/
theorem configured_stays (ks ks' : List Call) {d₀ : Driver} (h₀ : Boot d₀)
    (hok : (ks.foldl call d₀).imuOk = true) {c : SampleCfg} {e : ConfigureRet}
    (hret : (drvAsm330lhhConfigure (ks.foldl call d₀) c e).2 = 0)
    (hkept : ∀ c' e', Call.configure c' e' ∈ ks' → c'.allowed = false) :
    measuring ((ks ++ .configure c e :: ks').foldl call d₀).chip.programmed = meant c ∧
      Routed ((ks ++ .configure c e :: ks').foldl call d₀).chip.programmed := by
  have hspec := configure_spec (ks.foldl call d₀) c e
  have hallowed : c.allowed = true := by
    cases hc : c.allowed with
    | true => rfl
    | false =>
      rw [hspec.rejected hc] at hret
      exact absurd (show eInval = 0 from hret) (by decide)
  have hset := hspec.done (run_sound ks h₀ hok).mode hret
  have hrest : ∀ (ls : List Call) (d : Driver), d.chip.programmed = c.regs →
      (∀ c' e', Call.configure c' e' ∈ ls → c'.allowed = false) →
      (ls.foldl call d).chip.programmed = c.regs := by
    intro ls
    induction ls with
    | nil => exact fun _ h _ => h
    | cons k ls ih =>
      intro d hd hls
      refine ih (call d k) ?_ fun c' e' hmem => hls c' e' (List.mem_cons_of_mem _ hmem)
      rw [call_programmed d fun c' e' hk => hls c' e' (hk ▸ List.mem_cons_self), hd]
  rw [List.foldl_append, List.foldl_cons, hrest ks' (call (ks.foldl call d₀) (.configure c e)) hset hkept]
  exact ⟨regs_measuring hallowed, regs_routed hallowed⟩

theorem configured_stays_busy :
    measuring (([.init calmInit] ++ .configure ⟨7, 3, 3, 1⟩ calmConfigure ::
        [.read busy, .configure ⟨11, 3, 0, 0⟩ calmConfigure] : List Call).foldl call
          asleep).chip.programmed = ⟨some (7, 16), some (7, 500)⟩ ∧
      Routed (([.init calmInit] ++ .configure ⟨7, 3, 3, 1⟩ calmConfigure ::
        [.read busy, .configure ⟨11, 3, 0, 0⟩ calmConfigure] : List Call).foldl call
          asleep).chip.programmed :=
  configured_stays [.init calmInit]
    [.read busy, .configure ⟨11, 3, 0, 0⟩ calmConfigure] (show Boot asleep from rfl) rfl rfl (by
      intro c' e' hmem
      rcases List.mem_cons.mp hmem with h | h
      · exact absurd h (by simp)
      · obtain ⟨rfl, -⟩ := Call.configure.inj (List.mem_singleton.mp h)
        rfl)

/-! ## The coprocessor's boot -/

/-- `main` of flpr/src/main.c, up to the result it publishes. -/
def boot (d : Driver) (e : InitRet) (e' : ConfigureRet) : Driver × Int :=
  let r := drvAsm330lhhInit d e
  if r.2 = 0 then drvAsm330lhhConfigure r.1 bootCfg e' else r

/-- The sampling loop as it goes on from there; the sensor's flags and what is left of the semaphore
    are what they are. -/
def published (r : Driver × Int) (xlda gda : Bool) (filledAt : UInt8 × UInt8) (sem : Sem.KSem 1)
    (programmed : Option SampleCfg) : Flpr where
  sensor := ⟨r.1.chip.programmed, xlda, gda, filledAt⟩
  drdySem := if r.2 = 0 then .empty else sem
  pc := if r.2 < 0 then .parked else .wait
  sinceCfgPoll := 0
  cfg := bootCfg
  cfgSeq := 1
  cfgApplied := 1
  cfgStatus := r.2
  app := none
  updates := 0
  programmed := if r.2 = 0 then some bootCfg else programmed

/-- **What the block says when it is published.**  Either the status is zero: the sensor has answered
    WHO_AM_I, has its I2C interface off, latches its output, and is powered down, and the loop starts
    where its runs start (`Running`).  Or the status is an error and the loop is parked. -/
theorem boot_published (d : Driver) (e : InitRet) (e' : ConfigureRet) (xlda gda : Bool)
    (filledAt : UInt8 × UInt8) (sem : Sem.KSem 1) (programmed : Option SampleCfg) :
    let r := boot d e e'
    let s := published r xlda gda filledAt sem programmed
    (r.2 = 0 ∧ Running s ∧ r.1.imuOk = true ∧ r.1.lastWhoami = whoAmIExpect ∧ Ready r.1.chip ∧
        r.1.chip.regs regCtrl4C.toNat = ctrl4CVal ∧ measuring r.1.chip.programmed = ⟨none, none⟩) ∨
      (r.2 < 0 ∧ Parked s) := by
  intro r s
  have hinit := init_spec d e
  obtain ⟨r₁, hr₁⟩ : ∃ r₁, r₁ = drvAsm330lhhInit d e := ⟨_, rfl⟩
  have hconf := configure_spec r₁.1 bootCfg e'
  have hr : r = if r₁.2 = 0 then drvAsm330lhhConfigure r₁.1 bootCfg e' else r₁ := by rw [hr₁]; rfl
  rw [← hr₁] at hinit
  have hparked : r.2 < 0 → Parked s := by
    intro hneg
    have hne : r.2 ≠ 0 := by omega
    refine ⟨s.sensor, sem, programmed, r.2, hneg, ?_⟩
    show published _ _ _ _ _ _ = _
    rw [published, if_neg hne, if_pos hneg, if_neg hne]
    rfl
  by_cases hzero₁ : r₁.2 = 0
  · rw [if_pos hzero₁] at hr
    obtain ⟨hok, hwho, hready, hctrl4⟩ := hinit.done hzero₁
    by_cases hzero : r.2 = 0
    · have hprog : r.1.chip.programmed = bootCfg.regs := by
        rw [hr] at hzero ⊢
        exact hconf.done hready.mode hzero
      refine Or.inl ⟨hzero, ⟨xlda, gda, filledAt, ?_⟩, ?_, ?_, ?_, ?_, ?_⟩
      · show published _ _ _ _ _ _ = _
        rw [published, if_pos hzero, if_neg (by omega), if_pos hzero, hprog, hzero]
      · rw [hr, hconf.imuOk, hok]
      · rw [hr, hconf.whoami, hwho]
      · rw [hr]
        exact hconf.ready hready
      · rw [hr, hconf.frame _ (by decide) (by decide) (by decide), hctrl4]
      · rw [hprog]
        decide
    · have hneg : r.2 < 0 := by
        have hnonpos : r.2 ≤ 0 := by
          rw [hr]
          exact hconf.nonpos
        omega
      exact Or.inr ⟨hneg, hparked hneg⟩
  · rw [if_neg hzero₁] at hr
    have hneg : r.2 < 0 := by
      have hnonpos := hinit.nonpos
      rw [hr]
      omega
    exact Or.inr ⟨hneg, hparked hneg⟩

end Caterpillar.Imu.Asm330lhh
