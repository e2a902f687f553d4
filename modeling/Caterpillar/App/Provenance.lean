/-
  What a record was sampled under, from the sensor's registers to the session it is stored in.

  `imu_log_start` stamps the directory entry from the settings.  The records pass through five hands on
  their way to that session: the coprocessor that read the sensor, the shared ring, the pump's chunk,
  the staging ring and the writer's batch; and the coprocessor programs the sensor when it gets to it.

  1. `Pipeline`, `step` — the board, the sampling loop and the hands between them.  Each record carries
     what `CTRL1_XL` and `CTRL2_G` were when it was sampled.
  2. `settled`, `selfDescribing` — the steps that keep a session to what its entry says: 0xFFE8 is not
     written to another use of the sensor while a session runs, and no session is started over a
     sensor, a sampling loop or records still at other settings.
  3. `start_log`, `app_log` — what an event of the board does to the log, once for all events.
  4. `Sound` — the invariant; `Running` is its part for the session under way.
  5. `flpr_settled`, `tagAll_staged`, `step_sound` — every step keeps it.
  6. `stored_described` — over runs; `reconfigured_session` is a run that writes 0xFFE8 in a session.
-/
import Caterpillar.App.Arbiter
import Caterpillar.Imu.Pump
import Caterpillar.Imu.Sampler
import Caterpillar.ImuLog.PowerLoss

namespace Caterpillar.App.Provenance

open Caterpillar.Word Caterpillar.Runs Caterpillar.Imu Caterpillar.ImuLog Caterpillar.Settings
open Caterpillar.Imu.Sampler (SampleCfg CfgField Regs Sensor Flpr FlprPc)
open Caterpillar.Imu.Pump (imuRingN pumpChunk)

/-! ## Configurations -/

/-- What `drv_asm330lhh_configure` programs `CTRL1_XL` and `CTRL2_G` with. -/
def ctrlOf (c : SampleCfg) : UInt8 × UInt8 := (c.regs.ctrl1Xl, c.regs.ctrl2G)

/-- `CTRL1_XL` and `CTRL2_G`. -/
def ctrl (t : Sensor) : UInt8 × UInt8 := (t.regs.ctrl1Xl, t.regs.ctrl2G)

/-- The four settings. -/
def settingsCfg (b : Board) : SampleCfg where
  odr := (b.setting settingImuOdrCode).toUInt8
  content := (b.setting settingImuContent).toUInt8
  accelFs := (b.setting settingImuAccelFs).toUInt8
  gyroFs := (b.setting settingImuGyroFs).toUInt8

/-- The four fields of the shared block. -/
def sharedCfg (b : Board) : SampleCfg :=
  ⟨b.sh.cfgOdr, b.sh.cfgContent, b.sh.cfgAccelFs, b.sh.cfgGyroFs⟩

/-- What a directory entry says of its session. -/
def entryCfg (e : DirEntry) : SampleCfg := ⟨e.odrCode, e.content, e.accelFs, e.gyroFs⟩

/-- The value programs the sensor as `c` does; the full scale of a half that is off does not count. -/
def agrees (c : SampleCfg) (v : UInt8) : CfgField → Bool
  | .odr => v == c.odr
  | .content => v == c.content
  | .accelFs => c.content &&& 0x01 == 0 || v == c.accelFs
  | .gyroFs => c.content &&& 0x02 == 0 || v == c.gyroFs

/-- So do all values there are. -/
def agreesSoFar (c : SampleCfg) (got : CfgField → Option UInt8) : Bool :=
  [CfgField.odr, .content, .accelFs, .gyroFs].all fun f => (got f).all fun v => agrees c v f

/-- So do the four of a configuration. -/
def agreesAll (c d : SampleCfg) : Bool := agreesSoFar c fun f => some (d.get f)

theorem agreesSoFar_iff {c : SampleCfg} {got : CfgField → Option UInt8} :
    agreesSoFar c got = true ↔ ∀ f v, got f = some v → agrees c v f = true := by
  unfold agreesSoFar
  simp only [List.all_cons, List.all_nil, Bool.and_true, Bool.and_eq_true, Option.all_eq_true]
  constructor
  · rintro ⟨h1, h2, h3, h4⟩ f v hv
    cases f with
    | odr => exact h1 v hv
    | content => exact h2 v hv
    | accelFs => exact h3 v hv
    | gyroFs => exact h4 v hv
  · intro h
    exact ⟨h .odr, h .content, h .accelFs, h .gyroFs⟩

theorem agreesAll_iff {c d : SampleCfg} :
    agreesAll c d = true ↔ ∀ f, agrees c (d.get f) f = true := by
  unfold agreesAll
  rw [agreesSoFar_iff]
  constructor
  · intro h f
    exact h f _ rfl
  · intro h f v hv
    obtain rfl := Option.some.inj hv
    exact h f

theorem agreesAll_refl (c : SampleCfg) : agreesAll c c = true := by
  rw [agreesAll_iff]
  intro f
  cases f with
  | odr => exact beq_self_eq_true c.odr
  | content => exact beq_self_eq_true c.content
  | accelFs => exact Bool.or_eq_true_iff.mpr (Or.inr (beq_self_eq_true c.accelFs))
  | gyroFs => exact Bool.or_eq_true_iff.mpr (Or.inr (beq_self_eq_true c.gyroFs))

/-- Configurations that agree agree on what is in use. -/
theorem agreesAll_fields {c d : SampleCfg} (h : agreesAll c d = true) :
    d.odr = c.odr ∧ d.content = c.content ∧
      (c.content &&& 0x01 = 0 ∨ d.accelFs = c.accelFs) ∧
      (c.content &&& 0x02 = 0 ∨ d.gyroFs = c.gyroFs) := by
  rw [agreesAll_iff] at h
  have hodr := h .odr
  have hcontent := h .content
  have haccel := h .accelFs
  have hgyro := h .gyroFs
  simp only [agrees, SampleCfg.get, beq_iff_eq, Bool.or_eq_true] at hodr hcontent haccel hgyro
  exact ⟨hodr, hcontent, haccel, hgyro⟩

theorem agreesAll_trans {c d e : SampleCfg} (h : agreesAll c d = true)
    (h' : agreesAll d e = true) : agreesAll c e = true := by
  obtain ⟨ho, ht, ha, hg⟩ := agreesAll_fields h
  obtain ⟨ho', ht', ha', hg'⟩ := agreesAll_fields h'
  rw [ht] at ha' hg'
  rw [agreesAll_iff]
  intro f
  cases f with
  | odr => exact beq_iff_eq.mpr (ho'.trans ho)
  | content => exact beq_iff_eq.mpr (ht'.trans ht)
  | accelFs =>
    simp only [agrees, SampleCfg.get, Bool.or_eq_true, beq_iff_eq]
    rcases ha with hoff | heq
    · exact Or.inl hoff
    · exact ha'.imp_right fun heq' => heq'.trans heq
  | gyroFs =>
    simp only [agrees, SampleCfg.get, Bool.or_eq_true, beq_iff_eq]
    rcases hg with hoff | heq
    · exact Or.inl hoff
    · exact hg'.imp_right fun heq' => heq'.trans heq

/-- Configurations that agree program the same registers. -/
theorem ctrlOf_agrees {c d : SampleCfg} (h : agreesAll c d = true) : ctrlOf d = ctrlOf c := by
  obtain ⟨ho, ht, ha, hg⟩ := agreesAll_fields h
  unfold ctrlOf SampleCfg.regs
  dsimp only
  rw [ho, ht]
  refine Prod.ext ?_ ?_
  · rcases ha with hoff | heq
    · simp [hoff]
    · rw [heq]
  · rcases hg with hoff | heq
    · simp [hoff]
    · rw [heq]

/-- Without content the sensor is powered down. -/
theorem ctrlOf_off {c : SampleCfg} (h : c.content = 0) : ctrlOf c = (0, 0) := by
  unfold ctrlOf SampleCfg.regs
  simp [h]

/-! ## The machine -/

/-- A record, with what `CTRL1_XL` and `CTRL2_G` were when it was sampled. -/
structure Sampled where
  sample : ImuSample
  filledAt : UInt8 × UInt8
  deriving DecidableEq

/-- Both cores, and the records on their way to the log. -/
structure Pipeline where
  board : Board
  flpr : Flpr
  /-- Read from the sensor, not yet published. -/
  hand : Option Sampled
  /-- The shared ring. -/
  ring : List Sampled
  /-- `chunk` of the pump. -/
  chunk : List Sampled
  /-- `filledAt` of the records in the slots of the staging ring. -/
  stagedAt : Nat → UInt8 × UInt8
  /-- By directory slot: what was written to the flash for the session opened there last. -/
  stored : Nat → List Sampled

/-- What can happen. -/
inductive Event where
  /-- A handler or a command of the application core. -/
  | app (e : App.Event)
  /-- A step of the sampling loop or of the sensor; a read of the sample returns `x`. -/
  | flpr (e : Sampler.Event) (x : ImuSample)
  /-- The coprocessor publishes what it read, unless the ring is full. -/
  | publish
  /-- The pump copies `n` records out of the ring and releases their slots. -/
  | copy (n : Nat)
  /-- The pump calls `imu_log_append`. -/
  | append
  /-- The writer thread drains a batch. -/
  | drain (ret : Int)

/-- The event is one of the board's own. -/
def ofBoard : App.Event → Bool
  | .append _ | .drain _ => false
  | _ => true

/-- A handler or a command; a session it opens has nothing stored. -/
def appStep (p : Pipeline) (e : App.Event) : Option Pipeline :=
  if ofBoard e then
    let board := App.step p.board e
    let opened := !p.board.log.active && board.log.active
    some { p with
      board
      stored := if opened then Function.update p.stored board.log.curSlot [] else p.stored }
  else none

/-- The sampling loop, with the configuration as it stands in the shared block. -/
def synced (p : Pipeline) : Flpr :=
  { p.flpr with cfg := sharedCfg p.board, cfgSeq := p.board.sh.cfgSeq }

/-- The loop publishes a record before it goes on; the shared block is the board's to write. -/
def mayRun (p : Pipeline) : Sampler.Event → Bool
  | .sample => true
  | .update _ | .appWrite => false
  | _ => p.hand.isNone

/-- The record a step of the loop reads. -/
def taken (s : Flpr) (e : Sampler.Event) (x : ImuSample) : Option Sampled :=
  match s.pc, e with
  | .read, .spi ret => if ret < 0 then none else some ⟨x, s.sensor.filledAt⟩
  | _, _ => none

/-- A step of the loop or of the sensor. -/
def flprStep (p : Pipeline) (e : Sampler.Event) (x : ImuSample) : Option Pipeline :=
  if mayRun p e then
    (Sampler.step (synced p) e).map fun flpr =>
      { p with flpr, hand := (taken p.flpr e x).or p.hand }
  else none

/-- What one append does to the settings beside the staging ring. -/
def tagOne (l : Log) (t : Nat → UInt8 × UInt8) (r : Sampled) : Nat → UInt8 × UInt8 :=
  if u32Sub l.stageHead l.stageTail ≥ stageN then t
  else Function.update t (l.stageHead % stageN) r.filledAt

/-- What an append of many does. -/
def tagAll (l : Log) (t : Nat → UInt8 × UInt8) : List Sampled → Nat → UInt8 × UInt8
  | [] => t
  | r :: rs => tagAll (appendOne l r.sample) (tagOne l t r) rs

/-- The slot of the staged record `i`. -/
def stagedSlot (l : Log) (i : Nat) : Nat := u32 (l.stageTail + i) % stageN

/-- The batch of a drain. -/
def batch (p : Pipeline) : List Sampled :=
  (List.range p.board.log.drainCount).map fun i =>
    ⟨p.board.log.stage (stagedSlot p.board.log i), p.stagedAt (stagedSlot p.board.log i)⟩

/-- One step; `none` where it cannot happen. -/
def step (p : Pipeline) : Event → Option Pipeline
  | .app e => appStep p e
  | .flpr e x => flprStep p e x
  | .publish =>
      p.hand.map fun r => { p with
        hand := none
        ring := if p.ring.length < imuRingN then p.ring ++ [r] else p.ring }
  | .copy n =>
      if p.chunk = [] ∧ n ≤ pumpChunk ∧ n ≤ p.ring.length then
        some { p with chunk := p.ring.take n, ring := p.ring.drop n }
      else none
  | .append =>
      some { p with
        board := { p.board with log := imuLogAppend p.board.log (p.chunk.map Sampled.sample) }
        chunk := []
        stagedAt := if p.board.log.active then tagAll p.board.log p.stagedAt p.chunk else p.stagedAt }
  | .drain ret =>
      let slot := p.board.log.curSlot
      some { p with
        board := { p.board with log := writerDrainBatch p.board.log ret }
        stored :=
          if ret < 0 then p.stored
          else Function.update p.stored slot (p.stored slot ++ batch p) }

/-- The step relation. -/
def Step (p : Pipeline) (e : Event) (p' : Pipeline) : Prop := step p e = some p'

/-- After a boot: the board is arbitrated for the first time, the sampling loop has published its
    block, and nothing is on its way. -/
def Booted (p : Pipeline) : Prop :=
  ∃ b f, Ready b ∧ b.log = bootLog f ∧ p.board = firstArbitration b ∧
    Sampler.Running p.flpr ∧ p.hand = none ∧ p.ring = [] ∧ p.chunk = [] ∧ p.stored = fun _ => []

/-- The batch holds the records the drain writes. -/
theorem batch_samples (p : Pipeline) :
    (batch p).map Sampled.sample = p.board.log.stagedBatch p.board.log.drainCount := by
  unfold batch Log.stagedBatch
  rw [List.map_map]
  rfl

/-! ## The steps that keep a session to its entry -/

/-- The sensor is powered down or programmed as `c` asks. -/
def whole (c : SampleCfg) (t : Sensor) : Bool := ctrl t == (0, 0) || ctrl t == ctrlOf c

/-- The loop at `pc` leaves the sensor powered down or programmed as `c` asks. -/
def settledAt (c : SampleCfg) (t : Sensor) : FlprPc → Bool
  | .fetch _ _ got => whole c t && (got .content == some 0 || agreesSoFar c got)
  | .write _ _ d k =>
      (ctrlOf d == (0, 0) || ctrlOf d == ctrlOf c) &&
        if k = 1 then
          -- one register is written, the other is still as it was
          t.regs.ctrl1Xl == d.regs.ctrl1Xl &&
            (t.regs.ctrl2G == 0 || t.regs.ctrl2G == (ctrlOf c).2)
        else whole c t
  | _ => whole c t

/-- The same of the loop where it is. -/
def settled (c : SampleCfg) (s : Flpr) : Bool := settledAt c s.sensor s.pc

/-- The records that are not staged yet. -/
def inFlight (p : Pipeline) : List Sampled := p.hand.toList ++ p.ring ++ p.chunk

/-- The event starts a session. -/
def opens (b : Board) : App.Event → Bool
  | .execute ret =>
      !b.log.active && decide (0 ≤ ret) &&
        (b.cmdMsgq.head? == some (.log opStart) || b.cmdMsgq.head? == some (.log opStartDetached))
  | _ => false

/-- The write to 0xFFE8 is refused, or changes nothing the sensor is used for. -/
def sameUse (b : Board) (buf : List UInt8) (offset : Nat) : Bool :=
  match buf, offset with
  | odr :: content :: afs :: gfs :: _, 0 =>
      !imucfgAllowed odr content afs gfs || agreesAll (settingsCfg b) ⟨odr, content, afs, gfs⟩
  | _, _ => true

/-- A transfer does not fail with the sensor half programmed, and a read takes no sample from before the
    sensor was last programmed. -/
def cleanTransfer (c : SampleCfg) (s : Flpr) (ret : Int) : Bool :=
  match s.pc with
  | .write _ _ _ _ => decide (0 ≤ ret) || whole c s.sensor
  | .read => decide (ret < 0) || (s.sensor.poweredOn && s.sensor.filledAt == ctrl s.sensor)
  | _ => true

/-- **The steps that keep a session to what its entry says.** -/
def selfDescribing (p : Pipeline) : Event → Bool
  | .app (.imucfg buf offset) => !p.board.log.active || sameUse p.board buf offset
  | .app e =>
      !opens p.board e || (settled (settingsCfg p.board) p.flpr &&
        (inFlight p).all fun r => r.filledAt == ctrlOf (settingsCfg p.board))
  | .flpr (.spi ret) _ =>
      !p.board.log.active || cleanTransfer (settingsCfg p.board) p.flpr ret
  | _ => true

/-! ## What an event of the board does to the log -/

/-- No session is opened: entries go, or keep their configuration, and staged is what was. -/
structure Carried (s s' : Log) : Prop where
  slot : s'.curSlot = s.curSlot
  head : s'.stageHead = s.stageHead
  tail : s'.stageTail = s.stageTail
  active : s'.active = true → s.active = true
  entries : ∀ i, (s'.flash.entries i).Valid →
    (s.flash.entries i).Valid ∧ entryCfg (s'.flash.entries i) = entryCfg (s.flash.entries i)

/-- A start that fails: an id is spent and the staging ring is emptied. -/
structure Refused (s s' : Log) : Prop where
  idle : s'.active = false
  head : s'.stageHead = s.stageHead
  tail : s'.stageTail = s.stageHead
  entries : s'.flash.entries = s.flash.entries

/-- A session is opened, and its entry says `c`. -/
structure Opened (c : SampleCfg) (s s' : Log) : Prop where
  idle : s.active = false
  active : s'.active = true
  head : s'.stageHead = s.stageHead
  tail : s'.stageTail = s.stageHead
  entry : entryCfg (s'.flash.entries s'.curSlot) = c
  others : ∀ i, i ≠ s'.curSlot → s'.flash.entries i = s.flash.entries i

theorem Carried.refl (s : Log) : Carried s s := ⟨rfl, rfl, rfl, id, fun _ hv => ⟨hv, rfl⟩⟩

/-- What the directory's own upkeep does to an entry leaves the configuration alone. -/
theorem evolves_cfg {R : Nat → Nat → Nat → Prop} {f f' : Flash} (h : Evolves R f f') (i : Nat)
    (hv : (f'.entries i).Valid) :
    (f.entries i).Valid ∧ entryCfg (f'.entries i) = entryCfg (f.entries i) := by
  obtain ⟨c, o, heq, -⟩ := h i hv
  refine ⟨h.valid hv, ?_⟩
  rw [heq]
  rfl

theorem stop_carried (s : Log) : Carried s (imuLogStop s) := by
  have hentries := evolves_cfg (stopClose_issues s).full.1
  cases ha : s.active with
  | true =>
    obtain ⟨f, t, L, hram, -⟩ := stopClose_ram s ha
    refine ⟨?_, ?_, ?_, fun _ => ha, hentries⟩
    · rw [imuLogStop, hram]
    · rw [imuLogStop, hram]
    · rw [imuLogStop, hram]
  | false =>
    rw [imuLogStop, stopClose_inactive s ha]
    exact Carried.refl s

theorem erase_carried (s : Log) : Carried s (imuLogErase s) := by
  obtain ⟨f, t, L, hram⟩ := imuLogErase_ram s
  refine ⟨?_, ?_, ?_, ?_, fun i hv => absurd hv (imuLogErase_none s i)⟩
  · rw [hram]
  · rw [hram]
  · rw [hram]
  · rw [hram]
    intro h
    exact absurd h Bool.false_ne_true

/-- **A start** is refused, fails, or opens a session stamped with the settings. -/
theorem start_log (b : Board) (ret : Int) :
    Carried b.log (startLog b ret).1.log ∨ Refused b.log (startLog b ret).1.log ∨
      (0 ≤ ret ∧ Opened (settingsCfg b) b.log (startLog b ret).1.log) := by
  unfold startLog
  cases ha : b.log.active with
  | true =>
    left
    rw [imuLogStart_busy _ _ _ ha]
    exact Carried.refl b.log
  | false =>
    right
    by_cases hret : ret < 0
    · left
      rw [imuLogStart_fail _ _ ha hret]
      refine ⟨ha, rfl, rfl, ?_⟩
      have hkeep : (Ev.writeEntry (slotOf b.log.seqNext)
          (newEntry b.log.seqNext b.log.totalAbs b.stamp) ret).effect b.log.flash = b.log.flash :=
        if_pos hret
      exact congrArg Flash.entries hkeep
    · right
      rw [imuLogStart_ok _ _ ha hret]
      have hentries := effect_writeEntry_entries hret (slotOf b.log.seqNext)
        (newEntry b.log.seqNext b.log.totalAbs b.stamp) b.log.flash
      refine ⟨Int.not_lt.mp hret, ha, rfl, rfl, rfl, ?_, ?_⟩
      · show entryCfg (((Ev.writeEntry (slotOf b.log.seqNext) _ ret).effect
          b.log.flash).entries (slotOf b.log.seqNext)) = settingsCfg b
        rw [hentries, if_pos rfl]
        rfl
      · intro i hi
        have hne : i ≠ slotOf b.log.seqNext := hi
        show ((Ev.writeEntry (slotOf b.log.seqNext) _ ret).effect b.log.flash).entries i = _
        rw [hentries, if_neg hne]

/-- Only the flags and the connection are touched beside the log. -/
theorem onLogStarted_log (b : Board) : (sessionOnLogStarted b).log = b.log :=
  (onLogStarted_frame b).1

/-- **A command** opens a session only where `opens` says so. -/
theorem execute_log (b : Board) (cmd : DeviceCmd) (ret : Int) :
    Carried b.log (execute b cmd ret).log ∨ Refused b.log (execute b cmd ret).log ∨
      (Opened (settingsCfg b) b.log (execute b cmd ret).log ∧ 0 ≤ ret ∧
        (cmd = .log opStart ∨ cmd = .log opStartDetached)) := by
  cases cmd with
  | setVoltMv v =>
    left
    show Carried b.log (if ret < 0 then b else b.set settingMotorVdcMv v).log
    split
    · exact Carried.refl b.log
    · exact Carried.refl b.log
  | log op =>
    unfold execute
    dsimp only
    have hstart := start_log b ret
    split
    · left
      rw [(onLogStopped_frame _).1]
      exact stop_carried b.log
    · split
      · rename_i hop
        have hlog : (if (startLog b ret).2 = 0 then sessionOnLogStarted (startLog b ret).1
            else (startLog b ret).1).log = (startLog b ret).1.log := by
          split
          · exact onLogStarted_log _
          · rfl
        rw [hlog]
        rcases hstart with hcarried | hrefused | ⟨hret, hopened⟩
        · exact Or.inl hcarried
        · exact Or.inr (Or.inl hrefused)
        · exact Or.inr (Or.inr ⟨hopened, hret, Or.inl (congrArg _ hop)⟩)
      · split
        · rename_i hop
          by_cases hzero : (startLog b ret).2 = 0
          · rw [if_pos hzero, onLogStarted_log]
            rcases hstart with ⟨h1, h2, h3, h4, h5⟩ | ⟨h1, h2, h3, h4⟩ |
              ⟨hret, h1, h2, h3, h4, h5, h6⟩
            · exact Or.inl ⟨h1, h2, h3, h4, h5⟩
            · exact Or.inr (Or.inl ⟨h1, h2, h3, h4⟩)
            · exact Or.inr (Or.inr ⟨⟨h1, h2, h3, h4, h5, h6⟩, hret, Or.inr (congrArg _ hop)⟩)
          · rw [if_neg hzero]
            rcases hstart with hcarried | hrefused | ⟨hret, hopened⟩
            · exact Or.inl hcarried
            · exact Or.inr (Or.inl hrefused)
            · exact Or.inr (Or.inr ⟨hopened, hret, Or.inr (congrArg _ hop)⟩)
        · split
          · exact Or.inl (erase_carried b.log)
          · exact Or.inl (Carried.refl b.log)

/-- `on_imucfg_write` leaves the log alone. -/
theorem imucfg_log (b : Board) (buf : List UInt8) (offset : Nat) :
    (onImucfgWrite b buf offset).1.log = b.log := by
  rcases onImucfgWrite_cases b buf offset with heq | ⟨odr, content, afs, gfs, preview, heq⟩
  · rw [heq]
  · rw [heq, applyImucfg, (runUpdate_frame _).1]
    rfl

/-- **An event of the board** opens a session only where `opens` says so. -/
theorem app_log (b : Board) {e : App.Event} (he : ofBoard e = true) :
    Carried b.log (App.step b e).log ∨ Refused b.log (App.step b e).log ∨
      (Opened (settingsCfg b) b.log (App.step b e).log ∧ opens b e = true) := by
  have hkept : ∀ {l : Log}, l = b.log → Carried b.log l := by
    rintro l rfl
    exact Carried.refl _
  cases e with
  | stream on =>
    refine Or.inl (hkept ?_)
    show (sessionImuRunUpdate _).log = _
    rw [(runUpdate_frame _).1]
  | imucfg buf offset => exact Or.inl (hkept (imucfg_log b buf offset))
  | logctl buf offset =>
    obtain ⟨q, hq⟩ := onLogctlWrite_queue b buf offset
    refine Or.inl (hkept ?_)
    show (onLogctlWrite b buf offset).1.log = b.log
    rw [hq]
  | execute ret =>
    cases hq : b.cmdMsgq with
    | nil =>
      refine Or.inl (hkept ?_)
      simp only [App.step, hq]
    | cons cmd rest =>
      have hstep : App.step b (.execute ret) = execute { b with cmdMsgq := rest } cmd ret := by
        simp only [App.step, hq]
      rw [hstep]
      -- of all events only a command from the queue can open a session
      rcases execute_log { b with cmdMsgq := rest } cmd ret with
        hcarried | hrefused | ⟨hopened, hret, hcmd⟩
      · exact Or.inl hcarried
      · exact Or.inr (Or.inl hrefused)
      · refine Or.inr (Or.inr ⟨hopened, ?_⟩)
        have hidle : b.log.active = false := hopened.idle
        unfold opens
        rw [hq, hidle]
        rcases hcmd with rfl | rfl
        · simp [hret]
        · simp [hret]
  | connect =>
    refine Or.inl (hkept ?_)
    show (bleConnRequestParams _ false).log = _
    rw [(requestParams_frame _ _).1]
  -- a disconnect may stop one
  | disconnect =>
    left
    show Carried b.log (sessionOnDisconnect _).log
    rw [sessionOnDisconnect, (runUpdate_frame _).1]
    split
    · exact Carried.refl b.log
    · exact stop_carried b.log
  | timeSync epoch =>
    refine Or.inl (hkept ?_)
    show (sessionTimeSync b epoch).log = b.log
    rw [sessionTimeSync]
  | tick ms => exact Or.inl (Carried.refl b.log)
  | append xs => exact absurd he Bool.false_ne_true
  | drain ret => exact absurd he Bool.false_ne_true

/-! ## What it does to the settings and the shared block -/

theorem runUpdate_settings (b : Board) : (sessionImuRunUpdate b).settings = b.settings := by
  unfold sessionImuRunUpdate
  split
  · rfl
  · rfl

theorem requestParams_settings (b : Board) (slow : Bool) :
    (bleConnRequestParams b slow).settings = b.settings := by
  unfold bleConnRequestParams
  split
  · rfl
  · rfl

theorem onLogStarted_settings (b : Board) : (sessionOnLogStarted b).settings = b.settings :=
  (runUpdate_settings _).trans (requestParams_settings b true)

theorem onLogStopped_settings (b : Board) : (sessionOnLogStopped b).settings = b.settings :=
  (runUpdate_settings _).trans (requestParams_settings b false)

theorem settingsCfg_congr {b b' : Board} (h : b'.settings = b.settings) :
    settingsCfg b' = settingsCfg b := by
  unfold settingsCfg Board.setting
  rw [h]

theorem settingsCfg_log (b : Board) (l : Log) : settingsCfg { b with log := l } = settingsCfg b :=
  rfl

/-- The rail's setting is none of the four. -/
theorem settingsCfg_rail (b : Board) (value : UInt16) :
    settingsCfg (b.set settingMotorVdcMv value) = settingsCfg b := by
  have hother : ∀ id, id ≠ settingMotorVdcMv →
      (b.set settingMotorVdcMv value).setting id = b.setting id :=
    fun id hid => settingsGet_set_ne settingsGen b.settings hid value
  unfold settingsCfg
  rw [hother _ (by decide), hother _ (by decide), hother _ (by decide), hother _ (by decide)]

theorem execute_settingsCfg (b : Board) (cmd : DeviceCmd) (ret : Int) :
    settingsCfg (execute b cmd ret) = settingsCfg b := by
  cases cmd with
  | setVoltMv v =>
    show settingsCfg (if ret < 0 then b else b.set settingMotorVdcMv v) = settingsCfg b
    split
    · rfl
    · exact settingsCfg_rail b v
  | log op =>
    refine settingsCfg_congr ?_
    unfold execute
    dsimp only
    split
    · rw [onLogStopped_settings]
    · split
      · split
        · rw [onLogStarted_settings, startLog]
        · rfl
      · split
        · split
          · rw [onLogStarted_settings, startLog]
          · rfl
        · split
          · rfl
          · rfl

/-- Of the board's events only a write to 0xFFE8 touches the four settings. -/
theorem app_settingsCfg (b : Board) {e : App.Event}
    (he : ∀ buf offset, e ≠ .imucfg buf offset) : settingsCfg (App.step b e) = settingsCfg b := by
  cases e with
  | stream on =>
    refine settingsCfg_congr ?_
    show (sessionImuRunUpdate _).settings = b.settings
    rw [runUpdate_settings]
  | imucfg buf offset => exact absurd rfl (he buf offset)
  | logctl buf offset =>
    obtain ⟨q, hq⟩ := onLogctlWrite_queue b buf offset
    refine settingsCfg_congr ?_
    show (onLogctlWrite b buf offset).1.settings = b.settings
    rw [hq]
  | execute ret =>
    cases hq : b.cmdMsgq with
    | nil => simp only [App.step, hq]
    | cons cmd rest =>
      simp only [App.step, hq]
      exact execute_settingsCfg _ cmd ret
  | connect =>
    refine settingsCfg_congr ?_
    show (bleConnRequestParams _ false).settings = b.settings
    rw [requestParams_settings]
  | disconnect =>
    refine settingsCfg_congr ?_
    show (sessionOnDisconnect _).settings = b.settings
    rw [sessionOnDisconnect, runUpdate_settings]
    split
    · rfl
    · rfl
  | timeSync epoch =>
    refine settingsCfg_congr ?_
    show (sessionTimeSync b epoch).settings = b.settings
    rw [sessionTimeSync]
  | tick ms => exact settingsCfg_congr rfl
  | append xs => exact settingsCfg_log b _
  | drain ret => exact settingsCfg_log b _

theorem setting_set_ne (b : Board) {id id' : Nat} (h : id' ≠ id) (value : UInt16) :
    (b.set id value).setting id' = b.setting id' :=
  settingsGet_set_ne settingsGen b.settings h value

theorem setting_set_self {b : Board} (h : Ready b) {id : Nat} {m : SettingMeta}
    (hm : metaFor settingsGen id = some m) {value : UInt16} (hlo : m.min ≤ value)
    (hhi : value ≤ m.max) : (b.set id value).setting id = value :=
  settingsGet_set_self settingsGen h.settings.loaded hm hlo hhi

/-- The values `on_imucfg_write` accepts are in the ranges of their settings. -/
theorem imucfgAllowed_range {odr content afs gfs : UInt8}
    (h : imucfgAllowed odr content afs gfs = true) :
    1 ≤ odr ∧ odr ≤ 10 ∧ 1 ≤ content ∧ content ≤ 3 ∧ afs ≤ 3 ∧ gfs ≤ 3 := by
  have hmask : ∀ v : BitVec 8, v ≠ 0#8 → v &&& ~~~ 3#8 = 0#8 → 1#8 ≤ v ∧ v ≤ 3#8 := by
    decide +kernel
  simp only [imucfgAllowed, Bool.not_eq_true', Bool.or_eq_false_iff, decide_eq_false_iff_not,
    beq_eq_false_iff_ne, bne_eq_false_iff_eq] at h
  obtain ⟨⟨⟨⟨⟨hodr, hodr'⟩, hzero⟩, hbits⟩, hafs⟩, hgfs⟩ := h
  obtain ⟨hlo, hhi⟩ := hmask content.toBitVec (fun h0 => hzero (UInt8.toBitVec_inj.mp h0))
    (congrArg UInt8.toBitVec hbits)
  exact ⟨UInt8.not_lt.mp hodr, UInt8.not_lt.mp hodr', hlo, hhi, UInt8.not_lt.mp hafs,
    UInt8.not_lt.mp hgfs⟩

/-- **An accepted write sets the four settings.** -/
theorem applyImucfg_settingsCfg {b : Board} (hr : Ready b) {odr content afs gfs : UInt8}
    (h : imucfgAllowed odr content afs gfs = true) (preview : UInt16) :
    settingsCfg (applyImucfg b odr content afs gfs preview) = ⟨odr, content, afs, gfs⟩ := by
  obtain ⟨ho1, ho2, hc1, hc2, ha, hg⟩ := imucfgAllowed_range h
  let b₀ : Board := { b with
    stream := Ble.streamSetPreview b.stream preview b.sh.cfgOdr (imuLogActive b.log) b.uptime }
  have hr₀ : Ready b₀ := hr.congr rfl rfl
  have hr₁ := hr₀.set settingImuOdrCode odr.toUInt16
  have hr₂ := hr₁.set settingImuContent content.toUInt16
  have hr₃ := hr₂.set settingImuAccelFs afs.toUInt16
  let b₃ := ((b₀.set settingImuOdrCode odr.toUInt16).set settingImuContent content.toUInt16).set
    settingImuAccelFs afs.toUInt16
  let b₅ := (b₃.set settingImuGyroFs gfs.toUInt16).set settingPreviewHz preview
  have hodr : b₅.setting settingImuOdrCode = odr.toUInt16 := by
    rw [setting_set_ne _ (by decide), setting_set_ne _ (by decide), setting_set_ne _ (by decide),
      setting_set_ne _ (by decide)]
    exact setting_set_self hr₀ rfl (UInt8.toUInt16_le.mpr ho1) (UInt8.toUInt16_le.mpr ho2)
  have hcontent : b₅.setting settingImuContent = content.toUInt16 := by
    rw [setting_set_ne _ (by decide), setting_set_ne _ (by decide), setting_set_ne _ (by decide)]
    exact setting_set_self hr₁ rfl (UInt8.toUInt16_le.mpr hc1) (UInt8.toUInt16_le.mpr hc2)
  have haccel : b₅.setting settingImuAccelFs = afs.toUInt16 := by
    rw [setting_set_ne _ (by decide), setting_set_ne _ (by decide)]
    exact setting_set_self hr₂ rfl UInt16.zero_le (UInt8.toUInt16_le.mpr ha)
  have hgyro : b₅.setting settingImuGyroFs = gfs.toUInt16 := by
    rw [setting_set_ne _ (by decide)]
    exact setting_set_self hr₃ rfl UInt16.zero_le (UInt8.toUInt16_le.mpr hg)
  have hlast : settingsCfg (applyImucfg b odr content afs gfs preview) = settingsCfg b₅ :=
    settingsCfg_congr (runUpdate_settings b₅)
  rw [hlast]
  unfold settingsCfg
  rw [hodr, hcontent, haccel, hgyro]
  simp only [UInt8.toUInt8_toUInt16]

/-- While a session runs the shared block asks for the settings. -/
theorem sharedCfg_running {b : Board} (hr : Ready b) (ha : Arbitrated b)
    (hact : b.log.active = true) : sharedCfg b = settingsCfg b := by
  have hdemand : (b.streamActive || imuLogActive b.log) = true := by
    rw [imuLogActive, hact, Bool.or_true]
  have hcontent := ha.content
  rw [hdemand, if_pos rfl] at hcontent
  have hodr : b.sh.cfgOdr = (b.setting settingImuOdrCode).toUInt8 :=
    UInt8.toNat_inj.mp (ha.odr.trans (hr.byte rfl (by decide)).symm)
  have hcontent' : b.sh.cfgContent = (b.setting settingImuContent).toUInt8 :=
    UInt8.toNat_inj.mp (hcontent.trans (hr.byte rfl (by decide)).symm)
  have haccel : b.sh.cfgAccelFs = (b.setting settingImuAccelFs).toUInt8 :=
    UInt8.toNat_inj.mp (ha.accelFs.trans (hr.byte rfl (by decide)).symm)
  have hgyro : b.sh.cfgGyroFs = (b.setting settingImuGyroFs).toUInt8 :=
    UInt8.toNat_inj.mp (ha.gyroFs.trans (hr.byte rfl (by decide)).symm)
  unfold sharedCfg settingsCfg
  rw [hodr, hcontent', haccel, hgyro]

/-- A command after which a session runs either found it running, or started it and arbitrated. -/
theorem execute_running {b : Board} (hr : Ready b) (cmd : DeviceCmd) (ret : Int)
    (ha : b.log.active = true → Arbitrated b) (hact : (execute b cmd ret).log.active = true) :
    Arbitrated (execute b cmd ret) := by
  cases hbefore : b.log.active with
  | true =>
    refine execute_arbitrated ret hr (ha hbefore) ?_
    rintro rfl
    have hended : (imuLogErase b.log).active = true := hact
    obtain ⟨f, t, L, hram⟩ := imuLogErase_ram b.log
    rw [hram] at hended
    exact absurd hended Bool.false_ne_true
  | false =>
    cases cmd with
    | setVoltMv v =>
      have hlog : (execute b (.setVoltMv v) ret).log = b.log := by
        show (if ret < 0 then b else b.set settingMotorVdcMv v).log = b.log
        split
        · rfl
        · rfl
      rw [hlog, hbefore] at hact
      exact absurd hact Bool.false_ne_true
    | log op =>
      have hstarted : Ready (startLog b ret).1 := hr.congr rfl rfl
      have hopened : (startLog b ret).2 ≠ 0 → (startLog b ret).1.log.active = false := by
        intro hne
        rw [startLog_active b ret hne, hbefore]
      unfold execute at hact ⊢
      dsimp only at hact ⊢
      split at hact
      · rename_i hop
        rw [if_pos hop]
        exact onLogStopped_arbitrated (hr.congr rfl rfl)
      · rename_i hop
        rw [if_neg hop]
        split at hact
        · rename_i hop1
          rw [if_pos hop1]
          split at hact
          · rename_i hzero
            rw [if_pos hzero]
            exact onLogStarted_arbitrated hstarted
          · rename_i hne
            rw [hopened hne] at hact
            exact absurd hact Bool.false_ne_true
        · rename_i hop1
          rw [if_neg hop1]
          split at hact
          · rename_i hop3
            rw [if_pos hop3]
            split at hact
            · rename_i hzero
              rw [if_pos hzero]
              exact onLogStarted_arbitrated (hstarted.congr rfl rfl)
            · rename_i hne
              rw [hopened hne] at hact
              exact absurd hact Bool.false_ne_true
          · split at hact
            · obtain ⟨f, t, L, hram⟩ := imuLogErase_ram b.log
              rw [hram] at hact
              exact absurd hact Bool.false_ne_true
            · rw [hbefore] at hact
              exact absurd hact Bool.false_ne_true

/-- **While a session runs the board is arbitrated**: an erase that leaves it not so ends the
    session. -/
theorem app_running {b : Board} (hr : Ready b) {e : App.Event} (he : ofBoard e = true)
    (ha : b.log.active = true → Arbitrated b) (hact : (App.step b e).log.active = true) :
    Arbitrated (App.step b e) := by
  by_cases hexec : ∃ ret, e = .execute ret
  · obtain ⟨ret, rfl⟩ := hexec
    cases hq : b.cmdMsgq with
    | nil =>
      have hstep : App.step b (.execute ret) = b := by simp only [App.step, hq]
      rw [hstep] at hact ⊢
      exact ha hact
    | cons cmd rest =>
      have hstep : App.step b (.execute ret) = execute { b with cmdMsgq := rest } cmd ret := by
        simp only [App.step, hq]
      rw [hstep] at hact ⊢
      have hr' : Ready { b with cmdMsgq := rest } := hr.congr rfl rfl
      have ha' : b.log.active = true → Arbitrated { b with cmdMsgq := rest } :=
        fun h => (ha h).congr (fun _ _ => rfl) rfl rfl rfl rfl
      exact execute_running hr' cmd ret ha' hact
  · have hfree : Rearbitrated b e := by
      cases e with
      | execute ret => exact absurd ⟨ret, rfl⟩ hexec
      | _ => trivial
    have hbefore : b.log.active = true := by
      rcases app_log b he with hcarried | hrefused | ⟨-, hopens⟩
      · exact hcarried.active hact
      · rw [hrefused.idle] at hact
        exact absurd hact Bool.false_ne_true
      · cases e with
        | execute ret => exact absurd ⟨ret, rfl⟩ hexec
        | _ => exact absurd hopens Bool.false_ne_true
    exact (step_arbitrated_iff hr (ha hbefore) e).mpr hfree

/-! ## The sampling loop -/

theorem settled_whole {c : SampleCfg} {s : Flpr} (h : whole c s.sensor = true)
    (hpc : settledAt c s.sensor s.pc = whole c s.sensor) : settled c s = true := by
  unfold settled
  rw [hpc]
  exact h

/-- A sensor that is not half programmed is whole. -/
theorem settled_plain {c : SampleCfg} {s : Flpr} (h : settled c s = true)
    (hpc : settledAt c s.sensor s.pc = whole c s.sensor) : whole c s.sensor = true := by
  unfold settled at h
  rwa [hpc] at h

/-- Only the registers count. -/
theorem whole_congr {c : SampleCfg} {t t' : Sensor} (h : t'.regs = t.regs) :
    whole c t' = whole c t := by
  unfold whole ctrl
  rw [h]

theorem settledAt_congr {c : SampleCfg} {t t' : Sensor} (h : t'.regs = t.regs) (pc : FlprPc) :
    settledAt c t' pc = settledAt c t pc := by
  cases pc with
  | write p seq d k =>
    simp only [settledAt, h, whole_congr h]
  | _ => simp only [settledAt, whole_congr h]

/-- Configurations that agree leave the same sensors whole and the same loops settled. -/
theorem whole_agrees {c d : SampleCfg} (h : ctrlOf d = ctrlOf c) (t : Sensor) :
    whole d t = whole c t := by
  unfold whole
  rw [h]

theorem runStep_settled {c : SampleCfg} {s s' : Flpr} (h : settled c s = true)
    (hs : Sampler.runStep s = some s') : settled c s' = true := by
  unfold Sampler.runStep at hs
  cases hpc : s.pc with
  | ready =>
    have hw := settled_plain h (by rw [hpc]; rfl)
    simp only [hpc] at hs
    split at hs
    · obtain rfl := Option.some.inj hs
      exact settled_whole hw rfl
    · obtain rfl := Option.some.inj hs
      exact settled_whole hw rfl
  | test p =>
    have hw := settled_plain h (by rw [hpc]; rfl)
    simp only [hpc] at hs
    split at hs
    · obtain rfl := Option.some.inj hs
      refine settled_whole hw ?_
      cases p with
      | timeout => rfl
      | poll => rfl
    · obtain rfl := Option.some.inj hs
      show (whole c s.sensor && _) = true
      rw [hw]
      rfl
  | fetch p seq got =>
    unfold settled at h
    rw [hpc] at h
    obtain ⟨hw, hgot⟩ := Bool.and_eq_true_iff.mp h
    simp only [hpc] at hs
    obtain ⟨d, hd, rfl⟩ := Option.map_eq_some_iff.mp hs
    split
    · -- what was fetched powers the sensor down or programs it as `c` does
      have hfetched : ∀ f, got f = some (d.get f) := by
        unfold Sampler.allFetched at hd
        split at hd
        · rename_i o t a g ho ht ha hg
          obtain rfl := Option.some.inj hd
          intro f
          cases f with
          | odr => exact ho
          | content => exact ht
          | accelFs => exact ha
          | gyroFs => exact hg
        · exact absurd hd (by simp)
      have hctrl : (ctrlOf d == (0, 0) || ctrlOf d == ctrlOf c) = true := by
        rw [Bool.or_eq_true] at hgot ⊢
        rcases hgot with hoff | hagree
        · left
          have hcontent : d.content = 0 := by
            have heq := hfetched .content
            rw [beq_iff_eq] at hoff
            rw [hoff] at heq
            exact (Option.some.inj heq).symm
          exact beq_iff_eq.mpr (ctrlOf_off hcontent)
        · right
          rw [agreesSoFar_iff] at hagree
          have hall : agreesAll c d = true :=
            agreesAll_iff.mpr fun f => hagree f (d.get f) (hfetched f)
          exact beq_iff_eq.mpr (ctrlOf_agrees hall)
      show ((ctrlOf d == (0, 0) || ctrlOf d == ctrlOf c) && whole c s.sensor) = true
      rw [hctrl, hw]
      rfl
    · exact settled_whole hw rfl
  | reset p seq d =>
    have hw := settled_plain h (by rw [hpc]; rfl)
    simp only [hpc] at hs
    obtain rfl := Option.some.inj hs
    exact settled_whole hw rfl
  | status p seq d ret =>
    have hw := settled_plain h (by rw [hpc]; rfl)
    simp only [hpc] at hs
    obtain rfl := Option.some.inj hs
    exact settled_whole hw rfl
  | applied p seq d =>
    have hw := settled_plain h (by rw [hpc]; rfl)
    simp only [hpc] at hs
    obtain rfl := Option.some.inj hs
    refine settled_whole hw ?_
    cases p with
    | timeout => rfl
    | poll => rfl
  | _ =>
    simp only [hpc] at hs
    exact absurd hs (by simp)

/-- **A transfer.**  The first register write leaves the sensor half programmed, the second makes it
    whole again. -/
theorem spiStep_settled {c : SampleCfg} {s s' : Flpr} {ret : Int} (h : settled c s = true)
    (hclean : cleanTransfer c s ret = true) (hs : Sampler.spiStep s ret = some s') :
    settled c s' = true := by
  unfold Sampler.spiStep at hs
  cases hpc : s.pc with
  | write p seq d k =>
    unfold settled at h
    rw [hpc] at h
    obtain ⟨hd, hregs⟩ := Bool.and_eq_true_iff.mp h
    simp only [hpc] at hs
    split at hs
    · rename_i hfail
      obtain rfl := Option.some.inj hs
      refine settled_whole ?_ rfl
      unfold cleanTransfer at hclean
      rw [hpc, decide_eq_false (Int.not_le.mpr hfail), Bool.false_or] at hclean
      exact hclean
    · obtain rfl := Option.some.inj hs
      match k with
      | 0 =>
        have hw : whole c s.sensor = true := hregs
        -- what `CTRL2_G` holds is left over from a whole sensor
        have hrest : (s.sensor.regs.ctrl2G == 0 || s.sensor.regs.ctrl2G == (ctrlOf c).2) = true := by
          unfold whole at hw
          rw [Bool.or_eq_true, beq_iff_eq, beq_iff_eq] at hw
          rw [Bool.or_eq_true, beq_iff_eq, beq_iff_eq]
          exact hw.imp (congrArg Prod.snd) (congrArg Prod.snd)
        show ((ctrlOf d == (0, 0) || ctrlOf d == ctrlOf c) &&
          (d.regs.ctrl1Xl == d.regs.ctrl1Xl &&
            (s.sensor.regs.ctrl2G == 0 || s.sensor.regs.ctrl2G == (ctrlOf c).2))) = true
        rw [hd, hrest, beq_self_eq_true]
        rfl
      | 1 =>
        have hfirst : s.sensor.regs.ctrl1Xl = d.regs.ctrl1Xl :=
          beq_iff_eq.mp (Bool.and_eq_true_iff.mp hregs).1
        have hw : whole c { s.sensor with regs := s.sensor.regs.write d.regs 1 } = true := by
          show ((s.sensor.regs.ctrl1Xl, d.regs.ctrl2G) == (0, 0) ||
            (s.sensor.regs.ctrl1Xl, d.regs.ctrl2G) == ctrlOf c) = true
          rw [hfirst]
          exact hd
        show ((ctrlOf d == (0, 0) || ctrlOf d == ctrlOf c) && whole c _) = true
        rw [hd]
        exact hw
      | k + 2 =>
        have hw : whole c s.sensor = true := by
          rwa [if_neg (by omega)] at hregs
        refine settled_whole hw ?_
        dsimp only
        rw [if_neg (by omega)]
        rfl
  | scratch p seq d =>
    have hw := settled_plain h (by rw [hpc]; rfl)
    simp only [hpc] at hs
    split at hs
    · obtain rfl := Option.some.inj hs
      exact settled_whole hw rfl
    · obtain rfl := Option.some.inj hs
      exact settled_whole hw rfl
  | read =>
    have hw := settled_plain h (by rw [hpc]; rfl)
    simp only [hpc] at hs
    split at hs
    · obtain rfl := Option.some.inj hs
      exact settled_whole hw rfl
    · obtain rfl := Option.some.inj hs
      exact settled_whole hw rfl
  | _ =>
    simp only [hpc] at hs
    exact absurd hs (by simp)

/-- **A step of the loop or of the sensor** leaves the sensor to the settings in the shared block. -/
theorem flpr_settled {c : SampleCfg} {s s' : Flpr} {e : Sampler.Event} (h : settled c s = true)
    (hcfg : agreesAll c s.cfg = true)
    (hclean : ∀ ret, e = .spi ret → cleanTransfer c s ret = true)
    (hupdate : ∀ d, e ≠ .update d) (happ : e ≠ .appWrite) (hs : Sampler.step s e = some s') :
    settled c s' = true := by
  cases e with
  | take =>
    simp only [Sampler.step] at hs
    split at hs
    · rename_i hpc
      have hw := settled_plain h (by rw [hpc]; rfl)
      obtain ⟨t, -, rfl⟩ := Option.map_eq_some_iff.mp hs
      exact settled_whole hw rfl
    · exact absurd hs (by simp)
  | timeout =>
    simp only [Sampler.step] at hs
    split at hs
    · rename_i hpc
      have hw := settled_plain h (by rw [hpc]; rfl)
      obtain ⟨-, hs⟩ := Option.ite_none_right_eq_some.mp hs
      obtain rfl := Option.some.inj hs
      exact settled_whole hw rfl
    · exact absurd hs (by simp)
  | run => exact runStep_settled h hs
  | fetch f =>
    simp only [Sampler.step] at hs
    split at hs
    · rename_i p seq got hpc
      obtain ⟨hnew, hs⟩ := Option.ite_none_right_eq_some.mp hs
      obtain rfl := Option.some.inj hs
      unfold settled at h
      rw [hpc] at h
      obtain ⟨hw, hgot⟩ := Bool.and_eq_true_iff.mp h
      refine Bool.and_eq_true_iff.mpr ⟨hw, ?_⟩
      rw [Bool.or_eq_true] at hgot ⊢
      -- what was fetched before still stands; the new field is the one in the shared block
      rcases hgot with hoff | hagree
      · left
        rw [beq_iff_eq] at hoff ⊢
        have hne : CfgField.content ≠ f := by
          rintro rfl
          rw [hoff] at hnew
          exact absurd hnew (by simp)
        rw [Function.update_of_ne hne]
        exact hoff
      · right
        rw [agreesSoFar_iff] at hagree ⊢
        intro g v hv
        by_cases hg : g = f
        · subst hg
          rw [Function.update_self] at hv
          obtain rfl := Option.some.inj hv
          exact agreesAll_iff.mp hcfg g
        · rw [Function.update_of_ne hg] at hv
          exact hagree g v hv
    · exact absurd hs (by simp)
  | spi ret =>
    obtain ⟨-, hs⟩ := Option.ite_none_left_eq_some.mp hs
    exact spiStep_settled h (hclean ret rfl) hs
  | sample =>
    obtain rfl := Option.some.inj hs
    show settledAt c s.sensor.sample s.pc = true
    rw [settledAt_congr s.sensor.sample_regs]
    exact h
  | update d => exact absurd rfl (hupdate d)
  | appWrite => exact absurd rfl happ

/-- **A record read while a session runs** was sampled as the settings ask. -/
theorem taken_filledAt {c : SampleCfg} {s : Flpr} {e : Sampler.Event} {x : ImuSample} {r : Sampled}
    (h : settled c s = true) (hclean : ∀ ret, e = .spi ret → cleanTransfer c s ret = true)
    (hr : taken s e x = some r) : r.filledAt = ctrlOf c := by
  unfold taken at hr
  split at hr
  · rename_i ret hpc
    have hw := settled_plain h (by rw [hpc]; rfl)
    have hread := hclean ret rfl
    obtain ⟨hret, hr⟩ := Option.ite_none_left_eq_some.mp hr
    obtain rfl := Option.some.inj hr
    unfold cleanTransfer at hread
    rw [hpc, decide_eq_false hret, Bool.false_or, Bool.and_eq_true, beq_iff_eq] at hread
    obtain ⟨hon, hfilled⟩ := hread
    unfold whole at hw
    rw [Bool.or_eq_true, beq_iff_eq, beq_iff_eq] at hw
    rcases hw with hoff | heq
    · -- a sensor that is powered down samples nothing
      exfalso
      unfold ctrl at hoff
      obtain ⟨h1, h2⟩ := Prod.mk.inj hoff
      unfold Sensor.poweredOn at hon
      rw [h1, h2] at hon
      exact absurd hon (by decide)
    · exact hfilled.trans heq
  · exact absurd hr (by simp)

/-! ## The staging ring -/

/-- What is staged for the running session was sampled as `c` asks. -/
def StagedAs (c : UInt8 × UInt8) (l : Log) (t : Nat → UInt8 × UInt8) : Prop :=
  ∀ i, i < l.staged → t (stagedSlot l i) = c

theorem StagedAs.empty {c : UInt8 × UInt8} {l : Log} {t : Nat → UInt8 × UInt8}
    (h : l.stageTail = l.stageHead) : StagedAs c l t := by
  intro i hi
  have hnone := (pending_nil h.symm).1
  omega

theorem StagedAs.congr {c : UInt8 × UInt8} {l l' : Log} {t : Nat → UInt8 × UInt8}
    (h : StagedAs c l t) (hhead : l'.stageHead = l.stageHead) (htail : l'.stageTail = l.stageTail) :
    StagedAs c l' t := by
  intro i hi
  unfold Log.staged at hi
  rw [hhead, htail] at hi
  unfold stagedSlot
  rw [htail]
  exact h i hi

/-- One record is appended. -/
theorem tagOne_staged {c : UInt8 × UInt8} {l : Log} {t : Nat → UInt8 × UInt8} {r : Sampled}
    (hh : l.stageHead < 4294967296) (ht : l.stageTail < 4294967296) (h : StagedAs c l t)
    (hr : r.filledAt = c) : StagedAs c (appendOne l r.sample) (tagOne l t r) := by
  rcases appendOne_cases l r.sample hh ht with ⟨hfull, heq⟩ | ⟨hroom, hn, heq⟩
  · have htag : tagOne l t r = t := if_pos (by rw [stageN_eq]; exact hfull)
    rw [htag, heq]
    exact h.congr rfl rfl
  · have htag : tagOne l t r = Function.update t (l.stageHead % stageN) r.filledAt :=
      if_neg (by rw [stageN_eq]; exact Nat.not_le.mpr hroom)
    have htail : (appendOne l r.sample).stageTail = l.stageTail := by rw [heq]
    have hend : u32 (l.stageTail + l.staged) = l.stageHead := by
      unfold Log.staged u32Sub u32
      omega
    intro i hi
    rw [htag, hr]
    unfold stagedSlot
    rw [htail]
    by_cases hslot : u32 (l.stageTail + i) % stageN = l.stageHead % stageN
    · rw [hslot, Function.update_self]
    · rw [Function.update_of_ne hslot]
      refine h i ?_
      -- the newest record is in the slot that was written
      by_contra hge
      have hlast : i = l.staged := by omega
      rw [hlast, hend] at hslot
      exact hslot rfl

/-- Many are. -/
theorem tagAll_staged {c : UInt8 × UInt8} (rs : List Sampled) {l : Log} {t : Nat → UInt8 × UInt8}
    (hh : l.stageHead < 4294967296) (ht : l.stageTail < 4294967296) (h : StagedAs c l t)
    (hr : ∀ r ∈ rs, r.filledAt = c) :
    StagedAs c ((rs.map Sampled.sample).foldl appendOne l) (tagAll l t rs) := by
  induction rs generalizing l t with
  | nil => exact h
  | cons r rs ih =>
    have hone := tagOne_staged hh ht h (hr r (List.mem_cons_self ..))
    have hwords : (appendOne l r.sample).stageHead < 4294967296 ∧
        (appendOne l r.sample).stageTail < 4294967296 := by
      rcases appendOne_cases l r.sample hh ht with ⟨-, heq⟩ | ⟨-, -, heq⟩
      · rw [heq]
        exact ⟨hh, ht⟩
      · rw [heq]
        exact ⟨u32_lt _, ht⟩
    exact ih hwords.1 hwords.2 hone fun r' hr' => hr r' (List.mem_cons_of_mem _ hr')

/-! ## The invariant -/

/-- The entry `cur_slot` points at. -/
def current (l : Log) : DirEntry := l.flash.entries l.curSlot

/-- An entry that stays valid in its slot keeps its configuration, so the current one does. -/
theorem current_carried {s s' : Log} (hslot : s'.curSlot = s.curSlot)
    (hentries : ∀ i, (s'.flash.entries i).Valid →
      (s.flash.entries i).Valid ∧ entryCfg (s'.flash.entries i) = entryCfg (s.flash.entries i))
    (hv : (current s').Valid) :
    (current s).Valid ∧ entryCfg (current s') = entryCfg (current s) := by
  unfold current at hv ⊢
  rw [hslot] at hv ⊢
  exact hentries _ hv

/-- The session under way: the settings, the sensor with the loop that programs it, and the records that
    are not staged yet are all as its entry says. -/
structure Running (c : SampleCfg) (p : Pipeline) : Prop where
  settings : agreesAll c (settingsCfg p.board) = true
  flpr : settled c p.flpr = true
  inFlight : ∀ r ∈ inFlight p, r.filledAt = ctrlOf c

/-- **The invariant.** -/
structure Sound (p : Pipeline) : Prop where
  ready : Ready p.board
  arbitrated : p.board.log.active = true → Arbitrated p.board
  head : p.board.log.stageHead < 4294967296
  tail : p.board.log.stageTail < 4294967296
  described : ∀ i, (p.board.log.flash.entries i).Valid → ∀ r ∈ p.stored i,
    r.filledAt = ctrlOf (entryCfg (p.board.log.flash.entries i))
  staged : (current p.board.log).Valid →
    StagedAs (ctrlOf (entryCfg (current p.board.log))) p.board.log p.stagedAt
  running : p.board.log.active = true → (current p.board.log).Valid →
    Running (entryCfg (current p.board.log)) p

/-- What happens outside the board keeps the invariant if it keeps the session under way. -/
theorem Sound.onward {p p' : Pipeline} (h : Sound p) (hboard : p'.board = p.board)
    (hstored : p'.stored = p.stored) (hstaged : p'.stagedAt = p.stagedAt)
    (hrunning : ∀ c, p.board.log.active = true → Running c p → Running c p') : Sound p' := by
  constructor
  · rw [hboard]
    exact h.ready
  · rw [hboard]
    exact h.arbitrated
  · rw [hboard]
    exact h.head
  · rw [hboard]
    exact h.tail
  · rw [hboard, hstored]
    exact h.described
  · rw [hboard, hstaged]
    exact h.staged
  · rw [hboard]
    intro hact hv
    exact hrunning _ hact (h.running hact hv)

/-- The settings agree with the session's entry after an event that keeps to it. -/
theorem app_settings {p : Pipeline} (hr : Ready p.board) {e : App.Event} {c : SampleCfg}
    (hg : selfDescribing p (.app e) = true) (hact : p.board.log.active = true)
    (h : agreesAll c (settingsCfg p.board) = true) :
    agreesAll c (settingsCfg (App.step p.board e)) = true := by
  by_cases hcfg : ∃ buf offset, e = .imucfg buf offset
  · obtain ⟨buf, offset, rfl⟩ := hcfg
    have hsame : sameUse p.board buf offset = true := by
      simp only [selfDescribing, hact, Bool.not_true, Bool.false_or] at hg
      exact hg
    show agreesAll c (settingsCfg (onImucfgWrite p.board buf offset).1) = true
    unfold onImucfgWrite
    split
    · rename_i odr content afs gfs rest
      split
      · exact h
      · rename_i hallowed
        have hallowed : imucfgAllowed odr content afs gfs = true := by simpa using hallowed
        split
        · exact h
        · dsimp only
          rw [applyImucfg_settingsCfg hr hallowed]
          simp only [sameUse, hallowed, Bool.not_true, Bool.false_or] at hsame
          exact agreesAll_trans h hsame
    · exact h
  · rw [app_settingsCfg p.board fun buf offset heq => hcfg ⟨buf, offset, heq⟩]
    exact h

theorem appStep_sound {p p' : Pipeline} {e : App.Event} (h : Sound p)
    (hg : selfDescribing p (.app e) = true) (hs : appStep p e = some p') : Sound p' := by
  obtain ⟨he, hs⟩ := Option.ite_none_right_eq_some.mp hs
  obtain rfl := Option.some.inj hs
  have hready := step_ready h.ready e
  have harb := app_running h.ready he h.arbitrated
  rcases app_log p.board he with hcarried | hrefused | ⟨hopened, hopens⟩
  · -- no session is opened: what was written stands under the same entries
    have hclosed : (!p.board.log.active && (App.step p.board e).log.active) = false := by
      rw [Bool.and_eq_false_iff, Bool.not_eq_false']
      by_cases hact : (App.step p.board e).log.active = true
      · exact Or.inl (hcarried.active hact)
      · exact Or.inr (by simpa using hact)
    have hcurrent := current_carried hcarried.slot hcarried.entries
    refine ⟨hready, harb, ?_, ?_, ?_, ?_, ?_⟩
    · show (App.step p.board e).log.stageHead < 4294967296
      rw [hcarried.head]
      exact h.head
    · show (App.step p.board e).log.stageTail < 4294967296
      rw [hcarried.tail]
      exact h.tail
    · intro i hv
      obtain ⟨hbefore, heq⟩ := hcarried.entries i hv
      simp only [hclosed, Bool.false_eq_true, if_false]
      rw [heq]
      exact h.described i hbefore
    · intro hv
      obtain ⟨hbefore, heq⟩ := hcurrent hv
      rw [heq]
      exact (h.staged hbefore).congr hcarried.head hcarried.tail
    · intro hact hv
      obtain ⟨hbefore, heq⟩ := hcurrent hv
      have hact₀ := hcarried.active hact
      obtain ⟨hset, hflpr, hflight⟩ := h.running hact₀ hbefore
      rw [heq]
      exact ⟨app_settings h.ready hg hact₀ hset, hflpr, hflight⟩
  · -- a start failed: nothing is staged any more, and no session runs
    have hclosed : (!p.board.log.active && (App.step p.board e).log.active) = false := by
      rw [hrefused.idle, Bool.and_false]
    have hempty : (App.step p.board e).log.stageTail = (App.step p.board e).log.stageHead := by
      rw [hrefused.tail, hrefused.head]
    refine ⟨hready, harb, ?_, ?_, ?_, fun _ => StagedAs.empty hempty, ?_⟩
    · show (App.step p.board e).log.stageHead < 4294967296
      rw [hrefused.head]
      exact h.head
    · show (App.step p.board e).log.stageTail < 4294967296
      rw [hrefused.tail]
      exact h.head
    · intro i hv
      simp only [hclosed, Bool.false_eq_true, if_false]
      show ∀ r ∈ p.stored i, r.filledAt =
        ctrlOf (entryCfg ((App.step p.board e).log.flash.entries i))
      have hv' : ((App.step p.board e).log.flash.entries i).Valid := hv
      rw [hrefused.entries] at hv' ⊢
      exact h.described i hv'
    · intro hact
      have hact' : (App.step p.board e).log.active = true := hact
      rw [hrefused.idle] at hact'
      exact absurd hact' Bool.false_ne_true
  · -- a session is opened, over a sensor and records that are at the settings
    have hempty : (App.step p.board e).log.stageTail = (App.step p.board e).log.stageHead := by
      rw [hopened.tail, hopened.head]
    have hfresh : (!p.board.log.active && (App.step p.board e).log.active) = true := by
      rw [hopened.idle, hopened.active]
      rfl
    refine ⟨hready, harb, ?_, ?_, ?_, fun _ => StagedAs.empty hempty, fun _ _ => ?_⟩
    · show (App.step p.board e).log.stageHead < 4294967296
      rw [hopened.head]
      exact h.head
    · show (App.step p.board e).log.stageTail < 4294967296
      rw [hopened.tail]
      exact h.head
    · intro i hv
      simp only [hfresh, if_true]
      show ∀ r ∈ Function.update p.stored (App.step p.board e).log.curSlot [] i,
        r.filledAt = ctrlOf (entryCfg ((App.step p.board e).log.flash.entries i))
      by_cases hi : i = (App.step p.board e).log.curSlot
      · rw [hi, Function.update_self]
        intro r hr
        exact absurd hr List.not_mem_nil
      · have hv' : ((App.step p.board e).log.flash.entries i).Valid := hv
        rw [Function.update_of_ne hi]
        rw [hopened.others i hi] at hv' ⊢
        exact h.described i hv'
    · have hentry : entryCfg (current (App.step p.board e).log) = settingsCfg p.board :=
        hopened.entry
      obtain ⟨ret, rfl⟩ : ∃ ret, e = .execute ret := by
        cases e with
        | execute ret => exact ⟨ret, rfl⟩
        | _ => exact absurd hopens Bool.false_ne_true
      have hguard : (settled (settingsCfg p.board) p.flpr &&
          (inFlight p).all fun r => r.filledAt == ctrlOf (settingsCfg p.board)) = true := by
        simp only [selfDescribing, hopens, Bool.not_true, Bool.false_or] at hg
        exact hg
      obtain ⟨hflpr, hflight⟩ := Bool.and_eq_true_iff.mp hguard
      show Running (entryCfg (current (App.step p.board (.execute ret)).log)) _
      rw [hentry]
      refine ⟨?_, hflpr, fun r hr => ?_⟩
      · show agreesAll (settingsCfg p.board) (settingsCfg (App.step p.board (.execute ret))) = true
        rw [app_settingsCfg p.board fun buf offset heq => App.Event.noConfusion heq]
        exact agreesAll_refl _
      · exact beq_iff_eq.mp (List.all_eq_true.mp hflight r hr)

/-- The guard of a transfer, for the session's own configuration. -/
theorem cleanTransfer_agrees {c d : SampleCfg} (h : ctrlOf d = ctrlOf c) (s : Flpr) (ret : Int) :
    cleanTransfer d s ret = cleanTransfer c s ret := by
  unfold cleanTransfer
  split
  · rw [whole_agrees h]
  · rfl
  · rfl

theorem flprStep_sound {p p' : Pipeline} {e : Sampler.Event} {x : ImuSample} (h : Sound p)
    (hg : selfDescribing p (.flpr e x) = true) (hs : flprStep p e x = some p') : Sound p' := by
  obtain ⟨hrun, hs⟩ := Option.ite_none_right_eq_some.mp hs
  obtain ⟨flpr, hflpr, rfl⟩ := Option.map_eq_some_iff.mp hs
  refine h.onward rfl rfl rfl fun c hact hrunning => ?_
  obtain ⟨hset, hsettled, hflight⟩ := hrunning
  have hctrl := ctrlOf_agrees hset
  have hclean : ∀ ret, e = .spi ret → cleanTransfer c p.flpr ret = true := by
    rintro ret rfl
    simp only [selfDescribing, hact, Bool.not_true, Bool.false_or] at hg
    rw [← cleanTransfer_agrees hctrl]
    exact hg
  refine ⟨hset, ?_, ?_⟩
  · have hcfg : agreesAll c (synced p).cfg = true := by
      show agreesAll c (sharedCfg p.board) = true
      rw [sharedCfg_running h.ready (h.arbitrated hact) hact]
      exact hset
    refine flpr_settled (s := synced p) hsettled hcfg hclean ?_ ?_ hflpr
    · rintro d rfl
      exact absurd hrun Bool.false_ne_true
    · rintro rfl
      exact absurd hrun Bool.false_ne_true
  · intro r hr
    simp only [inFlight, List.append_assoc, List.mem_append, Option.mem_toList] at hr hflight
    rcases hr with hhand | hrest
    · rcases Option.or_eq_some_iff.mp hhand with htaken | ⟨-, hheld⟩
      · exact taken_filledAt hsettled hclean htaken
      · exact hflight r (Or.inl hheld)
    · exact hflight r (Or.inr hrest)

/-- The pump appends its chunk to the session under way. -/
theorem append_sound {p p' : Pipeline} (h : Sound p) (hs : step p .append = some p') : Sound p' := by
  obtain rfl := Option.some.inj hs
  cases hact : p.board.log.active with
  | false =>
    have hlog := imuLogAppend_inactive p.board.log (p.chunk.map Sampled.sample) hact
    refine h.onward ?_ rfl rfl fun c hrun _ => ?_
    · dsimp only
      rw [hlog]
    · rw [hact] at hrun
      exact absurd hrun Bool.false_ne_true
  | true =>
    obtain ⟨g, hd, d, hram⟩ := imuLogAppend_ram p.board.log (p.chunk.map Sampled.sample)
    have hfold : imuLogAppend p.board.log (p.chunk.map Sampled.sample) =
        (p.chunk.map Sampled.sample).foldl appendOne p.board.log := if_pos hact
    have hcurrent : current (imuLogAppend p.board.log (p.chunk.map Sampled.sample)) =
        current p.board.log := by
      unfold current
      rw [hram]
    have hentries : (imuLogAppend p.board.log (p.chunk.map Sampled.sample)).flash =
        p.board.log.flash := by
      rw [hram]
    have hactive : (imuLogAppend p.board.log (p.chunk.map Sampled.sample)).active =
        p.board.log.active := by
      rw [hram]
    refine ⟨h.ready.log _, fun _ => (h.arbitrated hact).log hactive, ?_, ?_, ?_, ?_, ?_⟩
    · show (imuLogAppend p.board.log (p.chunk.map Sampled.sample)).stageHead < 4294967296
      rw [hfold]
      exact appendFold_head _ p.board.log h.head
    · show (imuLogAppend p.board.log (p.chunk.map Sampled.sample)).stageTail < 4294967296
      rw [hram]
      exact h.tail
    · show ∀ i, ((imuLogAppend p.board.log (p.chunk.map Sampled.sample)).flash.entries i).Valid → _
      rw [hentries]
      exact h.described
    · show (current (imuLogAppend p.board.log (p.chunk.map Sampled.sample))).Valid → _
      rw [hcurrent]
      intro hv
      have hflight := (h.running hact hv).inFlight
      rw [hfold]
      refine tagAll_staged p.chunk h.head h.tail (h.staged hv) fun r hr => hflight r ?_
      exact List.mem_append_right _ hr
    · show _ → (current (imuLogAppend p.board.log (p.chunk.map Sampled.sample))).Valid →
        Running (entryCfg (current (imuLogAppend p.board.log (p.chunk.map Sampled.sample)))) _
      rw [hcurrent]
      intro _ hv
      obtain ⟨hset, hflpr, hflight⟩ := h.running hact hv
      refine ⟨?_, hflpr, fun r hr => hflight r ?_⟩
      · rw [settingsCfg_log]
        exact hset
      · have hr' : r ∈ p.hand.toList ++ p.ring ++ [] := hr
        rw [List.append_nil] at hr'
        exact List.mem_append_left _ hr'

/-- What a drain leaves of the statics and of the entries. -/
theorem drain_carried (s : Log) (ret : Int) (ht : s.stageTail < 4294967296) :
    (writerDrainBatch s ret).active = s.active ∧ (writerDrainBatch s ret).curSlot = s.curSlot ∧
      (writerDrainBatch s ret).stageHead = s.stageHead ∧
      (writerDrainBatch s ret).stageTail = u32 (s.stageTail + s.drainCount) ∧
      ∀ i, ((writerDrainBatch s ret).flash.entries i).Valid → (s.flash.entries i).Valid ∧
        entryCfg ((writerDrainBatch s ret).flash.entries i) = entryCfg (s.flash.entries i) := by
  by_cases hne : u32Sub s.stageHead s.stageTail = 0
  · have hnone : s.drainCount = 0 := by
      have hle := drainCount_le_staged s
      omega
    rw [writerDrainBatch_empty s ret hne, hnone, Nat.add_zero, u32_of_lt ht]
    exact ⟨rfl, rfl, rfl, rfl, fun _ hv => ⟨hv, rfl⟩⟩
  · have hentries := evolves_cfg (writerDrainBatch_issues s ret hne).full.1
    rw [drainWrite_entries] at hentries
    obtain ⟨f, t, L, hram, -⟩ := writerDrainBatch_ram s ret hne
    refine ⟨?_, ?_, ?_, ?_, hentries⟩
    · rw [hram]
      rfl
    · rw [hram]
      rfl
    · rw [hram]
      rfl
    · rw [hram]
      rfl

/-- The fields after a drain. -/
theorem drain_step {p p' : Pipeline} {ret : Int} (hs : step p (.drain ret) = some p') :
    p'.board = { p.board with log := writerDrainBatch p.board.log ret } ∧ p'.flpr = p.flpr ∧
      inFlight p' = inFlight p ∧ p'.stagedAt = p.stagedAt ∧
      p'.stored = if ret < 0 then p.stored else
        Function.update p.stored p.board.log.curSlot
          (p.stored p.board.log.curSlot ++ batch p) := by
  obtain rfl := Option.some.inj hs
  simp only [inFlight, and_self]

/-- The records of a batch were sampled as the running session's entry says. -/
theorem batch_filledAt {p : Pipeline} (h : Sound p) (hv : (current p.board.log).Valid) {r : Sampled}
    (hr : r ∈ batch p) : r.filledAt = ctrlOf (entryCfg (current p.board.log)) := by
  obtain ⟨k, hk, rfl⟩ := List.mem_map.mp hr
  have hlt : k < p.board.log.drainCount := List.mem_range.mp hk
  have hle : p.board.log.drainCount ≤ p.board.log.staged := drainCount_le_staged p.board.log
  exact h.staged hv k (by omega)

/-- A drain moves staged records to the session's slot. -/
theorem drain_sound {p p' : Pipeline} {ret : Int} (h : Sound p)
    (hs : step p (.drain ret) = some p') : Sound p' := by
  obtain ⟨hboard, hflpr', hflight', hstaged', hstored'⟩ := drain_step hs
  obtain ⟨hactive, hslot, hhead, htail, hentries⟩ := drain_carried p.board.log ret h.tail
  -- nothing else about the drain is needed
  generalize writerDrainBatch p.board.log ret = l at hboard hactive hslot hhead htail hentries
  have hlog : p'.board.log = l := by rw [hboard]
  have hle : p.board.log.drainCount ≤ p.board.log.staged := drainCount_le_staged p.board.log
  have hcurrent := current_carried hslot hentries
  constructor
  · rw [hboard]
    exact h.ready.log l
  · rw [hboard]
    intro hact
    exact (h.arbitrated (hactive.symm.trans hact)).log hactive
  · rw [hlog, hhead]
    exact h.head
  · rw [hlog, htail]
    exact u32_lt _
  · rw [hlog, hstored']
    intro i hv
    obtain ⟨hbefore, heq⟩ := hentries i hv
    rw [heq]
    split
    · exact h.described i hbefore
    · by_cases hi : i = p.board.log.curSlot
      · subst hi
        rw [Function.update_self]
        intro r hr
        rcases List.mem_append.mp hr with hold | hnew
        · exact h.described _ hbefore r hold
        · exact batch_filledAt h hbefore hnew
      · rw [Function.update_of_ne hi]
        exact h.described i hbefore
  · rw [hlog, hstaged']
    intro hv
    obtain ⟨hbefore, heq⟩ := hcurrent hv
    rw [heq]
    intro k hk
    have hleft : l.staged = p.board.log.staged - p.board.log.drainCount := by
      unfold Log.staged
      rw [hhead, htail]
      exact u32Sub_advance h.head h.tail hle
    have hnext := h.staged hbefore (p.board.log.drainCount + k) (by omega)
    unfold stagedSlot at hnext ⊢
    rw [htail, u32_u32_add, Nat.add_assoc]
    exact hnext
  · rw [hlog]
    intro hact hv
    obtain ⟨hbefore, heq⟩ := hcurrent hv
    obtain ⟨hset, hflpr, hflight⟩ := h.running (hactive.symm.trans hact) hbefore
    rw [heq]
    refine ⟨?_, ?_, ?_⟩
    · rw [hboard, settingsCfg_log]
      exact hset
    · rw [hflpr']
      exact hflpr
    · rw [hflight']
      exact hflight

/-- **Step lemma.** -/
theorem step_sound {p p' : Pipeline} {e : Event} (h : Sound p) (hg : selfDescribing p e = true)
    (hs : Step p e p') : Sound p' := by
  cases e with
  | app e => exact appStep_sound h hg hs
  | flpr e x => exact flprStep_sound h hg hs
  | publish =>
    obtain ⟨r, hhand, rfl⟩ := Option.map_eq_some_iff.mp hs
    refine h.onward rfl rfl rfl fun c _ hrunning => ?_
    obtain ⟨hset, hflpr, hflight⟩ := hrunning
    refine ⟨hset, hflpr, fun r' hr' => hflight r' ?_⟩
    simp only [inFlight, hhand, Option.toList, List.nil_append, List.mem_append] at hr' ⊢
    rcases hr' with hring | hchunk
    · split at hring
      · rcases List.mem_append.mp hring with hold | hnew
        · exact Or.inl (Or.inr hold)
        · exact Or.inl (Or.inl hnew)
      · exact Or.inl (Or.inr hring)
    · exact Or.inr hchunk
  | copy n =>
    obtain ⟨-, hs⟩ := Option.ite_none_right_eq_some.mp hs
    obtain rfl := Option.some.inj hs
    refine h.onward rfl rfl rfl fun c _ hrunning => ?_
    obtain ⟨hset, hflpr, hflight⟩ := hrunning
    refine ⟨hset, hflpr, fun r hr => hflight r ?_⟩
    simp only [inFlight, List.mem_append] at hr ⊢
    rcases hr with (hhand | hring) | hchunk
    · exact Or.inl (Or.inl hhand)
    · exact Or.inl (Or.inr (List.mem_of_mem_drop hring))
    · exact Or.inl (Or.inr (List.mem_of_mem_take hchunk))
  | append => exact append_sound h hs
  | drain ret => exact drain_sound h hs

theorem booted_sound {p : Pipeline} (h : Booted p) : Sound p := by
  obtain ⟨b, f, hready, hlog, hboard, -, -, -, -, hstored⟩ := h
  obtain ⟨x, t, T, n, hram⟩ := imuLogInit_ram (Log.cold f)
  have hkept : p.board.log = bootLog f := by
    rw [hboard, firstArbitration, (runUpdate_frame _).1]
    exact hlog
  have hstatics : p.board.log.active = false ∧ p.board.log.stageHead = 0 ∧
      p.board.log.stageTail = 0 := by
    rw [hkept, bootLog, hram]
    exact ⟨rfl, rfl, rfl⟩
  obtain ⟨hidle, hhead, htail⟩ := hstatics
  have hjust := (justArbitrated ⟨b, hready, hboard⟩).1
  refine ⟨hjust, ?_, by omega, by omega, ?_, ?_, ?_⟩
  · intro hact
    rw [hidle] at hact
    exact absurd hact Bool.false_ne_true
  · intro i _ r hr
    rw [hstored] at hr
    exact absurd hr List.not_mem_nil
  · intro _
    exact StagedAs.empty (htail.trans hhead.symm)
  · intro hact
    rw [hidle] at hact
    exact absurd hact Bool.false_ne_true

/-- **Dumps are self-describing** in every run whose steps keep a session to what its entry says: every
    record written for a session that is still listed was sampled with the sensor programmed as the
    session's entry says. -/
theorem stored_described {p : Pipeline}
    (h : Reach Booted (guarded (fun p e => selfDescribing p e = true) Step) p) {i : Nat}
    (hv : (p.board.log.flash.entries i).Valid) {r : Sampled} (hr : r ∈ p.stored i) :
    r.filledAt = ctrlOf (entryCfg (p.board.log.flash.entries i)) := by
  have hsound : Sound p := by
    refine h.invariant (fun p hp => booted_sound hp) ?_
    rintro p e p' - hp ⟨hg, hst⟩
    exact step_sound hp hg hst
  exact hsound.described i hv r hr

/-- A blank device with default settings after a boot, with the commands `cmds` queued. -/
def booted (cmds : List DeviceCmd) : Pipeline where
  board := firstArbitration { Board.fresh cmds with log := bootLog Flash.blank }
  flpr := Sampler.booted
  hand := none
  ring := []
  chunk := []
  stagedAt := fun _ => (0, 0)
  stored := fun _ => []

theorem booted_booted (cmds : List DeviceCmd) : Booted (booted cmds) := by
  refine ⟨{ Board.fresh cmds with log := bootLog Flash.blank }, Flash.blank, ⟨rfl, ?_⟩, rfl, rfl,
    ⟨_, _, _, rfl⟩, rfl, rfl, rfl, rfl⟩
  exact settingsStoreInit_loaded settingsGen Bytes.crc32Ieee Store.cold none

/-- The loop picks the configuration up, and its first sample goes all the way to the flash. -/
def firstRecord : List Event :=
  Sampler.program.map (.flpr · default) ++
    ([.spi 0, .run, .run, .run, .sample, .take, .run, .spi 0] : List Sampler.Event).map
      (.flpr · default) ++
    [.publish, .copy 1, .append, .drain 0]

/-- A session is started and stores a record. -/
def oneSession : List Event := .app (.execute 0) :: firstRecord

/-- A session is started, the host asks for another rate, and the session stores a record. -/
def reconfigured : List Event := .app (.execute 0) :: .app (.imucfg [10, 3, 0, 0] 0) :: firstRecord

/-- The first record of a session, at the default settings. -/
theorem stored_described_first : ∃ (p : Pipeline) (r : Sampled), r ∈ p.stored 0 ∧
    r.filledAt = ctrlOf (entryCfg (p.board.log.flash.entries 0)) := by
  have hrun : (oneSession.foldlM (fun p e => if selfDescribing p e then step p e else none)
      (booted [.log opStart])).any (fun p => decide (p.board.log.flash.entries 0).Valid &&
        decide (p.stored 0 ≠ [])) = true := by decide +kernel
  obtain ⟨p, hp, hend⟩ := (Option.any_eq_true _ _).mp hrun
  obtain ⟨hv, hne⟩ := Bool.and_eq_true_iff.mp hend
  have hreach : Reach Booted (guarded (fun p e => selfDescribing p e = true) Step) p :=
    Reach.runGuarded (.start (booted_booted _)) hp
  obtain ⟨r, hr⟩ := List.exists_mem_of_ne_nil _ (of_decide_eq_true hne)
  exact ⟨p, r, hr, stored_described hreach (of_decide_eq_true hv) hr⟩

/-- **A session is not held to its entry**: 0xFFE8 is written while it runs, and its records are sampled
    at another rate than the entry says. -/
theorem reconfigured_session : ¬ ∀ p : Pipeline, Reach Booted Step p →
    ∀ i, (p.board.log.flash.entries i).Valid → ∀ r ∈ p.stored i,
      r.filledAt = ctrlOf (entryCfg (p.board.log.flash.entries i)) := by
  intro hall
  have hrun : (reconfigured.foldlM step (booted [.log opStart])).any (fun p =>
      decide (p.board.log.flash.entries 0).Valid && (p.stored 0).any fun r =>
        decide (r.filledAt ≠ ctrlOf (entryCfg (p.board.log.flash.entries 0)))) = true := by
    decide +kernel
  obtain ⟨p, hp, hend⟩ := (Option.any_eq_true _ _).mp hrun
  obtain ⟨hv, hbad⟩ := Bool.and_eq_true_iff.mp hend
  obtain ⟨r, hr, hne⟩ := List.any_eq_true.mp hbad
  have hreach : Reach Booted Step p :=
    Reach.run (fun _ _ _ hst => hst) (.start (booted_booted _)) hp
  exact of_decide_eq_true hne (hall p hreach 0 (of_decide_eq_true hv) r hr)

end Caterpillar.App.Provenance
