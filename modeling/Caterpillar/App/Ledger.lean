/-
  What becomes of every sample taken while a session runs: from the coprocessor's hands through the
  shared ring, the pump's chunk, the staging ring and the writer's batch to the session's records
  (src/flpr/src/main.c, src/imu/imu_pump.c, src/imu/imu_log.c, src/app).

  1. **Books** — `Books` puts beside a pipeline what was sampled since the session in progress was
     opened or was on its way then, and how many samples were lost: to a full shared ring, to a full
     staging ring, to a data write that failed.
  2. **One event** moves records along or into one of the three counts (`step_balanced`).  What an
     event of the board does to the staging ring is said once, in `app_ring`.
  3. **Runs** — `session_accounted`: what a session holds is what was sampled, in order, and what is
     missing is counted.
-/
import Caterpillar.App.Provenance
import Caterpillar.ImuLog.Backlog

namespace Caterpillar.App.Ledger

open Caterpillar.Word Caterpillar.Runs Caterpillar.Imu Caterpillar.ImuLog Caterpillar.Settings
open Caterpillar.Imu.Pump (imuRingN)
open Caterpillar.App.Provenance (Pipeline Sampled Carried Refused Opened taken batch ofBoard
  app_log batch_samples)

/-! ## The books -/

/-- A pipeline, and the account of the session opened last. -/
structure Books where
  p : Pipeline
  /-- The directory slot of that session. -/
  slot : Nat
  /-- Sampled since it was opened, and before it what was on its way then. -/
  sampled : List ImuSample
  /-- Lost to a full shared ring. -/
  overrun : Nat
  /-- Lost to a full staging ring. -/
  refused : Nat
  /-- Lost to a data write that failed. -/
  failed : Nat

/-- The records on their way to the staging ring, oldest first. -/
def onTheWay (p : Pipeline) : List ImuSample :=
  (p.chunk ++ p.ring ++ p.hand.toList).map Sampled.sample

/-- What the session's records are, or may still be. -/
def Books.held (l : Books) : List ImuSample :=
  (l.p.stored l.slot).map Sampled.sample ++ l.p.board.log.pending ++
    if l.p.board.log.active then onTheWay l.p else []

/-- A session has been opened. -/
def opened (p p' : Pipeline) : Bool := !p.board.log.active && p'.board.log.active

/-- The books after an event. -/
def Books.entry (l : Books) (p' : Pipeline) : Provenance.Event → Books
  | .app _ =>
      if opened l.p p' then ⟨p', p'.board.log.curSlot, onTheWay l.p, 0, 0, 0⟩ else { l with p := p' }
  | .flpr e x =>
      { l with p := p', sampled := l.sampled ++ (taken l.p.flpr e x).toList.map Sampled.sample }
  | .publish =>
      { l with p := p', overrun := l.overrun + if l.p.ring.length < imuRingN then 0 else 1 }
  | .copy _ => { l with p := p' }
  | .append =>
      { l with
        p := p'
        refused := l.refused +
          if l.p.board.log.active then refusals l.p.board.log (l.p.chunk.map Sampled.sample) else 0 }
  | .drain ret =>
      { l with p := p', failed := l.failed + if ret < 0 then l.p.board.log.drainCount else 0 }

/-- One event. -/
def Books.step (l : Books) (e : Provenance.Event) : Option Books :=
  (Provenance.step l.p e).map fun p' => l.entry p' e

/-- The step relation. -/
def Step (l : Books) (e : Provenance.Event) (l' : Books) : Prop := l.step e = some l'

/-- A boot, with empty books. -/
def Opening (l : Books) : Prop :=
  Provenance.Booted l.p ∧ l.sampled = [] ∧ l.overrun = 0 ∧ l.refused = 0 ∧ l.failed = 0

/-- The staged records keep slots of their own: the counters of the staging ring do not wrap among
    them, or few are staged. -/
def Unwrapped (l : Books) : Provenance.Event → Prop
  | .append => (imuLogAppend l.p.board.log (l.p.chunk.map Sampled.sample)).Unbroken
  | _ => True

/-! ## The staging ring under the board's events -/

/-- The staged records stay, and `log_dropped` is cleared by the start of a session only. -/
structure RingKept (s s' : Log) : Prop where
  stage : s'.stage = s.stage
  running : s.active = true → s'.logDropped = s.logDropped
  started : s.active = false → s'.active = true → s'.logDropped = 0

theorem RingKept.refl (s : Log) : RingKept s s :=
  ⟨rfl, fun _ => rfl, fun h h' => absurd (h.symm.trans h') Bool.false_ne_true⟩

theorem stop_ring (s : Log) : RingKept s (imuLogStop s) := by
  cases ha : s.active with
  | true =>
    obtain ⟨f, t, L, hram, -⟩ := stopClose_ram s ha
    rw [imuLogStop, hram]
    exact ⟨rfl, fun _ => rfl, fun h => absurd (ha.symm.trans h) (by decide)⟩
  | false =>
    rw [imuLogStop, stopClose_inactive s ha]
    exact RingKept.refl s

theorem erase_ring (s : Log) : RingKept s (imuLogErase s) := by
  obtain ⟨f, t, L, hram⟩ := imuLogErase_ram s
  rw [hram]
  exact ⟨rfl, fun _ => rfl, fun _ h => absurd h Bool.false_ne_true⟩

theorem start_ring (b : Board) (ret : Int) : RingKept b.log (startLog b ret).1.log := by
  unfold startLog
  cases ha : b.log.active with
  | true =>
    rw [imuLogStart_busy _ _ _ ha]
    exact RingKept.refl b.log
  | false =>
    by_cases hret : ret < 0
    · rw [imuLogStart_fail _ _ ha hret]
      refine ⟨rfl, fun h => absurd (ha.symm.trans h) Bool.false_ne_true, fun _ _ => rfl⟩
    · rw [imuLogStart_ok _ _ ha hret]
      exact ⟨rfl, fun h => absurd (ha.symm.trans h) Bool.false_ne_true, fun _ _ => rfl⟩

theorem execute_ring (b : Board) (cmd : DeviceCmd) (ret : Int) :
    RingKept b.log (execute b cmd ret).log := by
  cases cmd with
  | setVoltMv v =>
    show RingKept b.log (if ret < 0 then b else b.set settingMotorVdcMv v).log
    split
    · exact RingKept.refl b.log
    · exact RingKept.refl b.log
  | log op =>
    have hstart := start_ring b ret
    unfold execute
    dsimp only
    split
    · rw [(onLogStopped_frame _).1]
      exact stop_ring b.log
    · split
      · split
        · rw [(onLogStarted_frame _).1]
          exact hstart
        · exact hstart
      · split
        · split
          · rw [(onLogStarted_frame _).1]
            exact ⟨hstart.stage, hstart.running, hstart.started⟩
          · exact hstart
        · split
          · exact erase_ring b.log
          · exact RingKept.refl b.log

/-- **An event of the board** keeps what is staged. -/
theorem app_ring (b : Board) {e : App.Event} (he : ofBoard e = true) :
    RingKept b.log (App.step b e).log := by
  have hkept {l : Log} (hl : l = b.log) : RingKept b.log l := by
    obtain rfl := hl
    exact RingKept.refl _
  cases e with
  | stream on => exact hkept (runUpdate_frame _).1
  | imucfg buf offset => exact hkept (Provenance.imucfg_log b buf offset)
  | logctl buf offset =>
    obtain ⟨q, hq⟩ := onLogctlWrite_queue b buf offset
    refine hkept ?_
    rw [App.step, hq]
  | execute ret =>
    cases hq : b.cmdMsgq with
    | nil =>
      refine hkept ?_
      simp only [App.step, hq]
    | cons cmd rest =>
      have hstep : App.step b (.execute ret) = execute { b with cmdMsgq := rest } cmd ret := by
        simp only [App.step, hq]
      rw [hstep]
      exact execute_ring { b with cmdMsgq := rest } cmd ret
  | connect => exact hkept (requestParams_frame _ _).1
  | disconnect =>
    show RingKept b.log (sessionOnDisconnect _).log
    rw [sessionOnDisconnect, (runUpdate_frame _).1]
    split
    · exact RingKept.refl b.log
    · exact stop_ring b.log
  | timeSync epoch =>
    refine hkept ?_
    rw [App.step, sessionTimeSync]
  | tick ms => exact RingKept.refl b.log
  | append xs => exact absurd he Bool.false_ne_true
  | drain ret => exact absurd he Bool.false_ne_true

/-- The same slots between the same counters hold the same records. -/
theorem pending_congr {s s' : Log} (hstage : s'.stage = s.stage) (hhead : s'.stageHead = s.stageHead)
    (htail : s'.stageTail = s.stageTail) : s'.pending = s.pending := by
  rw [Log.pending, Log.pending, Log.stagedBatch, Log.stagedBatch, Log.staged, Log.staged, hstage,
    hhead, htail]

/-! ## One event -/

/-- The books balance. -/
structure Balanced (l : Books) : Prop where
  metered : l.p.board.log.Metered
  /-- What is held was sampled, in that order. -/
  held : l.held.Sublist l.sampled
  /-- What is staged belongs to the session opened last. -/
  place : l.p.board.log.pending = [] ∨ l.p.board.log.curSlot = l.slot
  current : l.p.board.log.active = true → l.p.board.log.curSlot = l.slot
  /-- What is missing was counted. -/
  count : l.p.board.log.active = true →
    l.sampled.length = l.held.length + l.overrun + l.refused + l.failed
  /-- `log_dropped` is the second count. -/
  dropped : l.p.board.log.active = true → l.p.board.log.logDropped = u32 l.refused

/-- Counters that did not move are still words. -/
theorem metered_congr {s s' : Log} (h : s.Metered) (hhead : s'.stageHead = s.stageHead)
    (htail : s'.stageTail = s.stageTail) : s'.Metered := by
  refine ⟨?_, ?_, ?_⟩
  · rw [hhead]; exact h.head
  · rw [htail]; exact h.tail
  · rw [Log.staged, hhead, htail]; exact h.level

/-- An emptied ring. -/
theorem metered_empty {s s' : Log} (h : s.Metered) (hhead : s'.stageHead = s.stageHead)
    (htail : s'.stageTail = s.stageHead) : s'.Metered ∧ s'.pending = [] := by
  obtain ⟨hzero, hnil⟩ := pending_nil (hhead.trans htail.symm)
  refine ⟨⟨?_, ?_, ?_⟩, hnil⟩
  · rw [hhead]; exact h.head
  · rw [htail]; exact h.head
  · rw [hzero]; exact Nat.zero_le _

/-- What an event of the board changes of a pipeline. -/
theorem appStep_eq {p p' : Pipeline} {e : App.Event} (hs : Provenance.appStep p e = some p') :
    ofBoard e = true ∧ p'.board = App.step p.board e ∧ onTheWay p' = onTheWay p ∧
      p'.stored = if opened p p' then Function.update p.stored p'.board.log.curSlot [] else p.stored := by
  unfold Provenance.appStep at hs
  split at hs
  · rename_i he
    obtain rfl := Option.some.inj hs
    exact ⟨he, rfl, rfl, rfl⟩
  · exact absurd hs (by simp)

/-- No session is opened. -/
theorem carried_balanced {l : Books} (h : Balanced l) {p' : Pipeline}
    (hc : Carried l.p.board.log p'.board.log) (hr : RingKept l.p.board.log p'.board.log)
    (hway : onTheWay p' = onTheWay l.p) (hstored : p'.stored = l.p.stored) :
    Balanced { l with p := p' } := by
  have hpending := pending_congr hr.stage hc.head hc.tail
  refine ⟨metered_congr h.metered hc.head hc.tail, ?_, ?_, fun hact => ?_, fun hact => ?_,
    fun hact => ?_⟩
  · refine List.Sublist.trans ?_ h.held
    rw [Books.held, Books.held, hstored, hpending, hway]
    refine List.Sublist.append_left ?_ _
    cases hb : p'.board.log.active with
    | false => exact List.nil_sublist _
    | true =>
      rewrite [hc.active hb]
      exact List.Sublist.refl _
  · rw [hpending, hc.slot]
    exact h.place
  · exact hc.slot.trans (h.current (hc.active hact))
  · have hheld : Books.held { l with p := p' } = l.held := by
      rw [Books.held, Books.held, hstored, hpending, hway, hc.active hact, hact]
    rw [hheld]
    exact h.count (hc.active hact)
  · exact (hr.running (hc.active hact)).trans (h.dropped (hc.active hact))

/-- A start that fails empties the ring. -/
theorem refused_balanced {l : Books} (h : Balanced l) {p' : Pipeline}
    (hr : Refused l.p.board.log p'.board.log) (hstored : p'.stored = l.p.stored) :
    Balanced { l with p := p' } := by
  obtain ⟨hmet, hnil⟩ := metered_empty h.metered hr.head hr.tail
  have hno : ¬ p'.board.log.active = true := by
    rw [hr.idle]
    exact Bool.false_ne_true
  refine ⟨hmet, ?_, Or.inl hnil, fun hact => absurd hact hno, fun hact => absurd hact hno,
    fun hact => absurd hact hno⟩
  refine List.Sublist.trans ?_ h.held
  rw [Books.held, Books.held, hstored, hnil, hr.idle, List.append_nil, List.append_assoc]
  rw [if_neg Bool.false_ne_true, List.append_nil]
  exact List.sublist_append_left _ _

/-- A session is opened on an empty ring. -/
theorem opened_balanced {l : Books} (h : Balanced l) {p' : Pipeline} {c : Imu.Sampler.SampleCfg}
    (ho : Opened c l.p.board.log p'.board.log) (hr : RingKept l.p.board.log p'.board.log)
    (hway : onTheWay p' = onTheWay l.p)
    (hstored : p'.stored = Function.update l.p.stored p'.board.log.curSlot []) :
    Balanced ⟨p', p'.board.log.curSlot, onTheWay l.p, 0, 0, 0⟩ := by
  obtain ⟨hmet, hnil⟩ := metered_empty h.metered ho.head ho.tail
  have hheld : Books.held ⟨p', p'.board.log.curSlot, onTheWay l.p, 0, 0, 0⟩ = onTheWay l.p := by
    rw [Books.held, hstored, Function.update_self, hnil, ho.active, hway]
    rfl
  refine ⟨hmet, ?_, Or.inl hnil, fun _ => rfl, fun _ => ?_, fun _ => ?_⟩
  · rewrite [hheld]
    exact List.Sublist.refl _
  · rw [hheld]
    rfl
  · exact hr.started ho.idle ho.active

/-- **An event of the board** keeps the session's records, ends the session, or opens one with what is
    on its way. -/
theorem app_balanced {l : Books} (h : Balanced l) {e : App.Event} {p' : Pipeline}
    (hs : Provenance.appStep l.p e = some p') : Balanced (l.entry p' (.app e)) := by
  obtain ⟨he, hboard, hway, hstored⟩ := appStep_eq hs
  have hring := app_ring l.p.board he
  have hcases := app_log l.p.board he
  rw [← hboard] at hring hcases
  have hshut (h : opened l.p p' = false) : l.entry p' (.app e) = { l with p := p' } ∧
      p'.stored = l.p.stored := by
    rw [h] at hstored
    rw [Books.entry, h]
    exact ⟨rfl, hstored⟩
  rcases hcases with hc | hr | ⟨ho, -⟩
  · have hno : opened l.p p' = false := by
      rw [opened]
      cases hb : p'.board.log.active with
      | false => rw [Bool.and_false]
      | true => rw [hc.active hb]; rfl
    obtain ⟨hentry, hkept⟩ := hshut hno
    rw [hentry]
    exact carried_balanced h hc hring hway hkept
  · have hno : opened l.p p' = false := by rw [opened, hr.idle, Bool.and_false]
    obtain ⟨hentry, hkept⟩ := hshut hno
    rw [hentry]
    exact refused_balanced h hr hkept
  · have hyes : opened l.p p' = true := by
      rw [opened, ho.idle, ho.active]
      rfl
    rw [hyes] at hstored
    rw [Books.entry, hyes]
    exact opened_balanced h ho hring hway hstored

/-- Where the board and what is stored stay, samples move along or are lost to the ring. -/
theorem Balanced.moved {l l' : Books} (h : Balanced l) (ys : List ImuSample)
    (hboard : l'.p.board = l.p.board) (hstored : l'.p.stored = l.p.stored) (hslot : l'.slot = l.slot)
    (hsampled : l'.sampled = l.sampled ++ ys)
    (hway : (onTheWay l'.p).Sublist (onTheWay l.p ++ ys))
    (hlost : (onTheWay l.p).length + ys.length + l.overrun = (onTheWay l'.p).length + l'.overrun)
    (hrefused : l'.refused = l.refused) (hfailed : l'.failed = l.failed) : Balanced l' := by
  constructor
  · rw [hboard]
    exact h.metered
  · rw [hsampled, Books.held, hstored, hslot, hboard]
    cases hact : l.p.board.log.active with
    | false =>
      have hheld := h.held
      rw [Books.held, hact] at hheld
      exact hheld.trans (List.sublist_append_left _ _)
    | true =>
      have hheld := h.held.append (List.Sublist.refl ys)
      rw [Books.held, hact, if_pos rfl, List.append_assoc] at hheld
      rw [if_pos rfl]
      exact (List.Sublist.append_left hway _).trans hheld
  · rw [hboard, hslot]
    exact h.place
  · rw [hboard, hslot]
    exact h.current
  · rw [hboard]
    intro hact
    have hcount := h.count hact
    rw [Books.held, hact, if_pos rfl, List.length_append] at hcount
    rw [Books.held, hboard, hact, if_pos rfl, hstored, hslot, hsampled, hrefused, hfailed,
      List.length_append, List.length_append]
    omega
  · rw [hboard, hrefused]
    exact h.dropped

/-- A step of the sampling loop takes at most one sample. -/
theorem flpr_balanced {l : Books} (h : Balanced l) {e : Sampler.Event} {x : ImuSample} {p' : Pipeline}
    (hs : Provenance.flprStep l.p e x = some p') : Balanced (l.entry p' (.flpr e x)) := by
  unfold Provenance.flprStep at hs
  split at hs
  · rename_i hmay
    obtain ⟨flpr, -, rfl⟩ := Option.map_eq_some_iff.mp hs
    cases htaken : taken l.p.flpr e x with
    | none =>
      refine h.moved [] rfl rfl rfl ?_ ?_ ?_ rfl rfl
      · simp [Books.entry, htaken]
      · simp [Books.entry, onTheWay]
      · simp [Books.entry, onTheWay]
    | some r =>
      -- the loop reads only with empty hands
      have hempty : l.p.hand = none := by
        unfold taken at htaken
        split at htaken
        · simpa [Provenance.mayRun] using hmay
        · exact absurd htaken (by simp)
      refine h.moved [r.sample] rfl rfl rfl ?_ ?_ ?_ rfl rfl
      · simp [Books.entry, htaken]
      · simp [Books.entry, onTheWay, hempty]
      · simp [Books.entry, onTheWay, hempty]
        omega
  · exact absurd hs (by simp)

/-- Publishing moves a record into the ring, or loses and counts it. -/
theorem publish_balanced {l : Books} (h : Balanced l) {p' : Pipeline}
    (hs : Provenance.step l.p .publish = some p') : Balanced (l.entry p' .publish) := by
  obtain ⟨r, hhand, rfl⟩ := Option.map_eq_some_iff.mp hs
  by_cases hroom : l.p.ring.length < imuRingN
  · refine h.moved [] rfl rfl rfl (by simp [Books.entry]) ?_ ?_ rfl rfl
    · simp [Books.entry, onTheWay, hhand, hroom]
    · simp [Books.entry, onTheWay, hhand, hroom]
  · refine h.moved [] rfl rfl rfl (by simp [Books.entry]) ?_ ?_ rfl rfl
    · simp [Books.entry, onTheWay, hhand, hroom]
    · simp [Books.entry, onTheWay, hhand, hroom]
      omega

/-- Copying moves records only. -/
theorem copy_balanced {l : Books} (h : Balanced l) {n : Nat} {p' : Pipeline}
    (hs : Provenance.step l.p (.copy n) = some p') : Balanced (l.entry p' (.copy n)) := by
  rw [Provenance.step] at hs
  split at hs
  · rename_i hcan
    obtain rfl := Option.some.inj hs
    have hsame : onTheWay { l.p with chunk := l.p.ring.take n, ring := l.p.ring.drop n } =
        onTheWay l.p := by
      rw [onTheWay, onTheWay, List.take_append_drop, hcan.1, List.nil_append]
    refine h.moved [] rfl rfl rfl (by simp [Books.entry]) ?_ ?_ rfl rfl
    · show (onTheWay { l.p with chunk := l.p.ring.take n, ring := l.p.ring.drop n }).Sublist _
      rewrite [hsame, List.append_nil]
      exact List.Sublist.refl _
    · show _ = (onTheWay { l.p with chunk := l.p.ring.take n, ring := l.p.ring.drop n }).length + _
      rw [hsame]
      rfl
  · exact absurd hs (by simp)

/-- Without a session an append does nothing to the log. -/
theorem idle_append_balanced {l : Books} (h : Balanced l) {p' : Pipeline}
    (hlog : p'.board.log = l.p.board.log) (hstored : p'.stored = l.p.stored)
    (hact : l.p.board.log.active = false) : Balanced { l with p := p' } := by
  have hno : ¬ p'.board.log.active = true := by
    rw [hlog, hact]
    exact Bool.false_ne_true
  have hheld : Books.held { l with p := p' } = l.held := by
    rw [Books.held, Books.held, hlog, hstored, hact]
    rfl
  refine ⟨?_, ?_, ?_, fun h => absurd h hno, fun h => absurd h hno, fun h => absurd h hno⟩
  · rw [hlog]
    exact h.metered
  · rw [hheld]
    exact h.held
  · rw [hlog]
    exact h.place

/-- With one it stages the records there is room for. -/
theorem staged_balanced {l : Books} (h : Balanced l) {p' : Pipeline} {xs : List ImuSample}
    (hact : l.p.board.log.active = true) (hlog : p'.board.log = imuLogAppend l.p.board.log xs)
    (hstored : p'.stored = l.p.stored) (hway : onTheWay l.p = xs ++ onTheWay p')
    (hu : (imuLogAppend l.p.board.log xs).Unbroken) :
    Balanced { l with p := p', refused := l.refused + refusals l.p.board.log xs } := by
  have hfold : imuLogAppend l.p.board.log xs = xs.foldl appendOne l.p.board.log := if_pos hact
  obtain ⟨g, n, d, hram⟩ := imuLogAppend_ram l.p.board.log xs
  have hslot : p'.board.log.curSlot = l.p.board.log.curSlot := by rw [hlog, hram]
  have hact' : p'.board.log.active = true := by
    rw [hlog, hram]
    exact hact
  have hpending : p'.board.log.pending =
      l.p.board.log.pending ++ accepted l.p.board.log xs := by
    rw [hlog, hfold]
    rw [hfold] at hu
    exact appendFold_pending xs h.metered hu
  have hsub : (accepted l.p.board.log xs).Sublist xs := by
    rw [(append_ring xs h.metered).1]
    exact List.take_sublist _ _
  -- the accepted records go from the front of what is on its way to the end of what is staged
  have hheld : Books.held { l with p := p', refused := l.refused + refusals l.p.board.log xs } =
      (l.p.stored l.slot).map Sampled.sample ++ l.p.board.log.pending ++
        (accepted l.p.board.log xs ++ onTheWay p') := by
    rw [Books.held, hstored, hpending, hact', if_pos rfl]
    simp only [List.append_assoc]
  have hbefore : l.held = (l.p.stored l.slot).map Sampled.sample ++ l.p.board.log.pending ++
      (xs ++ onTheWay p') := by
    rw [Books.held, hact, if_pos rfl, hway]
  refine ⟨?_, ?_, Or.inr ?_, fun _ => ?_, fun _ => ?_, fun _ => ?_⟩
  · rw [hlog, hfold]
    exact appendFold_metered xs h.metered
  · rw [hheld]
    refine List.Sublist.trans ?_ h.held
    rw [hbefore]
    exact List.Sublist.append_left (List.Sublist.append_right hsub _) _
  · rw [hslot]
    exact h.current hact
  · rw [hslot]
    exact h.current hact
  · have hcount := h.count hact
    have hle := hsub.length_le
    rw [hbefore] at hcount
    rw [hheld, refusals]
    simp only [List.length_append] at hcount ⊢
    omega
  · rw [hlog, hfold]
    exact appendFold_dropped xs _ _ (h.dropped hact)

/-- An append stages what there is room for, and counts the rest. -/
theorem append_balanced {l : Books} (h : Balanced l) (hu : Unwrapped l .append) {p' : Pipeline}
    (hs : Provenance.step l.p .append = some p') : Balanced (l.entry p' .append) := by
  have hp' := (Option.some.inj hs).symm
  have hlog : p'.board.log = imuLogAppend l.p.board.log (l.p.chunk.map Sampled.sample) := by
    rw [hp']
  have hstored : p'.stored = l.p.stored := by rw [hp']
  have hrest : onTheWay p' = (l.p.ring ++ l.p.hand.toList).map Sampled.sample := by
    rw [hp', onTheWay, List.nil_append]
  have hway : onTheWay l.p = l.p.chunk.map Sampled.sample ++ onTheWay p' := by
    rw [hrest, onTheWay, List.append_assoc, List.map_append]
  cases hact : l.p.board.log.active with
  | false =>
    rw [imuLogAppend_inactive _ _ hact] at hlog
    rw [Books.entry, hact]
    exact idle_append_balanced h hlog hstored hact
  | true =>
    rw [Books.entry, hact]
    exact staged_balanced h hact hlog hstored hway hu

/-- A drain does not touch `log_dropped`. -/
theorem drain_dropped (s : Log) (ret : Int) : (writerDrainBatch s ret).logDropped = s.logDropped := by
  by_cases hnone : s.staged = 0
  · rw [writerDrainBatch_empty s ret hnone]
  · obtain ⟨f, t, L, hram, -⟩ := writerDrainBatch_ram s ret hnone
    rw [hram]
    rfl

/-- A drain stores a batch, or loses and counts it. -/
theorem drain_balanced {l : Books} (h : Balanced l) {ret : Int} {p' : Pipeline}
    (hs : Provenance.step l.p (.drain ret) = some p') : Balanced (l.entry p' (.drain ret)) := by
  obtain ⟨hboard, -, -, -, hstored⟩ := Provenance.drain_step hs
  have hp' := (Option.some.inj hs).symm
  have hway : onTheWay p' = onTheWay l.p := by rw [hp', onTheWay, onTheWay]
  obtain ⟨-, hslot, -⟩ := Provenance.drain_carried l.p.board.log ret h.metered.tail
  obtain ⟨hactive, hmet, -, -, hpending⟩ := drain_ring h.metered ret
  have hbatch := batch_samples l.p
  rw [← hbatch] at hpending
  have hlog : p'.board.log = writerDrainBatch l.p.board.log ret := by rw [hboard]
  rw [← hlog] at hslot hactive hmet hpending
  have hlen : (batch l.p).length = l.p.board.log.drainCount := by
    rw [batch, List.length_map, List.length_range]
  -- what of the batch is stored
  let got : List ImuSample := if ret < 0 then [] else (batch l.p).map Sampled.sample
  have hgot : got.Sublist ((batch l.p).map Sampled.sample) ∧
      got.length + (if ret < 0 then l.p.board.log.drainCount else 0) = (batch l.p).length := by
    show (if ret < 0 then [] else (batch l.p).map Sampled.sample).Sublist _ ∧
      (if ret < 0 then [] else (batch l.p).map Sampled.sample).length + _ = _
    split
    · exact ⟨List.nil_sublist _, by rw [hlen, List.length_nil, Nat.zero_add]⟩
    · exact ⟨List.Sublist.refl _, by rw [List.length_map, Nat.add_zero]⟩
  have hafter : (p'.stored l.slot).map Sampled.sample =
      (l.p.stored l.slot).map Sampled.sample ++ got := by
    show _ = _ ++ if ret < 0 then [] else (batch l.p).map Sampled.sample
    rw [hstored]
    split
    · rw [List.append_nil]
    · rcases h.place with hnone | hcur
      · -- nothing was staged
        have hempty : batch l.p = [] := by
          rw [hnone] at hpending
          exact List.map_eq_nil_iff.mp (List.append_eq_nil_iff.mp hpending.symm).1
        rw [hempty, List.append_nil, Function.update_eq_self]
        exact (List.append_nil _).symm
      · rw [hcur, Function.update_self, List.map_append]
  have hheld : Books.held (l.entry p' (.drain ret)) =
      (l.p.stored l.slot).map Sampled.sample ++ (got ++ (p'.board.log.pending ++
        if l.p.board.log.active then onTheWay l.p else [])) := by
    show (p'.stored l.slot).map Sampled.sample ++ p'.board.log.pending ++
      (if p'.board.log.active then onTheWay p' else []) = _
    rw [hafter, hactive, hway]
    simp only [List.append_assoc]
  have hbefore : l.held = (l.p.stored l.slot).map Sampled.sample ++
      ((batch l.p).map Sampled.sample ++ (p'.board.log.pending ++
        if l.p.board.log.active then onTheWay l.p else [])) := by
    rw [Books.held, hpending]
    simp only [List.append_assoc]
  refine ⟨hmet, ?_, ?_, fun hact => ?_, fun hact => ?_, fun hact => ?_⟩
  · rw [hheld]
    refine List.Sublist.trans ?_ h.held
    rw [hbefore]
    exact List.Sublist.append_left (List.Sublist.append_right hgot.1 _) _
  · rcases h.place with hnone | hcur
    · rw [hnone] at hpending
      exact Or.inl (List.append_eq_nil_iff.mp hpending.symm).2
    · exact Or.inr (hslot.trans hcur)
  · exact hslot.trans (h.current (hactive.symm.trans hact))
  · have hcount := h.count (hactive.symm.trans hact)
    have hlost := hgot.2
    rw [hbefore] at hcount
    rw [hheld]
    show l.sampled.length = _ + l.overrun + l.refused +
      (l.failed + if ret < 0 then l.p.board.log.drainCount else 0)
    simp only [List.length_append, List.length_map] at hcount ⊢
    omega
  · have hdropped := drain_dropped l.p.board.log ret
    show p'.board.log.logDropped = u32 l.refused
    rw [hlog, hdropped]
    exact h.dropped (hactive.symm.trans hact)

/-- **Step lemma.** -/
theorem step_balanced {l l' : Books} {e : Provenance.Event} (h : Balanced l) (hu : Unwrapped l e)
    (hst : Step l e l') : Balanced l' := by
  obtain ⟨p', hs, rfl⟩ := Option.map_eq_some_iff.mp hst
  cases e with
  | app e => exact app_balanced h hs
  | flpr e x => exact flpr_balanced h hs
  | publish => exact publish_balanced h hs
  | copy n => exact copy_balanced h hs
  | append => exact append_balanced h hu hs
  | drain ret => exact drain_balanced h hs

/-! ## Runs -/

theorem opening_balanced {l : Books} (h : Opening l) : Balanced l := by
  obtain ⟨⟨b, f, -, hlog, hboard, -, hhand, hring, hchunk, hstored⟩, hsampled, -, -, -⟩ := h
  obtain ⟨x, t, T, n, hram⟩ := imuLogInit_ram (Log.cold f)
  have hkept : l.p.board.log = bootLog f := by
    rw [hboard, firstArbitration, (runUpdate_frame _).1]
    exact hlog
  obtain ⟨hstart, hidle⟩ := boot_start f
  have hno : ¬ l.p.board.log.active = true := by
    rw [hkept, hidle]
    exact Bool.false_ne_true
  have hnil : l.p.board.log.pending = [] := by
    refine (pending_nil ?_).2
    rw [hkept, bootLog, hram]
    rfl
  refine ⟨?_, ?_, Or.inl hnil, fun h => absurd h hno, fun h => absurd h hno,
    fun h => absurd h hno⟩
  · rw [hkept]
    exact hstart.metered
  · rw [Books.held, hnil, hstored, if_neg hno]
    exact List.nil_sublist _

/-- **Every sample of a session is accounted for.**  In every run of the application core, the sampling
    loop, the pump and the writer in which the staging ring's counters do not wrap among the staged
    records: what a running session has stored, followed by what is staged and what is on its way, is
    what was sampled since it was opened, or was on its way then, in order and without repeats, less
    what was lost to the shared ring, to the staging ring and to failed writes; and `log_dropped` counts
    the second.  What is stored stays such once the session has ended. -/
theorem session_accounted {l : Books} (h : Reach Opening (guarded Unwrapped Step) l) :
    ((l.p.stored l.slot).map Sampled.sample).Sublist l.sampled ∧
      (l.p.board.log.active = true →
        ((l.p.stored l.slot).map Sampled.sample ++ l.p.board.log.pending ++ onTheWay l.p).Sublist
            l.sampled ∧
          l.sampled.length = (l.p.stored l.slot).length + l.p.board.log.pending.length +
            (onTheWay l.p).length + l.overrun + l.refused + l.failed ∧
          l.p.board.log.logDropped = u32 l.refused) := by
  have hbal : Balanced l := by
    refine Reach.invariant (I := Balanced) (fun _ hl => opening_balanced hl) ?_ h
    rintro l e l' - hl ⟨hu, hst⟩
    exact step_balanced hl hu hst
  refine ⟨?_, fun hact => ⟨?_, ?_, hbal.dropped hact⟩⟩
  · refine List.Sublist.trans ?_ hbal.held
    rw [Books.held, List.append_assoc]
    exact List.sublist_append_left _ _
  · have hheld := hbal.held
    rw [Books.held, if_pos hact] at hheld
    exact hheld
  · have hcount := hbal.count hact
    rw [Books.held, if_pos hact] at hcount
    simp only [List.length_append, List.length_map] at hcount
    omega

instance (l : Books) (e : Provenance.Event) : Decidable (Unwrapped l e) :=
  match e with
  | .append => inferInstanceAs (Decidable (_ ∨ _))
  | .app _ => isTrue trivial
  | .flpr _ _ => isTrue trivial
  | .publish => isTrue trivial
  | .copy _ => isTrue trivial
  | .drain _ => isTrue trivial

/-- The first record of a session goes all the way to the flash, and the books say so. -/
theorem session_accounted_first : ∃ l : Books, (l.p.stored l.slot).length = 1 ∧
    ((l.p.stored l.slot).map Sampled.sample).Sublist l.sampled ∧ l.sampled.length = 1 := by
  have hrun : (Provenance.oneSession.foldlM (fun l e => if Unwrapped l e then l.step e else none)
      ⟨Provenance.booted [.log opStart], 0, [], 0, 0, 0⟩).any (fun l =>
        l.p.board.log.active && decide ((l.p.stored l.slot).length = 1 ∧
          l.p.board.log.pending = [] ∧ onTheWay l.p = [] ∧
          l.overrun + l.refused + l.failed = 0)) = true := by decide +kernel
  obtain ⟨l, hl, hend⟩ := (Option.any_eq_true _ _).mp hrun
  obtain ⟨hact, hend⟩ := Bool.and_eq_true_iff.mp hend
  obtain ⟨hone, hpending, hway, hlost⟩ := of_decide_eq_true hend
  have hreach : Reach Opening (guarded Unwrapped Step) l := by
    refine Reach.run (fun l e l' hst => ?_)
      (.start ⟨Provenance.booted_booted _, rfl, rfl, rfl, rfl⟩) hl
    split at hst
    · rename_i hu
      exact ⟨hu, hst⟩
    · exact absurd hst (by simp)
  obtain ⟨hsub, hrunning⟩ := session_accounted hreach
  obtain ⟨-, hcount, -⟩ := hrunning hact
  refine ⟨l, hone, hsub, ?_⟩
  rw [hone, hpending, hway] at hcount
  simp only [List.length_nil] at hcount
  omega

end Caterpillar.App.Ledger
