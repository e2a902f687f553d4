/-
  The log as a device: calls, power cuts and reboots, over an abstract journal.

  1. `Op` / `exec` — one call into the log, each atomic; its accesses are left in the trace.
  2. `Journal` — the abstract meaning of the component, kept beside the concrete state and never
     read by it: per session id, the records `imu_log_append` ACCEPTED and the records the writer
     DRAINED, in order, since that id was last opened.
  3. `Device` / `Device.step` — a powered device runs calls; power may be cut after any number of
     the accesses of a call (or of the boot sequence), which leaves a flash image and nothing else;
     an unpowered device boots by running `imu_log_init` over reset statics.

  `exec_cases` and `cutImage_after` then say, once, everything a call can do.  The boot sequence is
  analysed here as well: `bootFold_spec` says what the directory loop of
  `imu_log_init` rebuilds (`directoryEnd`, `directoryNext`) and what it may write.
-/
import Caterpillar.ImuLog.Effects

namespace Caterpillar.ImuLog

open Caterpillar.Word Caterpillar.Ring Caterpillar.Runs Caterpillar.Imu

/-! ## Calls -/

/-- One call into the log, with what the environment supplies to it. -/
inductive Op where
  | start (st : Stamp) (ret : Int)
  | append (xs : List ImuSample)
  | drain (ret : Int)
  | stop
  | erase

/-- The state after a call. -/
def runOp (s : Log) : Op → Log
  | .start st ret => (imuLogStart s st ret).1
  | .append xs => imuLogAppend s xs
  | .drain ret => writerDrainBatch s ret
  | .stop => imuLogStop s
  | .erase => imuLogErase s

/-- A call with a fresh trace. -/
def exec (s : Log) (op : Op) : Log := runOp { s with trace := [] } op

/-- The flash a power cut leaves after the first `k` accesses of a call. -/
def cutImage (s : Log) (op : Op) (k : Nat) : Flash :=
  replay Ev.effect ((exec s op).trace.take k) s.flash

/-- No flash write of the call fails. -/
def Op.Ok : Op → Prop
  | .start _ ret => 0 ≤ ret
  | .drain ret => 0 ≤ ret
  | _ => True

/-! ## What a call can do

The two facts below are the only ones any later proof uses about a call: `exec_cases` for the
statics, `exec_flash` / `cutImage_after` for the flash.  One constructor of `Outcome` per way
through the code. -/

/-- The entry write of a start. -/
def Log.entryWrite (s : Log) (st : Stamp) (ret : Int) : Ev :=
  .writeEntry (slotOf s.seqNext) (newEntry s.seqNext s.totalAbs st) ret

/-- What the flash can look like once the first access of a call is through: at a power cut after
    it, and at the end of the call. -/
def After (s : Log) : Op → Flash → Prop
  | .start st ret, g => g = if s.active then s.flash else (s.entryWrite st ret).effect s.flash
  | .append _, g => g = s.flash
  | .drain ret, g =>
      if u32Sub s.stageHead s.stageTail = 0 then g = s.flash
      else Image (Refreshed s.curSlot (u32 (s.curCount + s.drainCount)))
        ((s.drainWrite ret).effect s.flash) g
  | .stop, g => Image (Closing s) s.flash g
  | .erase, g => Image (Closing s) s.flash g

/-- Nothing happens: `-EBUSY`, an append or a stop without a session, a drain with nothing staged. -/
def Idle (s : Log) (op : Op) : Prop :=
  (∃ st ret, op = .start st ret ∧ s.active = true) ∨ (∃ xs, op = .append xs ∧ s.active = false) ∨
  (∃ ret, op = .drain ret ∧ u32Sub s.stageHead s.stageTail = 0) ∨ (op = .stop ∧ s.active = false)

/-- The ways the flash can be `After` a call. -/
inductive Leaves (s : Log) : Op → Flash → Prop
  | idle {op : Op} (h : Idle s op) : Leaves s op s.flash
  | staged {xs : List ImuSample} : Leaves s (.append xs) s.flash
  | entered {st : Stamp} {ret : Int} (ha : s.active = false) :
      Leaves s (.start st ret) ((s.entryWrite st ret).effect s.flash)
  | drained {ret : Int} {g : Flash} (hne : u32Sub s.stageHead s.stageTail ≠ 0)
      (hg : Image (Refreshed s.curSlot (u32 (s.curCount + s.drainCount)))
        ((s.drainWrite ret).effect s.flash) g) : Leaves s (.drain ret) g
  | closed {g : Flash} (hg : Image (Closing s) s.flash g) : Leaves s .stop g
  | erased {g : Flash} (hg : Image (Closing s) s.flash g) : Leaves s .erase g

theorem After.leaves {s : Log} {op : Op} {g : Flash} (h : After s op g) : Leaves s op g := by
  cases op with
  | start st ret =>
    have hg : g = if s.active then s.flash else (s.entryWrite st ret).effect s.flash := h
    cases ha : s.active with
    | true =>
      rw [hg, if_pos ha]
      exact .idle (Or.inl ⟨st, ret, rfl, ha⟩)
    | false =>
      rw [hg, if_neg (by rw [ha]; decide)]
      exact .entered ha
  | append xs =>
    obtain rfl : g = s.flash := h
    exact .staged
  | drain ret =>
    by_cases hne : u32Sub s.stageHead s.stageTail = 0
    · obtain rfl : g = s.flash := by rwa [After, if_pos hne] at h
      exact .idle (Or.inr (Or.inr (Or.inl ⟨ret, rfl, hne⟩)))
    · rw [After, if_neg hne] at h
      exact .drained hne h
  | stop => exact .closed h
  | erase => exact .erased h

/-- The ways a call can end, over a flash `g` that is `After` it. -/
inductive Outcome (s : Log) : Op → Log → Prop
  | idle {op : Op} {t : List Ev} (h : Idle s op) : Outcome s op { s with trace := t }
  | failed {st : Stamp} {ret : Int} {t : List Ev} (ha : s.active = false) (hret : ret < 0) :
      Outcome s (.start st ret) { s.claimed with trace := t }
  | opened {st : Stamp} {ret : Int} {t : List Ev} (ha : s.active = false) (hret : ¬ ret < 0) :
      Outcome s (.start st ret) { s.claimed with
        flash := (s.entryWrite st ret).effect s.flash, active := true, trace := t }
  | staged {xs : List ImuSample} {t : List Ev} (ha : s.active = true) :
      Outcome s (.append xs) { xs.foldl appendOne s with trace := t }
  | wrote {ret : Int} {g : Flash} {t : List Ev} {L : Nat}
      (hne : u32Sub s.stageHead s.stageTail ≠ 0)
      (hg : Image (Refreshed s.curSlot (u32 (s.curCount + s.drainCount)))
        ((s.drainWrite ret).effect s.flash) g)
      (hk : s.active = true → (s.flash.entries s.curSlot).Valid → (g.entries s.curSlot).Valid)
      (hL : L = s.lastDirRefresh ∨ L = u32 (s.curCount + s.drainCount)) :
      Outcome s (.drain ret) { s.drained ret with flash := g, trace := t, lastDirRefresh := L }
  | closed {g : Flash} {t : List Ev} {L : Nat} (ha : s.active = true)
      (hg : Image (Closing s) s.flash g) :
      Outcome s .stop { s with
        active := false, sessionDetached := false, flash := g, trace := t, lastDirRefresh := L }
  | wiped {g : Flash} {t : List Ev} {L : Nat} {d : Bool} (hnone : ∀ i, ¬ (g.entries i).Valid)
      (hdata : g.data = s.flash.data) :
      Outcome s .erase { s with
        active := false, sessionDetached := d, totalAbs := 0, seqNext := 1, curCount := 0,
        flash := g, trace := t, lastDirRefresh := L }

/-- The staging loop only moves the staging ring and the drop counter. -/
theorem appendFold_ram (s : Log) (xs : List ImuSample) :
    ∃ g h d, xs.foldl appendOne s = { s with stage := g, stageHead := h, logDropped := d } := by
  induction xs generalizing s with
  | nil => exact ⟨s.stage, s.stageHead, s.logDropped, rfl⟩
  | cons x xs ih =>
    obtain ⟨g, h, d, h1⟩ := appendOne_ram s x
    obtain ⟨g', h', d', h2⟩ := ih (appendOne s x)
    rw [List.foldl_cons, h2, h1]
    exact ⟨g', h', d', rfl⟩

/-- The staging loop does not look at the trace. -/
theorem appendFold_trace (xs : List ImuSample) (t : List Ev) :
    ∀ s : Log, xs.foldl appendOne { s with trace := t } =
      { xs.foldl appendOne s with trace := t } := by
  induction xs with
  | nil => intro s; rfl
  | cons x xs ih =>
    intro s
    have hone : appendOne { s with trace := t } x = { appendOne s x with trace := t } := by
      unfold appendOne
      split
      · rfl
      · rfl
    rw [List.foldl_cons, List.foldl_cons, hone, ih]

/-- **What a call can do to the statics.** -/
theorem exec_cases (s : Log) (op : Op) : Outcome s op (exec s op) := by
  cases op with
  | start st ret =>
    by_cases ha : s.active = true
    · have h : exec s (.start st ret) = { s with trace := [] } :=
        congrArg Prod.fst (imuLogStart_busy { s with trace := [] } st ret ha)
      rw [h]
      exact Outcome.idle (Or.inl ⟨st, ret, rfl, ha⟩)
    · have hf : s.active = false := by simpa using ha
      by_cases hret : ret < 0
      · have h : exec s (.start st ret) = { s.claimed with
            flash := (s.entryWrite st ret).effect s.flash, trace := [s.entryWrite st ret] } :=
          congrArg Prod.fst (imuLogStart_fail { s with trace := [] } st hf hret)
        have hkeep : (s.entryWrite st ret).effect s.flash = s.flash := if_pos hret
        rw [h, hkeep]
        exact Outcome.failed hf hret
      · have h : exec s (.start st ret) = { s.claimed with
            flash := (s.entryWrite st ret).effect s.flash, active := true,
            trace := [s.entryWrite st ret] } :=
          congrArg Prod.fst (imuLogStart_ok { s with trace := [] } st hf hret)
        rw [h]
        exact Outcome.opened hf hret
  | append xs =>
    by_cases ha : s.active = true
    · have h : exec s (.append xs) = { xs.foldl appendOne s with trace := [] } :=
        (if_pos ha).trans (appendFold_trace xs [] s)
      rw [h]
      exact Outcome.staged ha
    · have hf : s.active = false := by simpa using ha
      have h : exec s (.append xs) = { s with trace := [] } :=
        imuLogAppend_inactive { s with trace := [] } xs hf
      rw [h]
      exact Outcome.idle (Or.inr (Or.inl ⟨xs, rfl, hf⟩))
  | drain ret =>
    by_cases hne : u32Sub s.stageHead s.stageTail = 0
    · have h : exec s (.drain ret) = { s with trace := [] } :=
        writerDrainBatch_empty { s with trace := [] } ret hne
      rw [h]
      exact Outcome.idle (Or.inr (Or.inr (Or.inl ⟨ret, rfl, hne⟩)))
    · obtain ⟨g, t, L, h, hL⟩ := writerDrainBatch_ram { s with trace := [] } ret hne
      have hiss := writerDrainBatch_issues { s with trace := [] } ret hne
      have hkeeps := writerDrainBatch_keeps { s with trace := [] } ret
      rw [h] at hiss hkeeps
      show Outcome s (.drain ret) (writerDrainBatch { s with trace := [] } ret)
      rw [h]
      exact Outcome.wrote hne hiss.full hkeeps hL
  | stop =>
    by_cases ha : s.active = true
    · obtain ⟨g, t, L, h, -⟩ := stopClose_ram { s with trace := [] } ha
      have hiss := stopClose_issues { s with trace := [] }
      rw [h] at hiss
      show Outcome s .stop (stopClose { s with trace := [] })
      rw [h]
      exact Outcome.closed ha hiss.full
    · have hf : s.active = false := by simpa using ha
      have h : exec s .stop = { s with trace := [] } := stopClose_inactive { s with trace := [] } hf
      rw [h]
      exact Outcome.idle (Or.inr (Or.inr (Or.inr ⟨rfl, hf⟩)))
  | erase =>
    obtain ⟨g, t, L, h⟩ := imuLogErase_ram { s with trace := [] }
    have hiss := imuLogErase_issues { s with trace := [] }
    have hnone := imuLogErase_none { s with trace := [] }
    rw [h] at hiss hnone
    show Outcome s .erase (imuLogErase { s with trace := [] })
    rw [h]
    exact Outcome.wiped hnone hiss.full.2

/-- The flash changes through the accesses of the trace only. -/
theorem exec_replay (s : Log) (op : Op) :
    (exec s op).flash = replay Ev.effect (exec s op).trace s.flash := by
  cases op with
  | start st ret =>
    by_cases ha : s.active = true
    · have h : exec s (.start st ret) = { s with trace := [] } :=
        congrArg Prod.fst (imuLogStart_busy { s with trace := [] } st ret ha)
      rw [h]
      rfl
    · have hf : s.active = false := by simpa using ha
      by_cases hret : ret < 0
      · have h := congrArg Prod.fst (imuLogStart_fail { s with trace := [] } st hf hret)
        rw [show exec s (.start st ret) = _ from h]
        rfl
      · have h := congrArg Prod.fst (imuLogStart_ok { s with trace := [] } st hf hret)
        rw [show exec s (.start st ret) = _ from h]
        rfl
  | append xs =>
    obtain ⟨g, h, d, h1⟩ := imuLogAppend_ram { s with trace := [] } xs
    rw [show exec s (.append xs) = _ from h1]
    rfl
  | drain ret =>
    by_cases hne : u32Sub s.stageHead s.stageTail = 0
    · have h : exec s (.drain ret) = { s with trace := [] } :=
        writerDrainBatch_empty { s with trace := [] } ret hne
      rw [h]
      rfl
    · obtain ⟨t, htr, hfl, -⟩ := writerDrainBatch_issues { s with trace := [] } ret hne
      show (writerDrainBatch { s with trace := [] } ret).flash =
        replay Ev.effect (writerDrainBatch { s with trace := [] } ret).trace s.flash
      rw [htr, hfl]
      rfl
  | stop =>
    obtain ⟨t, htr, hfl, -⟩ := stopClose_issues { s with trace := [] }
    show (stopClose { s with trace := [] }).flash =
      replay Ev.effect (stopClose { s with trace := [] }).trace s.flash
    rw [htr, hfl]
    rfl
  | erase =>
    obtain ⟨t, htr, hfl, -⟩ := imuLogErase_issues { s with trace := [] }
    show (imuLogErase { s with trace := [] }).flash =
      replay Ev.effect (imuLogErase { s with trace := [] }).trace s.flash
    rw [htr, hfl]
    rfl

/-- A cut before the first access leaves the flash as it was. -/
theorem cutImage_zero (s : Log) (op : Op) : cutImage s op 0 = s.flash := rfl

/-- **What a call can do to the flash**, wherever it is cut after its first access. -/
theorem cutImage_after (s : Log) (op : Op) (k : Nat) : After s op (cutImage s op (k + 1)) := by
  cases op with
  | start st ret =>
    by_cases ha : s.active = true
    · have h : exec s (.start st ret) = { s with trace := [] } :=
        congrArg Prod.fst (imuLogStart_busy { s with trace := [] } st ret ha)
      show cutImage s (.start st ret) (k + 1) = _
      rw [if_pos ha, cutImage, h]
      rfl
    · have hf : s.active = false := by simpa using ha
      have htr : (exec s (.start st ret)).trace = [s.entryWrite st ret] := by
        by_cases hret : ret < 0
        · exact congrArg (fun p => p.1.trace)
            (imuLogStart_fail { s with trace := [] } st hf hret)
        · exact congrArg (fun p => p.1.trace) (imuLogStart_ok { s with trace := [] } st hf hret)
      show cutImage s (.start st ret) (k + 1) = _
      rw [if_neg ha, cutImage, htr, List.take_succ_cons, List.take_nil]
      rfl
  | append xs =>
    have htr : (exec s (.append xs)).trace = [] := by
      obtain ⟨g, h, d, h1⟩ := imuLogAppend_ram { s with trace := [] } xs
      exact congrArg Log.trace h1
    show cutImage s (.append xs) (k + 1) = s.flash
    rw [cutImage, htr]
    rfl
  | drain ret =>
    by_cases hne : u32Sub s.stageHead s.stageTail = 0
    · have h : exec s (.drain ret) = { s with trace := [] } :=
        writerDrainBatch_empty { s with trace := [] } ret hne
      show if _ then _ else _
      rw [if_pos hne, cutImage, h]
      rfl
    · obtain ⟨t, htr, -, hal⟩ := writerDrainBatch_issues { s with trace := [] } ret hne
      have htr' : (exec s (.drain ret)).trace = s.drainWrite ret :: t := htr
      show if _ then _ else _
      rw [if_neg hne, cutImage, htr', List.take_succ_cons, replay_cons]
      exact hal k
  | stop => exact (stopClose_issues { s with trace := [] }).cut rfl (k + 1)
  | erase => exact (imuLogErase_issues { s with trace := [] }).cut rfl (k + 1)

/-- So does the uncut call. -/
theorem exec_after (s : Log) (op : Op) : After s op (exec s op).flash := by
  have hcut := cutImage_after s op (exec s op).trace.length
  rwa [cutImage, List.take_of_length_le (Nat.le_succ _), ← exec_replay] at hcut

/-! ## The journal -/

/-- Per session id: the records accepted into staging and the records taken out of it. -/
structure Journal where
  appended : Nat → List ImuSample
  drained : Nat → List ImuSample

/-- Nothing logged yet. -/
def Journal.empty : Journal := ⟨fun _ => [], fun _ => []⟩

/-- The records of a block `imu_log_append` accepts, i.e. does not count in `log_dropped`. -/
def accepted (s : Log) : List ImuSample → List ImuSample
  | [] => []
  | x :: xs =>
      if u32Sub s.stageHead s.stageTail ≥ stageN then accepted (appendOne s x) xs
      else x :: accepted (appendOne s x) xs

/-- What a call adds to the journal. -/
def Journal.record (j : Journal) (s : Log) : Op → Journal
  | .start _ ret =>
      if s.active = true ∨ ret < 0 then j
      else ⟨Function.update j.appended s.seqNext [], Function.update j.drained s.seqNext []⟩
  | .append xs =>
      if s.active = true then
        { j with appended :=
            Function.update j.appended s.curSeq (j.appended s.curSeq ++ accepted s xs) }
      else j
  | .drain _ =>
      { j with drained :=
          Function.update j.drained s.curSeq (j.drained s.curSeq ++ s.stagedBatch s.drainCount) }
  | .stop => j
  | .erase => j

theorem record_start_ok (j : Journal) (s : Log) (st : Stamp) {ret : Int} (ha : s.active = false)
    (hret : ¬ ret < 0) : j.record s (.start st ret) =
      ⟨Function.update j.appended s.seqNext [], Function.update j.drained s.seqNext []⟩ := by
  refine if_neg ?_
  rintro (hact | hneg)
  · rw [ha] at hact
    exact absurd hact (by decide)
  · exact hret hneg

theorem record_append (j : Journal) (s : Log) (xs : List ImuSample) (ha : s.active = true) :
    j.record s (.append xs) = { j with
      appended := Function.update j.appended s.curSeq
        (j.appended s.curSeq ++ accepted s xs) } :=
  if_pos ha

theorem record_drain (j : Journal) (s : Log) (ret : Int) :
    j.record s (.drain ret) = { j with
      drained := Function.update j.drained s.curSeq
        (j.drained s.curSeq ++ s.stagedBatch s.drainCount) } :=
  rfl

/-- A call that does nothing adds nothing to the journal. -/
theorem record_idle (j : Journal) {s : Log} {op : Op} (h : Idle s op) : j.record s op = j := by
  rcases h with ⟨st, ret, rfl, ha⟩ | ⟨xs, rfl, ha⟩ | ⟨ret, rfl, hempty⟩ | ⟨rfl, ha⟩
  · exact if_pos (Or.inl ha)
  · exact if_neg (by rw [ha]; decide)
  · have hzero : s.drainCount = 0 := by
      have hle := drainCount_le_staged s
      omega
    rw [record_drain, hzero]
    show { j with drained := Function.update j.drained s.curSeq (j.drained s.curSeq ++ []) } = j
    rw [List.append_nil, Function.update_eq_self]
  · rfl

/-! ## Power -/

/-- A device is powered, or it is only its flash. -/
inductive Device where
  | on (s : Log) (j : Journal)
  | off (f : Flash) (j : Journal)

/-- `imu_log_init` over the statics a reset leaves. -/
def bootLog (f : Flash) : Log := imuLogInit (Log.cold f)

/-- What can happen to a device. -/
inductive Event where
  | op (o : Op)
  /-- Power is cut after `k` accesses of the call `o`. -/
  | cut (o : Op) (k : Nat)
  | boot
  /-- Power is cut after `k` accesses of the boot sequence. -/
  | bootCut (k : Nat)

/-- One event; `none` where it cannot happen. -/
def Device.step : Device → Event → Option Device
  | .on s j, .op o => some (.on (exec s o) (j.record s o))
  | .on s j, .cut o k => some (.off (cutImage s o k) (if k = 0 then j else j.record s o))
  | .off f j, .boot => some (.on (bootLog f) j)
  | .off f j, .bootCut k => some (.off (replay Ev.effect ((bootLog f).trace.take k) f) j)
  | _, _ => none

/-- The step relation of the device. -/
def DeviceStep (d : Device) (e : Event) (d' : Device) : Prop := d.step e = some d'

/-- The steps of a device, inverted: one constructor for each. -/
inductive Turn : Device → Event → Device → Prop
  | call (s : Log) (j : Journal) (o : Op) :
      Turn (.on s j) (.op o) (.on (exec s o) (j.record s o))
  | uncalled (s : Log) (j : Journal) (o : Op) : Turn (.on s j) (.cut o 0) (.off s.flash j)
  | cut (s : Log) (j : Journal) (o : Op) (k : Nat) :
      Turn (.on s j) (.cut o (k + 1)) (.off (cutImage s o (k + 1)) (j.record s o))
  | boot (f : Flash) (j : Journal) : Turn (.off f j) .boot (.on (bootLog f) j)
  | bootCut (f : Flash) (j : Journal) (k : Nat) :
      Turn (.off f j) (.bootCut k) (.off (replay Ev.effect ((bootLog f).trace.take k) f) j)

theorem device_turn {d d' : Device} {e : Event} (h : DeviceStep d e d') : Turn d e d' := by
  cases d with
  | on s j =>
    cases e with
    | op o =>
      obtain rfl := Option.some.inj h
      exact Turn.call s j o
    | cut o k =>
      obtain rfl := Option.some.inj h
      cases k with
      | zero => exact Turn.uncalled s j o
      | succ k => exact Turn.cut s j o k
    | boot => exact absurd h (by simp [DeviceStep, Device.step])
    | bootCut k => exact absurd h (by simp [DeviceStep, Device.step])
  | off f j =>
    cases e with
    | op o => exact absurd h (by simp [DeviceStep, Device.step])
    | cut o k => exact absurd h (by simp [DeviceStep, Device.step])
    | boot =>
      obtain rfl := Option.some.inj h
      exact Turn.boot f j
    | bootCut k =>
      obtain rfl := Option.some.inj h
      exact Turn.bootCut f j k

/-- A device whose directory was never written by this firmware: fresh from the factory or from a
    firmware upload, with any flash content whatever. -/
def Fresh (d : Device) : Prop := ∃ f, d = .off f Journal.empty ∧ f.dirMeta ≠ ownMeta

/-- A condition on the calls of a run, uncut or cut. -/
def onCall (P : Log → Op → Prop) : Device → Event → Prop
  | .on s _, .op o => P s o
  | .on s _, .cut o _ => P s o
  | _, _ => True

/-- A stricter condition makes for a stricter run. -/
theorem onCall_imp {P Q : Log → Op → Prop} (h : ∀ s o, P s o → Q s o) {d : Device} {e : Event}
    (hg : onCall P d e) : onCall Q d e := by
  cases d with
  | on s j =>
    cases e with
    | op o => exact h s o hg
    | cut o k => exact h s o hg
    | boot => exact trivial
    | bootCut k => exact trivial
  | off f j => exact trivial

/-- Without a session nothing has to be said about a running one. -/
theorem Log.not_active {s : Log} {p : Prop} (ha : s.active = false) (hact : s.active = true) : p := by
  rw [ha] at hact
  exact absurd hact (by decide)

/-! ### Extending a run -/

/-- A call extends a run. -/
theorem reach_call {G : Log → Op → Prop} {s : Log} {j : Journal}
    (h : Reach Fresh (guarded (onCall G) DeviceStep) (.on s j)) (o : Op) (hg : G s o) :
    Reach Fresh (guarded (onCall G) DeviceStep) (.on (exec s o) (j.record s o)) :=
  h.next (a := .op o) ⟨hg, rfl⟩

/-- Calls one after the other, each of which meets the condition. -/
def Calls (G : Log → Op → Prop) : Log → List Op → Prop
  | _, [] => True
  | s, o :: ops => G s o ∧ Calls G (exec s o) ops

theorem reach_calls {G : Log → Op → Prop} (ops : List Op) : ∀ {s : Log} {j : Journal},
    Reach Fresh (guarded (onCall G) DeviceStep) (.on s j) → Calls G s ops →
    ∃ j', Reach Fresh (guarded (onCall G) DeviceStep) (.on (ops.foldl exec s) j') := by
  induction ops with
  | nil => exact fun h _ => ⟨_, h⟩
  | cons o ops ih => exact fun h hops => ih (reach_call h o hops.1) hops.2

/-- So does a power cut in a call. -/
theorem reach_cut {G : Log → Op → Prop} {s : Log} {j : Journal}
    (h : Reach Fresh (guarded (onCall G) DeviceStep) (.on s j)) (o : Op) (k : Nat) (hg : G s o) :
    Reach Fresh (guarded (onCall G) DeviceStep)
      (.off (cutImage s o k) (if k = 0 then j else j.record s o)) :=
  h.next (a := .cut o k) ⟨hg, rfl⟩

/-- So does a boot. -/
theorem reach_boot {G : Log → Op → Prop} {f : Flash} {j : Journal}
    (h : Reach Fresh (guarded (onCall G) DeviceStep) (.off f j)) :
    Reach Fresh (guarded (onCall G) DeviceStep) (.on (bootLog f) j) :=
  h.next (a := .boot) ⟨trivial, rfl⟩

/-! ### Room for the counters -/

/-- A drain leaves `total_abs` and `cur_count` below their last value. -/
def Room (s : Log) : Op → Prop
  | .drain _ => s.totalAbs + s.drainCount < 4294967296 ∧ s.curCount + s.drainCount < 4294967295
  | _ => True

instance (s : Log) : (o : Op) → Decidable (Room s o)
  | .drain _ => inferInstanceAs (Decidable (_ ∧ _))
  | .start _ _ | .append _ | .stop | .erase => inferInstanceAs (Decidable True)

/-- A start does not wrap `seq_next`. -/
def Fits (s : Log) : Op → Prop
  | .start _ _ => s.active = false → s.seqNext + 1 < 4294967296
  | _ => True

/-! ## The boot sequence -/

/-- The two directories agree up to the open flags of their entries. -/
def Reopened (f g : Flash) : Prop :=
  g.data = f.data ∧ g.dirMeta = f.dirMeta ∧
    ∀ i, ∃ o, g.entries i = { f.entries i with isOpen := o }

theorem Reopened.refl (f : Flash) : Reopened f f :=
  ⟨rfl, rfl, fun i => ⟨(f.entries i).isOpen, rfl⟩⟩

/-- The counter position the boot loop takes over from one slot. -/
def endMax (f : Flash) (m i : Nat) : Nat :=
  if (f.entries i).Valid then max m ((f.entries i).startRec + (f.entries i).recCount) else m

/-- The session id the boot loop takes over from one slot. -/
def nextMax (f : Flash) (n i : Nat) : Nat :=
  if (f.entries i).Valid ∧ (f.entries i).seq ≥ n then u32 ((f.entries i).seq + 1) else n

/-- Where the listed sessions end: the counter a boot resumes at. -/
def directoryEnd (f : Flash) : Nat := (List.range maxSessions).foldl (endMax f) 0

/-- The session id a boot continues with. -/
def directoryNext (f : Flash) : Nat := (List.range maxSessions).foldl (nextMax f) 1

/-- The entries in the slots `< maxSessions` have counts a boot takes at face value. -/
def PlainCounts (f : Flash) : Prop :=
  ∀ i, i < maxSessions → (f.entries i).Valid →
    (f.entries i).recCount < 4294967295 ∧
      (f.entries i).startRec + (f.entries i).recCount < 4294967296

/-- Closing a session cut off by the reset changes its open flag and nothing else. -/
theorem closeSlot_spec {f : Flash} (s : Log) (i : Nat) (hs : Reopened f s.flash) :
    (∃ g t, closeSlot s i (s.flash.entries i) = { s with flash := g, trace := t }) ∧
      Issues (Reopened f) s (closeSlot s i (s.flash.entries i)) := by
  unfold closeSlot
  split
  · have hwr : Reopened f ((Ev.writeEntry i { s.flash.entries i with isOpen := 0 } 0).effect
        s.flash) := by
      refine ⟨(effect_writeEntry_data _ _ _ _).trans hs.1, hs.2.1, fun i' => ?_⟩
      rw [effect_writeEntry_entries (by decide)]
      by_cases hi : i' = i
      · subst hi
        obtain ⟨o, ho⟩ := hs.2.2 i'
        rw [if_pos rfl, ho]
        exact ⟨0, rfl⟩
      · rw [if_neg hi]
        exact hs.2.2 i'
    exact ⟨⟨_, _, rfl⟩, Issues.emit hs hwr⟩
  · exact ⟨⟨s.flash, s.trace, rfl⟩, Issues.ram hs rfl rfl⟩

/-- One slot of the boot loop. -/
theorem initSlot_spec {f : Flash} (hf : PlainCounts f) {i : Nat} (hi : i < maxSessions) (s : Log)
    (hs : Reopened f s.flash) :
    (∃ g t, initSlot s i = { s with
        flash := g, trace := t, totalAbs := endMax f s.totalAbs i,
        seqNext := nextMax f s.seqNext i }) ∧
      Issues (Reopened f) s (initSlot s i) := by
  obtain ⟨o, ho⟩ := hs.2.2 i
  have hmagic : (s.flash.entries i).magic = (f.entries i).magic := by rw [ho]
  have hstart : (s.flash.entries i).startRec = (f.entries i).startRec := by rw [ho]
  have hrec : (s.flash.entries i).recCount = (f.entries i).recCount := by rw [ho]
  have hseq : (s.flash.entries i).seq = (f.entries i).seq := by rw [ho]
  have hread : Issues (Reopened f) s (s.emit (.readEntry i)) := Issues.emit hs hs
  by_cases hv : (f.entries i).Valid
  · obtain ⟨hcnt, hend⟩ := hf i hi hv
    have hvs : (s.flash.entries i).Valid := hmagic.trans hv
    have hmend : (s.flash.entries i).mended = s.flash.entries i := by
      unfold DirEntry.mended
      exact if_neg (by rw [hrec]; omega)
    have heq : initSlot s i =
        takeOver (closeSlot (s.emit (.readEntry i)) i (s.flash.entries i)) (s.flash.entries i) := by
      unfold initSlot
      dsimp only
      rw [if_neg (fun hc => hc hvs), hmend]
    obtain ⟨⟨g, t, hram⟩, hiss⟩ := closeSlot_spec (s.emit (.readEntry i)) i hs
    have hclose : closeSlot (s.emit (.readEntry i)) i (s.flash.entries i) =
        { s with flash := g, trace := t } := hram
    refine ⟨⟨g, t, ?_⟩, ?_⟩
    · rw [heq, hclose]
      unfold takeOver
      dsimp only
      -- the counters take the maximum of what they have and what the entry says
      have htot : (if u32 ((s.flash.entries i).startRec + (s.flash.entries i).recCount) > s.totalAbs
          then u32 ((s.flash.entries i).startRec + (s.flash.entries i).recCount) else s.totalAbs) =
          endMax f s.totalAbs i := by
        rw [hstart, hrec, u32_of_lt hend, endMax, if_pos hv]
        split
        · rw [Nat.max_eq_right (by omega)]
        · rw [Nat.max_eq_left (by omega)]
      have hnext : (if (s.flash.entries i).seq ≥ s.seqNext then u32 ((s.flash.entries i).seq + 1)
          else s.seqNext) = nextMax f s.seqNext i := by
        rw [hseq, nextMax]
        by_cases hge : (f.entries i).seq ≥ s.seqNext
        · rw [if_pos hge, if_pos ⟨hv, hge⟩]
        · rw [if_neg hge, if_neg (fun hc => hge hc.2)]
      rw [htot, hnext]
    · rw [heq]
      exact (hread.trans hiss).trans (Issues.ram hiss.full rfl rfl)
  · have hskip : initSlot s i = s.emit (.readEntry i) := by
      unfold initSlot
      exact if_pos (fun hc => hv (hmagic.symm.trans hc))
    rw [hskip]
    have hmax : endMax f s.totalAbs i = s.totalAbs := if_neg hv
    have hnext : nextMax f s.seqNext i = s.seqNext := if_neg (fun hc => hv hc.1)
    rw [hmax, hnext]
    exact ⟨⟨_, _, rfl⟩, hread⟩

/-- **What the boot loop rebuilds and writes.** -/
theorem bootFold_spec {f : Flash} (hf : PlainCounts f) (l : List Nat)
    (hl : ∀ i ∈ l, i < maxSessions) :
    ∀ s : Log, Reopened f s.flash →
      (∃ g t, l.foldl initSlot s = { s with
          flash := g, trace := t, totalAbs := l.foldl (endMax f) s.totalAbs,
          seqNext := l.foldl (nextMax f) s.seqNext }) ∧
        Issues (Reopened f) s (l.foldl initSlot s) := by
  induction l with
  | nil => intro s hs; exact ⟨⟨s.flash, s.trace, rfl⟩, Issues.ram hs rfl rfl⟩
  | cons i l ih =>
    intro s hs
    obtain ⟨⟨g, t, h1⟩, hiss⟩ := initSlot_spec hf (hl i (by simp)) s hs
    obtain ⟨⟨g', t', h2⟩, hiss'⟩ := ih (fun k hk => hl k (by simp [hk])) (initSlot s i) hiss.full
    refine ⟨⟨g', t', ?_⟩, hiss.trans hiss'⟩
    rw [List.foldl_cons, h2, h1]
    rfl

/-- Booting from a directory of this firmware. -/
theorem bootLog_own {f : Flash} (hf : PlainCounts f) (hm : f.dirMeta = ownMeta) :
    (∃ g t, bootLog f = { Log.cold f with
        flash := g, trace := t, totalAbs := directoryEnd f, seqNext := directoryNext f }) ∧
      Issues (Reopened f) (Log.cold f) (bootLog f) := by
  have heq : bootLog f =
      (List.range maxSessions).foldl initSlot ((Log.cold f).emit .readMeta) := by
    unfold bootLog imuLogInit
    exact if_neg (fun hc => hc hm)
  have hread : Issues (Reopened f) (Log.cold f) ((Log.cold f).emit .readMeta) :=
    Issues.emit (Reopened.refl f) (Reopened.refl f)
  obtain ⟨⟨g, t, h1⟩, hiss⟩ := bootFold_spec hf (List.range maxSessions)
    (fun i hi => List.mem_range.mp hi) ((Log.cold f).emit .readMeta) (Reopened.refl f)
  rw [heq]
  exact ⟨⟨g, t, h1⟩, hread.trans hiss⟩

/-- The same, with the flash that the boot leaves. -/
theorem bootLog_over {f : Flash} (hf : PlainCounts f) (hm : f.dirMeta = ownMeta) :
    ∃ g t, bootLog f = { Log.cold f with
        flash := g, trace := t, totalAbs := directoryEnd f, seqNext := directoryNext f } ∧
      Reopened f g := by
  obtain ⟨⟨g, t, heq⟩, hiss⟩ := bootLog_own hf hm
  have hfull := hiss.full
  rw [heq] at hfull
  exact ⟨g, t, heq, hfull⟩

/-- Booting from anything else: every session slot is wiped. -/
theorem bootLog_foreign {f : Flash} (hm : f.dirMeta ≠ ownMeta) :
    bootLog f = dirWipeAndStamp ((Log.cold f).emit .readMeta) := by
  unfold bootLog imuLogInit
  exact if_pos hm

theorem bootLog_foreign_none {f : Flash} (hm : f.dirMeta ≠ ownMeta) (i : Nat) :
    ¬ ((bootLog f).flash.entries i).Valid := by
  rw [bootLog_foreign hm]
  exact dirWipe_none _ i

/-! ## `directoryEnd` and `directoryNext` are maxima -/

theorem endFold_le {f : Flash} {T : Nat} (l : List Nat)
    (h : ∀ i ∈ l, (f.entries i).Valid → (f.entries i).startRec + (f.entries i).recCount ≤ T) :
    ∀ m, m ≤ T → l.foldl (endMax f) m ≤ T := by
  induction l with
  | nil => intro m hm; exact hm
  | cons i l ih =>
    intro m hm
    refine ih (fun k hk => h k (by simp [hk])) _ ?_
    unfold endMax
    split
    · rename_i hv
      exact Nat.max_le.mpr ⟨hm, h i (by simp) hv⟩
    · exact hm

theorem le_endFold {f : Flash} (l : List Nat) :
    ∀ m, m ≤ l.foldl (endMax f) m ∧ ∀ i ∈ l, (f.entries i).Valid →
      (f.entries i).startRec + (f.entries i).recCount ≤ l.foldl (endMax f) m := by
  induction l with
  | nil => intro m; exact ⟨Nat.le_refl _, by simp⟩
  | cons i l ih =>
    intro m
    obtain ⟨hm, hl⟩ := ih (endMax f m i)
    have hstep : m ≤ endMax f m i := by
      unfold endMax
      split
      · exact Nat.le_max_left _ _
      · exact Nat.le_refl _
    refine ⟨Nat.le_trans hstep hm, fun k hk hv => ?_⟩
    rcases List.mem_cons.mp hk with rfl | hk
    · refine Nat.le_trans ?_ hm
      unfold endMax
      rw [if_pos hv]
      exact Nat.le_max_right _ _
    · exact hl k hk hv

/-- Every listed session ends at or before `directoryEnd`. -/
theorem le_directoryEnd {f : Flash} {i : Nat} (hi : i < maxSessions) (hv : (f.entries i).Valid) :
    (f.entries i).startRec + (f.entries i).recCount ≤ directoryEnd f :=
  (le_endFold (List.range maxSessions) 0).2 i (List.mem_range.mpr hi) hv

/-- And it is the least such bound. -/
theorem directoryEnd_le {f : Flash} {T : Nat}
    (h : ∀ i, i < maxSessions → (f.entries i).Valid →
      (f.entries i).startRec + (f.entries i).recCount ≤ T) : directoryEnd f ≤ T :=
  endFold_le _ (fun i hi hv => h i (List.mem_range.mp hi) hv) 0 (Nat.zero_le T)

/-- As long as no listed id is the last 32-bit value, the next id is above all of them. -/
theorem nextFold_spec {f : Flash} (l : List Nat)
    (h : ∀ i ∈ l, (f.entries i).Valid → (f.entries i).seq < 4294967295) :
    ∀ n, n ≤ l.foldl (nextMax f) n ∧ (n < 4294967296 → l.foldl (nextMax f) n < 4294967296) ∧
      ∀ i ∈ l, (f.entries i).Valid → (f.entries i).seq < l.foldl (nextMax f) n := by
  induction l with
  | nil => intro n; exact ⟨Nat.le_refl _, id, by simp⟩
  | cons i l ih =>
    intro n
    obtain ⟨hn, hlt, hl⟩ := ih (fun k hk => h k (by simp [hk])) (nextMax f n i)
    have hcase : n ≤ nextMax f n i ∧ (n < 4294967296 → nextMax f n i < 4294967296) ∧
        ((f.entries i).Valid → (f.entries i).seq < nextMax f n i) := by
      unfold nextMax
      split
      · rename_i hc
        have hseq := h i (by simp) hc.1
        rw [u32_of_lt (by omega)]
        omega
      · rename_i hc
        refine ⟨Nat.le_refl _, id, fun hv => ?_⟩
        have hnge : ¬ (f.entries i).seq ≥ n := fun hge => hc ⟨hv, hge⟩
        omega
    refine ⟨Nat.le_trans hcase.1 hn, fun hb => hlt (hcase.2.1 hb), fun k hk hv => ?_⟩
    rcases List.mem_cons.mp hk with rfl | hk
    · exact Nat.lt_of_lt_of_le (hcase.2.2 hv) hn
    · exact hl k hk hv

theorem directoryNext_spec {f : Flash}
    (h : ∀ i, i < maxSessions → (f.entries i).Valid → (f.entries i).seq < 4294967295) :
    1 ≤ directoryNext f ∧ directoryNext f < 4294967296 ∧
      ∀ i, i < maxSessions → (f.entries i).Valid → (f.entries i).seq < directoryNext f := by
  obtain ⟨h1, h2, h3⟩ := nextFold_spec (f := f) (List.range maxSessions)
    (fun i hi hv => h i (List.mem_range.mp hi) hv) 1
  exact ⟨h1, h2 (by decide), fun i hi hv => h3 i (List.mem_range.mpr hi) hv⟩

/-- Without that assumption it is still a 32-bit word. -/
theorem directoryNext_lt (f : Flash) : directoryNext f < 4294967296 := by
  have hfold : ∀ (l : List Nat) (n : Nat), n < 4294967296 →
      l.foldl (nextMax f) n < 4294967296 := by
    intro l
    induction l with
    | nil => intro n hn; exact hn
    | cons i l ih =>
      intro n hn
      refine ih _ ?_
      unfold nextMax
      split
      · exact u32_lt _
      · exact hn
  exact hfold _ 1 (by decide)

end Caterpillar.ImuLog
