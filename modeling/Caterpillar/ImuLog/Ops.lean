/-
  The IMU sample log, function by function (src/imu/imu_log.c).

  `Log` holds the file's statics next to the flash image they describe.  Every function of the
  source is one definition here, under the source's name:

  * directory helpers   `dirWipeAndStamp`, `entryInvalidate`, `ringFloor`, `invalidateConsumed`,
                        `dirRefreshCurrent`
  * writer thread       `writerDrainBatch`
  * public interface    `imuLogInit`, `imuLogStart`, `imuLogStop`, `imuLogErase`,
                        `imuLogMarkDetached`, `imuLogAppend`, `imuLogReadSession` and the getters

  Loops over the directory are folds over `List.range maxSessions` of a one-slot function; the
  read loop of a dump is a recursion on the bytes still wanted.  `u32` marks every place where the
  source's 32-bit arithmetic can wrap.  What the source obtains from elsewhere is an argument: the
  clock and the settings stamped into a new entry (`Stamp`), and the driver's return value of the
  two flash writes whose failure the source handles or the claims speak about (`ret`); directory
  rewrites, which the source casts to void, succeed.  `writer_flush` only waits for the writer
  thread, so `imu_log_stop` is modelled by its locked part and the wait is left to the scheduler.
-/
import Caterpillar.ImuLog.Flash

namespace Caterpillar.ImuLog

open Caterpillar.Word Caterpillar.Ring Caterpillar.Runs Caterpillar.Imu

/-- The statics of imu_log.c, the flash they describe, and the accesses of the current call. -/
structure Log where
  flash : Flash
  /-- `total_abs`: records ever written (ring position). -/
  totalAbs : Nat
  seqNext : Nat
  active : Bool
  sessionDetached : Bool
  curSeq : Nat
  /-- `cur_start`, absolute. -/
  curStart : Nat
  curCount : Nat
  curSlot : Nat
  lastDirRefresh : Nat
  /-- Staging ring by slot. -/
  stage : Nat → ImuSample
  stageHead : Nat
  stageTail : Nat
  logDropped : Nat
  trace : List Ev

/-- The statics as the C runtime initialises them at reset, over whatever the flash holds. -/
def Log.cold (f : Flash) : Log where
  flash := f
  totalAbs := 0
  seqNext := 1
  active := false
  sessionDetached := false
  curSeq := 0
  curStart := 0
  curCount := 0
  curSlot := 0
  lastDirRefresh := 0
  stage := fun _ => default
  stageHead := 0
  stageTail := 0
  logDropped := 0
  trace := []

/-- Issue one access. -/
def Log.emit (s : Log) (ev : Ev) : Log :=
  { s with flash := ev.effect s.flash, trace := s.trace ++ [ev] }

/-! ## Directory helpers -/

/-- `dir_wipe_and_stamp`: wipe every session slot and stamp the directory. -/
def dirWipeAndStamp (s : Log) : Log := (s.emit .wipeDir).emit (.writeMeta ownMeta)

/-- `entry_invalidate`. -/
def entryInvalidate (s : Log) (slot : Nat) : Log := s.emit (.writeEntry slot DirEntry.invalid 0)

/-- `ring_floor`: oldest absolute record still physically present in the ring. -/
def Log.ringFloor (s : Log) : Nat :=
  if s.totalAbs > recCapacity then s.totalAbs - recCapacity else 0

/-- One iteration of the loop of `invalidate_consumed`. -/
def consumeSlot (floor : Nat) (s : Log) (i : Nat) : Log :=
  if s.active = true ∧ i = s.curSlot then s
  else
    let e := s.flash.entries i
    let s := s.emit (.readEntry i)
    if ¬ e.Valid then s
    else if e.startRec < floor then
      (entryInvalidate s i).emit (.msg (.removed e.seq s.curSeq))
    else s

/-- `invalidate_consumed`: drop the entries whose data the write head has reached. -/
def invalidateConsumed (s : Log) : Log :=
  (List.range maxSessions).foldl (consumeSlot s.ringFloor) s

/-- `dir_refresh_current`. -/
def dirRefreshCurrent (s : Log) (closing : Bool) : Log :=
  let e := s.flash.entries s.curSlot
  let s := s.emit (.readEntry s.curSlot)
  if ¬ e.Valid then s
  else
    let e := { e with recCount := s.curCount, isOpen := if closing then 0 else 1 }
    let s := s.emit (.writeEntry s.curSlot e 0)
    { s with lastDirRefresh := s.curCount }

/-! ## Writer thread -/

/-- The records `writer_drain_batch` copies out of the staging ring. -/
def Log.stagedBatch (s : Log) (n : Nat) : List ImuSample :=
  (List.range n).map fun i => s.stage (u32 (s.stageTail + i) % stageN)

/-- The batch size of `writer_drain_batch`: what is staged, at most a batch, clamped to the ring
    wrap. -/
def Log.drainCount (s : Log) : Nat :=
  min (min (u32Sub s.stageHead s.stageTail) batchRecs) (recCapacity - s.totalAbs % recCapacity)

/-- `writer_drain_batch`: drain up to `BATCH_RECS` staged records into flash as one write call;
    `ret` is what that write returns (a failure is only logged). -/
def writerDrainBatch (s : Log) (ret : Int) : Log :=
  let avail := u32Sub s.stageHead s.stageTail
  if min avail batchRecs = 0 then s
  else
    let ringPos := s.totalAbs % recCapacity
    let n := s.drainCount
    let batch := s.stagedBatch n
    let s := s.emit (.writeData (ringPos * recSize) (recordBytes batch) ret)
    let s := { s with
      stageTail := u32 (s.stageTail + n)
      totalAbs := u32 (s.totalAbs + n)
      curCount := u32 (s.curCount + n) }
    if u32Sub s.curCount s.lastDirRefresh ≥ dirRefreshRecs then
      invalidateConsumed (dirRefreshCurrent s false)
    else s

/-! ## Public interface -/

/-- An all-ones count means the session died before the first refresh. -/
def DirEntry.mended (e : DirEntry) : DirEntry :=
  if e.recCount = 0xFFFFFFFF then { e with recCount := 0 } else e

/-- Close a session cut off by the reset. -/
def closeSlot (s : Log) (i : Nat) (e : DirEntry) : Log :=
  if e.isOpen ≠ 0 then s.emit (.writeEntry i { e with isOpen := 0 } 0) else s

/-- Take the ring position and the next session id over from an entry. -/
def takeOver (s : Log) (e : DirEntry) : Log :=
  { s with
    totalAbs :=
      if u32 (e.startRec + e.recCount) > s.totalAbs then u32 (e.startRec + e.recCount)
      else s.totalAbs
    seqNext := if e.seq ≥ s.seqNext then u32 (e.seq + 1) else s.seqNext }

/-- One iteration of the directory loop of `imu_log_init`. -/
def initSlot (s : Log) (i : Nat) : Log :=
  let e := s.flash.entries i
  let s := s.emit (.readEntry i)
  if ¬ e.Valid then s
  else takeOver (closeSlot s i e.mended) e.mended

/-- `imu_log_init`, over freshly reset statics. -/
def imuLogInit (s : Log) : Log :=
  let m := s.flash.dirMeta
  let s := s.emit .readMeta
  if m ≠ ownMeta then dirWipeAndStamp s
  else (List.range maxSessions).foldl initSlot s

/-- What `imu_log_start` stamps into the new entry: `session_wall_now()` and four settings. -/
structure Stamp where
  wallStart : Nat
  odrCode : UInt8
  content : UInt8
  accelFs : UInt8
  gyroFs : UInt8
  deriving DecidableEq, Repr

/-- The entry `imu_log_start` writes. -/
def newEntry (seq startRec : Nat) (st : Stamp) : DirEntry where
  magic := entryMagic
  seq := seq
  startRec := startRec
  recCount := 0
  wallStart := st.wallStart
  odrCode := st.odrCode
  content := st.content
  accelFs := st.accelFs
  gyroFs := st.gyroFs
  policy := policyCircular
  isOpen := 1

/-- `-EBUSY`. -/
def eBusy : Int := -16

/-- `imu_log_start`; `ret` is what the entry write returns.  The second component is the function's
    own return value. -/
def imuLogStart (s : Log) (st : Stamp) (ret : Int) : Log × Int :=
  if s.active then (s, eBusy)
  else
    let seq := s.seqNext
    let s := { s with
      curSeq := seq
      seqNext := u32 (seq + 1)
      curSlot := slotOf seq
      curStart := s.totalAbs
      curCount := 0
      lastDirRefresh := 0
      stageTail := s.stageHead
      logDropped := 0 }
    let s := s.emit (.writeEntry s.curSlot (newEntry s.curSeq s.curStart st) ret)
    if ret < 0 then (s, ret)
    else ({ s with active := true }, 0)

/-- The locked part of `imu_log_stop`, after the flush. -/
def stopClose (s : Log) : Log :=
  if s.active then dirRefreshCurrent { s with active := false, sessionDetached := false } true
  else s

/-- `imu_log_stop` as one atomic call. -/
def imuLogStop (s : Log) : Log := stopClose s

/-- The locked part of `imu_log_erase`, after its call of `imu_log_stop`. -/
def eraseWipe (s : Log) : Log :=
  { dirWipeAndStamp s with totalAbs := 0, seqNext := 1, curCount := 0 }

/-- `imu_log_erase` as one atomic call. -/
def imuLogErase (s : Log) : Log := eraseWipe (imuLogStop s)

/-- `imu_log_active`. -/
def imuLogActive (s : Log) : Bool := s.active

/-- `imu_log_mark_detached`. -/
def imuLogMarkDetached (s : Log) : Log := { s with sessionDetached := true }

/-- `imu_log_detached`. -/
def imuLogDetached (s : Log) : Bool := s.active && s.sessionDetached

/-- `imu_log_records_total`. -/
def imuLogRecordsTotal (s : Log) : Nat := s.curCount

/-- `imu_log_write_dropped`. -/
def imuLogWriteDropped (s : Log) : Nat := s.logDropped

/-- One iteration of the staging loop of `imu_log_append`. -/
def appendOne (s : Log) (x : ImuSample) : Log :=
  if u32Sub s.stageHead s.stageTail ≥ stageN then { s with logDropped := u32 (s.logDropped + 1) }
  else { s with
    stage := Function.update s.stage (s.stageHead % stageN) x
    stageHead := u32 (s.stageHead + 1) }

/-- `imu_log_append`: stage only — no lock, no flash. -/
def imuLogAppend (s : Log) (xs : List ImuSample) : Log :=
  if s.active then xs.foldl appendOne s else s

/-! ## Dump -/

/-- `phys_rw(off, buf, len, false)`. -/
def Flash.readData (f : Flash) (off len : Nat) : List UInt8 :=
  (List.range len).map fun k => f.data (off + k)

/-- Ring offset of an absolute byte position, as the read loop reduces it. -/
def ringOff (absByte : Nat) : Nat := absByte % dataCapacity

theorem ringOff_lt (absByte : Nat) : ringOff absByte < dataCapacity := Nat.mod_lt _ (by decide)

/-- The read loop of `imu_log_read_session`: `len` bytes from `absByte` on, in contiguous spans. -/
def readLoop (f : Flash) (absByte len : Nat) : List UInt8 :=
  if len = 0 then []
  else
    let span := min len (dataCapacity - ringOff absByte)
    f.readData (ringOff absByte) span ++ readLoop f (u32 (absByte + span)) (len - span)
termination_by len
decreasing_by
  have := ringOff_lt absByte
  omega

/-- First entry slot that holds session `seq`. -/
def Flash.findSession (f : Flash) (seq : Nat) : Option Nat :=
  (List.range maxSessions).find? fun i => (f.entries i).Valid ∧ (f.entries i).seq = seq

/-- The record count a reader goes by: the live count for the running session, the stored one
    otherwise. -/
def Log.liveCount (s : Log) (i : Nat) : Nat :=
  if s.active = true ∧ i = s.curSlot then s.curCount else (s.flash.entries i).recCount

/-- First record of slot `i` that survives in the ring. -/
def Log.clippedStart (s : Log) (i : Nat) : Nat :=
  if (s.flash.entries i).startRec < s.ringFloor then s.ringFloor else (s.flash.entries i).startRec

/-- Absolute byte position at which a read at `offset` into records from `start` on begins. -/
def sessionByte (start offset : Nat) : Nat := u32 (u32 (start * recSize) + offset)

/-- `imu_log_read_session`: the bytes delivered; their number is the return value. -/
def imuLogReadSession (s : Log) (seq offset len : Nat) : List UInt8 :=
  match s.flash.findSession seq with
  | none => []
  | some i =>
      let start := s.clippedStart i
      let stop := u32 ((s.flash.entries i).startRec + s.liveCount i)
      if stop ≤ start then []
      else
        let avail := u32 ((stop - start) * recSize)
        if offset ≥ avail then []
        else readLoop s.flash (sessionByte start offset) (min len (avail - offset))

end Caterpillar.ImuLog
