/-
  The flash region of the IMU log (src/imu/imu_log.c): geometry, directory entries, and the trace of
  accesses an operation issues.

  Physical layout, absolute flash offsets:

      0xB9000 .. 0xBA000    reserved for MCUboot, never written
      0xBA000 .. 0xBA220    directory: one 32-byte meta block + 16 session entries of 32 bytes
      0xBA220 .. 0x163F80   record ring, 43478 records of 16 bytes
      0x163F80 .. 0x164000  reserved (MCUboot trailer)

  The image is modelled by its three parts — meta block, entries by slot, ring BYTES by offset — and
  every access goes through the inductive `Ev`, which also records the message lines an operation
  announces.  An operation leaves its accesses in a trace in issue order; `Ev.effect` is what one of
  them does to the image, so the image a power cut leaves after the first `k` accesses is
  `Runs.replay Ev.effect (trace.take k)` of the image before.
-/
import Caterpillar.Lib.Word
import Caterpillar.Lib.Ring
import Caterpillar.Lib.Runs
import Caterpillar.Imu.Sample

namespace Caterpillar.ImuLog

open Caterpillar.Word Caterpillar.Ring Caterpillar.Runs Caterpillar.Imu

/-! ## Geometry -/

/-- `IMU_LOG_MAX_SESSIONS`: directory slots. -/
def maxSessions : Nat := 16

/-- `REGION_A_BASE`: start of the MCUboot secondary slot. -/
def regionABase : Nat := 0xB9000
/-- `REGION_A_SIZE`: its size. -/
def regionASize : Nat := 0xAB000
/-- `TRAILER_RESERVE`: bytes kept free for the MCUboot trailer. -/
def trailerReserve : Nat := 128
/-- `HDR_RESERVE`: MCUboot's header erase block. -/
def hdrReserve : Nat := 0x1000
/-- `ENTRY_SIZE`: bytes of a directory entry, and of the meta block. -/
def entrySize : Nat := 32
/-- `DIR_BASE`: where the directory starts. -/
def dirBase : Nat := regionABase + hdrReserve
/-- `DIR_BYTES`: meta block and session entries. -/
def dirBytes : Nat := (maxSessions + 1) * entrySize
/-- `DATA_CAPACITY`: bytes of the record ring. -/
def dataCapacity : Nat := regionASize - hdrReserve - dirBytes - trailerReserve
/-- `REC_CAPACITY`: records of the record ring. -/
def recCapacity : Nat := dataCapacity / recSize
/-- `DATA_BASE`: where the record ring starts. -/
def dataBase : Nat := dirBase + dirBytes

/-- `ENTRY_MAGIC`, "SESS". -/
def entryMagic : Nat := 0x53455353
/-- `META_MAGIC`, "CLOG". -/
def metaMagic : Nat := 0x474F4C43
/-- `META_LAYOUT`: single-region ring. -/
def metaLayout : Nat := 2
/-- `FW_VERSION_WORD` of the modelled firmware, v1.5.1. -/
def fwVersionWord : Nat := 0x010501

/-- `STAGE_N`: staged records. -/
def stageN : Nat := 1536
/-- `BATCH_RECS`: records per flash write. -/
def batchRecs : Nat := 256
/-- `DIR_REFRESH_RECS`: the entry's count is persisted every that many records. -/
def dirRefreshRecs : Nat := 512
/-- `IMU_LOG_POLICY_CIRCULAR`. -/
def policyCircular : UInt8 := 1

theorem dataCapacity_eq : dataCapacity = 695648 := rfl
theorem recCapacity_eq : recCapacity = 43478 := rfl
theorem recSize_eq : recSize = 16 := rfl
theorem stageN_eq : stageN = 1536 := rfl
theorem batchRecs_eq : batchRecs = 256 := rfl
theorem dirRefreshRecs_eq : dirRefreshRecs = 512 := rfl

/-! ## Directory -/

/-- `struct dir_meta`. -/
structure DirMeta where
  magic : Nat
  layout : Nat
  fwVersion : Nat
  deriving DecidableEq, Repr

/-- `struct dir_entry`. -/
structure DirEntry where
  magic : Nat
  seq : Nat
  startRec : Nat
  recCount : Nat
  wallStart : Nat
  odrCode : UInt8
  content : UInt8
  accelFs : UInt8
  gyroFs : UInt8
  policy : UInt8
  isOpen : UInt8
  deriving DecidableEq, Repr

/-- An entry slot that reads all `0xFF`. -/
def DirEntry.erased : DirEntry :=
  ⟨0xFFFFFFFF, 0xFFFFFFFF, 0xFFFFFFFF, 0xFFFFFFFF, 0xFFFFFFFF, 0xFF, 0xFF, 0xFF, 0xFF, 0xFF, 0xFF⟩

/-- What `entry_invalidate` writes: all `0xFF` with the magic cleared. -/
def DirEntry.invalid : DirEntry := { DirEntry.erased with magic := 0 }

/-- The test every reader of the directory makes: `e.magic == ENTRY_MAGIC`. -/
def DirEntry.Valid (e : DirEntry) : Prop := e.magic = entryMagic

instance (e : DirEntry) : Decidable e.Valid := inferInstanceAs (Decidable (e.magic = entryMagic))

theorem DirEntry.not_valid_erased : ¬ DirEntry.erased.Valid := by decide

theorem DirEntry.not_valid_invalid : ¬ DirEntry.invalid.Valid := by decide

/-- `entry_addr`: flash offset of a session entry (slot 0 after the meta block). -/
def entryAddr (slot : Nat) : Nat := dirBase + (slot + 1) * entrySize

/-- Directory slot a session id is filed in: `(seq - 1) % IMU_LOG_MAX_SESSIONS`. -/
def slotOf (seq : Nat) : Nat := u32Sub seq 1 % maxSessions

theorem slotOf_lt (seq : Nat) : slotOf seq < maxSessions := Nat.mod_lt _ (by decide)

/-- The log's part of the flash. -/
structure Flash where
  /-- Directory meta block. -/
  dirMeta : DirMeta
  /-- Session entries by slot. -/
  entries : Nat → DirEntry
  /-- Record ring by byte offset from `DATA_BASE`. -/
  data : Nat → UInt8

/-- The stamp of a directory owned by the running firmware. -/
def ownMeta : DirMeta := ⟨metaMagic, metaLayout, fwVersionWord⟩

/-! ## Accesses and announcements -/

/-- Message lines the log announces with `ble_msg`. -/
inductive Msg where
  /-- "session #seq overwritten by session #bySeq — removed". -/
  | removed (seq bySeq : Nat)
  deriving DecidableEq, Repr

/-- One flash access or message line; a write carries the driver's return value, and a negative one
    leaves the flash unchanged. -/
inductive Ev where
  | readMeta
  | readEntry (slot : Nat)
  | writeEntry (slot : Nat) (e : DirEntry) (ret : Int)
  /-- First write of `dir_wipe_and_stamp`: the whole directory to `0xFF`. -/
  | wipeDir
  /-- Second write of `dir_wipe_and_stamp`: the meta block. -/
  | writeMeta (m : DirMeta)
  /-- `phys_rw(off, …, true)`. -/
  | writeData (off : Nat) (bs : List UInt8) (ret : Int)
  | msg (m : Msg)

/-- The meta block as it reads after the directory was set to `0xFF`. -/
def DirMeta.erased : DirMeta := ⟨0xFFFFFFFF, 0xFFFFFFFF, 0xFFFFFFFF⟩

/-- Effect of one access on the image. -/
def Ev.effect : Ev → Flash → Flash
  | .writeEntry slot e ret, f =>
      if ret < 0 then f else { f with entries := fun i => if i = slot then e else f.entries i }
  | .wipeDir, f => { f with dirMeta := DirMeta.erased, entries := fun _ => DirEntry.erased }
  | .writeMeta m, f => { f with dirMeta := m }
  | .writeData off bs ret, f => if ret < 0 then f else { f with data := put f.data off bs }
  | .readMeta, f => f
  | .readEntry _, f => f
  | .msg _, f => f

@[simp] theorem effect_readMeta (f : Flash) : Ev.readMeta.effect f = f := rfl
@[simp] theorem effect_readEntry (i : Nat) (f : Flash) : (Ev.readEntry i).effect f = f := rfl
@[simp] theorem effect_msg (m : Msg) (f : Flash) : (Ev.msg m).effect f = f := rfl

/-- A successful entry write, read back at any slot. -/
theorem effect_writeEntry_entries {ret : Int} (hret : ¬ ret < 0) (slot : Nat) (e : DirEntry)
    (f : Flash) (i : Nat) :
    ((Ev.writeEntry slot e ret).effect f).entries i = if i = slot then e else f.entries i := by
  simp only [Ev.effect, if_neg hret]

@[simp] theorem effect_writeEntry_data (slot : Nat) (e : DirEntry) (ret : Int) (f : Flash) :
    ((Ev.writeEntry slot e ret).effect f).data = f.data := by
  simp only [Ev.effect]; split <;> rfl

@[simp] theorem effect_writeData_entries (off : Nat) (bs : List UInt8) (ret : Int) (f : Flash) :
    ((Ev.writeData off bs ret).effect f).entries = f.entries := by
  simp only [Ev.effect]; split <;> rfl

end Caterpillar.ImuLog
