/-
  Where the firmware touches the flash.

  MCUboot owns the block in front of the log's directory and the trailer behind its ring, and the
  settings live behind those.  An access outside its region bricks the update slot, or is lost.

  1. `Access`, `Inside` — an access with the region it is meant for, and the bounds of the regions.
  2. `Ev.access` — the accesses of the log's operations, read off their traces; `readAccesses` and
     `listAccesses` — those of the two readers, which `readAccesses_delivered` ties to the bytes
     `imu_log_read_session` delivers.
  3. `Bounded` — an operation issues nothing outside.  The only static an address depends on is
     `cur_slot`: positions are reduced modulo the ring before they become addresses.
  4. `all_inside` — over every run of boots, log operations, readers and settings writes, whatever
     the flash holds at a boot.
-/
import Caterpillar.ImuLog.Listing
import Caterpillar.Settings.Upgrade

namespace Caterpillar.App.FlashMap

open Caterpillar.Word Caterpillar.Ring Caterpillar.Runs Caterpillar.Bytes Caterpillar.Imu
open Caterpillar.ImuLog Caterpillar.Settings
open Caterpillar.Settings.Upgrade (slotSize sizeofStoreRec)

/-! ## Regions -/

/-- What an access is meant for. -/
inductive Region where
  | directory
  | records
  | settings
  deriving DecidableEq

/-- The bytes of a region: from the first, to the one behind the last. -/
def Region.bounds : Region → Nat × Nat
  | .directory => (0xBA000, 0xBA000 + 544)
  | .records => (0xBA000 + 544, 0x163F80)
  | .settings => (0x164000, 0x164200)

/-- A `flash_read` or `flash_write`. -/
structure Access where
  region : Region
  addr : Nat
  len : Nat
  deriving DecidableEq

/-- The access stays in its region. -/
def Access.Inside (a : Access) : Prop :=
  a.region.bounds.1 ≤ a.addr ∧ a.addr + a.len ≤ a.region.bounds.2

/-! ## The accesses of the log -/

/-- `entry_read` or `entry_write`. -/
def entryAccess (slot : Nat) : Access := ⟨.directory, entryAddr slot, entrySize⟩

/-- `phys_rw`. -/
def physRw (off len : Nat) : Access := ⟨.records, dataBase + off, len⟩

/-- The access behind an event of the log's trace. -/
def access : Ev → Option Access
  | .readMeta => some ⟨.directory, dirBase, entrySize⟩
  | .readEntry slot => some (entryAccess slot)
  | .writeEntry slot _ _ => some (entryAccess slot)
  | .wipeDir => some ⟨.directory, dirBase, dirBytes⟩
  | .writeMeta _ => some ⟨.directory, dirBase, entrySize⟩
  | .writeData off bs _ => some (physRw off bs.length)
  | .msg _ => none

/-- The reads of the entries up to slot `n`. -/
def entryReads (n : Nat) : List Access := (List.range n).map entryAccess

/-- The reads of `imu_log_session_list`. -/
def listAccesses : List Access := entryReads maxSessions

/-- The reads of the loop of `imu_log_read_session`. -/
def spanReads (absByte len : Nat) : List Access :=
  if len = 0 then []
  else
    let span := min len (dataCapacity - ringOff absByte)
    physRw (ringOff absByte) span :: spanReads (u32 (absByte + span)) (len - span)
termination_by len
decreasing_by
  have := ringOff_lt absByte
  omega

/-- The reads of `imu_log_read_session`. -/
def readAccesses (s : Log) (seq offset len : Nat) : List Access :=
  match s.flash.findSession seq with
  | none => entryReads maxSessions
  | some i =>
      let start := s.clippedStart i
      let stop := u32 ((s.flash.entries i).startRec + s.liveCount i)
      entryReads (i + 1) ++
        if stop ≤ start then []
        else
          let avail := u32 ((stop - start) * recSize)
          if offset ≥ avail then []
          else spanReads (sessionByte start offset) (min len (avail - offset))

/-- The ring bytes an access delivers. -/
def delivered (f : Flash) (a : Access) : List UInt8 :=
  match a.region with
  | .records => f.readData (a.addr - dataBase) a.len
  | _ => []

theorem delivered_entryReads (f : Flash) (n : Nat) : (entryReads n).flatMap (delivered f) = [] := by
  rw [List.flatMap_eq_nil_iff]
  intro a ha
  obtain ⟨i, -, rfl⟩ := List.mem_map.mp ha
  rfl

theorem delivered_physRw (f : Flash) (off len : Nat) :
    delivered f (physRw off len) = f.readData off len := by
  show f.readData (dataBase + off - dataBase) len = _
  rw [Nat.add_sub_cancel_left]

/-- The read loop delivers what its reads deliver. -/
theorem spanReads_delivered (f : Flash) (absByte len : Nat) :
    (spanReads absByte len).flatMap (delivered f) = readLoop f absByte len := by
  fun_induction spanReads absByte len with
  | case1 absByte => rw [readLoop, if_pos rfl, List.flatMap_nil]
  | case2 absByte len hne span ih =>
    rw [readLoop, if_neg hne, List.flatMap_cons, delivered_physRw, ih]

/-- **The bytes of a dump are those of the accesses.** -/
theorem readAccesses_delivered (s : Log) (seq offset len : Nat) :
    (readAccesses s seq offset len).flatMap (delivered s.flash) =
      imuLogReadSession s seq offset len := by
  unfold readAccesses imuLogReadSession
  cases s.flash.findSession seq with
  | none => exact delivered_entryReads s.flash maxSessions
  | some i =>
    dsimp only
    rw [List.flatMap_append, delivered_entryReads, List.nil_append]
    split
    · rfl
    · split
      · rfl
      · exact spanReads_delivered s.flash _ _

/-! ## Addresses -/

/-- The slot `cur_slot` starts from. -/
theorem slot_zero : 0 < maxSessions := by decide

theorem inside_entry {slot : Nat} (h : slot < maxSessions) : (entryAccess slot).Inside := by
  have hslot : slot < 16 := h
  have haddr : entryAddr slot = 0xBA000 + (slot + 1) * 32 := rfl
  constructor
  · show 0xBA000 ≤ entryAddr slot
    omega
  · show entryAddr slot + 32 ≤ 0xBA000 + 544
    omega

theorem inside_physRw {off len : Nat} (h : off + len ≤ dataCapacity) : (physRw off len).Inside := by
  have hcap : dataCapacity = 695648 := rfl
  have hbase : dataBase = 0xBA000 + 544 := rfl
  constructor
  · show 0xBA000 + 544 ≤ dataBase + off
    omega
  · show dataBase + off + len ≤ 0x163F80
    omega

theorem inside_entryReads {n : Nat} (h : n ≤ maxSessions) : ∀ a ∈ entryReads n, a.Inside := by
  intro a ha
  obtain ⟨i, hi, rfl⟩ := List.mem_map.mp ha
  exact inside_entry (Nat.lt_of_lt_of_le (List.mem_range.mp hi) h)

/-- **Every span ends at the physical end of the ring at the latest.** -/
theorem inside_spanReads (absByte len : Nat) : ∀ a ∈ spanReads absByte len, a.Inside := by
  fun_induction spanReads absByte len with
  | case1 absByte => exact fun a ha => absurd ha List.not_mem_nil
  | case2 absByte len hne span ih =>
    have hoff := ringOff_lt absByte
    intro a ha
    rcases List.mem_cons.mp ha with rfl | ha
    · exact inside_physRw (by omega)
    · exact ih a ha

theorem inside_readAccesses (s : Log) (seq offset len : Nat) :
    ∀ a ∈ readAccesses s seq offset len, a.Inside := by
  unfold readAccesses
  cases hfind : s.flash.findSession seq with
  | none => exact inside_entryReads (Nat.le_refl _)
  | some i =>
    have hi : i < maxSessions := List.mem_range.mp (List.mem_of_find?_eq_some hfind)
    intro a ha
    rcases List.mem_append.mp ha with ha | ha
    · exact inside_entryReads hi a ha
    · split at ha
      · exact absurd ha List.not_mem_nil
      · dsimp only at ha
        split at ha
        · exact absurd ha List.not_mem_nil
        · exact inside_spanReads _ _ a ha

/-! ## The log's operations -/

/-- The accesses issued so far are inside, and the running session's slot is one of the directory. -/
structure Bounded (s : Log) : Prop where
  slot : s.curSlot < maxSessions
  trace : ∀ a ∈ s.trace.filterMap access, a.Inside

theorem Bounded.emit {s : Log} (h : Bounded s) {e : Ev} (he : ∀ a, access e = some a → a.Inside) :
    Bounded (s.emit e) := by
  refine ⟨h.slot, fun a ha => ?_⟩
  obtain ⟨e', hmem, hacc⟩ := List.mem_filterMap.mp ha
  rcases List.mem_append.mp hmem with hmem | hmem
  · exact h.trace a (List.mem_filterMap.mpr ⟨e', hmem, hacc⟩)
  · obtain rfl := List.mem_singleton.mp hmem
    exact he a hacc

/-- What leaves slot and trace alone issues nothing. -/
theorem Bounded.congr {s s' : Log} (h : Bounded s) (hslot : s'.curSlot = s.curSlot)
    (htrace : s'.trace = s.trace) : Bounded s' :=
  ⟨by rw [hslot]; exact h.slot, by rw [htrace]; exact h.trace⟩

theorem Bounded.readEntry {s : Log} (h : Bounded s) {i : Nat} (hi : i < maxSessions) :
    Bounded (s.emit (.readEntry i)) :=
  h.emit fun _ ha => Option.some.inj ha ▸ inside_entry hi

theorem Bounded.writeEntry {s : Log} (h : Bounded s) {i : Nat} (hi : i < maxSessions) (e : DirEntry)
    (ret : Int) : Bounded (s.emit (.writeEntry i e ret)) :=
  h.emit fun _ ha => Option.some.inj ha ▸ inside_entry hi

/-- A loop over the directory. -/
theorem Bounded.foldl {step : Log → Nat → Log}
    (hstep : ∀ s i, i < maxSessions → Bounded s → Bounded (step s i)) {s : Log} (h : Bounded s) :
    Bounded ((List.range maxSessions).foldl step s) := by
  have hloop : ∀ l : List Nat, (∀ i ∈ l, i < maxSessions) → ∀ s, Bounded s → Bounded (l.foldl step s) := by
    intro l
    induction l with
    | nil => exact fun _ _ hs => hs
    | cons i l ih =>
      intro hl s hs
      refine ih (fun j hj => hl j (List.mem_cons_of_mem i hj)) _ ?_
      exact hstep s i (hl i List.mem_cons_self) hs
  exact hloop _ (fun i hi => List.mem_range.mp hi) s h

theorem bounded_wipe {s : Log} (h : Bounded s) : Bounded (dirWipeAndStamp s) := by
  have hwipe : (⟨.directory, dirBase, dirBytes⟩ : Access).Inside := ⟨by decide, by decide⟩
  have hmeta : (⟨.directory, dirBase, entrySize⟩ : Access).Inside := ⟨by decide, by decide⟩
  unfold dirWipeAndStamp
  apply Bounded.emit
  · exact h.emit fun _ ha => Option.some.inj ha ▸ hwipe
  · exact fun _ ha => Option.some.inj ha ▸ hmeta

theorem bounded_consumeSlot (floor : Nat) (s : Log) (i : Nat) (hi : i < maxSessions)
    (h : Bounded s) : Bounded (consumeSlot floor s i) := by
  unfold consumeSlot
  split
  · exact h
  · dsimp only
    split
    · exact h.readEntry hi
    · split
      · apply Bounded.emit
        · exact (h.readEntry hi).writeEntry hi _ _
        · exact fun _ ha => absurd ha (by simp [access])
      · exact h.readEntry hi

theorem bounded_refresh {s : Log} (h : Bounded s) (closing : Bool) :
    Bounded (dirRefreshCurrent s closing) := by
  unfold dirRefreshCurrent
  dsimp only
  split
  · exact h.readEntry h.slot
  · exact ((h.readEntry h.slot).writeEntry h.slot _ 0).congr rfl rfl

/-- **The batch ends at the physical end of the ring at the latest.** -/
theorem bounded_drain {s : Log} (h : Bounded s) (ret : Int) : Bounded (writerDrainBatch s ret) := by
  by_cases hne : u32Sub s.stageHead s.stageTail = 0
  · rw [writerDrainBatch_empty s ret hne]
    exact h
  · have hfits := drainCount_fits s
    have hcap : recCapacity * 16 = dataCapacity := rfl
    have hlen : (recordBytes (s.stagedBatch s.drainCount)).length = 16 * s.drainCount := by
      rw [recordBytes_length, stagedBatch_length]
    have hdata : Bounded (s.drained ret) := by
      refine (h.emit (e := s.drainWrite ret) fun _ ha => ?_).congr rfl rfl
      obtain rfl := Option.some.inj ha
      refine inside_physRw ?_
      rw [hlen]
      show s.totalAbs % recCapacity * 16 + 16 * s.drainCount ≤ dataCapacity
      omega
    rw [writerDrainBatch_eq s ret hne]
    split
    · exact (bounded_refresh hdata false).foldl (bounded_consumeSlot _)
    · exact hdata

theorem bounded_stop {s : Log} (h : Bounded s) : Bounded (imuLogStop s) := by
  unfold imuLogStop stopClose
  split
  · refine bounded_refresh ?_ true
    exact h.congr rfl rfl
  · exact h

/-- Any session id has a slot of the directory, 0 included. -/
theorem bounded_start {s : Log} (h : Bounded s) (st : Stamp) (ret : Int) :
    Bounded (imuLogStart s st ret).1 := by
  have hclaimed : Bounded s.claimed := ⟨slotOf_lt s.seqNext, h.trace⟩
  have hwrite := hclaimed.writeEntry (slotOf_lt s.seqNext) (newEntry s.seqNext s.totalAbs st) ret
  unfold imuLogStart
  split
  · exact h
  · dsimp only
    split
    · exact hwrite
    · exact hwrite.congr rfl rfl

theorem bounded_append {s : Log} (h : Bounded s) (xs : List ImuSample) :
    Bounded (imuLogAppend s xs) := by
  obtain ⟨g, hd, d, hram⟩ := imuLogAppend_ram s xs
  rw [hram]
  exact h.congr rfl rfl

/-- **One operation of the log.** -/
theorem bounded_exec {s : Log} (h : s.curSlot < maxSessions) (op : Op) : Bounded (exec s op) := by
  have h0 : Bounded { s with trace := [] } := ⟨h, fun a ha => absurd ha List.not_mem_nil⟩
  cases op with
  | start st ret => exact bounded_start h0 st ret
  | append xs => exact bounded_append h0 xs
  | drain ret => exact bounded_drain h0 ret
  | stop => exact bounded_stop h0
  | erase => exact (bounded_wipe (bounded_stop h0)).congr rfl rfl

theorem bounded_initSlot (s : Log) (i : Nat) (hi : i < maxSessions) (h : Bounded s) :
    Bounded (initSlot s i) := by
  have hread := h.readEntry hi
  unfold initSlot
  dsimp only
  split
  · exact hread
  · unfold takeOver closeSlot
    split
    · exact (hread.writeEntry hi _ 0).congr rfl rfl
    · exact hread.congr rfl rfl

/-- **A boot**, over any flash. -/
theorem bounded_boot (f : Flash) : Bounded (imuLogInit (Log.cold f)) := by
  have hcold : Bounded (Log.cold f) := ⟨slot_zero, fun a ha => absurd ha List.not_mem_nil⟩
  have hmeta : (⟨.directory, dirBase, entrySize⟩ : Access).Inside := ⟨by decide, by decide⟩
  have hread : Bounded ((Log.cold f).emit .readMeta) :=
    hcold.emit fun _ ha => Option.some.inj ha ▸ hmeta
  unfold imuLogInit
  dsimp only
  split
  · exact bounded_wipe hread
  · exact hread.foldl bounded_initSlot

/-! ## The settings -/

/-- `STORE_BASE`. -/
def storeBase : Nat := 0x164000

/-- `SLOT_ADDR`. -/
def slotAddr (i : Nat) : Nat := storeBase + i * slotSize

/-- The access to one slot. -/
def slotAccess (R : Registry) (i : Nat) : Access := ⟨.settings, slotAddr i, sizeofStoreRec R⟩

/-- A record that passes the source's build assertion fits either slot. -/
theorem inside_slot {R : Registry} (hsize : sizeofStoreRec R ≤ slotSize) {i : Nat} (hi : i < 2) :
    (slotAccess R i).Inside := by
  have hs : slotSize = 256 := rfl
  have haddr : slotAddr i = 0x164000 + i * 256 := rfl
  constructor
  · show 0x164000 ≤ slotAddr i
    omega
  · show slotAddr i + sizeofStoreRec R ≤ 0x164200
    omega

/-- `BUILD_ASSERT(sizeof(struct store_rec) <= SLOT_SIZE)`. -/
theorem storeRec_fits : sizeofStoreRec settingsGen ≤ slotSize := by decide

/-! ## The firmware -/

/-- The log, the settings, and every access issued so far. -/
structure Machine where
  log : Log
  store : Store
  accesses : List Access

/-- What the firmware can be asked to do. -/
inductive Call where
  /-- A boot, over any flash; either controller may not be ready. -/
  | boot (logFlash : Option Flash) (slots : Option (Nat → Option StoreRec))
  | log (op : Op)
  | sessionList
  | readSession (seq offset len : Nat)
  | settingsSet (id : Nat) (value : UInt16)
  | persist

/-- The reads of `settings_store_init`. -/
def initReads : Option (Nat → Option StoreRec) → List Access
  | none => []
  | some _ => [slotAccess settingsGen 0, slotAccess settingsGen 1]

/-- One call. -/
def step (m : Machine) : Call → Machine
  | .boot logFlash slots =>
      let log := match logFlash with
        | none => Log.cold m.log.flash
        | some f => imuLogInit (Log.cold f)
      { log
        store := settingsStoreInit settingsGen crc32Ieee Store.cold slots
        accesses := m.accesses ++ initReads slots ++ log.trace.filterMap access }
  | .log op =>
      let log := exec m.log op
      { m with log, accesses := m.accesses ++ log.trace.filterMap access }
  | .sessionList => { m with accesses := m.accesses ++ listAccesses }
  | .readSession seq offset len =>
      { m with accesses := m.accesses ++ readAccesses m.log seq offset len }
  | .settingsSet id value => { m with store := Settings.settingsSet settingsGen m.store id value }
  | .persist =>
      let record := persistRec settingsGen crc32Ieee m.store.record
      { m with
        store := { m.store with record }
        accesses := m.accesses ++ [slotAccess settingsGen (Settings.slotOf record)] }

/-- Before the first boot. -/
def Machine.reset (f : Flash) : Machine := ⟨Log.cold f, Store.cold, []⟩

/-- A run. -/
def run (f : Flash) (calls : List Call) : Machine := calls.foldl step (Machine.reset f)

/-- What every call keeps. -/
structure Mapped (m : Machine) : Prop where
  slot : m.log.curSlot < maxSessions
  inside : ∀ a ∈ m.accesses, a.Inside

/-- More accesses, all of them inside. -/
theorem inside_append {l l' : List Access} (h : ∀ a ∈ l, a.Inside) (h' : ∀ a ∈ l', a.Inside) :
    ∀ a ∈ l ++ l', a.Inside := by
  intro a ha
  rcases List.mem_append.mp ha with ha | ha
  · exact h a ha
  · exact h' a ha

/-- **Step lemma.** -/
theorem step_mapped {m : Machine} (h : Mapped m) (c : Call) : Mapped (step m c) := by
  cases c with
  | boot logFlash slots =>
    have hreads : ∀ a ∈ initReads slots, a.Inside := by
      cases slots with
      | none => exact fun a ha => absurd ha List.not_mem_nil
      | some read =>
        intro a ha
        rcases List.mem_pair.mp ha with rfl | rfl
        · exact inside_slot storeRec_fits (by decide)
        · exact inside_slot storeRec_fits (by decide)
    cases logFlash with
    | none =>
      refine ⟨slot_zero, inside_append (inside_append h.inside hreads) ?_⟩
      exact fun a ha => absurd ha List.not_mem_nil
    | some f =>
      obtain ⟨hslot, htrace⟩ := bounded_boot f
      exact ⟨hslot, inside_append (inside_append h.inside hreads) htrace⟩
  | log op =>
    obtain ⟨hslot, htrace⟩ := bounded_exec h.slot op
    exact ⟨hslot, inside_append h.inside htrace⟩
  | sessionList => exact ⟨h.slot, inside_append h.inside (inside_entryReads (Nat.le_refl _))⟩
  | readSession seq offset len =>
    exact ⟨h.slot, inside_append h.inside (inside_readAccesses m.log seq offset len)⟩
  | settingsSet id value => exact ⟨h.slot, h.inside⟩
  | persist =>
    refine ⟨h.slot, inside_append h.inside fun a ha => ?_⟩
    obtain rfl := List.mem_singleton.mp ha
    exact inside_slot storeRec_fits (Nat.mod_lt _ (by decide))

/-- **Every access stays in its region**, in every run over any flash: the directory's in its 544
    bytes, the records' behind them and in front of the trailer, the settings' in their two slots. -/
theorem all_inside (f : Flash) (calls : List Call) : ∀ a ∈ (run f calls).accesses, a.Inside := by
  have hrun : ∀ (calls : List Call) (m : Machine), Mapped m → Mapped (calls.foldl step m) := by
    intro calls
    induction calls with
    | nil => exact fun _ h => h
    | cons c calls ih => exact fun m h => ih _ (step_mapped h c)
  exact (hrun calls (Machine.reset f) ⟨slot_zero, fun a ha => absurd ha List.not_mem_nil⟩).inside

/-- A directory with an entry no firmware writes: its session begins six records before the 32-bit
    counter wraps, is in a slot that is not its own, and ends two records before the ring does. -/
def foreignFlash : Flash :=
  { Flash.blank with
    dirMeta := ownMeta
    entries := fun i =>
      if i = 5 then
        { DirEntry.erased with
          magic := entryMagic, seq := 4294967290, startRec := 4294967290, recCount := 43482 }
      else DirEntry.erased }

/-- A boot over it, the list, a session whose four records take two drains, and a persist. -/
def foreignCalls : List Call :=
  [.boot (some foreignFlash) (some fun _ => none), .sessionList, .log (.start Stamp.zero 0),
    .log (.append (numbered 4)), .log (.drain 0), .log (.drain 0), .persist]

/-- The last entry, the last records of the ring, the first ones and the second settings slot, each
    where its region has it. -/
theorem all_inside_foreign :
    [entryAccess 15, physRw 695616 32, physRw 0 32, slotAccess settingsGen 1] ⊆
        (run foreignFlash foreignCalls).accesses ∧
      ∀ a ∈ (run foreignFlash foreignCalls).accesses, a.Inside := by
  have hissued : ∀ a ∈ [entryAccess 15, physRw 695616 32, physRw 0 32, slotAccess settingsGen 1],
      a ∈ (run foreignFlash foreignCalls).accesses := by
    decide +kernel
  exact ⟨hissued, fun a ha => all_inside foreignFlash foreignCalls a ha⟩

end Caterpillar.App.FlashMap
