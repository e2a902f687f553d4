/-
  A reboot between sessions.

  The ring position is not stored: a boot takes it over from the directory, as the end of the last
  session listed.  1. **The stamp** of the directory survives every call, so a boot does read it.
  2. **The end**: whenever no session runs, the newest session is listed and ends at the counter
  (`Log.Settled`).  3. `reboot_transparent` — so list and dumps answer as before the reboot and the next
  session starts where it would have.  4. The id of the next session is above every listed one only
  while no directory entry has the last 32-bit id: `last_id_listed` is a device on which one has.
-/
import Caterpillar.ImuLog.Listing
import Caterpillar.ImuLog.LongRun

namespace Caterpillar.ImuLog

open Caterpillar.Word Caterpillar.Ring Caterpillar.Runs Caterpillar.Imu

/-! ## The stamp -/

@[simp] theorem effect_writeEntry_dirMeta (slot : Nat) (e : DirEntry) (ret : Int) (f : Flash) :
    ((Ev.writeEntry slot e ret).effect f).dirMeta = f.dirMeta := by
  simp only [Ev.effect]
  split
  · rfl
  · rfl

theorem consumeSlot_dirMeta (floor : Nat) (s : Log) (i : Nat) :
    (consumeSlot floor s i).flash.dirMeta = s.flash.dirMeta := by
  unfold consumeSlot
  split
  · rfl
  · dsimp only
    split
    · rfl
    · split
      · exact effect_writeEntry_dirMeta _ _ _ _
      · rfl

theorem invalidateConsumed_dirMeta (s : Log) :
    (invalidateConsumed s).flash.dirMeta = s.flash.dirMeta := by
  have hfold : ∀ (l : List Nat) (s : Log) (floor : Nat),
      (l.foldl (consumeSlot floor) s).flash.dirMeta = s.flash.dirMeta := by
    intro l
    induction l with
    | nil =>
      intro s floor
      rfl
    | cons i l ih =>
      intro s floor
      rw [List.foldl_cons, ih, consumeSlot_dirMeta]
  exact hfold _ _ _

theorem dirRefreshCurrent_dirMeta (s : Log) (closing : Bool) :
    (dirRefreshCurrent s closing).flash.dirMeta = s.flash.dirMeta := by
  unfold dirRefreshCurrent
  dsimp only
  split
  · rfl
  · exact effect_writeEntry_dirMeta _ _ _ _

/-- **No call unstamps the directory.** -/
theorem exec_own {s : Log} (h : s.flash.dirMeta = ownMeta) (op : Op) :
    (exec s op).flash.dirMeta = ownMeta := by
  cases op with
  | start st ret =>
    cases ha : s.active with
    | true =>
      rw [show exec s (.start st ret) = _ from
        congrArg Prod.fst (imuLogStart_busy { s with trace := [] } st ret ha)]
      exact h
    | false =>
      by_cases hret : ret < 0
      · rw [show exec s (.start st ret) = _ from
          congrArg Prod.fst (imuLogStart_fail { s with trace := [] } st ha hret)]
        exact (effect_writeEntry_dirMeta _ _ _ _).trans h
      · rw [show exec s (.start st ret) = _ from
          congrArg Prod.fst (imuLogStart_ok { s with trace := [] } st ha hret)]
        exact (effect_writeEntry_dirMeta _ _ _ _).trans h
  | append xs =>
    obtain ⟨g, hd, d, hram⟩ := imuLogAppend_ram { s with trace := [] } xs
    rw [show exec s (.append xs) = _ from hram]
    exact h
  | drain ret =>
    show (writerDrainBatch { s with trace := [] } ret).flash.dirMeta = ownMeta
    by_cases hne : u32Sub s.stageHead s.stageTail = 0
    · rw [writerDrainBatch_empty { s with trace := [] } ret hne]
      exact h
    · rw [writerDrainBatch_eq { s with trace := [] } ret hne]
      have hdrained : (Log.drained { s with trace := [] } ret).flash.dirMeta = ownMeta :=
        (drainWrite_dirMeta { s with trace := [] } ret).trans h
      split
      · rw [invalidateConsumed_dirMeta, dirRefreshCurrent_dirMeta]
        exact hdrained
      · exact hdrained
  | stop =>
    show (stopClose { s with trace := [] }).flash.dirMeta = ownMeta
    unfold stopClose
    split
    · rw [dirRefreshCurrent_dirMeta]
      exact h
    · exact h
  | erase => rfl

theorem boot_own {f : Flash} (hf : f.dirMeta = ownMeta → PlainCounts f) :
    (bootLog f).flash.dirMeta = ownMeta := by
  by_cases hm : f.dirMeta = ownMeta
  · obtain ⟨⟨g, t, heq⟩, hiss⟩ := bootLog_own (hf hm) hm
    have hre := hiss.full
    exact hre.2.1.trans hm
  · rw [bootLog_foreign hm]
    rfl

/-! ## The end -/

/-- The directory is this firmware's, and unless a session runs its sessions end at the counter. -/
structure Log.Settled (s : Log) : Prop where
  own : s.flash.dirMeta = ownMeta
  ends : s.active = false → directoryEnd s.flash = s.totalAbs

/-- A call of a run without flash errors and with at most 2^28 records, whose stops find the staging
    ring empty and whose drains find a session running. -/
def Clean (s : Log) (o : Op) : Prop :=
  (o.Ok ∧ Low s o) ∧ (o = .stop → s.stageHead = s.stageTail) ∧
    ∀ ret, o = .drain ret → s.active = true

/-- Such runs; power may be cut and the device boot again at any point. -/
def clean : Device → Event → Prop
  | .on s _, .op o => Clean s o
  | .on s _, .cut o _ => o.Ok ∧ Low s o
  | _, _ => True

theorem clean_low {d : Device} {e : Event} (h : clean d e) : lowCalls d e := by
  cases d with
  | on s j =>
    cases e with
    | op o => exact h.1
    | cut o k => exact h
    | boot => trivial
    | bootCut k => trivial
  | off f j => trivial

/-- The entry of the running session after a stop. -/
theorem exec_stop_entry {s : Log} (ha : s.active = true)
    (hv : (s.flash.entries s.curSlot).Valid) :
    (exec s .stop).flash.entries s.curSlot =
      { s.flash.entries s.curSlot with recCount := s.curCount, isOpen := 0 } := by
  have hclose : exec s .stop = dirRefreshCurrent
      { s with active := false, sessionDetached := false, trace := [] } true := if_pos ha
  rw [hclose.trans (dirRefreshCurrent_eq
    { s with active := false, sessionDetached := false, trace := [] } true hv)]
  exact (@effect_writeEntry_entries 0 (by decide) _ _ _ _).trans (if_pos rfl)

/-- **Step lemma.**  A stop lists its session up to the counter; nothing else ends one but an erase,
    which starts the counter over. -/
theorem exec_settled {s : Log} (hf : s.Filed) (h : s.Settled) {op : Op} (hc : Clean s op) :
    (exec s op).Settled := by
  refine ⟨exec_own h.own op, ?_⟩
  have hfiled : (exec s op).Filed := exec_filed hf op (hc.1.2.room hf)
  have hle : directoryEnd (exec s op).flash ≤ (exec s op).totalAbs :=
    directoryEnd_le fun i hi hv => (hfiled.entries i hi hv).ends
  have hout := exec_cases s op
  cases op with
  | stop =>
    intro _
    cases ha : s.active with
    | true =>
      -- the session just closed ends at the counter
      have hv := hf.running ha
      obtain ⟨hseq, hstart, -, hsum⟩ := (hf.bound (Or.inl ha)).entry hv
      have hentry := exec_stop_entry ha hv
      have hslot : s.curSlot < maxSessions := by
        rw [(hf.bound (Or.inl ha)).slot]
        exact slotOf_lt _
      have hvalid : ((exec s .stop).flash.entries s.curSlot).Valid := by
        rw [hentry]
        exact hv
      have hend := le_directoryEnd hslot hvalid
      rw [hentry] at hend
      have htot : (exec s .stop).totalAbs = s.totalAbs := by
        generalize exec s .stop = s' at hout
        cases hout with
        | idle _ => rfl
        | closed _ _ => rfl
      have hlast : (s.flash.entries s.curSlot).startRec + s.curCount ≤
          directoryEnd (exec s .stop).flash := hend
      omega
    | false =>
      generalize exec s .stop = s' at hout
      cases hout with
      | idle _ => exact h.ends ha
      | closed hact _ => exact Log.not_active ha hact
  | erase =>
    intro _
    generalize exec s .erase = s' at hout hle
    cases hout with
    | wiped hnone hdata => exact Nat.le_zero.mp hle
    | idle hidle => exact absurd hidle (by simp [Idle])
  | start st ret =>
    intro hend
    generalize exec s (.start st ret) = s' at hout hend
    cases hout with
    | idle _ => exact h.ends hend
    | failed _ hret => exact absurd hc.1.1 (Int.not_le.mpr hret)
    | opened _ _ => exact Log.not_active hend rfl
  | append xs =>
    intro hend
    generalize exec s (.append xs) = s' at hout hend
    cases hout with
    | idle _ => exact h.ends hend
    | staged ha =>
      obtain ⟨g, hd, d, hram⟩ := appendFold_ram s xs
      rw [hram] at hend
      exact Log.not_active hend ha
  | drain ret =>
    intro hend
    have hact := hc.2.2 ret rfl
    generalize exec s (.drain ret) = s' at hout hend
    cases hout with
    | idle _ => exact h.ends hend
    | wrote _ _ _ _ => exact Log.not_active hend hact

/-- A boot settles, whatever it finds. -/
theorem boot_settled {f : Flash} (hf : f.dirMeta = ownMeta → f.Filed 4294967295) :
    (bootLog f).Settled := by
  refine ⟨boot_own fun hm => (hf hm).plainCounts, ?_⟩
  intro _
  by_cases hm : f.dirMeta = ownMeta
  · obtain ⟨g, t, heq, hre⟩ := bootLog_over (hf hm).plainCounts hm
    rw [heq]
    exact hre.directoryEnd
  · have hnone := bootLog_foreign_none hm
    have hle : directoryEnd (bootLog f).flash ≤ 0 :=
      directoryEnd_le fun i _ hv => absurd hv (hnone i)
    rw [Nat.le_zero.mp hle, bootLog_foreign hm]
    rfl

/-- A powered device is settled. -/
def Device.Settled : Device → Prop
  | .on s _ => s.Settled
  | .off _ _ => True

/-- **Run lemma.** -/
theorem reach_settled {d : Device} (h : Reach Fresh (guarded clean DeviceStep) d) :
    d.Filed ∧ d.Low ∧ d.Settled := by
  have hlow : ∀ {d}, Reach Fresh (guarded clean DeviceStep) d → d.Filed ∧ d.Low := by
    intro d hr
    have hap := reach_apart (hr.mono (fun _ hi => hi) fun _ _ _ hst => ⟨clean_low hst.1, hst.2⟩)
    exact ⟨hap.1, hap.2.1⟩
  refine ⟨(hlow h).1, (hlow h).2, ?_⟩
  refine Reach.invariant (I := Device.Settled) ?_ ?_ h
  · rintro d ⟨f, rfl, -⟩
    trivial
  · rintro d e d' hr hs ⟨hg, hst⟩
    have hf := (hlow hr).1
    cases device_turn hst with
    | call s j o => exact exec_settled (s := s) hf hs hg
    | uncalled s j o => trivial
    | cut s j o k => trivial
    | boot f j => exact boot_settled hf
    | bootCut f j k => trivial

/-! ## The same answers -/

/-- The two logs answer alike: same counter, no session, same directory up to open flags. -/
structure Alike (s s' : Log) : Prop where
  flash : Reopened s.flash s'.flash
  total : s'.totalAbs = s.totalAbs
  idle : s.active = false
  idle' : s'.active = false

section

variable {s s' : Log} (h : Alike s s')

include h

theorem Alike.entry (i : Nat) : ∃ o, s'.flash.entries i = { s.flash.entries i with isOpen := o } :=
  h.flash.2.2 i

theorem Alike.floor : s'.ringFloor = s.ringFloor := by
  unfold Log.ringFloor
  rw [h.total]

theorem Alike.clippedStart (i : Nat) : s'.clippedStart i = s.clippedStart i := by
  obtain ⟨o, ho⟩ := h.entry i
  unfold Log.clippedStart
  rw [h.floor, ho]

theorem Alike.liveCount (i : Nat) : s'.liveCount i = s.liveCount i := by
  obtain ⟨o, ho⟩ := h.entry i
  unfold Log.liveCount
  rw [h.idle, h.idle', if_neg (by simp), if_neg (by simp), ho]

theorem Alike.listSlot (i : Nat) : s'.listSlot i = s.listSlot i := by
  obtain ⟨o, ho⟩ := h.entry i
  unfold Log.listSlot
  rw [h.floor, h.clippedStart, h.liveCount, ho]
  rfl

/-- The list is the same. -/
theorem Alike.sessionList (max : Int) : imuLogSessionList s' max = imuLogSessionList s max := by
  have hslots : s'.listSlot = s.listSlot := funext h.listSlot
  unfold imuLogSessionList
  rw [hslots]

theorem Alike.findSession (seq : Nat) : s'.flash.findSession seq = s.flash.findSession seq := by
  unfold Flash.findSession
  congr 1
  funext i
  obtain ⟨o, ho⟩ := h.entry i
  rw [ho]
  rfl

end

/-- The read loop goes by the ring bytes only. -/
theorem readLoop_congr {f g : Flash} (h : g.data = f.data) :
    ∀ len absByte, readLoop g absByte len = readLoop f absByte len := by
  intro len
  induction len using Nat.strongRecOn with
  | ind len ih =>
    intro absByte
    rw [readLoop, readLoop]
    split
    · rfl
    · have hoff := ringOff_lt absByte
      dsimp only
      rw [ih (len - min len (dataCapacity - ringOff absByte)) (by omega)]
      unfold Flash.readData
      rw [h]

/-- And so is every dump. -/
theorem Alike.readSession {s s' : Log} (h : Alike s s') (seq offset len : Nat) :
    imuLogReadSession s' seq offset len = imuLogReadSession s seq offset len := by
  unfold imuLogReadSession
  rw [h.findSession]
  cases s.flash.findSession seq with
  | none => rfl
  | some i =>
    obtain ⟨o, ho⟩ := h.entry i
    dsimp only
    rw [h.clippedStart, h.liveCount, readLoop_congr h.flash.1, ho]

/-- **After a reboot without a session** the device is alike. -/
theorem boot_alike {s : Log} (hf : s.Filed) (h : s.Settled) (ha : s.active = false) :
    Alike s (bootLog s.flash) := by
  have hfiled : s.flash.Filed 4294967295 := hf.entries.mono (by have htot := hf.total; omega)
  obtain ⟨⟨g, t, heq⟩, hiss⟩ := bootLog_own hfiled.plainCounts h.own
  refine ⟨hiss.full, ?_, ha, ?_⟩
  · rw [heq]
    exact h.ends ha
  · rw [heq]
    rfl

/-- Where a start opens its session, and under which id. -/
theorem start_where {s : Log} (ha : s.active = false) (st : Stamp) (ret : Int) :
    (imuLogStart s st ret).1.curStart = s.totalAbs ∧ (imuLogStart s st ret).1.curSeq = s.seqNext := by
  by_cases hret : ret < 0
  · rw [imuLogStart_fail s st ha hret]
    exact ⟨rfl, rfl⟩
  · rw [imuLogStart_ok s st ha hret]
    exact ⟨rfl, rfl⟩

/-! ## Any id -/

/-- A device that logged one record and then nothing but empty sessions, up to the id `n`. -/
structure Cycled (n : Nat) (s : Log) : Prop where
  idle : s.active = false
  next : s.seqNext = n
  total : s.totalAbs = 1
  staged : s.stageHead = s.stageTail

/-- An empty session. -/
def Log.emptySession (s : Log) : Log := exec (exec s (.start Stamp.zero 0)) .stop

/-- The session is open between the two calls. -/
theorem Cycled.opened {n : Nat} {s : Log} (h : Cycled n s) :
    exec s (.start Stamp.zero 0) = { s.claimed with
      flash := (s.entryWrite Stamp.zero 0).effect s.flash, active := true,
      trace := [s.entryWrite Stamp.zero 0] } :=
  congrArg Prod.fst (imuLogStart_ok { s with trace := [] } Stamp.zero h.idle (by decide))

/-- Its entry is written by the start. -/
theorem Cycled.entry {n : Nat} {s : Log} (h : Cycled n s) :
    (exec s (.start Stamp.zero 0)).flash.entries (slotOf n) = newEntry n 1 Stamp.zero := by
  rw [h.opened, ← h.next, ← h.total]
  exact (@effect_writeEntry_entries 0 (by decide) _ _ _ _).trans (if_pos rfl)

/-- One empty session more. -/
theorem Cycled.session {n : Nat} {s : Log} (h : Cycled n s) : Cycled (u32 (n + 1)) s.emptySession := by
  have hact : (exec s (.start Stamp.zero 0)).active = true := by rw [h.opened]
  obtain ⟨f, t, L, hstop, -⟩ :=
    stopClose_ram { exec s (.start Stamp.zero 0) with trace := [] } hact
  have hend : s.emptySession = _ := hstop
  rw [hend, h.opened]
  refine ⟨rfl, ?_, h.total, rfl⟩
  show u32 (s.seqNext + 1) = u32 (n + 1)
  rw [h.next]

/-- And its entry is left behind. -/
theorem Cycled.listed {n : Nat} {s : Log} (h : Cycled n s) :
    s.emptySession.flash.entries (slotOf n) = { newEntry n 1 Stamp.zero with isOpen := 0 } := by
  have hslot : (exec s (.start Stamp.zero 0)).curSlot = slotOf n := by
    rw [h.opened, ← h.next]
    rfl
  have hentry := h.entry
  have hact : (exec s (.start Stamp.zero 0)).active = true := by rw [h.opened]
  have hcount : (exec s (.start Stamp.zero 0)).curCount = 0 := by
    rw [h.opened]
    rfl
  have hstop := exec_stop_entry hact (by rw [hslot, hentry]; rfl)
  rw [hslot, hentry, hcount] at hstop
  exact hstop

/-- So the session is listed, with no records in it. -/
theorem Cycled.listSlot {n : Nat} {s : Log} (h : Cycled n s) :
    s.emptySession.listSlot (slotOf n) = some ⟨n, 0, 0, 0, 0, 0, 0⟩ := by
  have hentry := h.listed
  have hsession := h.session
  generalize s.emptySession = s' at hentry hsession
  have hfloor : s'.ringFloor = 0 := by
    unfold Log.ringFloor
    rw [hsession.total]
    rfl
  have hstart : s'.clippedStart (slotOf n) = 1 := by
    unfold Log.clippedStart
    rw [hfloor, hentry]
    rfl
  have hcount : s'.liveCount (slotOf n) = 0 := by
    unfold Log.liveCount
    rw [hsession.idle, hentry]
    rfl
  unfold Log.listSlot
  rw [hfloor, hstart, hcount, hentry]
  simp [newEntry, DirEntry.Valid, Stamp.zero, u32]

/-- Only starts and erases move the next id. -/
theorem exec_seqNext {s : Log} {op : Op} (hstart : ∀ st ret, op ≠ .start st ret)
    (herase : op ≠ .erase) : (exec s op).seqNext = s.seqNext := by
  have hout := exec_cases s op
  generalize exec s op = s' at hout
  cases hout with
  | idle _ => rfl
  | failed _ _ => exact absurd rfl (hstart _ _)
  | opened _ _ => exact absurd rfl (hstart _ _)
  | staged _ =>
    obtain ⟨g, hd, d, hram⟩ := appendFold_ram s _
    rw [hram]
  | wrote _ _ _ _ => rfl
  | closed _ _ => rfl
  | wiped _ _ => exact absurd rfl herase

/-- A call extends a run. -/
theorem clean_call {s : Log} {j : Journal}
    (h : Reach Fresh (guarded clean DeviceStep) (.on s j)) (o : Op) (hc : Clean s o) :
    Reach Fresh (guarded clean DeviceStep) (.on (exec s o) (j.record s o)) :=
  h.next (a := .op o) ⟨hc, rfl⟩

theorem clean_start (s : Log) : Clean s (.start Stamp.zero 0) :=
  ⟨⟨Int.le_refl 0, trivial⟩, (fun h => by cases h), fun ret h => by cases h⟩

theorem clean_stop {s : Log} (h : s.stageHead = s.stageTail) : Clean s .stop :=
  ⟨⟨trivial, trivial⟩, fun _ => h, fun ret h => by cases h⟩

/-- The first session, of one record. -/
theorem cycled_first :
    ∃ s j, Reach Fresh (guarded clean DeviceStep) (.on s j) ∧ Cycled 2 s ∧
      ∀ i, (s.flash.entries i).Valid → (s.flash.entries i).seq = 1 := by
  have hoff : Reach Fresh (guarded clean DeviceStep) (.off Flash.blank Journal.empty) :=
    .start ⟨Flash.blank, rfl, by decide⟩
  have hboot : Reach Fresh (guarded clean DeviceStep) (.on (bootLog Flash.blank) Journal.empty) :=
    hoff.next (a := .boot) ⟨trivial, rfl⟩
  have hopen := clean_call hboot _ (clean_start _)
  have hnext : (exec (bootLog Flash.blank) (.start Stamp.zero 0)).seqNext = 2 := by
    rw [bootLog_foreign (by decide)]
    rfl
  have hlog := logged_nil
  generalize exec (bootLog Flash.blank) (.start Stamp.zero 0) = s at hopen hnext hlog
  generalize Journal.empty.record (bootLog Flash.blank) (.start Stamp.zero 0) = j at hopen hlog
  -- the record is appended, and drained while the session runs
  have hactive : (exec s (.append [default])).active = true := by
    rw [(hlog.append default).1]
    exact hlog.active
  obtain ⟨hroom, hone⟩ := hlog.cycle (by decide) default
  have happ := clean_call hopen (.append [default])
    ⟨⟨trivial, trivial⟩, (fun h => by cases h), fun ret h => by cases h⟩
  have hdrain := clean_call happ (.drain 0)
    ⟨⟨Int.le_refl 0, Nat.le_trans (Nat.le_of_eq hroom) (by decide)⟩, (fun h => by cases h),
      fun _ _ => hactive⟩
  have hnext' : (exec (exec s (.append [default])) (.drain 0)).seqNext = 2 := by
    rw [exec_seqNext (fun _ _ h => by cases h) (fun h => by cases h),
      exec_seqNext (fun _ _ h => by cases h) (fun h => by cases h), hnext]
  generalize exec (exec s (.append [default])) (.drain 0) = s₁ at hone hdrain hnext'
  generalize (j.record s (.append [default])).record (exec s (.append [default])) (.drain 0) = j₁
    at hone hdrain
  have hstop := clean_call hdrain _ (clean_stop (hone.head.trans hone.tail.symm))
  obtain ⟨-, hentry, hothers, htotal, hstaged⟩ := hone.stop
  refine ⟨_, _, hstop, ⟨?_, ?_, htotal, hstaged⟩, ?_⟩
  · obtain ⟨f, t, L, hclose, -⟩ := stopClose_ram { s₁ with trace := [] } hone.active
    have hend : exec s₁ .stop = _ := hclose
    rw [hend]
  · rw [exec_seqNext (fun _ _ h => by cases h) (fun h => by cases h), hnext']
  · intro i hv
    by_cases hi : i = 0
    · obtain ⟨e, he, -, hseq, -, -⟩ := hone.entry
      rw [hi, hentry, he]
      exact hseq
    · rw [hothers i hi] at hv
      exact absurd hv (hone.others i hi)

/-- An empty session extends a run. -/
theorem Cycled.reach {n : Nat} {s : Log} {j : Journal} (h : Cycled n s)
    (hr : Reach Fresh (guarded clean DeviceStep) (.on s j)) :
    ∃ j', Reach Fresh (guarded clean DeviceStep) (.on s.emptySession j') := by
  have hopen := clean_call hr _ (clean_start s)
  have hempty : (exec s (.start Stamp.zero 0)).stageHead = (exec s (.start Stamp.zero 0)).stageTail := by
    rw [h.opened]
    rfl
  exact ⟨_, clean_call hopen _ (clean_stop hempty)⟩

/-- **Any id is reached**, one empty session after the other. -/
theorem cycled_reach {n : Nat} (h2 : 2 ≤ n) (hn : n < 4294967296) :
    ∃ s j, Reach Fresh (guarded clean DeviceStep) (.on s j) ∧ Cycled n s := by
  induction n, h2 using Nat.le_induction with
  | base =>
    obtain ⟨s, j, hr, h, -⟩ := cycled_first
    exact ⟨s, j, hr, h⟩
  | succ n _ ih =>
    obtain ⟨s, j, hr, h⟩ := ih (by omega)
    obtain ⟨j', hr'⟩ := h.reach hr
    have hsession := h.session
    rw [u32_of_lt (by omega)] at hsession
    exact ⟨_, j', hr', hsession⟩

/-! ## The reboot -/

/-- **A clean reboot is transparent.** -/
theorem reboot_transparent {s : Log} {j : Journal}
    (h : Reach Fresh (guarded clean DeviceStep) (.on s j)) (ha : s.active = false) :
    (∀ max, imuLogSessionList (bootLog s.flash) max = imuLogSessionList s max) ∧
    (∀ seq offset len,
      imuLogReadSession (bootLog s.flash) seq offset len = imuLogReadSession s seq offset len) ∧
    (∀ st ret, (imuLogStart (bootLog s.flash) st ret).1.curStart = (imuLogStart s st ret).1.curStart) ∧
    ((∀ i, i < maxSessions → (s.flash.entries i).Valid → (s.flash.entries i).seq ≠ 4294967295) →
      ∀ max st ret, ∀ e ∈ imuLogSessionList (bootLog s.flash) max,
        e.seq < (imuLogStart (bootLog s.flash) st ret).1.curSeq) := by
  obtain ⟨hf, hlow, hset⟩ : s.Filed ∧ s.totalAbs ≤ 268435456 ∧ s.Settled := reach_settled h
  have halike := boot_alike hf hset ha
  refine ⟨halike.sessionList, halike.readSession, ?_, ?_⟩
  · intro st ret
    rw [(start_where halike.idle' st ret).1, (start_where ha st ret).1, halike.total]
  · intro hids max st ret e he
    rw [(start_where halike.idle' st ret).2]
    have hfiled : s.flash.Filed 4294967295 := hf.entries.mono (by have htot := hf.total; omega)
    obtain ⟨⟨g, t, heq⟩, -⟩ := bootLog_own hfiled.plainCounts hset.own
    have hnext : (bootLog s.flash).seqNext = directoryNext s.flash := by rw [heq]
    obtain ⟨-, -, habove⟩ := directoryNext_spec (f := s.flash) fun i hi hv => by
      have hword := (hf.entries i hi hv).word
      have hid := hids i hi hv
      omega
    -- what is listed is in the directory
    rw [halike.sessionList] at he
    have hmem := (newestFirst_perm _).mem_iff.mp (List.mem_of_mem_take he)
    rw [List.mem_filterMap] at hmem
    obtain ⟨i, hi, hslot⟩ := hmem
    obtain ⟨hv, hseq, -⟩ := listSlot_some hf (List.mem_range.mp hi) hslot
    rw [hnext, hseq]
    exact habove i (List.mem_range.mp hi) hv

/-- The reboot after a session of one record. -/
theorem reboot_transparent_one : ∃ s j, Cycled 2 s ∧
    Reach Fresh (guarded clean DeviceStep) (.on s j) ∧
    (∀ max, imuLogSessionList (bootLog s.flash) max = imuLogSessionList s max) ∧
    (∀ seq offset len,
      imuLogReadSession (bootLog s.flash) seq offset len = imuLogReadSession s seq offset len) ∧
    (∀ st ret, (imuLogStart (bootLog s.flash) st ret).1.curStart = (imuLogStart s st ret).1.curStart) ∧
    ∀ max st ret, ∀ e ∈ imuLogSessionList (bootLog s.flash) max,
      e.seq < (imuLogStart (bootLog s.flash) st ret).1.curSeq := by
  obtain ⟨s, j, hr, h, hids⟩ := cycled_first
  obtain ⟨hlist, hread, hstart, habove⟩ := reboot_transparent hr h.idle
  refine ⟨s, j, h, hr, hlist, hread, hstart, habove ?_⟩
  intro i _ hv
  rw [hids i hv]
  decide

/-- **The last id stays listed**, and no id of a next session is above it. -/
theorem last_id_listed : ¬ ∀ s j, Reach Fresh (guarded clean DeviceStep) (.on s j) →
    s.active = false → ∀ max st ret, ∀ e ∈ imuLogSessionList (bootLog s.flash) max,
      e.seq < (imuLogStart (bootLog s.flash) st ret).1.curSeq := by
  intro hclaim
  obtain ⟨s, j, hr, h⟩ := cycled_reach (n := 4294967295) (by decide) (by decide)
  obtain ⟨j', hr'⟩ := h.reach hr
  have hsession := h.session
  have hslot := h.listSlot
  generalize s.emptySession = s' at hr' hsession hslot
  obtain ⟨hf, hlow, hset⟩ : s'.Filed ∧ s'.totalAbs ≤ 268435456 ∧ s'.Settled := reach_settled hr'
  have halike := boot_alike hf hset hsession.idle
  -- the session with the last id is listed
  have hlisted : (⟨4294967295, 0, 0, 0, 0, 0, 0⟩ : ImuLogSession) ∈
      imuLogSessionList (bootLog s'.flash) 16 := by
    rw [halike.sessionList, sessionList_all s' (Int.le_refl 16)]
    refine (newestFirst_perm _).mem_iff.mpr (List.mem_filterMap.mpr ⟨_, ?_, hslot⟩)
    exact List.mem_range.mpr (slotOf_lt _)
  have habove := hclaim s' j' hr' hsession.idle 16 Stamp.zero 0 _ hlisted
  rw [(start_where halike.idle' Stamp.zero 0).2] at habove
  -- but an id is a 32-bit word
  have hfiled : s'.flash.Filed 4294967295 := hf.entries.mono (by have htot := hf.total; omega)
  obtain ⟨⟨g, t, heq⟩, -⟩ := bootLog_own hfiled.plainCounts hset.own
  have hword : (bootLog s'.flash).seqNext < 4294967296 := by
    rw [heq]
    exact directoryNext_lt s'.flash
  have hlast : 4294967295 < (bootLog s'.flash).seqNext := habove
  omega

end Caterpillar.ImuLog
