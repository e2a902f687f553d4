/-
  One session of any length.

  The counters of the log are 32 bits wide and only ever grow, so some questions about it are
  decided millions of records away from a reset.  This file gets there by induction: `Logged l s j`
  describes a device that has run nothing but session 1 and was fed the records `l`, one at a time
  and each drained before the next; `Logged.cycle` is one turn of that, `logged_reach` any number of
  them.  The state is described up to what the turn needs — the counters, the directory (one entry,
  refreshed every 512 records), the journal.
-/
import Mathlib.Data.List.Induction
import Caterpillar.ImuLog.Device

namespace Caterpillar.ImuLog

open Caterpillar.Word Caterpillar.Ring Caterpillar.Runs Caterpillar.Imu

/-! ## The device -/

/-- A device that has run nothing but session 1 since its directory was wiped, fed and drained one
    record at a time with the records `l`. -/
structure Logged (l : List ImuSample) (s : Log) (j : Journal) : Prop where
  own : s.flash.dirMeta = ownMeta
  active : s.active = true
  seq : s.curSeq = 1
  slot : s.curSlot = 0
  total : s.totalAbs = l.length
  count : s.curCount = l.length
  refreshed : s.lastDirRefresh = l.length / 512 * 512
  head : s.stageHead = u32 l.length
  tail : s.stageTail = u32 l.length
  entry : ∃ e, s.flash.entries 0 = e ∧ e.Valid ∧ e.seq = 1 ∧ e.startRec = 0 ∧
    e.recCount = l.length / 512 * 512
  others : ∀ i, i ≠ 0 → ¬ (s.flash.entries i).Valid
  appended : j.appended 1 = l
  drained : j.drained 1 = l

/-- `n` records, the `k`-th telling `k` in each of its fields. -/
def numbered (n : Nat) : List ImuSample :=
  (List.range' 1 n).map fun k =>
    ⟨.ofNat k, .ofNat (256 * k), .ofNat (k + 2), .ofNat (k + 3), .ofNat (k + 4), .ofNat (k + 5),
      .ofNat (k + 6), .ofNat k⟩

@[simp] theorem numbered_length (n : Nat) : (numbered n).length = n := by
  simp [numbered]

/-- No write fails, `seq_next` does not wrap in a start, and `total_abs` is at most `B` after a
    drain. -/
def Within (B : Nat) (s : Log) (o : Op) : Prop :=
  o.Ok ∧ Fits s o ∧ ∀ ret, o = .drain ret → s.totalAbs + s.drainCount ≤ B

/-- Flash as it leaves the factory. -/
def Flash.blank : Flash := ⟨DirMeta.erased, fun _ => DirEntry.erased, fun _ => 0xFF⟩

/-- Nothing in particular, stamped into the entry of the session. -/
def Stamp.zero : Stamp := ⟨0, 0, 0, 0, 0⟩

/-- Session 1 of a blank device. -/
theorem logged_nil : Logged [] (exec (bootLog Flash.blank) (.start Stamp.zero 0))
    (Journal.empty.record (bootLog Flash.blank) (.start Stamp.zero 0)) := by
  have hforeign : Flash.blank.dirMeta ≠ ownMeta := by decide
  rw [bootLog_foreign hforeign]
  refine ⟨rfl, rfl, rfl, rfl, rfl, rfl, rfl, rfl, rfl, ⟨_, rfl, rfl, rfl, rfl, rfl⟩, ?_, rfl, rfl⟩
  intro i hi hv
  have hother : ((exec (dirWipeAndStamp ((Log.cold Flash.blank).emit .readMeta))
      (.start Stamp.zero 0)).flash.entries i) = DirEntry.erased := if_neg hi
  rw [hother] at hv
  exact DirEntry.not_valid_erased hv

/-! ## One turn -/

/-- With one session in the directory a drain changes the count of its entry, and only when a
    refresh is due. -/
theorem lone_drain (s : Log) (ret : Int) (hne : u32Sub s.stageHead s.stageTail ≠ 0)
    (hact : s.active = true) (hv : (s.flash.entries s.curSlot).Valid)
    (hothers : ∀ i, i ≠ s.curSlot → ¬ (s.flash.entries i).Valid) :
    ∃ g t L o, writerDrainBatch s ret = { s.drained ret with
        flash := g, trace := t, lastDirRefresh := L } ∧
      g.dirMeta = s.flash.dirMeta ∧ (∀ i, i ≠ s.curSlot → g.entries i = s.flash.entries i) ∧
      ((u32Sub (u32 (s.curCount + s.drainCount)) s.lastDirRefresh ≥ dirRefreshRecs ∧
          L = u32 (s.curCount + s.drainCount) ∧
          g.entries s.curSlot = { s.flash.entries s.curSlot with recCount := L, isOpen := o }) ∨
        (¬ u32Sub (u32 (s.curCount + s.drainCount)) s.lastDirRefresh ≥ dirRefreshRecs ∧
          L = s.lastDirRefresh ∧ g.entries s.curSlot = s.flash.entries s.curSlot)) := by
  rw [writerDrainBatch_eq s ret hne]
  split
  · rename_i hdue
    have hvd : ((s.drained ret).flash.entries s.curSlot).Valid := by
      show (((s.drainWrite ret).effect s.flash).entries s.curSlot).Valid
      rw [drainWrite_entries]
      exact hv
    have hrf := dirRefreshCurrent_eq (s.drained ret) false hvd
    -- the refreshed directory, slot by slot
    have hother : ∀ i, i ≠ s.curSlot → (dirRefreshCurrent (s.drained ret) false).flash.entries i =
        s.flash.entries i := by
      intro i hi
      rw [hrf]
      refine (@effect_writeEntry_entries 0 (by decide) _ _ _ i).trans ((if_neg hi).trans ?_)
      show ((s.drainWrite ret).effect s.flash).entries i = _
      rw [drainWrite_entries]
    have hself : (dirRefreshCurrent (s.drained ret) false).flash.entries s.curSlot =
        { s.flash.entries s.curSlot with
          recCount := u32 (s.curCount + s.drainCount), isOpen := 1 } := by
      rw [hrf]
      refine (@effect_writeEntry_entries 0 (by decide) _ _ _ _).trans ((if_pos rfl).trans ?_)
      show { ((s.drainWrite ret).effect s.flash).entries s.curSlot with
        recCount := u32 (s.curCount + s.drainCount), isOpen := 1 } = _
      rw [drainWrite_entries]
    have hkeep := consumeFold_none (dirRefreshCurrent (s.drained ret) false).ringFloor
      (List.range maxSessions) (dirRefreshCurrent (s.drained ret) false)
      (by rw [hrf]; exact hact) (by
        intro i hi
        rw [hrf] at hi
        rw [hother i hi]
        exact hothers i hi)
    have hkeep' : (invalidateConsumed (dirRefreshCurrent (s.drained ret) false)).flash =
        (dirRefreshCurrent (s.drained ret) false).flash := hkeep
    obtain ⟨g, t, hram⟩ := invalidateConsumed_ram (dirRefreshCurrent (s.drained ret) false)
    have hg : g = (dirRefreshCurrent (s.drained ret) false).flash := by
      rw [hram] at hkeep'
      exact hkeep'
    refine ⟨g, t, u32 (s.curCount + s.drainCount), 1, ?_, ?_, ?_, Or.inl ⟨hdue, rfl, ?_⟩⟩
    · rw [hram, hrf]
      rfl
    · rw [hg, hrf]
      exact drainWrite_dirMeta s ret
    · rw [hg]
      exact hother
    · rw [hg]
      exact hself
  · rename_i hdue
    refine ⟨(s.drained ret).flash, (s.drained ret).trace, s.lastDirRefresh, 1, rfl,
      drainWrite_dirMeta s ret, fun i _ => ?_, Or.inr ⟨hdue, rfl, ?_⟩⟩
    · exact congrFun (drainWrite_entries s ret) i
    · exact congrFun (drainWrite_entries s ret) s.curSlot

/-- When the refresh of a session that drains one record at a time falls due. -/
theorem refresh_due {n : Nat} (h : n + 1 - n / 512 * 512 ≥ 512) : n + 1 = (n + 1) / 512 * 512 := by
  omega

theorem refresh_not_due {n : Nat} (h : ¬ n + 1 - n / 512 * 512 ≥ 512) :
    n / 512 * 512 = (n + 1) / 512 * 512 := by
  omega

/-- One record more is appended. -/
theorem Logged.append {l : List ImuSample} {s : Log} {j : Journal} (h : Logged l s j)
    (x : ImuSample) :
    exec s (.append [x]) = { s with
        stage := Function.update s.stage (s.stageHead % stageN) x
        stageHead := u32 (s.stageHead + 1), trace := [] } ∧
      (j.record s (.append [x])).appended 1 = l ++ [x] ∧
      (j.record s (.append [x])).drained 1 = l := by
  have hempty : u32Sub s.stageHead s.stageTail = 0 := by rw [h.head, h.tail, u32Sub_self]
  have hfree : ¬ u32Sub s.stageHead s.stageTail ≥ stageN := by rw [hempty, stageN_eq]; decide
  have hacc : accepted s [x] = [x] := if_neg hfree
  rw [record_append j s [x] h.active]
  refine ⟨?_, ?_, h.drained⟩
  · show imuLogAppend { s with trace := [] } [x] = _
    unfold imuLogAppend
    rw [if_pos h.active, List.foldl_cons, List.foldl_nil]
    exact if_neg hfree
  · show Function.update j.appended s.curSeq (j.appended s.curSeq ++ accepted s [x]) 1 = l ++ [x]
    rw [h.seq, hacc, Function.update_self, h.appended]

/-- That one is all that is staged. -/
theorem Logged.one_staged {l : List ImuSample} {s : Log} {j : Journal} (h : Logged l s j)
    (x : ImuSample) :
    (exec s (.append [x])).stageHead = u32 (l.length + 1) ∧
      u32Sub (exec s (.append [x])).stageHead (exec s (.append [x])).stageTail = 1 ∧
      (exec s (.append [x])).drainCount = 1 := by
  obtain ⟨hap, -, -⟩ := h.append x
  generalize exec s (.append [x]) = s' at hap ⊢
  have hhead : s'.stageHead = u32 (l.length + 1) := by
    rw [hap]
    show u32 (s.stageHead + 1) = u32 (l.length + 1)
    rw [h.head, u32_u32_add]
  have htail : s'.stageTail = u32 l.length := by rw [hap]; exact h.tail
  have hone : u32Sub s'.stageHead s'.stageTail = 1 := by
    rw [hhead, htail, u32Sub_u32 (by omega) (by omega)]
    omega
  have hpos := drainCount_pos s' (by omega)
  have hle := drainCount_le_staged s'
  exact ⟨hhead, hone, by omega⟩

/-- One record more is appended and drained. -/
theorem Logged.cycle {l : List ImuSample} {s : Log} {j : Journal} (h : Logged l s j)
    (hl : l.length + 1 < 4294967296) (x : ImuSample) :
    (exec s (.append [x])).totalAbs + (exec s (.append [x])).drainCount = l.length + 1 ∧
      Logged (l ++ [x]) (exec (exec s (.append [x])) (.drain 0))
        ((j.record s (.append [x])).record (exec s (.append [x])) (.drain 0)) := by
  obtain ⟨hap, hjapp, hjdr⟩ := h.append x
  obtain ⟨hhead, hone, hn⟩ := h.one_staged x
  generalize j.record s (.append [x]) = j' at hjapp hjdr ⊢
  generalize hs' : exec s (.append [x]) = s' at hap hhead hone hn ⊢
  have hlen : (l ++ [x]).length = l.length + 1 := by simp
  have htail : s'.stageTail = u32 l.length := by rw [hap]; exact h.tail
  -- the batch is the one record just staged
  have hbatch : s'.stagedBatch s'.drainCount = [x] := by
    rw [hn]
    show [s'.stage (u32 (s'.stageTail + 0) % stageN)] = [x]
    rw [htail, hap]
    show [Function.update s.stage (s.stageHead % stageN) x (u32 (u32 l.length + 0) % stageN)] = [x]
    rw [h.head, Nat.add_zero, u32_of_lt (u32_lt _), Function.update_self]
  have htot : s'.totalAbs = l.length := by rw [hap]; exact h.total
  have hcur : s'.curCount = l.length := by rw [hap]; exact h.count
  have hslot : s'.curSlot = 0 := by rw [hap]; exact h.slot
  have hseq : s'.curSeq = 1 := by rw [hap]; exact h.seq
  have hlast : s'.lastDirRefresh = l.length / 512 * 512 := by rw [hap]; exact h.refreshed
  have hflash : s'.flash = s.flash := by rw [hap]
  have hact : s'.active = true := by rw [hap]; exact h.active
  have htr : s' = { s' with trace := [] } := by rw [hap]
  refine ⟨by omega, ?_⟩
  obtain ⟨e, he, hv, heseq, hestart, herec⟩ := h.entry
  obtain ⟨g, t, L, o, hdr, hmeta, hother, hcase⟩ := lone_drain s' 0 (by omega) hact
    (by rw [hflash, hslot, he]; exact hv) (by rw [hflash, hslot]; exact h.others)
  have hexec : exec s' (.drain 0) = { s'.drained 0 with
      flash := g, trace := t, lastDirRefresh := L } := by
    show writerDrainBatch { s' with trace := [] } 0 = _
    rw [← htr]
    exact hdr
  rw [hslot, hflash] at hother
  rw [hslot, hflash, he, hcur, hn, hlast, u32_of_lt hl, u32Sub_of_le (by omega) hl,
    dirRefreshRecs_eq] at hcase
  -- every 512 records the entry is brought up to date
  have hL : L = (l.length + 1) / 512 * 512 ∧
      ∃ c o, g.entries 0 = { e with recCount := c, isOpen := o } ∧
        c = (l.length + 1) / 512 * 512 := by
    rcases hcase with ⟨hdue, hL, hentry⟩ | ⟨hdue, hL, hentry⟩
    · have hnew : L = (l.length + 1) / 512 * 512 := hL.trans (refresh_due hdue)
      exact ⟨hnew, L, o, hentry, hnew⟩
    · have hold := refresh_not_due hdue
      exact ⟨hL.trans hold, e.recCount, e.isOpen, hentry, herec.trans hold⟩
  obtain ⟨hL', c, o', hentry, hc⟩ := hL
  have hjdr' : (j'.record s' (.drain 0)).drained 1 = l ++ [x] := by
    rw [record_drain, hseq, hbatch]
    show Function.update j'.drained 1 (j'.drained 1 ++ [x]) 1 = l ++ [x]
    rw [Function.update_self, hjdr]
  rw [hexec]
  refine ⟨?_, hact, hseq, hslot, ?_, ?_, ?_, ?_, ?_, ?_, ?_, hjapp, hjdr'⟩
  · show g.dirMeta = ownMeta
    rw [hmeta, hflash]
    exact h.own
  · show u32 (s'.totalAbs + s'.drainCount) = (l ++ [x]).length
    rw [htot, hn, hlen, u32_of_lt hl]
  · show u32 (s'.curCount + s'.drainCount) = (l ++ [x]).length
    rw [hcur, hn, hlen, u32_of_lt hl]
  · rw [hlen]
    exact hL'
  · rw [hlen]
    exact hhead
  · show u32 (s'.stageTail + s'.drainCount) = u32 (l ++ [x]).length
    rw [htail, hn, hlen, u32_u32_add]
  · refine ⟨g.entries 0, rfl, ?_⟩
    rw [hentry, hlen]
    exact ⟨hv, heseq, hestart, hc⟩
  · intro i hi
    show ¬ (g.entries i).Valid
    rw [hother i hi]
    exact h.others i hi

/-- The stop closes the session's entry with the live count. -/
theorem Logged.stop {l : List ImuSample} {s : Log} {j : Journal} (h : Logged l s j) :
    (exec s .stop).flash.dirMeta = ownMeta ∧
      (exec s .stop).flash.entries 0 =
        { s.flash.entries 0 with recCount := l.length, isOpen := 0 } ∧
      (∀ i, i ≠ 0 → (exec s .stop).flash.entries i = s.flash.entries i) ∧
      (exec s .stop).totalAbs = l.length ∧
      (exec s .stop).stageHead = (exec s .stop).stageTail := by
  obtain ⟨e, he, hv, -, -, -⟩ := h.entry
  have hcur : (s.flash.entries s.curSlot).Valid := by rw [h.slot, he]; exact hv
  have hclose : exec s .stop = dirRefreshCurrent
      { s with active := false, sessionDetached := false, trace := [] } true := if_pos h.active
  have hstop := hclose.trans (dirRefreshCurrent_eq
    { s with active := false, sessionDetached := false, trace := [] } true hcur)
  have hentries : ∀ i, (exec s .stop).flash.entries i =
      if i = s.curSlot then { s.flash.entries s.curSlot with recCount := s.curCount, isOpen := 0 }
      else s.flash.entries i := by
    intro i
    rw [hstop]
    exact @effect_writeEntry_entries 0 (by decide) _ _ _ i
  refine ⟨?_, ?_, fun i hi => ?_, ?_, ?_⟩
  · rw [hstop]
    exact h.own
  · rw [hentries 0, if_pos h.slot.symm, h.slot, h.count]
  · rw [hentries i, if_neg (by rw [h.slot]; exact hi)]
  · rw [hstop]
    exact h.total
  · rw [hstop]
    exact h.head.trans h.tail.symm

/-! ## Any number of turns -/

/-- **A session of any length is reached**, whatever its records, by any kind of run that allows the
    calls it takes. -/
theorem logged_reach {G : Device → Event → Prop} {B : Nat} (hB : B < 4294967296)
    (hboot : ∀ f j, G (.off f j) .boot) (hG : ∀ s j o, Within B s o → G (.on s j) (.op o))
    (l : List ImuSample) (hl : l.length ≤ B) :
    ∃ s j, Reach Fresh (guarded G DeviceStep) (.on s j) ∧ Logged l s j := by
  induction l using List.reverseRecOn with
  | nil =>
    have hfresh : Reach Fresh (guarded G DeviceStep) (.off Flash.blank Journal.empty) :=
      .start ⟨Flash.blank, rfl, by decide⟩
    have hon : Reach Fresh (guarded G DeviceStep) (.on (bootLog Flash.blank) Journal.empty) :=
      hfresh.next (a := .boot) ⟨hboot _ _, rfl⟩
    refine ⟨_, _, hon.next (a := .op (.start Stamp.zero 0)) ⟨hG _ _ _ ⟨?_, ?_, ?_⟩, rfl⟩, logged_nil⟩
    · show (0 : Int) ≤ 0
      decide
    · intro _
      rw [bootLog_foreign (by decide)]
      show 1 + 1 < 4294967296
      decide
    · intro ret h
      cases h
  | append_singleton l x ih =>
    rw [List.length_append, List.length_singleton] at hl
    obtain ⟨s, j, hr, h⟩ := ih (by omega)
    obtain ⟨hhead, hlog⟩ := h.cycle (by omega) x
    have hstaged : Reach Fresh (guarded G DeviceStep)
        (.on (exec s (.append [x])) (j.record s (.append [x]))) :=
      hr.next (a := .op (.append [x])) ⟨hG _ _ _ ⟨trivial, trivial, fun ret h => by cases h⟩, rfl⟩
    refine ⟨_, _, hstaged.next (a := .op (.drain 0)) ⟨hG _ _ _ ⟨?_, trivial, ?_⟩, rfl⟩, hlog⟩
    · show (0 : Int) ≤ 0
      decide
    · intro ret _
      omega

end Caterpillar.ImuLog
