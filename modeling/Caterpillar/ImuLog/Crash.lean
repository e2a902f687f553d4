/-
  What a crash costs the running session.

  "Power loss mid-session loses at most the last ~8 KB of that session's accounting (the entry is
  refreshed every 512 records)" (src/imu/imu_log.h).

  1. `Flash.Live` — the directory is this firmware's and the running session is in it; every image a
     power cut leaves of a call keeps that (`cutImage_live`), but for an erase that has begun to wipe.
  2. `Log.Lags` — **the invariant**: the entry of the running session counts what it counted at its
     last refresh, and fewer than `DIR_REFRESH_RECS` records came in since.
  3. `boot_closes` — a boot clears the open flags, and changes no entry otherwise.
  4. `crash_bounded`, and the session of 2^32 records that loses everything.
-/
import Caterpillar.ImuLog.Reboot

namespace Caterpillar.ImuLog

open Caterpillar.Word Caterpillar.Ring Caterpillar.Runs Caterpillar.Imu

/-! ## The running session stays listed -/

/-- A directory of this firmware that lists the session in slot `cur`. -/
def Flash.Live (cur : Nat) (f : Flash) : Prop := f.dirMeta = ownMeta ∧ (f.entries cur).Valid

/-- Another slot may be rewritten. -/
theorem Flash.Live.other {cur : Nat} {f : Flash} (h : f.Live cur) {i : Nat} (hi : i ≠ cur)
    (e : DirEntry) : ((Ev.writeEntry i e 0).effect f).Live cur := by
  refine ⟨(effect_writeEntry_dirMeta _ _ _ _).trans h.1, ?_⟩
  rw [effect_writeEntry_entries (by decide), if_neg hi.symm]
  exact h.2

/-- So may its own, with a valid entry. -/
theorem Flash.Live.own {cur : Nat} {f : Flash} (h : f.Live cur) {e : DirEntry} (he : e.Valid) :
    ((Ev.writeEntry cur e 0).effect f).Live cur := by
  refine ⟨(effect_writeEntry_dirMeta _ _ _ _).trans h.1, ?_⟩
  rw [effect_writeEntry_entries (by decide), if_pos rfl]
  exact he

theorem dirRefreshCurrent_live {s : Log} (h : s.flash.Live s.curSlot) (closing : Bool) :
    Issues (Flash.Live s.curSlot) s (dirRefreshCurrent s closing) := by
  rw [dirRefreshCurrent_eq s closing h.2]
  have hread : Issues (Flash.Live s.curSlot) s (s.emit (.readEntry s.curSlot)) := Issues.emit h h
  have hwrite : Issues (Flash.Live s.curSlot) (s.emit (.readEntry s.curSlot))
      ((s.emit (.readEntry s.curSlot)).emit (.writeEntry s.curSlot
        { s.flash.entries s.curSlot with
          recCount := s.curCount, isOpen := if closing then 0 else 1 } 0)) :=
    Issues.emit h (h.own h.2)
  exact (hread.trans hwrite).trans (Issues.ram hwrite.full rfl rfl)

theorem drainWrite_live {s : Log} (h : s.flash.Live s.curSlot) (ret : Int) :
    ((s.drainWrite ret).effect s.flash).Live s.curSlot := by
  refine ⟨(drainWrite_dirMeta s ret).trans h.1, ?_⟩
  rw [drainWrite_entries]
  exact h.2

theorem writerDrainBatch_live {s : Log} (hact : s.active = true) (h : s.flash.Live s.curSlot)
    (ret : Int) : Issues (Flash.Live s.curSlot) s (writerDrainBatch s ret) := by
  by_cases hne : u32Sub s.stageHead s.stageTail = 0
  · rw [writerDrainBatch_empty s ret hne]
    exact Issues.ram h rfl rfl
  · have hlive := drainWrite_live h ret
    have hdrained : Issues (Flash.Live s.curSlot) s (s.drained ret) :=
      (Issues.emit h hlive).trans (Issues.ram hlive rfl rfl)
    rw [writerDrainBatch_eq s ret hne]
    split
    · have hrefresh : Issues (Flash.Live s.curSlot) (s.drained ret)
          (dirRefreshCurrent (s.drained ret) false) := dirRefreshCurrent_live hlive false
      obtain ⟨f, t, L, hram, -⟩ := dirRefreshCurrent_ram (s.drained ret) false
      have hkept := hrefresh.full
      rw [hram] at hrefresh hkept ⊢
      have hconsume := invalidateConsumed_spares (P := Flash.Live s.curSlot)
        { s.drained ret with flash := f, trace := t, lastDirRefresh := L } hact
        (fun _ _ hi hf => hf.other hi _) hkept
      exact hdrained.trans (hrefresh.trans hconsume)
    · exact hdrained

theorem stopClose_live {s : Log} (hact : s.active = true) (h : s.flash.Live s.curSlot) :
    Issues (Flash.Live s.curSlot) s (stopClose s) := by
  have hclose := dirRefreshCurrent_live
    (s := { s with active := false, sessionDetached := false }) h true
  unfold stopClose
  rw [if_pos hact]
  have hram : Issues (Flash.Live s.curSlot) s { s with active := false, sessionDetached := false } :=
    Issues.ram h rfl rfl
  exact hram.trans hclose

/-- A call without accesses leaves the flash as it was. -/
theorem cutImage_quiet {s : Log} {o : Op} (h : (exec s o).trace = []) (k : Nat) :
    cutImage s o k = s.flash := by
  rw [cutImage, h, List.take_nil]
  rfl

/-- **Cut images list the running session**, unless an erase has begun to wipe. -/
theorem cutImage_live {s : Log} (hact : s.active = true) (h : s.flash.Live s.curSlot) (o : Op) (k : Nat) :
    (cutImage s o k).Live s.curSlot ∨ (o = .erase ∧ ∀ i, ¬ ((cutImage s o k).entries i).Valid) := by
  cases o with
  | start st ret =>
    left
    rw [cutImage_quiet (congrArg (fun p => p.1.trace)
      (imuLogStart_busy { s with trace := [] } st ret hact))]
    exact h
  | append xs =>
    left
    have htrace : (exec s (.append xs)).trace = [] := by
      obtain ⟨g, hd, d, hram⟩ := imuLogAppend_ram { s with trace := [] } xs
      exact congrArg Log.trace hram
    rw [cutImage_quiet htrace]
    exact h
  | drain ret =>
    exact .inl ((writerDrainBatch_live (s := { s with trace := [] }) hact h ret).cut rfl k)
  | stop => exact .inl ((stopClose_live (s := { s with trace := [] }) hact h).cut rfl k)
  | erase =>
    have hstop : Issues (Flash.Live s.curSlot) { s with trace := [] } (stopClose { s with trace := [] }) :=
      stopClose_live (s := { s with trace := [] }) hact h
    have hwiped : ∀ i, ¬ ((Ev.wipeDir.effect (stopClose { s with trace := [] }).flash).entries i).Valid :=
      fun _ => DirEntry.not_valid_erased
    have hboth : Issues (fun f => f.Live s.curSlot ∨ ∀ i, ¬ (f.entries i).Valid)
        { s with trace := [] } (imuLogErase { s with trace := [] }) := by
      refine (hstop.mono fun _ hf => .inl hf).trans ?_
      have hwipe : Issues (fun f => f.Live s.curSlot ∨ ∀ i, ¬ (f.entries i).Valid)
          (stopClose { s with trace := [] }) ((stopClose { s with trace := [] }).emit .wipeDir) :=
        Issues.emit (.inl hstop.full) (.inr hwiped)
      have hstamp : Issues (fun f => f.Live s.curSlot ∨ ∀ i, ¬ (f.entries i).Valid)
          ((stopClose { s with trace := [] }).emit .wipeDir)
          (dirWipeAndStamp (stopClose { s with trace := [] })) :=
        Issues.emit (.inr hwiped) (.inr hwiped)
      exact (hwipe.trans hstamp).trans (Issues.ram (.inr hwiped) rfl rfl)
    rcases hboth.cut rfl k with hlive | hnone
    · exact .inl hlive
    · exact .inr ⟨rfl, hnone⟩

/-! ## The lag -/

/-- How far the entry of the running session lags behind the records drained into the ring. -/
structure Log.Lags (s : Log) (j : Journal) : Prop where
  drained : (j.drained s.curSeq).length = s.curCount
  entry : (s.flash.entries s.curSlot).recCount = s.lastDirRefresh
  behind : s.lastDirRefresh ≤ s.curCount
  due : s.curCount < s.lastDirRefresh + 512

/-- **The invariant.** -/
structure Log.Accounted (s : Log) (j : Journal) : Prop where
  own : s.flash.dirMeta = ownMeta
  lags : s.active = true → s.Lags j

/-- A refresh catches up, and the removals after it leave the entry alone. -/
theorem refresh_lags {s : Log} (hact : s.active = true) (hv : (s.flash.entries s.curSlot).Valid) :
    ((invalidateConsumed (dirRefreshCurrent s false)).flash.entries s.curSlot).recCount = s.curCount := by
  have heq := dirRefreshCurrent_eq s false hv
  have hself : (dirRefreshCurrent s false).flash.entries s.curSlot =
      { s.flash.entries s.curSlot with recCount := s.curCount, isOpen := 1 } := by
    rw [heq]
    exact (@effect_writeEntry_entries 0 (by decide) _ _ _ _).trans (if_pos rfl)
  have hkept := invalidateConsumed_spares
    (P := fun f => (f.entries s.curSlot).recCount = s.curCount) (dirRefreshCurrent s false)
    (by rw [heq]; exact hact) ?_ (by rw [hself])
  · exact hkept.full
  · intro f i hi hf
    rw [heq] at hi
    rw [effect_writeEntry_entries (by decide), if_neg (fun hc => hi hc.symm)]
    exact hf

/-- **A drain keeps the lag below a refresh.** -/
theorem drain_lags {s : Log} {j : Journal} (h : s.Lags j) (hact : s.active = true)
    (hv : (s.flash.entries s.curSlot).Valid) {ret : Int} (hroom : Room s (.drain ret))
    (hne : u32Sub s.stageHead s.stageTail ≠ 0) :
    (writerDrainBatch s ret).Lags (j.record s (.drain ret)) := by
  obtain ⟨-, hcount⟩ : s.totalAbs + s.drainCount < 4294967296 ∧
    s.curCount + s.drainCount < 4294967295 := hroom
  have hbehind := h.behind
  have hv' : ((s.drained ret).flash.entries s.curSlot).Valid := by
    show (((s.drainWrite ret).effect s.flash).entries s.curSlot).Valid
    rw [drainWrite_entries]
    exact hv
  have hlen : ((j.record s (.drain ret)).drained s.curSeq).length = s.curCount + s.drainCount := by
    rw [record_drain]
    show (Function.update j.drained s.curSeq _ s.curSeq).length = _
    rw [Function.update_self, List.length_append, stagedBatch_length, h.drained]
  have hword : u32 (s.curCount + s.drainCount) = s.curCount + s.drainCount := u32_of_lt (by omega)
  rw [writerDrainBatch_eq s ret hne, hword, u32Sub_of_le (by omega) (by omega), dirRefreshRecs_eq]
  split
  · have hentry := refresh_lags (s := s.drained ret) hact hv'
    have heq := dirRefreshCurrent_eq (s.drained ret) false hv'
    obtain ⟨g, t, hram⟩ := invalidateConsumed_ram (dirRefreshCurrent (s.drained ret) false)
    rw [hram, heq] at hentry ⊢
    have hcur : (s.drained ret).curCount = s.curCount + s.drainCount := hword
    refine ⟨hlen.trans hword.symm, hentry, Nat.le_refl _, ?_⟩
    show (s.drained ret).curCount < (s.drained ret).curCount + 512
    omega
  · rename_i hnot
    refine ⟨hlen.trans hword.symm, ?_, ?_, ?_⟩
    · show (((s.drainWrite ret).effect s.flash).entries s.curSlot).recCount = s.lastDirRefresh
      rw [drainWrite_entries]
      exact h.entry
    · show s.lastDirRefresh ≤ u32 (s.curCount + s.drainCount)
      omega
    · show u32 (s.curCount + s.drainCount) < s.lastDirRefresh + 512
      omega

/-- **Step lemma.** -/
theorem exec_accounted {s : Log} {j : Journal} (hf : s.Filed) (h : s.Accounted j) {o : Op}
    (hok : o.Ok) (hroom : Room s o) : (exec s o).Accounted (j.record s o) := by
  refine ⟨exec_own h.own o, ?_⟩
  by_cases hdrain : ∃ ret, o = .drain ret ∧ u32Sub s.stageHead s.stageTail ≠ 0
  · obtain ⟨ret, rfl, hne⟩ := hdrain
    intro hact
    have hact : s.active = true :=
      (Log.flags_eq (writerDrainBatch_flags { s with trace := [] } ret)).1.symm.trans hact
    obtain ⟨h1, h2, h3, h4⟩ := h.lags hact
    exact drain_lags (s := { s with trace := [] }) ⟨h1, h2, h3, h4⟩ hact (hf.running hact) hroom hne
  · have hout := exec_cases s o
    generalize exec s o = s' at hout
    intro hact
    cases hout with
    | idle hidle =>
      rw [record_idle j hidle]
      obtain ⟨h1, h2, h3, h4⟩ := h.lags hact
      exact ⟨h1, h2, h3, h4⟩
    | @failed st ret t ha hret => exact absurd hok (Int.not_le.mpr hret)
    | @opened st ret t ha hret =>
      rw [record_start_ok j s st ha hret]
      refine ⟨?_, ?_, Nat.le_refl 0, by show 0 < 0 + 512; decide⟩
      · show (Function.update j.drained s.seqNext [] s.seqNext).length = 0
        rw [Function.update_self]
        rfl
      · show (((s.entryWrite st ret).effect s.flash).entries (slotOf s.seqNext)).recCount = 0
        rw [Log.entryWrite, effect_writeEntry_entries hret, if_pos rfl]
        rfl
    | @staged xs t ha =>
      obtain ⟨g, hd, d, hram⟩ := appendFold_ram s xs
      obtain ⟨h1, h2, h3, h4⟩ := h.lags ha
      rw [hram, record_append j s xs ha]
      exact ⟨h1, h2, h3, h4⟩
    | @wrote ret g t L hne hg hk hL => exact absurd ⟨ret, rfl, hne⟩ hdrain
    | closed _ _ => exact Log.not_active rfl hact
    | wiped _ _ => exact Log.not_active rfl hact

/-- A run without flash errors whose drains leave the counters room. -/
def Roomy (s : Log) (o : Op) : Prop := o.Ok ∧ Room s o

/-- What holds of a device in such a run. -/
def Device.Accounted : Device → Prop
  | .on s j => s.Accounted j
  | .off _ _ => True

/-- **Run lemma.** -/
theorem reach_accounted {d : Device} (h : Reach Fresh (guarded (onCall Roomy) DeviceStep) d) :
    d.Filed ∧ d.Apart ∧ d.Accounted := by
  have hfiled : ∀ {d}, Reach Fresh (guarded (onCall Roomy) DeviceStep) d → d.Filed := fun hr =>
    reach_filed (fun _ _ _ hg => onCall_imp (fun _ _ hc => hc.2) hg) hr
  refine ⟨hfiled h, ?_⟩
  refine Reach.invariant (I := fun d => d.Apart ∧ d.Accounted) ?_ ?_ h
  · rintro d ⟨f, rfl, hforeign⟩
    exact ⟨fun hown => absurd hown hforeign, trivial⟩
  · rintro d e d' hr ⟨hap, hacc⟩ ⟨hg, hst⟩
    have hf := hfiled hr
    refine ⟨device_apart hf hap hst, ?_⟩
    cases device_turn hst with
    | call s j o => exact exec_accounted (s := s) hf hacc hg.1 hg.2
    | uncalled s j o => trivial
    | cut s j o k => trivial
    | boot f j =>
      have hfl : f.dirMeta = ownMeta → f.Filed 4294967295 := hf
      have hidle : (bootLog f).active = false := by
        obtain ⟨g, t, T, n, hram⟩ := imuLogInit_ram (Log.cold f)
        exact congrArg Log.active hram
      exact ⟨boot_own fun hm => (hfl hm).plainCounts, fun hact => Log.not_active hidle hact⟩
    | bootCut f j k => trivial

/-! ## The boot after it -/

/-- The entry with its open flag cleared. -/
def DirEntry.closed (e : DirEntry) : DirEntry := { e with isOpen := 0 }

theorem DirEntry.closed_of_zero {e : DirEntry} (h : e.isOpen = 0) : e.closed = e := by
  cases e
  cases h
  rfl

/-- **One slot of the boot loop** clears the open flag of the entry in it. -/
theorem initSlot_entries (s : Log) {i : Nat}
    (hplain : (s.flash.entries i).Valid → (s.flash.entries i).recCount ≠ 0xFFFFFFFF) (k : Nat) :
    (initSlot s i).flash.entries k =
      if k = i ∧ (s.flash.entries i).Valid then (s.flash.entries i).closed
      else s.flash.entries k := by
  by_cases hv : (s.flash.entries i).Valid
  · have hmend : (s.flash.entries i).mended = s.flash.entries i := if_neg (hplain hv)
    have heq : (initSlot s i).flash =
        (closeSlot (s.emit (.readEntry i)) i (s.flash.entries i)).flash := by
      unfold initSlot
      dsimp only
      rw [if_neg (fun hc => hc hv), hmend]
      rfl
    rw [heq]
    unfold closeSlot
    split
    · refine (@effect_writeEntry_entries 0 (by decide) _ _ _ k).trans ?_
      by_cases hk : k = i
      · rw [if_pos hk, if_pos ⟨hk, hv⟩]
        rfl
      · rw [if_neg hk, if_neg (fun hc => hk hc.1)]
        rfl
    · rename_i hshut
      have hzero : (s.flash.entries i).isOpen = 0 := not_not.mp hshut
      split
      · rename_i hk
        rw [DirEntry.closed_of_zero hzero, hk.1]
        rfl
      · rfl
  · have hskip : initSlot s i = s.emit (.readEntry i) := if_pos hv
    rw [hskip, if_neg (fun hc => hv hc.2)]
    rfl

theorem initFold_entries (l : List Nat) :
    ∀ s : Log, (∀ i ∈ l, (s.flash.entries i).Valid → (s.flash.entries i).recCount ≠ 0xFFFFFFFF) →
      ∀ k, (l.foldl initSlot s).flash.entries k =
        if k ∈ l ∧ (s.flash.entries k).Valid then (s.flash.entries k).closed
        else s.flash.entries k := by
  induction l with
  | nil =>
    intro s _ k
    exact (if_neg (fun hc => absurd hc.1 List.not_mem_nil)).symm
  | cons i l ih =>
    intro s hplain k
    have hslot := initSlot_entries s (hplain i List.mem_cons_self)
    have hnext : ∀ k', (initSlot s i).flash.entries k' = s.flash.entries k' ∨
        (initSlot s i).flash.entries k' = (s.flash.entries k').closed := by
      intro k'
      rw [hslot]
      split
      · rename_i hk
        rw [hk.1]
        exact .inr rfl
      · exact .inl rfl
    have hrest := ih (initSlot s i) (fun k' hk' hv => by
      rcases hnext k' with heq | heq
      · rw [heq] at hv ⊢
        exact hplain k' (List.mem_cons_of_mem _ hk') hv
      · rw [heq] at hv ⊢
        exact hplain k' (List.mem_cons_of_mem _ hk') hv) k
    rw [List.foldl_cons, hrest]
    by_cases hki : k = i
    · subst hki
      by_cases hv : (s.flash.entries k).Valid
      · have hthis : (initSlot s k).flash.entries k = (s.flash.entries k).closed := by
          rw [hslot, if_pos ⟨rfl, hv⟩]
        rw [hthis]
        refine Eq.trans ?_ (if_pos ⟨List.mem_cons_self, hv⟩).symm
        split
        · rfl
        · rfl
      · have hthis : (initSlot s k).flash.entries k = s.flash.entries k := by
          rw [hslot, if_neg (fun hc => hv hc.2)]
        rw [hthis, if_neg (fun hc => hv hc.2), if_neg (fun hc => hv hc.2)]
    · have hthis : (initSlot s i).flash.entries k = s.flash.entries k := by
        rw [hslot, if_neg (fun hc => hki hc.1)]
      have hmem : k ∈ i :: l ↔ k ∈ l := by
        rw [List.mem_cons]
        exact or_iff_right hki
      rw [hthis]
      simp only [hmem]

/-- **A boot clears the open flags**, and changes nothing else. -/
theorem boot_closes {f : Flash} (hf : PlainCounts f) (hm : f.dirMeta = ownMeta) {i : Nat}
    (hi : i < maxSessions) (hv : (f.entries i).Valid) :
    (bootLog f).flash.entries i = (f.entries i).closed := by
  have heq : bootLog f = (List.range maxSessions).foldl initSlot ((Log.cold f).emit .readMeta) := by
    unfold bootLog imuLogInit
    exact if_neg (fun hc => hc hm)
  rw [heq, initFold_entries _ _ (fun k hk hvk => ?_)]
  · exact if_pos ⟨List.mem_range.mpr hi, hv⟩
  · have hcount := (hf k (List.mem_range.mp hk) hvk).1
    exact Nat.ne_of_lt hcount

/-! ## A crash -/

/-- The records drained into the ring by the time of the cut: with the first access of a drain, its
    whole batch is written. -/
theorem cut_written {s : Log} {j : Journal} (h : s.Lags j) (hact : s.active = true) (o : Op) :
    s.curCount ≤ ((j.record s o).drained s.curSeq).length ∧
      ((j.record s o).drained s.curSeq).length ≤ s.curCount + 256 := by
  have hbatch := drainCount_le_batch s
  have hlen := h.drained
  cases o with
  | drain ret =>
    rw [record_drain]
    show s.curCount ≤ (Function.update j.drained s.curSeq _ s.curSeq).length ∧
      (Function.update j.drained s.curSeq _ s.curSeq).length ≤ _
    rw [Function.update_self, List.length_append, stagedBatch_length]
    omega
  | start st ret =>
    have hsame : j.record s (.start st ret) = j := if_pos (Or.inl hact)
    rw [hsame]
    omega
  | append xs =>
    rw [record_append j s xs hact]
    show s.curCount ≤ (j.drained s.curSeq).length ∧ (j.drained s.curSeq).length ≤ _
    omega
  | stop | erase =>
    show s.curCount ≤ (j.drained s.curSeq).length ∧ (j.drained s.curSeq).length ≤ _
    omega

/-- What a cut leaves of the directory: the entries it keeps, with the running session's count as it
    was or as far as the session is written. -/
theorem cut_entries {s : Log} {j : Journal} (h : s.Lags j) (hact : s.active = true) {o : Op}
    (hroom : Room s o) (k : Nat) {i : Nat} (hv : ((cutImage s o (k + 1)).entries i).Valid) :
    (s.flash.entries i).Valid ∧
      ((cutImage s o (k + 1)).entries i).seq = (s.flash.entries i).seq ∧
      ((cutImage s o (k + 1)).entries i).startRec = (s.flash.entries i).startRec ∧
      (((cutImage s o (k + 1)).entries i).recCount = (s.flash.entries i).recCount ∨
        (i = s.curSlot ∧ ((cutImage s o (k + 1)).entries i).recCount =
          ((j.record s o).drained s.curSeq).length)) := by
  have hafter := cutImage_after s o k
  generalize cutImage s o (k + 1) = g at hafter hv
  -- cuts that leave the directory alone
  have hkept : g = s.flash → (s.flash.entries i).Valid ∧
      (g.entries i).seq = (s.flash.entries i).seq ∧
      (g.entries i).startRec = (s.flash.entries i).startRec ∧
      ((g.entries i).recCount = (s.flash.entries i).recCount ∨
        (i = s.curSlot ∧ (g.entries i).recCount = ((j.record s o).drained s.curSeq).length)) := by
    rintro rfl
    exact ⟨hv, rfl, rfl, .inl rfl⟩
  -- cuts on the way through a close, which stores the live count
  have hclosing : Image (Closing s) s.flash g → (j.record s o).drained = j.drained →
      (s.flash.entries i).Valid ∧ (g.entries i).seq = (s.flash.entries i).seq ∧
      (g.entries i).startRec = (s.flash.entries i).startRec ∧
      ((g.entries i).recCount = (s.flash.entries i).recCount ∨
        (i = s.curSlot ∧ (g.entries i).recCount = ((j.record s o).drained s.curSeq).length)) := by
    intro himage hsame
    obtain ⟨hv0, hseq, hstart, hc⟩ := himage.1.entry hv
    refine ⟨hv0, hseq, hstart, ?_⟩
    rcases hc with hold | ⟨-, hi, hlive⟩
    · exact .inl hold
    · exact .inr ⟨hi, by rw [hsame, h.drained]; exact hlive⟩
  cases hafter.leaves with
  | idle _ => exact hkept rfl
  | staged => exact hkept rfl
  | entered ha =>
    rw [ha] at hact
    exact absurd hact (by decide)
  | closed himage => exact hclosing himage rfl
  | erased himage => exact hclosing himage rfl
  | drained hne himage =>
    obtain ⟨hv0, hseq, hstart, hc⟩ := himage.1.entry hv
    rw [drainWrite_entries] at hv0 hseq hstart hc
    refine ⟨hv0, hseq, hstart, ?_⟩
    rcases hc with hold | ⟨hi, hlive⟩
    · exact .inl hold
    · refine .inr ⟨hi, ?_⟩
      obtain ⟨-, hcount⟩ : s.totalAbs + s.drainCount < 4294967296 ∧
        s.curCount + s.drainCount < 4294967295 := hroom
      rw [hlive, u32_of_lt (by omega), record_drain]
      show _ = (Function.update j.drained s.curSeq _ s.curSeq).length
      rw [Function.update_self, List.length_append, stagedBatch_length, h.drained]

/-- What a boot makes of a crash that left the image `g` with `written` records of the running session
    of `s` in the ring. -/
structure Recovered (s : Log) (g : Flash) (written : Nat) (s' : Log) : Prop where
  listed : (s'.flash.entries s.curSlot).Valid ∧ (s'.flash.entries s.curSlot).seq = s.curSeq
  atMost : (s'.flash.entries s.curSlot).recCount ≤ written
  atLeast : written < (s'.flash.entries s.curSlot).recCount + (dirRefreshRecs + batchRecs)
  others : ∀ i, i < maxSessions → i ≠ s.curSlot → (g.entries i).Valid →
    s'.flash.entries i = (g.entries i).closed
  resumes : s'.totalAbs =
    (s'.flash.entries s.curSlot).startRec + (s'.flash.entries s.curSlot).recCount

/-- A boot from such an image. -/
theorem recovered {s : Log} {g : Flash} {written : Nat} (hfiled : g.Filed 4294967295)
    (hlive : g.Live s.curSlot) (hslot : s.curSlot < maxSessions)
    (hseq : (g.entries s.curSlot).seq = s.curSeq) (hle : (g.entries s.curSlot).recCount ≤ written)
    (hlt : written < (g.entries s.curSlot).recCount + 768)
    (hlast : ∀ i, i < maxSessions → (g.entries i).Valid → i ≠ s.curSlot →
      (g.entries i).startRec + (g.entries i).recCount ≤ (g.entries s.curSlot).startRec) :
    Recovered s g written (bootLog g) := by
  have hplain := hfiled.plainCounts
  have hentry := boot_closes hplain hlive.1 hslot hlive.2
  constructor
  · rw [hentry]
    exact ⟨hlive.2, hseq⟩
  · rw [hentry]
    exact hle
  · rw [hentry]
    exact hlt
  · intro i hi _ hv
    exact boot_closes hplain hlive.1 hi hv
  · obtain ⟨⟨f, t, hboot⟩, -⟩ := bootLog_own hplain hlive.1
    have htotal : (bootLog g).totalAbs = directoryEnd g := by rw [hboot]
    rw [htotal, hentry]
    refine Nat.le_antisymm (directoryEnd_le ?_) (le_directoryEnd hslot hlive.2)
    intro i hi hv
    show _ ≤ (g.entries s.curSlot).startRec + (g.entries s.curSlot).recCount
    by_cases hcur : i = s.curSlot
    · rw [hcur]
    · have hends := hlast i hi hv hcur
      omega

/-- With room in the counters the write head stays a word. -/
theorem headAfter_word {s : Log} (hf : s.Filed) {o : Op} (hroom : Room s o) :
    s.headAfter o ≤ 4294967295 := by
  have htotal := hf.total
  cases o with
  | drain ret =>
    have hfits : s.totalAbs + s.drainCount < 4294967296 := hroom.1
    exact Nat.lt_succ_iff.mp hfits
  | start | append | stop | erase => exact Nat.lt_succ_iff.mp htotal

/-- The image a cut leaves after the first access of a call: the call may have stored a batch that
    no entry counts yet. -/
theorem cut_recovered {s : Log} {j : Journal} (hf : s.Filed) (hap : s.Apart) (hlags : s.Lags j)
    (hact : s.active = true) {o : Op} (hroom : Room s o) {k : Nat}
    (hlive : (cutImage s o (k + 1)).Live s.curSlot) :
    Recovered s (cutImage s o (k + 1)) ((j.record s o).drained s.curSeq).length
      (bootLog (cutImage s o (k + 1))) := by
  have hv := hf.running hact
  obtain ⟨hseq, hstart, -, -⟩ := (hf.bound (Or.inl hact)).entry hv
  have hslot : s.curSlot < maxSessions := by
    rw [(hf.bound (Or.inl hact)).slot]
    exact slotOf_lt _
  have hentry := hlags.entry
  have hlag := hlags.behind
  have hdue := hlags.due
  obtain ⟨hle, hbatch⟩ := cut_written hlags hact o
  have hcut := fun i => cut_entries (i := i) hlags hact hroom k
  have hfiled := (cutImage_after s o k).filed hf hroom
  generalize cutImage s o (k + 1) = g at hlive hcut hfiled
  obtain ⟨-, hseqg, hstartg, hcount⟩ := hcut s.curSlot hlive.2
  refine recovered (hfiled.mono (headAfter_word hf hroom)) hlive hslot (hseqg.trans hseq) ?_ ?_ ?_
  · rcases hcount with hold | ⟨-, hnew⟩
    · omega
    · omega
  · rcases hcount with hold | ⟨-, hnew⟩
    · omega
    · omega
  · intro i hi hvi hother
    obtain ⟨hv0, -, hstarti, hcounti⟩ := hcut i hvi
    rw [hstartg, hstart, hstarti]
    rcases hcounti with hold | ⟨hcur, -⟩
    · rw [hold]
      exact hap.running (Or.inl hact) hv i hi hother hv0
    · exact absurd hcur hother

/-- **A crash loses a bounded amount of accounting.**  In a run without flash errors whose drains leave
    the counters room, after a power cut at any point of any call while a session runs, and the boot
    after it. -/
theorem crash_bounded {s : Log} {j jc : Journal} {o : Op} {k : Nat} {g : Flash}
    (h : Reach Fresh (guarded (onCall Roomy) DeviceStep) (.on s j)) (hact : s.active = true)
    (hcut : guarded (onCall Roomy) DeviceStep (.on s j) (.cut o k) (.off g jc)) :
    (o ≠ .erase → (g.entries s.curSlot).Valid) ∧
      ((g.entries s.curSlot).Valid → Recovered s g (jc.drained s.curSeq).length (bootLog g)) := by
  obtain ⟨hf, hap, hacc⟩ := reach_accounted h
  have hf : s.Filed := hf
  have hap : s.Apart := hap
  have hacc : s.Accounted j := hacc
  have hlags := hacc.lags hact
  have hv := hf.running hact
  obtain ⟨hseq, hstart, -, -⟩ := (hf.bound (Or.inl hact)).entry hv
  have hslot : s.curSlot < maxSessions := by
    rw [(hf.bound (Or.inl hact)).slot]
    exact slotOf_lt _
  obtain ⟨⟨-, hroom⟩, hstep⟩ := hcut
  obtain ⟨rfl, rfl⟩ : cutImage s o k = g ∧ (if k = 0 then j else j.record s o) = jc := by
    have hoff := Option.some.inj hstep
    exact ⟨(Device.off.inj hoff).1, (Device.off.inj hoff).2⟩
  have hlive := cutImage_live hact ⟨hacc.own, hv⟩ o k
  constructor
  · intro hne
    rcases hlive with hlive | ⟨herase, -⟩
    · exact hlive.2
    · exact absurd herase hne
  · intro hvg
    have hlive := hlive.resolve_right fun hc => hc.2 _ hvg
    cases k with
    -- before the first access: the flash is as the last call left it
    | zero =>
      rw [cutImage_zero] at hlive ⊢
      rw [if_pos rfl]
      have hentry := hlags.entry
      have hlag := hlags.behind
      have hdue := hlags.due
      have hdrained := hlags.drained
      refine recovered (hf.entries.mono (Nat.lt_succ_iff.mp hf.total)) hlive hslot hseq ?_ ?_ ?_
      · omega
      · omega
      · intro i hi hvi hother
        rw [hstart]
        exact hap.running (Or.inl hact) hv i hi hother hvi
    | succ k =>
      rw [if_neg (Nat.succ_ne_zero k)]
      exact cut_recovered hf hap hlags hact hroom hlive

/-- Session 1 of a blank device, with one record staged. -/
def oneStaged : Log :=
  exec (exec (bootLog Flash.blank) (.start Stamp.zero 0)) (.append [default])

/-- And its journal. -/
def oneStagedJournal : Journal :=
  (Journal.empty.record (bootLog Flash.blank) (.start Stamp.zero 0)).record
    (exec (bootLog Flash.blank) (.start Stamp.zero 0)) (.append [default])

/-- Power is cut right after the data write of the first drain. -/
theorem crash_bounded_one : Recovered oneStaged (cutImage oneStaged (.drain 0) 1)
    ((oneStagedJournal.record oneStaged (.drain 0)).drained 1).length
    (bootLog (cutImage oneStaged (.drain 0) 1)) := by
  have hroom : Roomy oneStaged (.drain 0) := by
    refine ⟨Int.le_refl 0, ?_⟩
    show _ < _ ∧ _ < _
    decide +kernel
  have hreach : Reach Fresh (guarded (onCall Roomy) DeviceStep) (.on oneStaged oneStagedJournal) :=
    reach_call (reach_opened ⟨Int.le_refl 0, trivial⟩) (.append [default]) ⟨trivial, trivial⟩
  have hact : oneStaged.active = true := by decide +kernel
  have hcut := crash_bounded (o := .drain 0) (k := 1) hreach hact ⟨hroom, rfl⟩
  exact hcut.2 (hcut.1 (fun hc => by cases hc))

/-- **The session of 2^32 records**: its count is back at 0 when the refresh falls due, and a crash
    after that loses all of it. -/
theorem whole_session_lost :
    ¬ ∀ (s : Log) (j jc : Journal) (o : Op) (k : Nat) (g : Flash),
      Reach Fresh (guarded (onCall fun _ o => o.Ok) DeviceStep) (.on s j) → s.active = true →
        guarded (onCall fun _ o => o.Ok) DeviceStep (.on s j) (.cut o k) (.off g jc) →
          (g.entries s.curSlot).Valid →
            Recovered s g (jc.drained s.curSeq).length (bootLog g) := by
  intro hall
  obtain ⟨s, j, hr, h⟩ := logged_reach (G := onCall fun _ o => o.Ok) (B := 4294967295) (by decide)
    (fun _ _ => trivial) (fun _ _ _ hw => hw.1) (List.replicate 4294967295 default)
    (Nat.le_of_eq (List.length_replicate ..))
  obtain ⟨hap, -, hjdr⟩ := h.append default
  obtain ⟨-, hone, hn⟩ := h.one_staged default
  have hreach := reach_call (reach_call hr (.append [default]) trivial) (.drain 0) (Int.le_refl 0)
  have hlast := h.refreshed
  have hcount := h.count
  rw [List.length_replicate] at hlast hcount
  obtain ⟨e, he, hv, -, hstart, -⟩ := h.entry
  have hlen : (j.drained 1).length = 4294967295 := by rw [h.drained, List.length_replicate]
  generalize j.record s (.append [default]) = j' at hjdr hreach
  generalize exec s (.append [default]) = s' at hap hone hn hreach
  have hslot : s'.curSlot = 0 := by rw [hap]; exact h.slot
  have hseq : s'.curSeq = 1 := by rw [hap]; exact h.seq
  have hflash : s'.flash = s.flash := by rw [hap]
  have hact : s'.active = true := by rw [hap]; exact h.active
  have hcur : s'.curCount = 4294967295 := by rw [hap]; exact hcount
  have hrefreshed : s'.lastDirRefresh = 4294966784 := by rw [hap]; exact hlast
  have htr : s' = { s' with trace := [] } := by rw [hap]
  obtain ⟨g, t, L, o, hdr, hmeta, hother, hcase⟩ := lone_drain s' 0 (by omega) hact
    (by rw [hflash, hslot, he]; exact hv) (by rw [hflash, hslot]; exact h.others)
  have hexec : exec s' (.drain 0) = { s'.drained 0 with
      flash := g, trace := t, lastDirRefresh := L } := by
    show writerDrainBatch { s' with trace := [] } 0 = _
    rw [← htr]
    exact hdr
  have hdrained : ((j'.record s' (.drain 0)).drained 1).length = 4294967296 := by
    rw [record_drain, hseq]
    show (Function.update j'.drained 1 (j'.drained 1 ++ s'.stagedBatch s'.drainCount) 1).length = _
    rw [Function.update_self, List.length_append, stagedBatch_length, hn, hjdr, List.length_replicate]
  -- the refresh writes the wrapped count
  have hzero : u32 (s'.curCount + s'.drainCount) = 0 := by
    rw [hcur, hn]
    rfl
  have hentry : ∃ o, g.entries 0 = { e with recCount := 0, isOpen := o } := by
    rw [hzero, hrefreshed, hslot, hflash, he] at hcase
    rcases hcase with ⟨-, hL, hentry⟩ | ⟨hnot, -, -⟩
    · exact ⟨o, by rw [hentry, hL]⟩
    · exact absurd (by decide) hnot
  obtain ⟨o', hentry⟩ := hentry
  have hvg : (g.entries 0).Valid := by rw [hentry]; exact hv
  have hplain : PlainCounts g := by
    intro i _ hvi
    by_cases hi : i = 0
    · rw [hi, hentry]
      show 0 < 4294967295 ∧ e.startRec + 0 < 4294967296
      omega
    · rw [hother i (by rw [hslot]; exact hi), hflash] at hvi
      exact absurd hvi (h.others i hi)
  have hown : g.dirMeta = ownMeta := by
    rw [hmeta, hflash]
    exact h.own
  have hclosed : (bootLog g).flash.entries 0 = (g.entries 0).closed :=
    boot_closes hplain hown (by decide) hvg
  generalize j'.record s' (.drain 0) = j'' at hdrained hreach
  rw [hexec] at hreach
  have hlost := (hall _ j'' j'' .stop 0 g hreach hact ⟨trivial, rfl⟩ (by
    show (g.entries s'.curSlot).Valid
    rw [hslot]
    exact hvg)).atLeast
  have hlost' : (j''.drained s'.curSeq).length <
      ((bootLog g).flash.entries s'.curSlot).recCount + (dirRefreshRecs + batchRecs) := hlost
  rw [hseq, hslot, hdrained, hclosed, hentry] at hlost'
  have hlost'' : 4294967296 < 0 + (512 + 256) := hlost'
  exact absurd hlost'' (by decide)

end Caterpillar.ImuLog
