/-
  What the record ring holds, over every run.

  The flash ring is addressed by the absolute record counter, a session is a range of that counter,
  and the journal says which records were drained for it.  `Flash.Stores f T start count l` puts the
  three together, in BYTES: with the write head at `T`, the ring holds the bytes of the first `count`
  records of `l` at the positions from `start` on, as far as the head has not come round to them.

  1. `Flash.Stores` and its rules — a drain extends the running session (`Stores.extend`) and eats
     the far end of the others (`Stores.behind`).
  2. `Flash.Kept` / `Log.Kept` — every listed session stores what the journal says was drained for
     it; the running one does so up to the live count.
  3. `After.kept`, `exec_kept` — the step lemmas.
  4. `CutSafe` — a power cut forgets how far the head had come: the boot rebuilds `total_abs` from
     counts that lag behind.  The step lemma for a cut needs that no record the rebuilt
     `ring_floor()` readmits was overwritten; that, and nothing else, is `CutSafe`.
-/
import Caterpillar.ImuLog.Directory

namespace Caterpillar.ImuLog

open Caterpillar.Word Caterpillar.Ring Caterpillar.Runs Caterpillar.Imu

/-! ## A session in the ring -/

/-- The first `count` records of `l`, from position `start` on, as far as a write head at `T` has
    left them. -/
def Flash.Stores (f : Flash) (T start count : Nat) (l : List ImuSample) : Prop :=
  count ≤ l.length ∧
    Holds dataCapacity f.data (max (16 * start) (16 * T - dataCapacity)) (16 * (start + count))
      fun r => (recordBytes l).getD (r - 16 * start) 0

/-- An empty session is stored anywhere. -/
theorem Flash.Stores.empty (f : Flash) (T start : Nat) (l : List ImuSample) :
    f.Stores T start 0 l :=
  ⟨Nat.zero_le _, fun r h1 h2 => by omega⟩

/-- Only the ring bytes matter. -/
theorem Flash.Stores.congr {f g : Flash} {T start count : Nat} {l : List ImuSample}
    (h : f.Stores T start count l) (hg : g.data = f.data) : g.Stores T start count l := by
  refine ⟨h.1, ?_⟩
  rw [hg]
  exact h.2

/-- So is a beginning of a stored session. -/
theorem Flash.Stores.fewer {f : Flash} {T start count count' : Nat} {l : List ImuSample}
    (h : f.Stores T start count l) (hle : count' ≤ count) : f.Stores T start count' l :=
  ⟨Nat.le_trans hle h.1, h.2.shrink (Nat.le_refl _) (by omega)⟩

/-- The data write of a drain, in byte positions. -/
theorem drainWrite_data (s : Log) {ret : Int} (hret : ¬ ret < 0) :
    ((s.drainWrite ret).effect s.flash).data =
      Ring.put s.flash.data (16 * s.totalAbs % dataCapacity)
        (recordBytes (s.stagedBatch s.drainCount)) := by
  have hpos : s.totalAbs % recCapacity * recSize = 16 * s.totalAbs % dataCapacity := by
    rw [recCapacity_eq, recSize_eq, dataCapacity_eq]
    omega
  rw [← hpos]
  exact congrArg Flash.data (if_neg hret)

/-- The batch never crosses the physical end of the ring, in bytes either. -/
theorem drainWrite_fits (s : Log) :
    16 * s.totalAbs % dataCapacity + (recordBytes (s.stagedBatch s.drainCount)).length ≤
      dataCapacity := by
  have hfit := drainCount_fits s
  rw [recordBytes_length, stagedBatch_length]
  rw [recCapacity_eq] at hfit
  rw [dataCapacity_eq]
  omega

/-- **A drain extends the running session**: the session that ends at the head grows by the batch. -/
theorem Flash.Stores.extend {s : Log} {start count : Nat} {l : List ImuSample} {ret : Int}
    (h : s.flash.Stores s.totalAbs start count l) (hret : ¬ ret < 0)
    (hend : start + count = s.totalAbs) (hl : l.length = count) :
    ((s.drainWrite ret).effect s.flash).Stores (s.totalAbs + s.drainCount) start
      (count + s.drainCount) (l ++ s.stagedBatch s.drainCount) := by
  have hlen : (recordBytes (s.stagedBatch s.drainCount)).length = 16 * s.drainCount := by
    rw [recordBytes_length, stagedBatch_length]
  have hllen : (recordBytes l).length = 16 * count := by rw [recordBytes_length, hl]
  have hpos : 16 * start + (recordBytes l).length = 16 * s.totalAbs := by omega
  have hend' : 16 * start + (recordBytes l ++ recordBytes (s.stagedBatch s.drainCount)).length =
      16 * (start + (count + s.drainCount)) := by
    rw [List.length_append]
    omega
  have hfits := drainWrite_fits s
  refine ⟨?_, ?_⟩
  · rewrite [List.length_append, stagedBatch_length, hl]
    exact Nat.le_refl _
  · rw [drainWrite_data s hret, recordBytes_append, ← hend', ← hpos]
    rw [← hpos] at hfits
    refine Holds.append (h.2.shrink (Nat.le_refl _) (by omega)) (by omega) (by omega) hfits ?_
    omega

/-- **A drain eats the far end of the others**: of a session that ends at or before the head, what
    lies within a ring length of the new head stays. -/
theorem Flash.Stores.behind {s : Log} {start count : Nat} {l : List ImuSample} {ret : Int}
    (h : s.flash.Stores s.totalAbs start count l) (hret : ¬ ret < 0)
    (hend : start + count ≤ s.totalAbs) :
    ((s.drainWrite ret).effect s.flash).Stores (s.totalAbs + s.drainCount) start count l := by
  have hlen : (recordBytes (s.stagedBatch s.drainCount)).length = 16 * s.drainCount := by
    rw [recordBytes_length, stagedBatch_length]
  refine ⟨h.1, ?_⟩
  rw [drainWrite_data s hret]
  exact h.2.put_behind (by omega) (by omega) (drainWrite_fits s) (by omega)

/-- A boot may put the head back to `T'`, if nothing it readmits was overwritten. -/
theorem Flash.Stores.rewind {f : Flash} {T T' start count : Nat} {l : List ImuSample}
    (h : f.Stores T start count l)
    (hsafe : ∀ r, start ≤ r → r < start + count → T' ≤ r + recCapacity → T ≤ r + recCapacity) :
    f.Stores T' start count l := by
  refine ⟨h.1, fun r h1 h2 => h.2 r ?_ h2⟩
  have hcap := dataCapacity_eq
  have hrec := recCapacity_eq
  have hr := hsafe (r / 16) (by omega) (by omega) (by omega)
  omega

/-! ## Every session -/

/-- Every listed session stores the records drained for it. -/
def Flash.Kept (f : Flash) (T : Nat) (drained : Nat → List ImuSample) : Prop :=
  ∀ i, i < maxSessions → (f.entries i).Valid →
    f.Stores T (f.entries i).startRec (f.entries i).recCount (drained (f.entries i).seq)

/-- And the running one does so up to the live count. -/
structure Log.Kept (s : Log) (drained : Nat → List ImuSample) : Prop where
  stored : s.flash.Kept s.totalAbs drained
  live : s.Busy → (s.flash.entries s.curSlot).Valid →
    (drained s.curSeq).length = s.curCount ∧
      s.flash.Stores s.totalAbs s.curStart s.curCount (drained s.curSeq)

theorem Flash.Kept.none {f : Flash} {T : Nat} {drained : Nat → List ImuSample}
    (h : ∀ i, ¬ (f.entries i).Valid) : f.Kept T drained :=
  fun i _ hv => absurd hv (h i)

/-- What an update of the counts does to one entry. -/
theorem Evolves.entry {R : Nat → Nat → Nat → Prop} {f g : Flash} (h : Evolves R f g) {i : Nat}
    (hv : (g.entries i).Valid) :
    (f.entries i).Valid ∧ (g.entries i).seq = (f.entries i).seq ∧
      (g.entries i).startRec = (f.entries i).startRec ∧
      R i (f.entries i).recCount (g.entries i).recCount := by
  refine ⟨h.valid hv, ?_⟩
  obtain ⟨c, o, heq, hc⟩ := h i hv
  rw [heq]
  exact ⟨rfl, rfl, hc⟩

/-- The running session is the only one filed under its slot. -/
theorem Log.Filed.other {s : Log} (h : s.Filed) (hb : s.Busy) {i : Nat} (hi : i < maxSessions)
    (hv : (s.flash.entries i).Valid) (hne : i ≠ s.curSlot) : (s.flash.entries i).seq ≠ s.curSeq := by
  intro heq
  apply hne
  rw [← (h.entries i hi hv).slot, heq]
  exact (h.bound hb).slot.symm

/-- What a stop may do to the counts leaves every session stored. -/
theorem Log.Kept.closing {s : Log} {drained : Nat → List ImuSample} {g : Flash} (hf : s.Filed)
    (h : s.Kept drained) (hg : Image (Closing s) s.flash g) : g.Kept s.totalAbs drained := by
  intro i hi hv
  obtain ⟨hv0, hseq, hstart, hc⟩ := hg.1.entry hv
  rw [hseq, hstart]
  rcases hc with hsame | ⟨hact, hcur, hlive⟩
  · rw [hsame]
    exact (h.stored i hi hv0).congr hg.2
  · subst hcur
    obtain ⟨hbseq, hbstart, -, -⟩ := (hf.bound (Or.inl hact)).entry hv0
    rw [hlive, hbseq, hbstart]
    exact (h.live (Or.inl hact) hv0).2.congr hg.2

/-- What a drain does leaves every session stored, with the batch added to the running one. -/
theorem Log.Kept.refreshed {s : Log} {drained : Nat → List ImuSample} {g : Flash} {ret : Int}
    (hf : s.Filed) (h : s.Kept drained) (hroom : Room s (.drain ret)) (hret : ¬ ret < 0)
    (hne : u32Sub s.stageHead s.stageTail ≠ 0)
    (hg : Image (Refreshed s.curSlot (u32 (s.curCount + s.drainCount)))
      ((s.drainWrite ret).effect s.flash) g) :
    g.Kept (s.totalAbs + s.drainCount) (Function.update drained s.curSeq
      (drained s.curSeq ++ s.stagedBatch s.drainCount)) := by
  have hbusy := Log.busy_of_staged hne
  intro i hi hv
  obtain ⟨hv0, hseq, hstart, hc⟩ := hg.1.entry hv
  rw [drainWrite_entries] at hv0 hseq hstart hc
  rw [hseq, hstart]
  have hC : s.curCount + s.drainCount < 4294967295 := hroom.2
  by_cases hcur : i = s.curSlot
  · -- the running session
    subst hcur
    obtain ⟨hbseq, hbstart, hbrec, hbsum⟩ := (hf.bound hbusy).entry hv0
    obtain ⟨hlen, hst⟩ := h.live hbusy hv0
    rw [hbseq, hbstart, Function.update_self]
    refine ((hst.extend hret hbsum hlen).congr hg.2).fewer ?_
    rcases hc with hsame | ⟨-, hlive⟩
    · omega
    · exact Nat.le_of_eq (hlive.trans (u32_of_lt (by omega)))
  · -- a bystander
    have hother := hf.other hbusy hi hv0 hcur
    have hcount : (g.entries i).recCount = (s.flash.entries i).recCount := by
      rcases hc with hsame | ⟨hslot, -⟩
      · exact hsame
      · exact absurd hslot hcur
    rw [Function.update_of_ne hother, hcount]
    exact ((h.stored i hi hv0).behind hret (hf.entries i hi hv0).ends).congr hg.2

/-- Opening a session leaves the others stored; the new one is empty. -/
theorem Log.Kept.enter {s : Log} {drained : Nat → List ImuSample} (hf : s.Filed)
    (h : s.Kept drained) (st : Stamp) {ret : Int} (hret : ¬ ret < 0) :
    ((s.entryWrite st ret).effect s.flash).Kept s.totalAbs
      (Function.update drained s.seqNext []) := by
  intro i hi hv
  have hdata : ((s.entryWrite st ret).effect s.flash).data = s.flash.data :=
    effect_writeEntry_data _ _ _ _
  rw [Log.entryWrite, effect_writeEntry_entries hret] at hv ⊢
  by_cases hslot : i = slotOf s.seqNext
  · rw [if_pos hslot]
    exact Flash.Stores.empty _ _ _ _
  · rw [if_neg hslot] at hv ⊢
    have hother : (s.flash.entries i).seq ≠ s.seqNext := by
      intro heq
      apply hslot
      rw [← (hf.entries i hi hv).slot, heq]
    rw [Function.update_of_ne hother]
    exact (h.stored i hi hv).congr hdata

/-- **Cut images are kept.**  Whatever a call leaves in flash after its first access stores what the
    journal then says, for the head where it then stands. -/
theorem After.kept {s : Log} {j : Journal} {op : Op} {g : Flash} (hf : s.Filed)
    (h : s.Kept j.drained) (hroom : Room s op) (hok : op.Ok) (hg : After s op g) :
    g.Kept (s.headAfter op) (j.record s op).drained := by
  cases hg.leaves with
  | idle hidle =>
    have hhead : s.headAfter op = s.totalAbs := by
      rcases hidle with ⟨st, ret, rfl, -⟩ | ⟨xs, rfl, -⟩ | ⟨ret, rfl, hzero⟩ | ⟨rfl, -⟩
      · rfl
      · rfl
      · have hle := drainCount_le_staged s
        show s.totalAbs + s.drainCount = s.totalAbs
        omega
      · rfl
    rw [record_idle j hidle, hhead]
    exact h.stored
  | @entered st ret ha =>
    have hret : ¬ ret < 0 := by
      have h0 : 0 ≤ ret := hok
      omega
    rw [record_start_ok j s st ha hret]
    exact h.enter hf st hret
  | @staged xs =>
    have hrec : (j.record s (.append xs)).drained = j.drained := by
      by_cases ha : s.active = true
      · rw [record_append j s xs ha]
      · have hrec : j.record s (.append xs) = j := if_neg ha
        rw [hrec]
    rw [hrec]
    exact h.stored
  | @drained ret _ hne hg =>
    have hret : ¬ ret < 0 := by
      have h0 : 0 ≤ ret := hok
      omega
    rw [record_drain]
    exact h.refreshed hf hroom hret hne hg
  | closed hg => exact h.closing hf hg
  | erased hg => exact h.closing hf hg

/-- **Step lemma.**  Every call keeps every listed session stored. -/
theorem exec_kept {s : Log} {j : Journal} (hf : s.Filed) (h : s.Kept j.drained) (op : Op)
    (hroom : Room s op) (hok : op.Ok) : (exec s op).Kept (j.record s op).drained := by
  have hafter := (exec_after s op).kept hf h hroom hok
  have hout := exec_cases s op
  generalize exec s op = s' at hafter hout
  cases hout with
  | @idle op t hidle =>
    rw [record_idle j hidle]
    exact ⟨h.stored, h.live⟩
  | @failed st ret t ha hret =>
    have h0 : 0 ≤ ret := hok
    omega
  | @opened st ret t ha hret =>
    refine ⟨hafter, fun _ _ => ?_⟩
    rw [record_start_ok j s st ha hret]
    show (Function.update j.drained s.seqNext [] s.seqNext).length = 0 ∧
      ((s.entryWrite st ret).effect s.flash).Stores s.totalAbs s.totalAbs 0 _
    rw [Function.update_self]
    exact ⟨rfl, Flash.Stores.empty _ _ _ _⟩
  | @staged xs t ha =>
    obtain ⟨g, hd, d, hram⟩ := appendFold_ram s xs
    rw [record_append j s xs ha, hram]
    exact ⟨h.stored, fun _ => h.live (Or.inl ha)⟩
  | @wrote ret g t L hne hg hk hL =>
    have hret : ¬ ret < 0 := by
      have h0 : 0 ≤ ret := hok
      omega
    have hbusy := Log.busy_of_staged hne
    have htot : u32 (s.totalAbs + s.drainCount) = s.totalAbs + s.drainCount := u32_of_lt hroom.1
    have hcnt : u32 (s.curCount + s.drainCount) = s.curCount + s.drainCount := by
      have hC := hroom.2
      exact u32_of_lt (by omega)
    refine ⟨?_, ?_⟩
    · show g.Kept (u32 (s.totalAbs + s.drainCount)) _
      rw [htot]
      exact hafter
    · intro _ (hv : (g.entries s.curSlot).Valid)
      have hv0 := hg.1.valid hv
      rw [drainWrite_entries] at hv0
      obtain ⟨hbseq, hbstart, hbrec, hbsum⟩ := (hf.bound hbusy).entry hv0
      obtain ⟨hlen, hst⟩ := h.live hbusy hv0
      rw [record_drain]
      show (Function.update j.drained s.curSeq (j.drained s.curSeq ++
          s.stagedBatch s.drainCount) s.curSeq).length = u32 (s.curCount + s.drainCount) ∧
        g.Stores (u32 (s.totalAbs + s.drainCount)) s.curStart (u32 (s.curCount + s.drainCount))
          (Function.update j.drained s.curSeq (j.drained s.curSeq ++
            s.stagedBatch s.drainCount) s.curSeq)
      rw [Function.update_self, htot, hcnt, List.length_append, stagedBatch_length, hlen]
      exact ⟨rfl, (hst.extend hret hbsum hlen).congr hg.2⟩
  | @closed g t L ha hg =>
    refine ⟨hafter, fun _ hv => ?_⟩
    obtain ⟨hlen, hst⟩ := h.live (Or.inl ha) (hg.1.valid hv)
    exact ⟨hlen, hst.congr hg.2⟩
  | @wiped g t L d hnone hdata =>
    exact ⟨Flash.Kept.none hnone, fun _ hv => absurd hv (hnone _)⟩

/-! ## Power cuts and boots -/

/-- Where the write head stood when the power went. -/
def cutHead (s : Log) (o : Op) (k : Nat) : Nat := if k = 0 then s.totalAbs else s.headAfter o

/-- No record that the rebuilt `ring_floor()` readmits was overwritten: of every session listed in
    the image of the cut, the records within a ring length of the rebuilt counter are within a ring
    length of the head too. -/
def CutSafe (s : Log) (o : Op) (k : Nat) : Prop :=
  ∀ i, i < maxSessions → ((cutImage s o k).entries i).Valid →
    ∀ r, ((cutImage s o k).entries i).startRec ≤ r →
      r < ((cutImage s o k).entries i).startRec + ((cutImage s o k).entries i).recCount →
      directoryEnd (cutImage s o k) ≤ r + recCapacity → cutHead s o k ≤ r + recCapacity

/-- A cut that is safe leaves every listed session stored for the counter the boot rebuilds. -/
theorem cut_kept {s : Log} {j : Journal} (hf : s.Filed) (h : s.Kept j.drained) (o : Op) (k : Nat)
    (hroom : Room s o) (hok : o.Ok) (hsafe : CutSafe s o k) :
    (cutImage s o k).Kept (directoryEnd (cutImage s o k))
      (if k = 0 then j else j.record s o).drained := by
  have hkept : (cutImage s o k).Kept (cutHead s o k)
      (if k = 0 then j else j.record s o).drained := by
    cases k with
    | zero => exact h.stored
    | succ k => exact (cutImage_after s o k).kept hf h hroom hok
  exact fun i hi hv => (hkept i hi hv).rewind (hsafe i hi hv)

/-- A boot touches open flags only. -/
theorem Flash.Kept.reopened {f g : Flash} {T : Nat} {drained : Nat → List ImuSample}
    (h : f.Kept T drained) (hg : Reopened f g) : g.Kept T drained := by
  intro i hi hv
  obtain ⟨hv0, hseq, hstart, hcount⟩ := hg.image.1.entry hv
  rw [hseq, hstart, hcount]
  exact (h i hi hv0).congr hg.1

/-- Nor does it change where the listed sessions end. -/
theorem Reopened.directoryEnd {f g : Flash} (hg : Reopened f g) :
    ImuLog.directoryEnd g = ImuLog.directoryEnd f := by
  have hfun : endMax g = endMax f := by
    funext m i
    obtain ⟨o, ho⟩ := hg.2.2 i
    have hm : (g.entries i).Valid ↔ (f.entries i).Valid := by rw [ho]; exact Iff.rfl
    unfold endMax
    by_cases hv : (f.entries i).Valid
    · rw [if_pos hv, if_pos (hm.mpr hv), ho]
    · rw [if_neg hv, if_neg fun hc => hv (hm.mp hc)]
  unfold ImuLog.directoryEnd
  rw [hfun]

/-- A boot keeps every listed session stored. -/
theorem boot_kept {f : Flash} {drained : Nat → List ImuSample}
    (hf : f.dirMeta = ownMeta → f.Filed 4294967295 ∧ f.Kept (directoryEnd f) drained) :
    (bootLog f).Kept drained := by
  by_cases hm : f.dirMeta = ownMeta
  · obtain ⟨hfiled, hkept⟩ := hf hm
    obtain ⟨g, t, heq, hre⟩ := bootLog_over hfiled.plainCounts hm
    rw [heq]
    exact ⟨hkept.reopened hre, fun hb => absurd hb (Log.not_busy rfl rfl)⟩
  · have hnone := bootLog_foreign_none hm
    exact ⟨Flash.Kept.none hnone, fun _ hv => absurd hv (hnone _)⟩

/-- A device whose listed sessions are stored. -/
def Device.Kept : Device → Prop
  | .on s j => s.Kept j.drained
  | .off f j => f.dirMeta = ownMeta → f.Kept (directoryEnd f) j.drained

/-- Every power cut is safe. -/
def cutsSafe : Device → Event → Prop
  | .on s _, .cut o k => CutSafe s o k
  | _, _ => True

theorem device_kept {d d' : Device} {e : Event} (hf : d.Filed) (h : d.Kept)
    (hG : onCall (fun s o => Room s o ∧ o.Ok) d e) (hcut : cutsSafe d e)
    (hst : DeviceStep d e d') : d'.Kept := by
  cases device_turn hst with
  | call s j o => exact exec_kept (s := s) hf h o hG.1 hG.2
  | uncalled s j o => exact fun _ => cut_kept hf h o 0 hG.1 hG.2 hcut
  | cut s j o k => exact fun _ => cut_kept hf h o (k + 1) hG.1 hG.2 hcut
  | boot f j =>
    have hfl : f.dirMeta = ownMeta → f.Filed 4294967295 := hf
    have hk : f.dirMeta = ownMeta → f.Kept (directoryEnd f) j.drained := h
    exact boot_kept fun hm => ⟨hfl hm, hk hm⟩
  | bootCut f j k =>
    have hfl : f.dirMeta = ownMeta → f.Filed 4294967295 := hf
    have hk : f.dirMeta = ownMeta → f.Kept (directoryEnd f) j.drained := h
    refine bootCut_keeps (P := fun g => g.Kept (directoryEnd g) j.drained)
      (fun hm => (hfl hm).plainCounts) hk (fun g hre hkept => ?_) (fun _ => Flash.Kept.none) k
    rw [hre.directoryEnd]
    exact hkept.reopened hre

end Caterpillar.ImuLog
