/-
  `imu_log_read_session` against what was drained.

  1. **The reader.**  The read loop delivers the ring bytes at consecutive byte positions, in spans
     that stop at the physical end (`readLoop_get`); the directory search finds the one slot the
     session is filed in (`findSession_eq`).
  2. **A dump is the session** — `dump_exact`, for a device whose listed sessions are stored and whose
     counter is at most 2^28: the delivered bytes are the requested slice of the records drained for
     that session, from `max(start_rec, ring_floor())` to its end.  `dump_returns_drained` is the
     statement over runs.
  3. **The two address computations.**  The writer reduces records modulo `REC_CAPACITY`; the reader
     multiplies first, in 32 bits, and reduces bytes modulo `DATA_CAPACITY`.  The two agree exactly
     below record 2^28 (`same_byte_iff`), where the product stops fitting: `DATA_CAPACITY` does not
     divide 2^32.  `reader_diverges` is a reachable state on the wrong side.
-/
import Caterpillar.ImuLog.Contents

namespace Caterpillar.ImuLog

open Caterpillar.Word Caterpillar.Ring Caterpillar.Runs Caterpillar.Imu

/-! ## The reader -/

/-- **The read loop** delivers the ring bytes at consecutive positions, as long as the position does
    not wrap. -/
theorem readLoop_get (f : Flash) : ∀ len absByte : Nat, absByte + len ≤ 4294967296 →
    readLoop f absByte len = (List.range len).map fun k => f.data ((absByte + k) % dataCapacity) := by
  intro len
  induction len using Nat.strongRecOn with
  | ind len ih =>
    intro absByte hfit
    rw [readLoop]
    by_cases hz : len = 0
    · rw [if_pos hz, hz]
      rfl
    · rw [if_neg hz]
      have hoff := ringOff_lt absByte
      show f.readData (ringOff absByte) (min len (dataCapacity - ringOff absByte)) ++
        readLoop f (u32 (absByte + min len (dataCapacity - ringOff absByte)))
          (len - min len (dataCapacity - ringOff absByte)) = _
      generalize hspan : min len (dataCapacity - ringOff absByte) = span
      have hle : span ≤ len := by omega
      have hpos : 0 < span := by omega
      have hin : ringOff absByte + span ≤ dataCapacity := by omega
      -- the span itself stays in front of the physical end
      have hfirst : f.readData (ringOff absByte) span =
          (List.range span).map fun k => f.data ((absByte + k) % dataCapacity) := by
        refine List.map_congr_left fun k hk => ?_
        have hlt : k < span := List.mem_range.mp hk
        have hslot : (absByte + k) % dataCapacity = ringOff absByte + k :=
          slot_add (by show ringOff absByte + k < dataCapacity; omega)
        rw [hslot]
      have hrest : readLoop f (u32 (absByte + span)) (len - span) =
          (List.range (len - span)).map fun k =>
            f.data ((absByte + (span + k)) % dataCapacity) := by
        rcases Nat.eq_or_lt_of_le hfit with hend | hlt
        · by_cases hall : len - span = 0
          · rw [hall, readLoop]
            rfl
          · rw [u32_of_lt (by omega), ih (len - span) (by omega) _ (by omega)]
            exact List.map_congr_left fun k _ => by rw [Nat.add_assoc]
        · rw [u32_of_lt (by omega), ih (len - span) (by omega) _ (by omega)]
          exact List.map_congr_left fun k _ => by rw [Nat.add_assoc]
      have hlen : len = span + (len - span) := by omega
      rw [hfirst, hrest, hlen, List.range_add, List.map_append, List.map_map]
      rw [← hlen]
      rfl

/-- The search of the directory finds the slot the session is filed in. -/
theorem findSession_eq {f : Flash} {T i : Nat} (h : f.Filed T) (hi : i < maxSessions)
    (hv : (f.entries i).Valid) : f.findSession (f.entries i).seq = some i := by
  unfold Flash.findSession
  rw [List.find?_range_eq_some]
  refine ⟨by simp [hv], List.mem_range.mpr hi, fun k hk => ?_⟩
  simp only [Bool.not_eq_true', decide_eq_false_iff_not]
  rintro ⟨hvk, hseq⟩
  have hslot := (h k (by omega) hvk).slot
  rw [hseq, (h i hi hv).slot] at hslot
  omega

/-- A search that finds an entry finds a listed one of that session. -/
theorem findSession_some {f : Flash} {seq i : Nat} (h : f.findSession seq = some i) :
    i < maxSessions ∧ (f.entries i).Valid ∧ (f.entries i).seq = seq := by
  have hmem := List.mem_of_find?_eq_some h
  have hfound := List.find?_some h
  rw [decide_eq_true_eq] at hfound
  exact ⟨List.mem_range.mp hmem, hfound.1, hfound.2⟩

/-- The part of a session that can still be dumped: from `max(start_rec, ring_floor())` to its end,
    which for the running session is the live count. -/
def Log.readable (s : Log) (i : Nat) (l : List ImuSample) : List ImuSample :=
  (l.take (s.liveCount i)).drop (s.clippedStart i - (s.flash.entries i).startRec)

/-- How many records that are. -/
def Log.readableCount (s : Log) (i : Nat) : Nat :=
  (s.flash.entries i).startRec + s.liveCount i - s.clippedStart i

theorem le_clippedStart (s : Log) (i : Nat) :
    (s.flash.entries i).startRec ≤ s.clippedStart i ∧ s.ringFloor ≤ s.clippedStart i ∧
      (s.clippedStart i = (s.flash.entries i).startRec ∨ s.clippedStart i = s.ringFloor) := by
  unfold Log.clippedStart
  split
  · rename_i h
    exact ⟨Nat.le_of_lt h, Nat.le_refl _, Or.inr rfl⟩
  · rename_i h
    exact ⟨Nat.le_refl _, Nat.le_of_not_lt h, Or.inl rfl⟩

theorem ringFloor_eq (s : Log) : s.ringFloor = s.totalAbs - recCapacity := by
  unfold Log.ringFloor
  split
  · rfl
  · omega

/-- Every listed session is stored up to the count a reader goes by. -/
theorem Log.Kept.live_stores {s : Log} {drained : Nat → List ImuSample} (hf : s.Filed)
    (h : s.Kept drained) {i : Nat} (hi : i < maxSessions) (hv : (s.flash.entries i).Valid) :
    s.flash.Stores s.totalAbs (s.flash.entries i).startRec (s.liveCount i)
        (drained (s.flash.entries i).seq) ∧
      (s.flash.entries i).startRec + s.liveCount i ≤ s.totalAbs := by
  unfold Log.liveCount
  split
  · rename_i hrun
    obtain ⟨hact, rfl⟩ := hrun
    obtain ⟨hseq, hstart, -, hsum⟩ := (hf.bound (Or.inl hact)).entry hv
    rw [hseq, hstart]
    exact ⟨(h.live (Or.inl hact) hv).2, Nat.le_of_eq hsum⟩
  · exact ⟨h.stored i hi hv, (hf.entries i hi hv).ends⟩

/-- A slice of a list, element by element. -/
theorem slice_eq {α : Type} (l : List α) (d : α) {p n : Nat} (h : p + n ≤ l.length) :
    (l.drop p).take n = (List.range n).map fun k => l.getD (p + k) d := by
  refine List.ext_getElem ?_ fun k h1 h2 => ?_
  · rw [List.length_take, List.length_drop, List.length_map, List.length_range]
    omega
  · rw [List.length_map, List.length_range] at h2
    rw [List.getElem_take, List.getElem_drop, List.getElem_map, List.getElem_range,
      List.getD_eq_getElem?_getD, List.getElem?_eq_getElem (by omega)]
    rfl

/-- The bytes of the readable part are a slice of the bytes of the session. -/
theorem readable_slice (s : Log) (i : Nat) (l : List ImuSample) (offset len : Nat) :
    ((recordBytes (s.readable i l)).drop offset).take len =
      ((recordBytes l).drop (16 * (s.clippedStart i - (s.flash.entries i).startRec) + offset)).take
        (min len (16 * s.readableCount i - offset)) := by
  have hle := (le_clippedStart s i).1
  have hcount : 16 * s.readableCount i - offset =
      16 * s.liveCount i - (16 * (s.clippedStart i - (s.flash.entries i).startRec) + offset) := by
    unfold Log.readableCount
    omega
  unfold Log.readable
  rw [recordBytes_drop, recordBytes_take, List.drop_drop, List.drop_take, List.take_take, hcount]

/-- **The code's arithmetic, resolved**: with the counter at most 2^28 nothing in
    `imu_log_read_session` wraps. -/
theorem readSession_eq {s : Log} (hf : s.flash.Filed s.totalAbs) (hlow : s.totalAbs ≤ 268435456)
    {i : Nat} (hi : i < maxSessions) (hv : (s.flash.entries i).Valid)
    (hend : (s.flash.entries i).startRec + s.liveCount i ≤ s.totalAbs) (offset len : Nat) :
    imuLogReadSession s (s.flash.entries i).seq offset len =
      if (s.flash.entries i).startRec + s.liveCount i ≤ s.clippedStart i then []
      else if offset ≥ 16 * s.readableCount i then []
      else readLoop s.flash (16 * s.clippedStart i + offset)
        (min len (16 * s.readableCount i - offset)) := by
  obtain ⟨hle, hfloor, hclip⟩ := le_clippedStart s i
  have hrf := ringFloor_eq s
  have hcap := recCapacity_eq
  have hcount : s.readableCount i =
    (s.flash.entries i).startRec + s.liveCount i - s.clippedStart i := rfl
  unfold imuLogReadSession
  rw [findSession_eq hf hi hv]
  show (if u32 ((s.flash.entries i).startRec + s.liveCount i) ≤ s.clippedStart i then _ else _) = _
  rw [u32_of_lt (by omega : (s.flash.entries i).startRec + s.liveCount i < 4294967296)]
  split
  · rfl
  · rename_i hlt
    show (if offset ≥ u32 (((s.flash.entries i).startRec + s.liveCount i - s.clippedStart i) *
      recSize) then _ else _) = _
    rw [← hcount, recSize_eq, Nat.mul_comm (s.readableCount i) 16, u32_of_lt (by omega)]
    split
    · rfl
    · rename_i hoff
      unfold sessionByte
      rw [recSize_eq, Nat.mul_comm (s.clippedStart i) 16,
        u32_of_lt (by omega : 16 * s.clippedStart i < 4294967296), u32_of_lt (by omega)]

/-- **A dump is the session.**  For a device whose listed sessions are stored and whose counter is at
    most 2^28, the dump of the session in slot `i` delivers the requested slice of the bytes drained
    for it, clipped to what the ring still holds. -/
theorem dump_exact {s : Log} {drained : Nat → List ImuSample} (hf : s.Filed)
    (h : s.Kept drained) (hlow : s.totalAbs ≤ 268435456) {i : Nat} (hi : i < maxSessions)
    (hv : (s.flash.entries i).Valid) (offset len : Nat) :
    imuLogReadSession s (s.flash.entries i).seq offset len =
        ((recordBytes (s.readable i (drained (s.flash.entries i).seq))).drop offset).take len ∧
      (imuLogReadSession s (s.flash.entries i).seq offset len).length =
        min len (16 * s.readableCount i - offset) := by
  obtain ⟨hst, hend⟩ := h.live_stores hf hi hv
  obtain ⟨hle, hfloor, hclip⟩ := le_clippedStart s i
  have hrf := ringFloor_eq s
  have hcap := recCapacity_eq
  have hbytes := dataCapacity_eq
  have hcount : s.readableCount i =
    (s.flash.entries i).startRec + s.liveCount i - s.clippedStart i := rfl
  generalize hl : drained (s.flash.entries i).seq = l at hst
  have hllen : 16 * s.liveCount i ≤ (recordBytes l).length := by
    rw [recordBytes_length]
    have hcl := hst.1
    omega
  rw [readable_slice]
  rw [readSession_eq hf.entries hlow hi hv hend offset len]
  split
  · have hzero : min len (16 * s.readableCount i - offset) = 0 := by omega
    rw [hzero, List.take_zero]
    exact ⟨rfl, rfl⟩
  · rename_i hlt
    split
    · have hzero : min len (16 * s.readableCount i - offset) = 0 := by omega
      rw [hzero, List.take_zero]
      exact ⟨rfl, rfl⟩
    · rename_i hoff
      generalize hn : min len (16 * s.readableCount i - offset) = n
      rw [readLoop_get _ _ _ (by omega), List.length_map, List.length_range,
        slice_eq (recordBytes l) 0 (by omega)]
      refine ⟨List.map_congr_left fun k hk => ?_, rfl⟩
      have hk' : k < n := List.mem_range.mp hk
      have hread := hst.2 (16 * s.clippedStart i + offset + k) (by omega) (by omega)
      rw [hread]
      show (recordBytes l).getD _ 0 = _
      congr 1
      omega

/-! ## Runs with a low counter -/

/-- A drain leaves `total_abs` at most 2^28. -/
def Low (s : Log) : Op → Prop
  | .drain _ => s.totalAbs + s.drainCount ≤ 268435456
  | _ => True

instance (s : Log) : (o : Op) → Decidable (Low s o)
  | .drain _ => inferInstanceAs (Decidable (s.totalAbs + s.drainCount ≤ 268435456))
  | .start _ _ | .append _ | .stop | .erase => inferInstanceAs (Decidable True)

/-- A device whose counter, or the one its directory rebuilds, is at most 2^28. -/
def Device.Low : Device → Prop
  | .on s _ => s.totalAbs ≤ 268435456
  | .off f _ => f.dirMeta = ownMeta → f.Filed 268435456

/-- A low counter has room. -/
theorem Low.room {s : Log} {o : Op} (h : ImuLog.Low s o) (hf : s.Filed) : Room s o := by
  have hcount := hf.count
  cases o with
  | drain ret =>
    have hlow : s.totalAbs + s.drainCount ≤ 268435456 := h
    show s.totalAbs + s.drainCount < 4294967296 ∧ s.curCount + s.drainCount < 4294967295
    omega
  | start st ret => trivial
  | append xs => trivial
  | stop => trivial
  | erase => trivial

/-- A low counter stays low. -/
theorem exec_low {s : Log} {o : Op} (hlow : s.totalAbs ≤ 268435456) (h : ImuLog.Low s o) :
    (exec s o).totalAbs ≤ 268435456 := by
  have hout := exec_cases s o
  generalize exec s o = s' at hout
  cases hout with
  | idle _ => exact hlow
  | failed ha hret => exact hlow
  | opened ha hret => exact hlow
  | @staged xs t ha =>
    obtain ⟨g, hd, d, hram⟩ := appendFold_ram s xs
    rw [hram]
    exact hlow
  | @wrote ret g t L hne hg hk hL =>
    have hdrain : s.totalAbs + s.drainCount ≤ 268435456 := h
    show u32 (s.totalAbs + s.drainCount) ≤ 268435456
    rw [u32_of_lt (by omega)]
    exact hdrain
  | closed ha hg => exact hlow
  | wiped hnone hdata => exact Nat.zero_le _

/-- Where the head stands after the first access is low too. -/
theorem headAfter_low {s : Log} {o : Op} (hlow : s.totalAbs ≤ 268435456) (h : ImuLog.Low s o) :
    s.headAfter o ≤ 268435456 := by
  cases o with
  | drain ret => exact h
  | start st ret => exact hlow
  | append xs => exact hlow
  | stop => exact hlow
  | erase => exact hlow

theorem device_low {d d' : Device} {e : Event} (hf : d.Filed) (h : d.Low)
    (hG : onCall ImuLog.Low d e) (hst : DeviceStep d e d') : d'.Low := by
  cases device_turn hst with
  | call s j o => exact exec_low (s := s) h hG
  | uncalled s j o =>
    have hs : s.Filed := hf
    exact fun _ => hs.entries.mono h
  | cut s j o k =>
    have hs : s.Filed := hf
    have hcall : ImuLog.Low s o := hG
    exact fun _ =>
      ((cutImage_after s o k).filed hs (hcall.room hs)).mono (headAfter_low h hcall)
  | boot f j =>
    have hfl : f.dirMeta = ownMeta → f.Filed 4294967295 := hf
    have hlow : f.dirMeta = ownMeta → f.Filed 268435456 := h
    show (bootLog f).totalAbs ≤ 268435456
    by_cases hm : f.dirMeta = ownMeta
    · obtain ⟨⟨g, t, heq⟩, -⟩ := bootLog_own (hfl hm).plainCounts hm
      rw [heq]
      exact directoryEnd_le fun i hi hv => (hlow hm i hi hv).ends
    · rw [bootLog_foreign hm]
      exact Nat.zero_le _
  | bootCut f j k =>
    have hfl : f.dirMeta = ownMeta → f.Filed 4294967295 := hf
    have hlow : f.dirMeta = ownMeta → f.Filed 268435456 := h
    exact bootCut_keeps (fun hm => (hfl hm).plainCounts) hlow (fun _ hre hl => hl.reopened hre)
      (fun _ => Flash.Filed.none) k

/-- Calls only, no write fails, `total_abs` stays at most 2^28. -/
def steady : Device → Event → Prop
  | .on s _, .op o => o.Ok ∧ Low s o
  | .off _ _, .boot => True
  | _, _ => False

theorem steady_call {d : Device} {e : Event} (h : steady d e) :
    onCall (fun s o => o.Ok ∧ Low s o) d e ∧ cutsSafe d e := by
  cases d with
  | on s j =>
    cases e with
    | op o => exact ⟨h, trivial⟩
    | cut o k => exact absurd h (fun hf => hf)
    | boot => exact absurd h (fun hf => hf)
    | bootCut k => exact absurd h (fun hf => hf)
  | off f j => exact ⟨trivial, trivial⟩

theorem Within.low {s : Log} {o : Op} (h : Within 268435456 s o) : o.Ok ∧ Low s o := by
  obtain ⟨hok, -, hlow⟩ := h
  refine ⟨hok, ?_⟩
  cases o with
  | drain ret => exact hlow ret rfl
  | start st ret => trivial
  | append xs => trivial
  | stop => trivial
  | erase => trivial

/-- Up to 2^28 records a session of any length is reached by a steady run. -/
theorem logged_steady (l : List ImuSample) (hl : l.length ≤ 268435456) :
    ∃ s j, Reach Fresh (guarded steady DeviceStep) (.on s j) ∧ Logged l s j :=
  logged_reach (by decide) (fun _ _ => trivial) (fun _ _ _ hw => hw.low) l hl

/-- **Run lemma.**  In a run whose counter stays low, whose writes succeed and whose power cuts are
    safe, every listed session is stored. -/
theorem reach_kept {G : Device → Event → Prop}
    (hG : ∀ d e, G d e → onCall (fun s o => o.Ok ∧ Low s o) d e ∧ cutsSafe d e) {d : Device}
    (h : Reach Fresh (guarded G DeviceStep) d) : d.Filed ∧ d.Low ∧ d.Kept := by
  refine Reach.invariant (I := fun d => d.Filed ∧ d.Low ∧ d.Kept) ?_ ?_ h
  · rintro d ⟨f, rfl, hforeign⟩
    exact ⟨fun hown => absurd hown hforeign, fun hown => absurd hown hforeign,
      fun hown => absurd hown hforeign⟩
  · rintro d e d' - ⟨hf, hl, hk⟩ ⟨hg, hst⟩
    obtain ⟨hcall, hsafe⟩ := hG d e hg
    have hroom : onCall (fun s o => Room s o ∧ o.Ok) d e := by
      cases d with
      | on s j =>
        have hs : s.Filed := hf
        cases e with
        | op o => exact ⟨hcall.2.room hs, hcall.1⟩
        | cut o k => exact ⟨hcall.2.room hs, hcall.1⟩
        | boot => trivial
        | bootCut k => trivial
      | off f j => trivial
    exact ⟨device_filed hf (onCall_imp (fun _ _ hr => hr.1) hroom) hst,
      device_low hf hl (onCall_imp (fun _ _ hc => hc.2) hcall) hst,
      device_kept hf hk hroom hsafe hst⟩

/-- **A dump returns exactly what was drained**, in every run without power cuts. -/
theorem dump_returns_drained {s : Log} {j : Journal}
    (h : Reach Fresh (guarded steady DeviceStep) (.on s j)) {i : Nat} (hi : i < maxSessions)
    (hv : (s.flash.entries i).Valid) (offset len : Nat) :
    imuLogReadSession s (s.flash.entries i).seq offset len =
        ((recordBytes (s.readable i (j.drained (s.flash.entries i).seq))).drop offset).take len ∧
      (imuLogReadSession s (s.flash.entries i).seq offset len).length =
        min len (16 * s.readableCount i - offset) := by
  obtain ⟨hf, hl, hk⟩ := reach_kept (fun d e => steady_call) h
  exact dump_exact hf hk hl hi hv offset len

/-- Where the one session of a device begins and what can be read of it. -/
theorem logged_readable {l : List ImuSample} {s : Log} {j : Journal} (h : Logged l s j) :
    s.clippedStart 0 = l.length - 43478 ∧ s.readableCount 0 = min l.length 43478 := by
  obtain ⟨e, he, -, -, hstart, -⟩ := h.entry
  have hlive : s.liveCount 0 = l.length := (if_pos ⟨h.active, h.slot.symm⟩).trans h.count
  have hclip : s.clippedStart 0 = l.length - 43478 := by
    obtain ⟨h1, h2, h3⟩ := le_clippedStart s 0
    have hfloor := ringFloor_eq s
    rw [h.total, recCapacity_eq] at hfloor
    rw [he, hstart] at h1 h3
    omega
  refine ⟨hclip, ?_⟩
  unfold Log.readableCount
  rw [he, hstart, hlive, hclip]
  omega

/-- A session two records longer than the ring, dumped from its fourth readable byte on. -/
theorem dump_returns_drained_wrapped : ∃ s j,
    Reach Fresh (guarded steady DeviceStep) (.on s j) ∧ j.drained 1 = numbered 43480 ∧
      imuLogReadSession s 1 3 30 = ((recordBytes (numbered 43480)).drop 35).take 30 ∧
      (imuLogReadSession s 1 3 30).length = 30 := by
  obtain ⟨s, j, hr, h⟩ := logged_steady (numbered 43480) (by rw [numbered_length]; decide)
  obtain ⟨e, he, hv, hseq, hstart, -⟩ := h.entry
  obtain ⟨hclip, hcount⟩ := logged_readable h
  rw [numbered_length] at hclip hcount
  obtain ⟨hdump, hlen⟩ :=
    dump_returns_drained hr (i := 0) (by decide) (by rw [he]; exact hv) 3 30
  rw [hcount] at hlen
  rw [readable_slice, hclip, hcount] at hdump
  rw [he, hseq] at hlen
  rw [he, hseq, hstart, h.drained] at hdump
  exact ⟨s, j, hr, h.drained, hdump, hlen⟩

/-! ## The two address computations -/

/-- Ring offset at which the writer puts byte `b` of record `r`. -/
def writerOff (r b : Nat) : Nat := r % recCapacity * recSize + b

/-- Ring offset at which the reader looks for byte `b` of record `r`, in a dump whose first record is
    `start`. -/
def readerOff (start r b : Nat) : Nat := ringOff (sessionByte start (16 * (r - start) + b))

/-- `writerOff` is where a drain puts its records. -/
theorem drain_writes_at (s : Log) {ret : Int} (hret : ¬ ret < 0) {k b : Nat}
    (hk : k < s.drainCount) (hb : b < recSize) :
    some (((s.drainWrite ret).effect s.flash).data (writerOff (s.totalAbs + k) b)) =
      (recordBytes (s.stagedBatch s.drainCount))[16 * k + b]? := by
  have hfit := drainCount_fits s
  rw [recCapacity_eq] at hfit
  rw [recSize_eq] at hb
  have hlen : (recordBytes (s.stagedBatch s.drainCount)).length = 16 * s.drainCount := by
    rw [recordBytes_length, stagedBatch_length]
  have hin : 16 * k + b < (recordBytes (s.stagedBatch s.drainCount)).length := by omega
  have hoff : writerOff (s.totalAbs + k) b = 16 * s.totalAbs % dataCapacity + (16 * k + b) := by
    unfold writerOff
    rw [recCapacity_eq, recSize_eq, dataCapacity_eq]
    omega
  rw [drainWrite_data s hret, hoff, put_inside _ _ _ hin, List.getElem?_eq_getElem hin]

/-- The reader's 32-bit arithmetic keeps the low 32 bits of the true byte position. -/
theorem readerOff_eq {start r b : Nat} (hle : start ≤ r) :
    readerOff start r b = u32 (16 * r + b) % dataCapacity := by
  unfold readerOff sessionByte ringOff
  rw [u32_u32_add, recSize_eq]
  congr 2
  omega

/-- The writer reduces the true byte position. -/
theorem writerOff_eq {r b : Nat} (hb : b < recSize) :
    writerOff r b = (16 * r + b) % dataCapacity := by
  rw [recSize_eq] at hb
  unfold writerOff
  rw [recCapacity_eq, recSize_eq, dataCapacity_eq]
  omega

/-- Cutting a position below 2^36 to 32 bits moves it in the ring, unless there is nothing to cut. -/
theorem wrapped_mod_iff {x : Nat} (hx : x < 68719476736) :
    u32 x % dataCapacity = x % dataCapacity ↔ x < 4294967296 := by
  rw [dataCapacity_eq]
  have hsplit : x = 4294967296 * (x / 4294967296) + u32 x := (Nat.div_add_mod x 4294967296).symm
  generalize hq : x / 4294967296 = q at hsplit
  have hq16 : q < 16 := by omega
  constructor
  · intro heq
    -- the two positions differ by `q * 2^32`, which is no multiple of the ring size for 0 < q < 16
    have hmod : 4294967296 * q % 695648 = 0 := by omega
    have hsmall : 36544 * q % 695648 = 0 := by omega
    have hzero : q = 0 := by omega
    omega
  · intro hlt
    rw [u32_of_lt hlt]

/-- **Reader and writer address the same byte exactly below record 2^28**, where the byte position
    still fits 32 bits. -/
theorem same_byte_iff (s : Log) (i : Nat) {r b : Nat} (hlo : s.clippedStart i ≤ r)
    (hr : r < 4294967296) (hb : b < recSize) :
    readerOff (s.clippedStart i) r b = writerOff r b ↔ r < 268435456 := by
  rw [readerOff_eq hlo, writerOff_eq hb]
  rw [recSize_eq] at hb
  rw [wrapped_mod_iff (by omega)]
  omega

/-- Byte 5 of record 3, in a session that starts the ring. -/
theorem same_byte_iff_three :
    readerOff ((exec (bootLog Flash.blank) (.start Stamp.zero 0)).clippedStart 0) 3 5 =
      writerOff 3 5 ↔ 3 < 268435456 := by
  obtain ⟨e, he, -, -, hstart, -⟩ := logged_nil.entry
  have htot : (exec (bootLog Flash.blank) (.start Stamp.zero 0)).totalAbs = 0 := logged_nil.total
  have hfloor := ringFloor_eq (exec (bootLog Flash.blank) (.start Stamp.zero 0))
  have hcases := (le_clippedStart (exec (bootLog Flash.blank) (.start Stamp.zero 0)) 0).2.2
  rw [he, hstart] at hcases
  exact same_byte_iff (exec (bootLog Flash.blank) (.start Stamp.zero 0)) 0 (by omega) (by decide)
    (by decide)

/-- **A reachable state on the wrong side**: a device that has logged 2^28 + 1 records looks for the
    last of them at the start of the ring. -/
theorem reader_diverges :
    ¬ ∀ s j, Reach Fresh (guarded (onCall NoWrap) DeviceStep) (.on s j) →
      ∀ i, i < maxSessions → (s.flash.entries i).Valid →
      ∀ r b, s.clippedStart i ≤ r → r < (s.flash.entries i).startRec + s.liveCount i →
        b < recSize → readerOff (s.clippedStart i) r b = writerOff r b := by
  intro hall
  obtain ⟨s, j, hr, h⟩ := logged_noWrap (List.replicate 268435457 default)
    (by rw [List.length_replicate]; decide)
  have hlen : (List.replicate 268435457 (default : ImuSample)).length = 268435457 :=
    List.length_replicate ..
  obtain ⟨e, he, hv, -, hstart, -⟩ := h.entry
  have htot := h.total
  have hlive : s.liveCount 0 = s.curCount := if_pos ⟨h.active, h.slot.symm⟩
  have hcount := h.count
  have hfloor := ringFloor_eq s
  rw [recCapacity_eq] at hfloor
  have hclip : s.clippedStart 0 ≤ 268435456 := by
    have hcases := (le_clippedStart s 0).2.2
    rw [he, hstart] at hcases
    omega
  have heq := hall s j hr 0 (by decide) (by rw [he]; exact hv) 268435456 0 hclip
    (by rw [he, hstart, hlive]; omega) (by decide)
  have hlt := (same_byte_iff s 0 hclip (by decide) (by decide)).mp heq
  exact Nat.lt_irrefl _ hlt

end Caterpillar.ImuLog
