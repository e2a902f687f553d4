/-
  Power loss: what a dump returns after any number of cuts and reboots.

  1. **The staging ring is a FIFO** (`Log.Fifo`): what was accepted for the running session is what
     was drained for it, followed by what is still staged.  The ring has 1536 slots and 1536 does not
     divide 2^32, so this needs that `stage_head` does not run more than 1024 records ahead of
     `stage_tail` across the wrap of the counters (`Log.StageSafe`).
  2. **Over runs with power cuts** (`reach_fifo`): the drained records of every session are a
     beginning of its appended ones — a cut loses what was staged, and nothing else.
  3. **The result** (`dump_returns_appended`): if every cut is `CutSafe`, a dump delivers the records
     appended to that session at the positions asked for, after any number of cuts.
  4. **And without it** (`stale_after_cut`): 43521 records into a session, with the count in its entry
     still at 43520, a power cut makes the next boot readmit record 42, which was overwritten.
-/
import Caterpillar.ImuLog.Dump

namespace Caterpillar.ImuLog

open Caterpillar.Word Caterpillar.Ring Caterpillar.Runs Caterpillar.Imu

/-! ## The staging ring -/

/-- Number of staged records. -/
def Log.staged (s : Log) : Nat := u32Sub s.stageHead s.stageTail

/-- The staged records, oldest first. -/
def Log.pending (s : Log) : List ImuSample := s.stagedBatch s.staged

/-- `stage_head` has not wrapped past `stage_tail`, or at most 1024 records are staged. -/
def Log.StageSafe (s : Log) : Prop := s.stageTail ≤ s.stageHead ∨ s.staged ≤ 1024

/-- What appending one record does to the counters. -/
theorem appendOne_cases (s : Log) (x : ImuSample) (hh : s.stageHead < 4294967296)
    (ht : s.stageTail < 4294967296) :
    (1536 ≤ s.staged ∧ appendOne s x = { s with logDropped := u32 (s.logDropped + 1) }) ∨
    (s.staged < 1536 ∧ (appendOne s x).staged = s.staged + 1 ∧
      appendOne s x = { s with
        stage := Function.update s.stage (s.stageHead % stageN) x
        stageHead := u32 (s.stageHead + 1) }) := by
  unfold Log.staged
  have hn := stageN_eq
  by_cases hfull : u32Sub s.stageHead s.stageTail ≥ stageN
  · exact Or.inl ⟨by omega, if_pos hfull⟩
  · have heq : appendOne s x = { s with
        stage := Function.update s.stage (s.stageHead % stageN) x
        stageHead := u32 (s.stageHead + 1) } := if_neg hfull
    refine Or.inr ⟨by omega, ?_, heq⟩
    rw [heq]
    have hfit : u32Sub s.stageHead s.stageTail + 1 < 4294967296 := by omega
    exact u32Sub_extend hh ht hfit

/-- No two of the staged records share a slot: the counters do not wrap among them, or at most 1024
    are staged. -/
def Log.Unbroken (s : Log) : Prop := s.stageTail + s.staged ≤ 4294967296 ∨ s.staged ≤ 1024

theorem Log.StageSafe.unbroken {s : Log} (h : s.StageSafe) (hh : s.stageHead < 4294967296) :
    s.Unbroken := by
  rcases h with hbelow | hshort
  · refine Or.inl ?_
    have hlevel : s.staged = s.stageHead - s.stageTail := u32Sub_of_le hbelow hh
    omega
  · exact Or.inr hshort

/-- A staged slot is not the one the next record goes to, unless the ring straddles the wrap of the
    counters with more than 1023 records in it. -/
theorem staged_slot_ne {tail n i : Nat} (ht : tail < 4294967296) (hn : n < 1536) (hi : i < n)
    (hsafe : tail + (n + 1) ≤ 4294967296 ∨ n + 1 ≤ 1024) :
    u32 (tail + i) % 1536 ≠ u32 (tail + n) % 1536 := by
  intro heq
  have hmeet : u32 (tail + n) % 1536 = u32 (tail + i) % 1536 ↔
      tail + i < 4294967296 ∧ 4294967296 ≤ tail + n ∧ tail + n - (tail + i) = 1024 :=
    wrapped_slot_eq_iff (by omega) (by omega) (by omega)
  -- the wrap shifts the slots by 1024, and the ring holds fewer records than that
  obtain ⟨-, hwrap, hapart⟩ := hmeet.mp heq.symm
  omega

/-- The counters are words, and at most 1536 records are staged. -/
structure Log.Metered (s : Log) : Prop where
  head : s.stageHead < 4294967296
  tail : s.stageTail < 4294967296
  level : s.staged ≤ 1536

/-- The next record goes behind the staged ones. -/
theorem Log.Metered.next_slot {s : Log} (h : s.Metered) :
    u32 (s.stageTail + s.staged) = s.stageHead := by
  have hh := h.head
  have ht := h.tail
  unfold Log.staged u32Sub u32
  omega

theorem appendOne_metered {s : Log} (h : s.Metered) (x : ImuSample) : (appendOne s x).Metered := by
  rcases appendOne_cases s x h.head h.tail with ⟨hfull, heq⟩ | ⟨hroom, hn, heq⟩
  · rw [heq]
    exact ⟨h.head, h.tail, h.level⟩
  · refine ⟨?_, ?_, by omega⟩
    · rw [heq]
      exact u32_lt _
    · rw [heq]
      exact h.tail

/-- The ring never holds more than its 1536 slots. -/
theorem appendFold_metered (xs : List ImuSample) :
    ∀ {s : Log}, s.Metered → (xs.foldl appendOne s).Metered := by
  induction xs with
  | nil =>
    intro s h
    exact h
  | cons x xs ih =>
    intro s h
    exact ih (appendOne_metered h x)

/-- **One append**: an accepted record joins the staged ones at the end. -/
theorem appendOne_pending {s : Log} (h : s.Metered) (x : ImuSample)
    (hsafe : (appendOne s x).Unbroken) :
    (appendOne s x).pending = s.pending ++ accepted s [x] := by
  rcases appendOne_cases s x h.head h.tail with ⟨hfull, heq⟩ | ⟨hroom, hn, heq⟩
  · -- the ring is full: the record is counted and dropped
    have hacc : accepted s [x] = [] := if_pos hfull
    rw [hacc, heq, List.append_nil]
    rfl
  · have hacc : accepted s [x] = [x] := if_neg (by rw [stageN_eq]; exact Nat.not_le.mpr hroom)
    have hhead := h.next_slot
    have hslots : s.stageTail + (s.staged + 1) ≤ 4294967296 ∨ s.staged + 1 ≤ 1024 := by
      unfold Log.Unbroken at hsafe
      rw [hn, heq] at hsafe
      exact hsafe
    unfold Log.pending
    rw [hn, hacc, heq]
    unfold Log.stagedBatch
    rw [List.range_succ, List.map_append]
    congr 1
    · refine List.map_congr_left fun i hi => ?_
      have hlt : i < s.staged := List.mem_range.mp hi
      refine Function.update_of_ne ?_ _ _
      rw [stageN_eq, ← hhead]
      exact staged_slot_ne h.tail hroom hlt hslots
    · show [Function.update s.stage (s.stageHead % stageN) x
        (u32 (s.stageTail + s.staged) % stageN)] = [x]
      rw [hhead, Function.update_self]

/-- Once straddling too far, always straddling too far: appends do not make the ring safe again. -/
theorem appendFold_unbroken (xs : List ImuSample) :
    ∀ {s : Log}, s.Metered → (xs.foldl appendOne s).Unbroken → s.Unbroken := by
  induction xs with
  | nil =>
    intro s _ hu
    exact hu
  | cons x xs ih =>
    intro s h hu
    have hone := ih (appendOne_metered h x) hu
    unfold Log.Unbroken at hone ⊢
    rcases appendOne_cases s x h.head h.tail with ⟨hfull, heq⟩ | ⟨hroom, hn, heq⟩
    · rw [heq] at hone
      exact hone
    · rw [hn, heq] at hone
      have hone' : s.stageTail + (s.staged + 1) ≤ 4294967296 ∨ s.staged + 1 ≤ 1024 := hone
      omega

/-- What is accepted of two blocks, one after the other. -/
theorem accepted_append (xs ys : List ImuSample) : ∀ s : Log,
    accepted s (xs ++ ys) = accepted s xs ++ accepted (xs.foldl appendOne s) ys := by
  induction xs with
  | nil =>
    intro s
    exact (List.nil_append _).symm
  | cons x xs ih =>
    intro s
    have hrest := ih (appendOne s x)
    rw [List.cons_append, List.foldl_cons]
    by_cases hfull : u32Sub s.stageHead s.stageTail ≥ stageN
    · have hall : accepted s (x :: (xs ++ ys)) = accepted (appendOne s x) (xs ++ ys) := if_pos hfull
      have hfirst : accepted s (x :: xs) = accepted (appendOne s x) xs := if_pos hfull
      rw [hall, hfirst, hrest]
    · have hall : accepted s (x :: (xs ++ ys)) = x :: accepted (appendOne s x) (xs ++ ys) :=
        if_neg hfull
      have hfirst : accepted s (x :: xs) = x :: accepted (appendOne s x) xs := if_neg hfull
      rw [hall, hfirst, hrest, List.cons_append]

/-- **A whole append**: the accepted records join the staged ones at the end, in order. -/
theorem appendFold_pending (xs : List ImuSample) :
    ∀ {s : Log}, s.Metered → (xs.foldl appendOne s).Unbroken →
      (xs.foldl appendOne s).pending = s.pending ++ accepted s xs := by
  induction xs with
  | nil =>
    intro s _ _
    exact (List.append_nil _).symm
  | cons x xs ih =>
    intro s h hu
    have hmet := appendOne_metered h x
    have hone := appendOne_pending h x (appendFold_unbroken xs hmet hu)
    have hcons : x :: xs = [x] ++ xs := rfl
    have hrest := ih hmet hu
    rw [List.foldl_cons, hrest, hone, hcons, accepted_append, List.foldl_cons, List.foldl_nil,
      List.append_assoc]

/-- **A drain** takes its batch off the front. -/
theorem pending_drain {s : Log} (hh : s.stageHead < 4294967296) (ht : s.stageTail < 4294967296)
    (ret : Int) : s.pending = s.stagedBatch s.drainCount ++ (s.drained ret).pending := by
  have hle : s.drainCount ≤ s.staged := drainCount_le_staged s
  have hleft : (s.drained ret).staged = s.staged - s.drainCount := u32Sub_advance hh ht hle
  have hsplit : s.staged = s.drainCount + (s.staged - s.drainCount) := by omega
  unfold Log.pending
  rw [hleft]
  generalize s.staged - s.drainCount = m at hsplit
  unfold Log.stagedBatch
  rw [hsplit, List.range_add, List.map_append, List.map_map]
  congr 1
  refine List.map_congr_left fun i _ => ?_
  show s.stage (u32 (s.stageTail + (s.drainCount + i)) % stageN) =
    s.stage (u32 (u32 (s.stageTail + s.drainCount) + i) % stageN)
  rw [u32_u32_add, Nat.add_assoc]

/-! ## Appended and drained -/

/-- What was appended to the running session is what was drained for it and what is still staged; of
    every session, the drained records are a beginning of the appended ones. -/
structure Log.Fifo (s : Log) (j : Journal) : Prop where
  level : s.staged ≤ 1536
  fifo : s.Busy → s.StageSafe → j.appended s.curSeq = j.drained s.curSeq ++ s.pending
  beginning : ∀ seq, j.drained seq <+: j.appended seq

/-- An empty staging ring. -/
theorem pending_nil {s : Log} (h : s.stageHead = s.stageTail) : s.staged = 0 ∧ s.pending = [] := by
  have hzero : s.staged = 0 := by
    unfold Log.staged
    rw [h, u32Sub_self]
  refine ⟨hzero, ?_⟩
  unfold Log.pending
  rw [hzero]
  rfl

/-- Every call keeps the counters of the staging ring in order. -/
theorem exec_metered {s : Log} (h : s.Metered) (o : Op) : (exec s o).Metered := by
  have hout := exec_cases s o
  generalize exec s o = s' at hout
  cases hout with
  | idle _ => exact ⟨h.head, h.tail, h.level⟩
  -- a start gives up what is staged
  | failed _ _ =>
    refine ⟨h.head, h.head, ?_⟩
    rw [(pending_nil rfl).1]
    exact Nat.zero_le _
  | opened _ _ =>
    refine ⟨h.head, h.head, ?_⟩
    rw [(pending_nil rfl).1]
    exact Nat.zero_le _
  | @staged xs _ _ =>
    have hfold := appendFold_metered xs h
    exact ⟨hfold.head, hfold.tail, hfold.level⟩
  | @wrote ret _ _ _ hne _ _ _ =>
    have hle : s.drainCount ≤ s.staged := drainCount_le_staged s
    have hstaged : (s.drained ret).staged = s.staged - s.drainCount :=
      u32Sub_advance h.head h.tail hle
    have hlevel := h.level
    refine ⟨h.head, u32_lt _, ?_⟩
    show (s.drained ret).staged ≤ 1536
    omega
  | closed _ _ => exact ⟨h.head, h.tail, h.level⟩
  | wiped _ _ => exact ⟨h.head, h.tail, h.level⟩

/-- **Step lemma.**  Every call keeps the staging ring a FIFO. -/
theorem exec_fifo {s : Log} {j : Journal} (hf : s.Filed) (h : s.Fifo j) (op : Op)
    (hsafe : s.StageSafe) (hok : op.Ok) : (exec s op).Fifo (j.record s op) := by
  have hmet : s.Metered := ⟨hf.head, hf.tail, h.level⟩
  have hlevel := (exec_metered hmet op).level
  have hout := exec_cases s op
  generalize exec s op = s' at hout hlevel
  cases hout with
  | @idle op t hidle =>
    rw [record_idle j hidle]
    exact ⟨hlevel, h.fifo, h.beginning⟩
  -- excluded: no write of the run fails
  | @failed st ret t ha hret =>
    have h0 : 0 ≤ ret := hok
    omega
  -- what was staged before is gone, and so is the account of the new id
  | @opened st ret t ha hret =>
    have hempty : Log.pending { s.claimed with
          flash := (s.entryWrite st ret).effect s.flash, active := true, trace := t } = [] :=
      (pending_nil rfl).2
    rw [record_start_ok j s st ha hret]
    refine ⟨hlevel, fun _ _ => ?_, fun seq => ?_⟩
    · rw [hempty]
      show Function.update j.appended s.seqNext [] s.seqNext =
        Function.update j.drained s.seqNext [] s.seqNext ++ []
      rw [Function.update_self, Function.update_self]
      rfl
    · show Function.update j.drained s.seqNext [] seq <+: Function.update j.appended s.seqNext [] seq
      by_cases hseq : seq = s.seqNext
      · rw [hseq, Function.update_self]
        exact List.nil_prefix
      · rw [Function.update_of_ne hseq, Function.update_of_ne hseq]
        exact h.beginning seq
  | @staged xs t ha =>
    rw [record_append j s xs ha]
    have hcur := h.fifo (Or.inl ha) hsafe
    have hram := appendFold_ram s xs
    have hmet' := appendFold_metered xs hmet
    obtain ⟨g, hd, d, hram⟩ := hram
    have hseq : (xs.foldl appendOne s).curSeq = s.curSeq := by rw [hram]
    refine ⟨hlevel, fun _ hsafe' => ?_, fun seq => ?_⟩
    · have hstage : (xs.foldl appendOne s).StageSafe := hsafe'
      have hpend' := appendFold_pending xs hmet (hstage.unbroken hmet'.head)
      show Function.update j.appended s.curSeq (j.appended s.curSeq ++ accepted s xs)
          (xs.foldl appendOne s).curSeq =
        j.drained (xs.foldl appendOne s).curSeq ++ (xs.foldl appendOne s).pending
      rw [hseq, Function.update_self, hpend', hcur, List.append_assoc]
    · show j.drained seq <+: Function.update j.appended s.curSeq
        (j.appended s.curSeq ++ accepted s xs) seq
      by_cases heq : seq = s.curSeq
      · rw [heq, Function.update_self]
        exact (h.beginning s.curSeq).trans (List.prefix_append _ _)
      · rw [Function.update_of_ne heq]
        exact h.beginning seq
  -- the batch moves from the front of the pending records to the end of the drained ones
  | @wrote ret g t L hne hg hk hL =>
    have hbusy := Log.busy_of_staged hne
    have hcur := h.fifo hbusy hsafe
    have hsplit := pending_drain hf.head hf.tail ret
    rw [record_drain]
    refine ⟨hlevel, fun _ _ => ?_, fun seq => ?_⟩
    · show j.appended s.curSeq = Function.update j.drained s.curSeq
        (j.drained s.curSeq ++ s.stagedBatch s.drainCount) s.curSeq ++ (s.drained ret).pending
      rw [Function.update_self, hcur, hsplit, List.append_assoc]
    · show Function.update j.drained s.curSeq
        (j.drained s.curSeq ++ s.stagedBatch s.drainCount) seq <+: j.appended seq
      by_cases heq : seq = s.curSeq
      · rw [heq, Function.update_self, hcur, hsplit, ← List.append_assoc]
        exact List.prefix_append _ _
      · rw [Function.update_of_ne heq]
        exact h.beginning seq
  | @closed g t L ha hg => exact ⟨hlevel, fun _ => h.fifo (Or.inl ha), h.beginning⟩
  | @wiped g t L d hnone hdata =>
    refine ⟨hlevel, ?_, h.beginning⟩
    rintro (hact | hst)
    · exact Log.not_active rfl hact
    · exact h.fifo (Or.inr hst)

/-- A device whose drained records are a beginning of the appended ones. -/
def Device.Fifo : Device → Prop
  | .on s j => s.Fifo j
  | .off _ j => ∀ seq, j.drained seq <+: j.appended seq

theorem device_fifo {d d' : Device} {e : Event} (hf : d.Filed) (h : d.Fifo)
    (hG : onCall (fun s o => s.StageSafe ∧ o.Ok) d e) (hst : DeviceStep d e d') : d'.Fifo := by
  cases device_turn hst with
  | call s j o => exact exec_fifo (s := s) hf h o hG.1 hG.2
  | uncalled s j o =>
    have hfifo : s.Fifo j := h
    exact hfifo.beginning
  | cut s j o k => exact (exec_fifo (s := s) hf h o hG.1 hG.2).beginning
  | boot f j =>
    have hempty := boot_staging hf
    refine ⟨?_, fun hb => absurd hb ?_, h⟩
    · rw [(pending_nil hempty.2).1]
      exact Nat.zero_le _
    · exact Log.not_busy hempty.1 hempty.2
  | bootCut f j k => exact h

/-! ## Over runs with power cuts -/

/-- No write fails, `total_abs` stays at most 2^28, the staging ring does not straddle the wrap of
    its counters with more than 1024 records in it, and no power cut makes the next boot readmit
    records that were overwritten. -/
def undisturbed (d : Device) (e : Event) : Prop :=
  onCall (fun s o => o.Ok ∧ Low s o ∧ s.StageSafe) d e ∧ cutsSafe d e

theorem undisturbed_call (d : Device) (e : Event) (h : undisturbed d e) :
    onCall (fun s o => o.Ok ∧ Low s o) d e ∧ cutsSafe d e :=
  ⟨onCall_imp (fun _ _ hc => ⟨hc.1, hc.2.1⟩) h.1, h.2⟩

/-- **Run lemma.** -/
theorem reach_fifo {d : Device} (h : Reach Fresh (guarded undisturbed DeviceStep) d) : d.Fifo := by
  refine Reach.invariant (I := Device.Fifo) ?_ ?_ h
  · rintro d ⟨f, rfl, -⟩ seq
    exact List.prefix_rfl
  · rintro d e d' hr hd ⟨hg, hst⟩
    have hfiled := (reach_kept undisturbed_call hr).1
    exact device_fifo hfiled hd (onCall_imp (fun _ _ hc => ⟨hc.2.2, hc.1⟩) hg.1) hst

/-- Of a beginning of a session, the readable part is the readable part of the session. -/
theorem readable_prefix {s : Log} {i : Nat} {l m : List ImuSample} (hlm : l <+: m)
    (hlen : s.liveCount i ≤ l.length) : s.readable i l = s.readable i m := by
  obtain ⟨rest, rfl⟩ := hlm
  unfold Log.readable
  rw [List.take_append_of_le_length hlen]

/-- As long as the ring has not come round, every cut is safe. -/
theorem cutSafe_of_le {s : Log} {o : Op} {k : Nat} (h : cutHead s o k ≤ recCapacity) :
    CutSafe s o k := by
  intro i _ _ r _ _ _
  omega

/-- **A dump returns what was appended**, after any number of power cuts and reboots: the bytes
    delivered for session `seq` are the requested slice of the records appended to it, at the
    positions from `max(start_rec, ring_floor())` to its end. -/
theorem dump_returns_appended {s : Log} {j : Journal}
    (h : Reach Fresh (guarded undisturbed DeviceStep) (.on s j)) {i : Nat} (hi : i < maxSessions)
    (hv : (s.flash.entries i).Valid) (offset len : Nat) :
    imuLogReadSession s (s.flash.entries i).seq offset len =
      ((recordBytes (s.readable i (j.appended (s.flash.entries i).seq))).drop offset).take len := by
  obtain ⟨hf, hl, hk⟩ := reach_kept undisturbed_call h
  have hs : s.Filed := hf
  have hkept : s.Kept j.drained := hk
  have hfifo : s.Fifo j := reach_fifo h
  have hcount := (hkept.live_stores hs hi hv).1.1
  rw [(dump_exact hs hkept hl hi hv offset len).1, readable_prefix (hfifo.beginning _) hcount]

/-- A session of one record, stopped, dumped after a power cut and a reboot. -/
theorem dump_returns_appended_one :
    imuLogReadSession (bootLog (exec (exec (exec (exec (bootLog Flash.blank)
        (.start Stamp.zero 0)) (.append [default])) (.drain 0)) .stop).flash) 1 3 10 =
      ((recordBytes ((bootLog (exec (exec (exec (exec (bootLog Flash.blank)
        (.start Stamp.zero 0)) (.append [default])) (.drain 0)) .stop).flash).readable 0
          [default])).drop 3).take 10 := by
  have h0 := logged_nil
  obtain ⟨hhead, h2⟩ := h0.cycle (by decide) default
  obtain ⟨hap, -, -⟩ := h0.append default
  obtain ⟨e, he, hv, hseq, -, -⟩ := h2.entry
  obtain ⟨hown, hzero, -, htot, hst⟩ := h2.stop
  have hfresh : Reach Fresh (guarded undisturbed DeviceStep) (.off Flash.blank Journal.empty) :=
    .start ⟨Flash.blank, rfl, by decide⟩
  have hboot : Reach Fresh (guarded undisturbed DeviceStep)
      (.on (bootLog Flash.blank) Journal.empty) :=
    hfresh.next (a := .boot) ⟨⟨trivial, trivial⟩, rfl⟩
  have hcall : ∀ {s : Log} {j : Journal}, Reach Fresh (guarded undisturbed DeviceStep) (.on s j) →
      ∀ o : Op, o.Ok → Low s o → s.stageTail ≤ s.stageHead →
      Reach Fresh (guarded undisturbed DeviceStep) (.on (exec s o) (j.record s o)) :=
    fun hr o hok hlow hle => hr.next (a := .op o) ⟨⟨⟨hok, hlow, Or.inl hle⟩, trivial⟩, rfl⟩
  have hopened := hcall hboot (.start Stamp.zero 0) (Int.le_refl 0) trivial
    (by rw [bootLog_foreign (by decide)]; exact Nat.le_refl _)
  have hstaged := hcall hopened (.append [default]) trivial trivial
    (by rewrite [h0.head, h0.tail]; exact Nat.le_refl _)
  have hdrained := hcall hstaged (.drain 0) (Int.le_refl 0)
    (by show _ + _ ≤ 268435456; rw [hhead]; decide)
    (by rw [hap]; show (exec (bootLog Flash.blank) (.start Stamp.zero 0)).stageTail ≤ _
        rw [h0.tail]; exact Nat.zero_le _)
  have hstopped := hcall hdrained .stop trivial trivial
    (by rewrite [h2.head, h2.tail]; exact Nat.le_refl _)
  have happ := h2.appended
  have hrec : ∀ (j : Journal) (s : Log), j.record s .stop = j := fun _ _ => rfl
  rw [he] at hzero
  rw [hrec] at hstopped
  generalize Journal.record _ _ (.drain 0) = j2 at hstopped happ
  generalize exec (exec (exec (exec (bootLog Flash.blank) (.start Stamp.zero 0))
    (.append [default])) (.drain 0)) .stop = s3 at hstopped hown hzero htot hst ⊢
  -- the power cut and the boot
  have hsafe : CutSafe s3 .stop 0 := by
    refine cutSafe_of_le ?_
    rw [cutHead, if_pos rfl, htot, recCapacity_eq]
    decide
  have hguard : undisturbed (.on s3 j2) (.cut .stop 0) :=
    ⟨⟨trivial, trivial, Or.inl (Nat.le_of_eq hst.symm)⟩, hsafe⟩
  have hoff : Reach Fresh (guarded undisturbed DeviceStep) (.off s3.flash j2) :=
    hstopped.next (a := .cut .stop 0) ⟨hguard, rfl⟩
  have hon : Reach Fresh (guarded undisturbed DeviceStep) (.on (bootLog s3.flash) j2) :=
    hoff.next (a := .boot) ⟨⟨trivial, trivial⟩, rfl⟩
  have hfiled : (Device.off s3.flash j2).Filed := (reach_kept undisturbed_call hoff).1
  obtain ⟨g, t, heq, hre⟩ := bootLog_over (hfiled hown).plainCounts hown
  obtain ⟨o, ho⟩ := hre.2.2 0
  have hentry : (bootLog s3.flash).flash.entries 0 = { s3.flash.entries 0 with isOpen := o } := by
    rw [heq]
    exact ho
  have hdump := dump_returns_appended hon (by decide : 0 < maxSessions)
    (by rw [hentry, hzero]; exact hv) 3 10
  have hid : ((bootLog s3.flash).flash.entries 0).seq = 1 := by
    rw [hentry, hzero]
    exact hseq
  rw [hid] at hdump
  rw [hdump, happ]
  rfl

/-- A record unlike the default one. -/
def distinct : ImuSample := { (default : ImuSample) with ax := 1 }

/-- `n` records alike, and one that is not. -/
def alikeButLast (n : Nat) : List ImuSample := List.replicate n default ++ [distinct]

@[simp] theorem alikeButLast_length (n : Nat) : (alikeButLast n).length = n + 1 := by
  simp [alikeButLast]

/-- The records in front start with a zero byte. -/
theorem alikeButLast_front {n k : Nat} (hk : k < n) :
    (recordBytes (alikeButLast n)).getD (16 * k) 0 = 0 := by
  have hrec : (alikeButLast n)[k]? = some default := by
    unfold alikeButLast
    rw [List.getElem?_append_left (by rw [List.length_replicate]; exact hk),
      List.getElem?_replicate_of_lt hk]
  have hbyte := recordBytes_at (b := 0) hrec (by decide)
  rw [List.getD_eq_getElem?_getD]
  exact congrArg (fun o => o.getD 0) hbyte

/-- The last one starts with a one. -/
theorem alikeButLast_last (n : Nat) :
    (recordBytes (alikeButLast n)).getD (16 * n) 0 = 1 := by
  have hrec : (alikeButLast n)[n]? = some distinct := by
    unfold alikeButLast
    rw [List.getElem?_append_right (Nat.le_of_eq (List.length_replicate ..)),
      List.length_replicate, Nat.sub_self]
    rfl
  have hbyte := recordBytes_at (b := 0) hrec (by decide)
  rw [List.getD_eq_getElem?_getD]
  exact congrArg (fun o => o.getD 0) hbyte

/-- In a device that has logged `n + 1` records into session 1, the last record is where record
    `n - 43478` had been. -/
theorem Logged.last_at {n : Nat} {s : Log} {j : Journal} (h : Logged (alikeButLast n) s j)
    (hs : s.Filed) (hkept : s.Kept j.drained) : s.flash.data (16 * n % dataCapacity) = 1 := by
  obtain ⟨e, he, hv, -, hstart, -⟩ := h.entry
  have hcur : (s.flash.entries s.curSlot).Valid := by rw [h.slot, he]; exact hv
  obtain ⟨-, hbstart, -, -⟩ := (hs.bound (Or.inl h.active)).entry hcur
  rw [h.slot, he, hstart] at hbstart
  have hst := (hkept.live (Or.inl h.active) hcur).2
  rw [h.seq, h.drained, h.total, h.count, ← hbstart, alikeButLast_length] at hst
  have hcap := dataCapacity_eq
  have hdata := hst.2 (16 * n) (by omega) (by omega)
  rw [hdata]
  exact alikeButLast_last n

/-- The boot after a power cut in such a device, between two refreshes of the directory. -/
theorem Logged.reboot {l : List ImuSample} {s : Log} {j : Journal} (h : Logged l s j)
    (hs : s.Filed) :
    (bootLog s.flash).totalAbs = l.length / 512 * 512 ∧
      (bootLog s.flash).flash.data = s.flash.data ∧
      (bootLog s.flash).liveCount 0 = l.length / 512 * 512 ∧
      ∃ e, (bootLog s.flash).flash.entries 0 = e ∧ e.Valid ∧ e.seq = 1 ∧ e.startRec = 0 := by
  obtain ⟨e, he, hv, hseq, hstart, hrec⟩ := h.entry
  have htot := hs.total
  have hfiled : s.flash.Filed 4294967295 := hs.entries.mono (by omega)
  obtain ⟨g, t, heq, hre⟩ := bootLog_over hfiled.plainCounts h.own
  have hend : directoryEnd s.flash = l.length / 512 * 512 := by
    have hle : directoryEnd s.flash ≤ l.length / 512 * 512 := by
      refine directoryEnd_le fun i hi hvi => ?_
      by_cases hi0 : i = 0
      · rw [hi0, he, hstart, hrec]
        omega
      · exact absurd hvi (h.others i hi0)
    have hge := le_directoryEnd (by decide : 0 < maxSessions) (by rw [he]; exact hv)
    rw [he, hstart, hrec] at hge
    omega
  obtain ⟨o, ho⟩ := hre.2.2 0
  rw [he] at ho
  have hidle : (bootLog s.flash).liveCount 0 = ((bootLog s.flash).flash.entries 0).recCount := by
    refine if_neg ?_
    rintro ⟨hact, -⟩
    exact Log.not_active (by rw [heq]; rfl) hact
  rw [hidle, heq]
  refine ⟨hend, hre.1, ?_, g.entries 0, rfl, ?_⟩
  · show (g.entries 0).recCount = _
    rw [ho]
    exact hrec
  · rw [ho]
    exact ⟨hv, hseq, hstart⟩

/-- The condition on power cuts is needed: without it a dump returns a record that has been
    overwritten.  Session 1 has logged 43521 records, all alike but the last; the count in its entry
    is 43520, so the boot after a power cut puts `ring_floor()` at 42 and readmits record 42, in
    whose place the last record was written. -/
theorem stale_after_cut :
    ¬ ∀ s j, Reach Fresh (guarded (onCall fun _ o => o.Ok) DeviceStep) (.on s j) →
      ∀ i, i < maxSessions → (s.flash.entries i).Valid → ∀ offset len,
        imuLogReadSession s (s.flash.entries i).seq offset len =
          ((recordBytes (s.readable i (j.appended (s.flash.entries i).seq))).drop offset).take
            len := by
  intro hall
  obtain ⟨s, j, hr, h⟩ := logged_steady (alikeButLast 43520)
    (by rw [alikeButLast_length]; decide)
  obtain ⟨hf, -, hk⟩ := reach_kept (fun d e => steady_call) hr
  have hs : s.Filed := hf
  have hlen : (alikeButLast 43520).length / 512 * 512 = 43520 := by rw [alikeButLast_length]
  have hlast := h.last_at hs hk
  obtain ⟨htot, hdata, hlive, e, he, hv, hseq, hstart⟩ := h.reboot hs
  rw [hlen] at htot hlive
  -- the power cut, and the boot
  have hok : Reach Fresh (guarded (onCall fun _ o => o.Ok) DeviceStep) (.on s j) :=
    hr.mono (fun _ h0 => h0) fun d e d' hst =>
      ⟨onCall_imp (fun _ _ hc => hc.1) (steady_call hst.1).1, hst.2⟩
  have hagain := reach_boot (reach_cut hok .stop 0 trivial)
  rw [cutImage_zero] at hagain
  have hfiled := (boot_filed fun _ => hs.entries.mono
    (by have hword := hs.total; omega : s.totalAbs ≤ 4294967295)).entries
  generalize bootLog s.flash = s' at hagain hfiled htot hdata hlive he
  have hfloor := ringFloor_eq s'
  rw [htot, recCapacity_eq] at hfloor
  have hclip : s'.clippedStart 0 = 42 := by
    obtain ⟨-, h2, h3⟩ := le_clippedStart s' 0
    rw [he, hstart] at h3
    omega
  have hcount : s'.readableCount 0 = 43478 := by
    unfold Log.readableCount
    rw [he, hstart, hlive, hclip]
  -- the first byte of the dump: the code reads 1, record 42 starts with 0
  have hdump := hall s' j hagain 0 (by decide) (by rw [he]; exact hv) 0 1
  rw [readSession_eq hfiled (by rw [htot]; decide) (by decide) (by rw [he]; exact hv)
    (Nat.le_of_eq (by rw [he, hstart, hlive, htot])), readable_slice, he, hseq, h.appended, hstart,
    hlive, hclip, hcount, readLoop_get _ _ _ (by decide), slice_eq (recordBytes (alikeButLast 43520)) 0
      (by rw [recordBytes_length, alikeButLast_length]; decide)] at hdump
  have hone : [s'.flash.data (672 % dataCapacity)] =
      [(recordBytes (alikeButLast 43520)).getD (16 * 42) 0] := hdump
  rw [hdata, alikeButLast_front (by decide)] at hone
  have hsame : 672 % dataCapacity = 16 * 43520 % dataCapacity := by rw [dataCapacity_eq]
  rw [hsame, hlast] at hone
  exact absurd hone (by decide)

end Caterpillar.ImuLog
