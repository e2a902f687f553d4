/-
  What the log announces (src/imu/imu_log.c, src/imu/imu_log.h).

  "That session's directory entry is removed and a BLE message (0xFFEC) announces it."

  1. `Told f s` — every session listed in the directory `f` is still listed in `s`, or a message naming
     it is in the trace of `s`; `consumeSlot_told`, and from it `drain_told`.
  2. `Announced s o` — the call `o` announces every session it takes from the directory.  A drain always
     does; a start exactly if the slot of the new session is free (`Spares`).
  3. `announced_run` — the same of every call of a run, and the seventeenth session.
-/
import Caterpillar.ImuLog.Device

namespace Caterpillar.ImuLog

open Caterpillar.Word Caterpillar.Ring Caterpillar.Runs Caterpillar.Imu

/-! ## Drains -/

/-- Session `seq` is in slot `i`. -/
def Flash.Lists (f : Flash) (i seq : Nat) : Prop := (f.entries i).Valid ∧ (f.entries i).seq = seq

/-- A message names session `seq` as removed. -/
def Named (t : List Ev) (seq : Nat) : Prop := ∃ bySeq, Ev.msg (.removed seq bySeq) ∈ t

/-- What `f` lists is still listed, or named. -/
def Told (f : Flash) (s : Log) : Prop :=
  ∀ i seq, f.Lists i seq → s.flash.Lists i seq ∨ Named s.trace seq

theorem Named.append {t : List Ev} {seq : Nat} (h : Named t seq) (u : List Ev) : Named (t ++ u) seq := by
  obtain ⟨bySeq, hmem⟩ := h
  exact ⟨bySeq, List.mem_append_left _ hmem⟩

/-- Only the flash and the trace matter. -/
theorem Told.ram {f : Flash} {s s' : Log} (h : Told f s) (hf : s'.flash = s.flash)
    (ht : s'.trace = s.trace) : Told f s' := by
  intro i seq hl
  rw [hf, ht]
  exact h i seq hl

/-- An access that takes no session from the directory. -/
theorem Told.emit {f : Flash} {s : Log} (h : Told f s) {ev : Ev}
    (hkeep : ∀ i seq, s.flash.Lists i seq → (ev.effect s.flash).Lists i seq) : Told f (s.emit ev) := by
  intro i seq hl
  rcases h i seq hl with hstill | hnamed
  · exact .inl (hkeep i seq hstill)
  · exact .inr (hnamed.append _)

/-- **One slot of `invalidate_consumed`**: the entry goes, and is named. -/
theorem consumeSlot_told {f : Flash} {s : Log} (h : Told f s) (floor i : Nat) :
    Told f (consumeSlot floor s i) := by
  unfold consumeSlot
  split
  · exact h
  · have hread : Told f (s.emit (.readEntry i)) := h.emit fun _ _ hl => hl
    dsimp only
    split
    · exact hread
    · split
      · intro k seq hl
        rcases hread k seq hl with hstill | hnamed
        · by_cases hk : k = i
          · -- the entry that goes
            subst hk
            refine .inr ⟨s.curSeq, List.mem_append_right _ ?_⟩
            have hseq : (s.flash.entries k).seq = seq := hstill.2
            rw [hseq]
            exact List.mem_singleton.mpr rfl
          · left
            show ((Ev.writeEntry i DirEntry.invalid 0).effect s.flash).Lists k seq
            unfold Flash.Lists
            rw [effect_writeEntry_entries (by decide), if_neg hk]
            exact hstill
        · exact .inr ((hnamed.append _).append _)
      · exact hread

theorem consumeFold_told {f : Flash} (floor : Nat) (l : List Nat) {s : Log} (h : Told f s) :
    Told f (l.foldl (consumeSlot floor) s) := by
  induction l generalizing s with
  | nil => exact h
  | cons i l ih => exact ih (consumeSlot_told h floor i)

/-- A refresh keeps the session of the entry it rewrites. -/
theorem dirRefreshCurrent_told {f : Flash} {s : Log} (h : Told f s) (closing : Bool) :
    Told f (dirRefreshCurrent s closing) := by
  have hread : Told f (s.emit (.readEntry s.curSlot)) := h.emit fun _ _ hl => hl
  by_cases hv : (s.flash.entries s.curSlot).Valid
  · rw [dirRefreshCurrent_eq s closing hv]
    have hwrite : Told f ((s.emit (.readEntry s.curSlot)).emit
        (.writeEntry s.curSlot { s.flash.entries s.curSlot with
          recCount := s.curCount, isOpen := if closing then 0 else 1 } 0)) := by
      refine hread.emit fun i seq hl => ?_
      unfold Flash.Lists
      rw [effect_writeEntry_entries (by decide)]
      split
      · rename_i hi
        subst hi
        exact hl
      · exact hl
    exact Told.ram hwrite rfl rfl
  · have hskip : dirRefreshCurrent s closing = s.emit (.readEntry s.curSlot) := by
      unfold dirRefreshCurrent
      exact if_pos hv
    rw [hskip]
    exact hread

/-- **A drain names what it takes.** -/
theorem drain_told (s : Log) (ret : Int) : Told s.flash (exec s (.drain ret)) := by
  show Told s.flash (writerDrainBatch { s with trace := [] } ret)
  have hstart : Told s.flash { s with trace := [] } := fun _ _ hl => .inl hl
  by_cases hne : u32Sub s.stageHead s.stageTail = 0
  · rw [writerDrainBatch_empty { s with trace := [] } ret hne]
    exact hstart
  · have hdrained : Told s.flash (Log.drained { s with trace := [] } ret) := by
      have hwrite : Told s.flash (Log.emit { s with trace := [] } (s.drainWrite ret)) := by
        refine hstart.emit fun i seq hl => ?_
        unfold Flash.Lists
        rw [drainWrite_entries]
        exact hl
      exact Told.ram hwrite rfl rfl
    rw [writerDrainBatch_eq { s with trace := [] } ret hne]
    split
    · exact consumeFold_told _ _ (dirRefreshCurrent_told hdrained false)
    · exact hdrained

/-! ## Starts -/

/-- The call announces every session it takes from the directory. -/
def Announced (s : Log) (o : Op) : Prop :=
  ∀ i seq, i < maxSessions → s.flash.Lists i seq → ¬ (exec s o).flash.Lists i seq →
    Named (exec s o).trace seq

/-- The calls that make room: `imu_log_start` and `writer_drain_batch`. -/
def Op.makesRoom : Op → Bool
  | .start _ _ | .drain _ => true
  | _ => false

/-- A start that opens a session finds its slot without a session of another id. -/
def Spares (s : Log) : Op → Prop
  | .start _ ret => s.active = false → ¬ ret < 0 →
      (s.flash.entries (slotOf s.seqNext)).Valid →
        (s.flash.entries (slotOf s.seqNext)).seq = s.seqNext
  | _ => True

/-- What a start that opens a session leaves in the directory, and in the trace. -/
theorem start_leaves (s : Log) (st : Stamp) {ret : Int} (ha : s.active = false) (hret : ¬ ret < 0) :
    (exec s (.start st ret)).trace = [s.entryWrite st ret] ∧ ∀ i seq,
      (exec s (.start st ret)).flash.Lists i seq ↔
        if i = slotOf s.seqNext then s.seqNext = seq else s.flash.Lists i seq := by
  have h : exec s (.start st ret) = { s.claimed with
      flash := (s.entryWrite st ret).effect s.flash, active := true,
      trace := [s.entryWrite st ret] } :=
    congrArg Prod.fst (imuLogStart_ok { s with trace := [] } st ha hret)
  rw [h]
  refine ⟨rfl, fun i seq => ?_⟩
  show ((s.entryWrite st ret).effect s.flash).Lists i seq ↔ _
  unfold Flash.Lists Log.entryWrite
  rw [effect_writeEntry_entries hret]
  split
  · exact ⟨fun hl => hl.2, fun hseq => ⟨rfl, hseq⟩⟩
  · exact Iff.rfl

/-- **A start announces nothing**, so it must not take anything. -/
theorem start_announced_iff (s : Log) (st : Stamp) (ret : Int) :
    Announced s (.start st ret) ↔ Spares s (.start st ret) := by
  by_cases hopen : s.active = false ∧ ¬ ret < 0
  · obtain ⟨ha, hret⟩ := hopen
    obtain ⟨htrace, hlists⟩ := start_leaves s st ha hret
    constructor
    · intro hall _ _ hv
      by_contra hne
      have hgone : ¬ (exec s (.start st ret)).flash.Lists (slotOf s.seqNext)
          (s.flash.entries (slotOf s.seqNext)).seq := by
        rw [hlists, if_pos rfl]
        exact fun heq => hne heq.symm
      obtain ⟨bySeq, hmem⟩ := hall _ _ (slotOf_lt _) ⟨hv, rfl⟩ hgone
      rw [htrace] at hmem
      exact Ev.noConfusion (List.mem_singleton.mp hmem)
    · intro hspares i seq _ hl hgone
      rw [hlists] at hgone
      by_cases hi : i = slotOf s.seqNext
      · rw [if_pos hi] at hgone
        rw [hi] at hl
        exact absurd ((hspares ha hret hl.1).symm.trans hl.2) hgone
      · rw [if_neg hi] at hgone
        exact absurd hl hgone
  · -- no session opens: the directory stays
    have hkeep : (exec s (.start st ret)).flash = s.flash := by
      have hafter : (exec s (.start st ret)).flash = if s.active then s.flash else _ :=
        exec_after s (.start st ret)
      rw [hafter]
      split
      · rfl
      · rename_i hact
        have ha : s.active = false := by simpa using hact
        exact if_pos (by_contra fun hret => hopen ⟨ha, hret⟩)
    refine iff_of_true ?_ ?_
    · intro i seq _ hl hgone
      rw [hkeep] at hgone
      exact absurd hl hgone
    · intro ha hret
      exact absurd ⟨ha, hret⟩ hopen

/-! ## Runs -/

/-- The call announces what it takes exactly if it spares the other sessions' slots. -/
theorem announced_iff (s : Log) {o : Op} (ho : o.makesRoom = true) : Announced s o ↔ Spares s o := by
  cases o with
  | start st ret => exact start_announced_iff s st ret
  | drain ret =>
    refine iff_of_true ?_ trivial
    intro i seq _ hl hgone
    exact (drain_told s ret i seq hl).resolve_left hgone
  | append | stop | erase => exact absurd ho Bool.false_ne_true

/-- A property of the starts and drains of a run: of each, and of the state it is called in. -/
def Throughout (P : Log → Op → Prop) (d : Device) (es : List Event) : Prop :=
  ∀ pre o post s j, es = pre ++ .op o :: post → pre.foldlM Device.step d = some (.on s j) →
    o.makesRoom = true → P s o

/-- **Every removal of a run is announced exactly if every start of it spares the other sessions.** -/
theorem announced_run (d : Device) (es : List Event) :
    Throughout Announced d es ↔ Throughout Spares d es := by
  constructor
  · intro h pre o post s j hes hrun ho
    exact (announced_iff s ho).mp (h pre o post s j hes hrun ho)
  · intro h pre o post s j hes hrun ho
    exact (announced_iff s ho).mpr (h pre o post s j hes hrun ho)

/-- Sixteen empty sessions. -/
def sixteenNow : List Event :=
  .boot :: (List.replicate 16 [Event.op (.start ⟨0, 0, 0, 0, 0⟩ 0), .op .stop]).flatten

/-- The first session is listed, and the next start gives its slot away. -/
def seventeenthTakes : Device → Bool
  | .on s _ => decide (s.active = false ∧ (s.flash.entries (slotOf s.seqNext)).Valid ∧
      (s.flash.entries (slotOf s.seqNext)).seq = 1 ∧ s.seqNext = 17)
  | .off _ _ => false

/-- **The seventeenth session** takes the first one's entry without a word. -/
theorem seventeenth_silent :
    ¬ ∀ d es, Fresh d → Throughout Announced d es := by
  intro hall
  have hrun : (sixteenNow.foldlM Device.step (.off ⟨DirMeta.erased, fun _ => DirEntry.erased,
      fun _ => 0xFF⟩ Journal.empty)).any seventeenthTakes = true := by decide +kernel
  obtain ⟨d, hd, hout⟩ := (Option.any_eq_true _ _).mp hrun
  cases d with
  | off f j => exact Bool.noConfusion hout
  | on s j =>
    obtain ⟨ha, hv, hone, hnext⟩ := of_decide_eq_true hout
    have hsilent := hall _ (sixteenNow ++ [.op (.start ⟨0, 0, 0, 0, 0⟩ 0)])
      ⟨_, rfl, by decide⟩ sixteenNow _ [] s j rfl hd rfl
    have hspares := (start_announced_iff s _ 0).mp hsilent ha (by decide) hv
    rw [hone, hnext] at hspares
    exact absurd hspares (by decide)

end Caterpillar.ImuLog
