/-
  The directory of the log, over every run with power cuts and reboots.

  1. `Flash.Filed` / `Flash.Ordered` — what the entries of ONE flash image satisfy: each lies in the
     slot of its id, ends by the counter, and the ranges follow each other in the order of the ids.
  2. `Log.Filed` / `Log.Ordered` — the same for a powered device, together with what ties the
     statics to the running session's entry (`Log.Bound`).  The link is only claimed while the
     writer can still change that entry (`Log.Busy`): after a FAILED start `cur_slot` points at an
     entry of somebody else, and nothing may be said about it.
  3. `exec_filed` / `exec_ordered` — one step lemma each, by the cases of `exec_cases`; the flash a
     power cut leaves is covered by `After.filed` / `After.ordered`, and a boot by `boot_filed` /
     `boot_ordered`.
  4. `reach_filed` / `reach_ordered` — over runs, by `Reach.invariant`.

  The counters are 32 bit words, so a run has to leave them room: `Room` keeps `total_abs` and
  `cur_count` from wrapping in a drain, `Fits` keeps `seq_next` from wrapping in a start.  `Room`
  also keeps `cur_count` off the all-ones value, which `imu_log_init` takes for "died before the
  first refresh" — `sentinel_lost` shows what happens to a session that long.
-/
import Caterpillar.ImuLog.LongRun

namespace Caterpillar.ImuLog

open Caterpillar.Word Caterpillar.Ring Caterpillar.Runs Caterpillar.Imu

/-! ## One flash image -/

/-- An entry found in slot `i` is filed there rightly and ends by `T`. -/
structure DirEntry.Filed (T i : Nat) (e : DirEntry) : Prop where
  slot : slotOf e.seq = i
  word : e.seq < 4294967296
  ends : e.startRec + e.recCount ≤ T
  plain : e.recCount < 4294967295

/-- Every listed entry is filed rightly and ends by `T`. -/
def Flash.Filed (f : Flash) (T : Nat) : Prop :=
  ∀ i, i < maxSessions → (f.entries i).Valid → (f.entries i).Filed T i

/-- The listed ids are below `N`, and their ranges follow each other in the order of the ids. -/
structure Flash.Ordered (f : Flash) (N : Nat) : Prop where
  ids : ∀ i, i < maxSessions → (f.entries i).Valid → 1 ≤ (f.entries i).seq ∧ (f.entries i).seq < N
  ranges : ∀ i k, i < maxSessions → k < maxSessions → (f.entries i).Valid → (f.entries k).Valid →
    (f.entries i).seq < (f.entries k).seq →
      (f.entries i).startRec + (f.entries i).recCount ≤ (f.entries k).startRec

theorem Flash.Filed.none {f : Flash} {T : Nat} (h : ∀ i, ¬ (f.entries i).Valid) : f.Filed T :=
  fun i _ hv => absurd hv (h i)

theorem Flash.Ordered.none {f : Flash} {N : Nat} (h : ∀ i, ¬ (f.entries i).Valid) : f.Ordered N :=
  ⟨fun i _ hv => absurd hv (h i), fun i _ _ _ hv _ _ => absurd hv (h i)⟩

theorem Flash.Filed.mono {f : Flash} {T T' : Nat} (h : f.Filed T) (hT : T ≤ T') : f.Filed T' := by
  intro i hi hv
  obtain ⟨h1, h2, h3, h4⟩ := h i hi hv
  exact ⟨h1, h2, by omega, h4⟩

theorem Flash.Ordered.mono {f : Flash} {N N' : Nat} (h : f.Ordered N) (hN : N ≤ N') :
    f.Ordered N' := by
  refine ⟨fun i hi hv => ?_, h.ranges⟩
  obtain ⟨h1, h2⟩ := h.ids i hi hv
  exact ⟨h1, by omega⟩

/-- The counts a boot reads off a filed directory are the ones written. -/
theorem Flash.Filed.plainCounts {f : Flash} (h : f.Filed 4294967295) : PlainCounts f := by
  intro i hi hv
  obtain ⟨-, -, h3, h4⟩ := h i hi hv
  exact ⟨h4, by omega⟩

/-- Updating counts keeps a directory filed as long as the updated entries still end by `T'`. -/
theorem Flash.Filed.image {R : Nat → Nat → Nat → Prop} {f g : Flash} {T T' : Nat} (h : f.Filed T)
    (hg : Image R f g)
    (hR : ∀ i c, i < maxSessions → (f.entries i).Valid → R i (f.entries i).recCount c →
      (f.entries i).startRec + c ≤ T' ∧ c < 4294967295) : g.Filed T' := by
  intro i hi hv
  obtain ⟨h1, h2, -, -⟩ := h i hi (hg.1.valid hv)
  obtain ⟨hends, hplain⟩ : (g.entries i).startRec + (g.entries i).recCount ≤ T' ∧
      (g.entries i).recCount < 4294967295 := by
    obtain ⟨c, o, heq, hc⟩ := hg.1 i hv
    rw [heq]
    exact hR i c hi (hg.1.valid hv) hc
  have hseq : (g.entries i).seq = (f.entries i).seq := by
    obtain ⟨c, o, heq, -⟩ := hg.1 i hv
    rw [heq]
  exact ⟨by rw [hseq]; exact h1, by rw [hseq]; exact h2, hends, hplain⟩

/-- Updating counts keeps the ranges in order as long as only the newest entry is extended. -/
theorem Flash.Ordered.image {R : Nat → Nat → Nat → Prop} {f g : Flash} {N : Nat}
    (h : f.Ordered N) (hg : Image R f g)
    (hR : ∀ i c, i < maxSessions → (f.entries i).Valid → R i (f.entries i).recCount c →
      c = (f.entries i).recCount ∨ N = (f.entries i).seq + 1) : g.Ordered N := by
  have hseq : ∀ i, (g.entries i).Valid → (g.entries i).seq = (f.entries i).seq ∧
      (g.entries i).startRec = (f.entries i).startRec := by
    intro i hv
    obtain ⟨c, o, heq, -⟩ := hg.1 i hv
    rw [heq]
    exact ⟨rfl, rfl⟩
  refine ⟨fun i hi hv => ?_, fun i k hi hk hvi hvk hlt => ?_⟩
  · rw [(hseq i hv).1]
    exact h.ids i hi (hg.1.valid hv)
  · have hvi' := hg.1.valid hvi
    have hvk' := hg.1.valid hvk
    rw [(hseq i hvi).1, (hseq k hvk).1] at hlt
    have hold := h.ranges i k hi hk hvi' hvk' hlt
    rw [(hseq i hvi).2, (hseq k hvk).2]
    obtain ⟨c, o, heq, hc⟩ := hg.1 i hvi
    have hcnt : (g.entries i).recCount = c := by rw [heq]
    rcases hR i c hi hvi' hc with hsame | hnewest
    · rw [hcnt, hsame]
      exact hold
    · -- the extended entry is the newest one, so it is not the earlier of the two
      have hbelow := (h.ids k hk hvk').2
      omega

/-- Opening a session: its entry starts at the counter. -/
theorem Flash.Filed.enter {f : Flash} {T seq : Nat} (h : f.Filed T) (hseq : seq < 4294967296)
    (st : Stamp) (ret : Int) :
    ((Ev.writeEntry (slotOf seq) (newEntry seq T st) ret).effect f).Filed T := by
  by_cases hret : ret < 0
  · have hkeep : (Ev.writeEntry (slotOf seq) (newEntry seq T st) ret).effect f = f := if_pos hret
    rw [hkeep]
    exact h
  · intro i hi hv
    rw [effect_writeEntry_entries hret] at hv ⊢
    by_cases hslot : i = slotOf seq
    · rw [if_pos hslot]
      exact ⟨hslot.symm, hseq, Nat.le_refl _, by show (0 : Nat) < 4294967295; decide⟩
    · rw [if_neg hslot] at hv ⊢
      exact h i hi hv

/-- Opening a session under the next id keeps the order. -/
theorem Flash.Ordered.enter {f : Flash} {T N : Nat} (h : f.Ordered N) (hf : f.Filed T)
    (hN : 1 ≤ N) (st : Stamp) (ret : Int) :
    ((Ev.writeEntry (slotOf N) (newEntry N T st) ret).effect f).Ordered (N + 1) := by
  by_cases hret : ret < 0
  · have hkeep : (Ev.writeEntry (slotOf N) (newEntry N T st) ret).effect f = f := if_pos hret
    rw [hkeep]
    exact h.mono (Nat.le_succ N)
  · refine ⟨fun i hi hv => ?_, fun i k hi hk hvi hvk hlt => ?_⟩
    · rw [effect_writeEntry_entries hret] at hv ⊢
      by_cases hslot : i = slotOf N
      · rw [if_pos hslot]
        exact ⟨hN, Nat.lt_succ_self N⟩
      · rw [if_neg hslot] at hv ⊢
        obtain ⟨h1, h2⟩ := h.ids i hi hv
        exact ⟨h1, by omega⟩
    · rw [effect_writeEntry_entries hret] at hvi hvk hlt ⊢
      rw [effect_writeEntry_entries hret] at hlt ⊢
      by_cases hsi : i = slotOf N
      · -- the new entry has the largest id: it is never the earlier one
        exfalso
        rw [if_pos hsi] at hlt
        have hnew : (newEntry N T st).seq = N := rfl
        rw [hnew] at hlt
        by_cases hsk : k = slotOf N
        · rw [if_pos hsk, hnew] at hlt
          exact Nat.lt_irrefl _ hlt
        · rw [if_neg hsk] at hlt hvk
          have hbelow := (h.ids k hk hvk).2
          omega
      · rw [if_neg hsi] at hvi hlt ⊢
        by_cases hsk : k = slotOf N
        · rw [if_pos hsk]
          exact (hf i hi hvi).ends
        · rw [if_neg hsk] at hvk hlt ⊢
          exact h.ranges i k hi hk hvi hvk hlt

/-- A boot touches open flags only. -/
theorem Reopened.image {f g : Flash} (h : Reopened f g) : Image (fun _ c c' => c' = c) f g := by
  refine ⟨fun i _ => ?_, h.1⟩
  obtain ⟨o, ho⟩ := h.2.2 i
  exact ⟨(f.entries i).recCount, o, ho, rfl⟩

theorem Flash.Filed.reopened {f g : Flash} {T : Nat} (h : f.Filed T) (hre : Reopened f g) :
    g.Filed T := by
  refine h.image hre.image fun i c hi hv hc => ?_
  obtain ⟨-, -, hends, hplain⟩ := h i hi hv
  rw [hc]
  exact ⟨hends, hplain⟩

theorem Flash.Ordered.reopened {f g : Flash} {N : Nat} (h : f.Ordered N) (hre : Reopened f g) :
    g.Ordered N :=
  h.image hre.image fun _ _ _ _ hc => Or.inl hc

/-! ## A powered device -/

/-- The writer can still change the entry `cur_slot` points at. -/
def Log.Busy (s : Log) : Prop := s.active = true ∨ s.stageHead ≠ s.stageTail

/-- `cur_slot` is the slot of the running session, and if its entry is listed, it is the entry of
    that session, lagging behind the live count. -/
structure Log.Bound (s : Log) : Prop where
  slot : s.curSlot = slotOf s.curSeq
  entry : (s.flash.entries s.curSlot).Valid →
    (s.flash.entries s.curSlot).seq = s.curSeq ∧
    (s.flash.entries s.curSlot).startRec = s.curStart ∧
    (s.flash.entries s.curSlot).recCount ≤ s.curCount ∧
    s.curStart + s.curCount = s.totalAbs

/-- The statics are words, the directory is filed, and the running session is listed. -/
structure Log.Filed (s : Log) : Prop where
  total : s.totalAbs < 4294967296
  next : s.seqNext < 4294967296
  head : s.stageHead < 4294967296
  tail : s.stageTail < 4294967296
  count : s.curCount ≤ s.totalAbs
  plain : s.curCount < 4294967295
  entries : s.flash.Filed s.totalAbs
  bound : s.Busy → s.Bound
  running : s.active = true → (s.flash.entries s.curSlot).Valid

/-- The directory is in order, and the running session is its newest. -/
structure Log.Ordered (s : Log) : Prop where
  first : 1 ≤ s.seqNext
  entries : s.flash.Ordered s.seqNext
  newest : s.Busy → (s.flash.entries s.curSlot).Valid → s.seqNext = s.curSeq + 1

/-- Where the write head stands once the first access of a call is through. -/
def Log.headAfter (s : Log) : Op → Nat
  | .drain _ => s.totalAbs + s.drainCount
  | _ => s.totalAbs

theorem le_headAfter (s : Log) (op : Op) : s.totalAbs ≤ s.headAfter op := by
  cases op with
  | drain ret => exact Nat.le_add_right _ _
  | start st ret => exact Nat.le_refl _
  | append xs => exact Nat.le_refl _
  | stop => exact Nat.le_refl _
  | erase => exact Nat.le_refl _

/-- Without a session and with nothing staged the writer has nothing to change. -/
theorem Log.not_busy {s : Log} (ha : s.active = false) (hst : s.stageHead = s.stageTail) :
    ¬ s.Busy := by
  rintro (hact | hne)
  · rw [ha] at hact
    exact absurd hact (by decide)
  · exact hne hst

theorem zero_word : (0 : Nat) < 4294967296 := by decide

theorem zero_plain : (0 : Nat) < 4294967295 := by decide

theorem one_word : (1 : Nat) < 4294967296 := by decide

/-- Something staged keeps the writer busy. -/
theorem Log.busy_of_staged {s : Log} (h : u32Sub s.stageHead s.stageTail ≠ 0) : s.Busy := by
  right
  intro heq
  rw [heq, u32Sub_self] at h
  exact h rfl

/-- What a drain may do to the counts keeps every entry below the new counter. -/
theorem Log.Filed.refreshed {s : Log} (h : s.Filed) {ret : Int} (hroom : Room s (.drain ret))
    (hne : u32Sub s.stageHead s.stageTail ≠ 0) {i c : Nat} (hi : i < maxSessions)
    (hv : (s.flash.entries i).Valid)
    (hc : Refreshed s.curSlot (u32 (s.curCount + s.drainCount)) i (s.flash.entries i).recCount c) :
    (s.flash.entries i).startRec + c ≤ s.totalAbs + s.drainCount ∧ c < 4294967295 := by
  obtain ⟨-, -, hends, hplain⟩ := h.entries i hi hv
  obtain ⟨hT, hC⟩ : s.totalAbs + s.drainCount < 4294967296 ∧
    s.curCount + s.drainCount < 4294967295 := hroom
  rcases hc with hsame | ⟨hcur, hlive⟩
  · rw [hsame]
    omega
  · subst hcur
    obtain ⟨-, hstart, -, hsum⟩ := (h.bound (Log.busy_of_staged hne)).entry hv
    rw [hlive, u32_of_lt (by omega), hstart]
    omega

/-- What a stop may do to the counts keeps every entry below the counter. -/
theorem Log.Filed.closing {s : Log} (h : s.Filed) {i c : Nat} (hi : i < maxSessions)
    (hv : (s.flash.entries i).Valid) (hc : Closing s i (s.flash.entries i).recCount c) :
    (s.flash.entries i).startRec + c ≤ s.totalAbs ∧ c < 4294967295 := by
  obtain ⟨-, -, hends, hplain⟩ := h.entries i hi hv
  rcases hc with hsame | ⟨hact, hcur, hlive⟩
  · rw [hsame]
    exact ⟨hends, hplain⟩
  · subst hcur
    obtain ⟨-, hstart, -, hsum⟩ := (h.bound (Or.inl hact)).entry hv
    have hcount := h.plain
    rw [hlive, hstart]
    omega

/-- **Cut images are filed.**  Whatever a call leaves in flash after its first access is filed, up
    to where the write head then stands. -/
theorem After.filed {s : Log} {op : Op} {g : Flash} (h : s.Filed) (hroom : Room s op)
    (hg : After s op g) : g.Filed (s.headAfter op) := by
  cases hg.leaves with
  | idle _ => exact h.entries.mono (le_headAfter s op)
  | staged => exact h.entries
  | entered ha => exact h.entries.enter h.next _ _
  | @drained ret _ hne hg =>
    have hbase : ((s.drainWrite ret).effect s.flash).Filed s.totalAbs := by
      intro i hi hv
      rw [drainWrite_entries] at hv ⊢
      exact h.entries i hi hv
    refine hbase.image hg fun i c hi hv hc => ?_
    rw [drainWrite_entries] at hv hc ⊢
    exact h.refreshed hroom hne hi hv hc
  | closed hg => exact h.entries.image hg fun i c hi hv hc => h.closing hi hv hc
  | erased hg => exact h.entries.image hg fun i c hi hv hc => h.closing hi hv hc

/-- **Cut images are in order.** -/
theorem After.ordered {s : Log} {op : Op} {g : Flash} (hf : s.Filed) (h : s.Ordered)
    (hfits : Fits s op) (hg : After s op g) : g.Ordered 4294967295 := by
  have hword := hf.next
  -- only the running session is ever extended, and that is the newest one
  have hcur : ∀ i, s.Busy → (s.flash.entries i).Valid → i = s.curSlot →
      s.seqNext = (s.flash.entries i).seq + 1 := by
    rintro i hb hv rfl
    rw [((hf.bound hb).entry hv).1]
    exact h.newest hb hv
  have hclosing : ∀ i c, i < maxSessions → (s.flash.entries i).Valid →
      Closing s i (s.flash.entries i).recCount c →
      c = (s.flash.entries i).recCount ∨ s.seqNext = (s.flash.entries i).seq + 1 := by
    rintro i c - hv (hsame | ⟨hact, hi, -⟩)
    · exact Or.inl hsame
    · exact Or.inr (hcur i (Or.inl hact) hv hi)
  cases hg.leaves with
  | idle _ => exact h.entries.mono (by omega)
  | staged => exact h.entries.mono (by omega)
  | @entered st ret ha =>
    have hroom : s.seqNext + 1 < 4294967296 := hfits ha
    exact (h.entries.enter hf.entries h.first st ret).mono (by omega)
  | @drained ret _ hne hg =>
    have hbase : ((s.drainWrite ret).effect s.flash).Ordered s.seqNext := by
      refine ⟨?_, ?_⟩
      · rw [drainWrite_entries]; exact h.entries.ids
      · rw [drainWrite_entries]; exact h.entries.ranges
    refine Flash.Ordered.mono (hbase.image hg ?_) (by omega)
    intro i c hi hv hc
    rw [drainWrite_entries] at hv hc ⊢
    rcases hc with hsame | ⟨hi, -⟩
    · exact Or.inl hsame
    · exact Or.inr (hcur i (Log.busy_of_staged hne) hv hi)
  | closed hg => exact (h.entries.image hg hclosing).mono (by omega)
  | erased hg => exact (h.entries.image hg hclosing).mono (by omega)

/-! ## One step -/

theorem appendFold_head (xs : List ImuSample) :
    ∀ s : Log, s.stageHead < 4294967296 → (xs.foldl appendOne s).stageHead < 4294967296 := by
  induction xs with
  | nil => intro s h; exact h
  | cons x xs ih =>
    intro s h
    refine ih _ ?_
    unfold appendOne
    split
    · exact h
    · exact u32_lt _

/-- **Step lemma.**  Every call keeps a filed device filed. -/
theorem exec_filed {s : Log} (h : s.Filed) (op : Op) (hroom : Room s op) :
    (exec s op).Filed := by
  have hout := exec_cases s op
  generalize exec s op = s' at hout
  cases hout with
  | idle _ => exact ⟨h.total, h.next, h.head, h.tail, h.count, h.plain, h.entries,
      fun hb => ⟨(h.bound hb).slot, (h.bound hb).entry⟩, h.running⟩
  | @failed st ret t ha hret =>
    -- nothing is staged and no session runs: the writer has nothing to do
    have hidle : ¬ Log.Busy { s.claimed with trace := t } := Log.not_busy ha rfl
    exact ⟨h.total, u32_lt _, h.head, h.head, Nat.zero_le _, zero_plain, h.entries,
      fun hb => absurd hb hidle, Log.not_active ha⟩
  | @opened st ret t ha hret =>
    have hnew : ((s.entryWrite st ret).effect s.flash).entries (slotOf s.seqNext) =
        newEntry s.seqNext s.totalAbs st := by
      rw [Log.entryWrite, effect_writeEntry_entries hret, if_pos rfl]
    refine ⟨h.total, u32_lt _, h.head, h.head, Nat.zero_le _, zero_plain,
      h.entries.enter h.next st ret, ?_, ?_⟩
    · intro _
      refine ⟨rfl, fun _ => ?_⟩
      show (((s.entryWrite st ret).effect s.flash).entries (slotOf s.seqNext)).seq = s.seqNext ∧
        (((s.entryWrite st ret).effect s.flash).entries (slotOf s.seqNext)).startRec = s.totalAbs ∧
        (((s.entryWrite st ret).effect s.flash).entries (slotOf s.seqNext)).recCount ≤ 0 ∧
        s.totalAbs + 0 = s.totalAbs
      rw [hnew]
      exact ⟨rfl, rfl, Nat.le_refl _, rfl⟩
    · intro _
      show (((s.entryWrite st ret).effect s.flash).entries (slotOf s.seqNext)).Valid
      rw [hnew]
      exact rfl
  | @staged xs t ha =>
    obtain ⟨g, hd, d, hram⟩ := appendFold_ram s xs
    have hhead : hd < 4294967296 := by
      have hlt := appendFold_head xs s h.head
      rwa [hram] at hlt
    rw [hram]
    exact ⟨h.total, h.next, hhead, h.tail, h.count, h.plain, h.entries,
      fun _ => ⟨(h.bound (Or.inl ha)).slot, (h.bound (Or.inl ha)).entry⟩, h.running⟩
  | @wrote ret g t L hne hg hk hL =>
    have hafter : After s (.drain ret) g := by rwa [After, if_neg hne]
    have hfiled := hafter.filed h hroom
    obtain ⟨hT, hC⟩ : s.totalAbs + s.drainCount < 4294967296 ∧
      s.curCount + s.drainCount < 4294967295 := hroom
    have htot : u32 (s.totalAbs + s.drainCount) = s.totalAbs + s.drainCount := u32_of_lt hT
    have hcnt : u32 (s.curCount + s.drainCount) = s.curCount + s.drainCount :=
      u32_of_lt (by omega)
    have hbound := h.bound (Log.busy_of_staged hne)
    have hcount := h.count
    refine ⟨u32_lt _, h.next, h.head, u32_lt _, ?_, ?_, ?_, fun _ => ⟨hbound.slot, ?_⟩, ?_⟩
    · show u32 (s.curCount + s.drainCount) ≤ u32 (s.totalAbs + s.drainCount)
      rw [htot, hcnt]
      omega
    · show u32 (s.curCount + s.drainCount) < 4294967295
      rw [hcnt]
      exact hC
    · show g.Filed (u32 (s.totalAbs + s.drainCount))
      rw [htot]
      exact hfiled
    · intro (hv : (g.entries s.curSlot).Valid)
      have hv0 := hg.1.valid hv
      rw [drainWrite_entries] at hv0
      obtain ⟨hseq, hstart, hrec, hsum⟩ := hbound.entry hv0
      show (g.entries s.curSlot).seq = s.curSeq ∧ (g.entries s.curSlot).startRec = s.curStart ∧
        (g.entries s.curSlot).recCount ≤ u32 (s.curCount + s.drainCount) ∧
        s.curStart + u32 (s.curCount + s.drainCount) = u32 (s.totalAbs + s.drainCount)
      rw [htot, hcnt]
      obtain ⟨c, o, heq, hc⟩ := hg.1 s.curSlot hv
      rw [drainWrite_entries] at heq hc
      rw [heq]
      refine ⟨hseq, hstart, ?_, by omega⟩
      show c ≤ s.curCount + s.drainCount
      rcases hc with hsame | ⟨-, hlive⟩
      · omega
      · omega
    · intro hact
      exact hk hact (h.running hact)
  | @closed g t L ha hg =>
    have hbound := h.bound (Or.inl ha)
    have hafter : After s .stop g := hg
    have hfree : Room s .stop := trivial
    refine ⟨h.total, h.next, h.head, h.tail, h.count, h.plain, hafter.filed h hfree,
      fun _ => ⟨hbound.slot, ?_⟩, ?_⟩
    · intro (hv : (g.entries s.curSlot).Valid)
      obtain ⟨hseq, hstart, hrec, hsum⟩ := hbound.entry (hg.1.valid hv)
      show (g.entries s.curSlot).seq = s.curSeq ∧ (g.entries s.curSlot).startRec = s.curStart ∧
        (g.entries s.curSlot).recCount ≤ s.curCount ∧ s.curStart + s.curCount = s.totalAbs
      obtain ⟨c, o, heq, hc⟩ := hg.1 s.curSlot hv
      rw [heq]
      refine ⟨hseq, hstart, ?_, hsum⟩
      show c ≤ s.curCount
      rcases hc with hsame | ⟨-, -, hlive⟩
      · omega
      · omega
    · exact Log.not_active rfl
  | @wiped g t L d hnone hdata =>
    refine ⟨zero_word, one_word, h.head, h.tail, Nat.le_refl _, zero_plain,
      Flash.Filed.none hnone, ?_, Log.not_active rfl⟩
    rintro (hact | hst)
    · exact Log.not_active rfl hact
    · exact ⟨(h.bound (Or.inr hst)).slot, fun hv => absurd hv (hnone _)⟩

/-- **Step lemma.**  Every call keeps the directory in order. -/
theorem exec_ordered {s : Log} (hf : s.Filed) (h : s.Ordered) (op : Op) (hfits : Fits s op) :
    (exec s op).Ordered := by
  have hout := exec_cases s op
  generalize exec s op = s' at hout
  cases hout with
  | idle _ => exact ⟨h.first, h.entries, h.newest⟩
  -- a start that fails has used up an id
  | failed ha hret =>
    have hnext : u32 (s.seqNext + 1) = s.seqNext + 1 := u32_of_lt (hfits ha)
    refine ⟨?_, ?_, ?_⟩
    · show 1 ≤ u32 (s.seqNext + 1)
      omega
    · show s.flash.Ordered (u32 (s.seqNext + 1))
      rw [hnext]
      exact h.entries.mono (Nat.le_succ _)
    · intro _ _
      exact hnext
  | @opened st ret t ha hret =>
    have hnext : u32 (s.seqNext + 1) = s.seqNext + 1 := u32_of_lt (hfits ha)
    refine ⟨?_, ?_, ?_⟩
    · show 1 ≤ u32 (s.seqNext + 1)
      omega
    · show ((s.entryWrite st ret).effect s.flash).Ordered (u32 (s.seqNext + 1))
      rw [hnext]
      exact h.entries.enter hf.entries h.first st ret
    · intro _ _
      exact hnext
  | @staged xs t ha =>
    obtain ⟨g, hd, d, hram⟩ := appendFold_ram s xs
    rw [hram]
    exact ⟨h.first, h.entries, fun _ => h.newest (Or.inl ha)⟩
  | @wrote ret g t L hne hg hk hL =>
    have hbusy := Log.busy_of_staged hne
    refine ⟨h.first, ?_, ?_⟩
    · have hbase : ((s.drainWrite ret).effect s.flash).Ordered s.seqNext := by
        refine ⟨?_, ?_⟩
        · rw [drainWrite_entries]; exact h.entries.ids
        · rw [drainWrite_entries]; exact h.entries.ranges
      -- the one entry that grows is the newest
      refine hbase.image hg fun i c hi hv hc => ?_
      rw [drainWrite_entries] at hv hc ⊢
      rcases hc with hsame | ⟨hcur, -⟩
      · exact Or.inl hsame
      · right
        subst hcur
        rw [((hf.bound hbusy).entry hv).1]
        exact h.newest hbusy hv
    · intro _ hv
      have hv0 := hg.1.valid hv
      rw [drainWrite_entries] at hv0
      exact h.newest hbusy hv0
  | @closed g t L ha hg =>
    refine ⟨h.first, h.entries.image hg fun i c hi hv hc => ?_,
      fun _ hv => h.newest (Or.inl ha) (hg.1.valid hv)⟩
    rcases hc with hsame | ⟨-, hcur, -⟩
    · exact Or.inl hsame
    · right
      subst hcur
      rw [((hf.bound (Or.inl ha)).entry hv).1]
      exact h.newest (Or.inl ha) hv
  | @wiped g t L d hnone hdata =>
    exact ⟨Nat.le_refl _, Flash.Ordered.none hnone, fun _ hv => absurd hv (hnone _)⟩

/-! ## Booting -/

/-- **A boot restores the invariant**: from a filed directory of this firmware by taking its end
    over, from anything else by wiping. -/
theorem boot_filed {f : Flash} (hf : f.dirMeta = ownMeta → f.Filed 4294967295) :
    (bootLog f).Filed := by
  by_cases hm : f.dirMeta = ownMeta
  · have hfiled := hf hm
    have hplain := hfiled.plainCounts
    obtain ⟨g, t, heq, hre⟩ := bootLog_over hplain hm
    have hend : directoryEnd f ≤ 4294967295 := directoryEnd_le fun i hi hv => (hfiled i hi hv).ends
    rw [heq]
    refine ⟨?_, directoryNext_lt f, zero_word, zero_word, Nat.zero_le _, zero_plain, ?_,
      fun hb => absurd hb (Log.not_busy rfl rfl), Log.not_active rfl⟩
    · show directoryEnd f < 4294967296
      omega
    · refine hfiled.image hre.image fun i c hi hv hc => ?_
      rw [hc]
      exact ⟨le_directoryEnd hi hv, (hfiled i hi hv).plain⟩
  · have hnone := bootLog_foreign_none hm
    rw [bootLog_foreign hm] at hnone ⊢
    exact ⟨zero_word, one_word, zero_word, zero_word, Nat.le_refl _, zero_plain,
      Flash.Filed.none hnone, fun hb => absurd hb (Log.not_busy rfl rfl), Log.not_active rfl⟩

/-- After a boot no session runs and nothing is staged. -/
theorem boot_staging {f : Flash} (hf : f.dirMeta = ownMeta → f.Filed 4294967295) :
    (bootLog f).active = false ∧ (bootLog f).stageHead = (bootLog f).stageTail := by
  by_cases hm : f.dirMeta = ownMeta
  · obtain ⟨⟨g, t, heq⟩, -⟩ := bootLog_own (hf hm).plainCounts hm
    rw [heq]
    exact ⟨rfl, rfl⟩
  · rw [bootLog_foreign hm]
    exact ⟨rfl, rfl⟩

/-- The id a boot continues with is above every listed one. -/
theorem boot_ordered {f : Flash}
    (hf : f.dirMeta = ownMeta → f.Filed 4294967295 ∧ f.Ordered 4294967295) :
    (bootLog f).Ordered := by
  by_cases hm : f.dirMeta = ownMeta
  · obtain ⟨hfiled, hord⟩ := hf hm
    obtain ⟨g, t, heq, hre⟩ := bootLog_over hfiled.plainCounts hm
    obtain ⟨hfirst, -, habove⟩ := directoryNext_spec fun i hi hv => (hord.ids i hi hv).2
    have hnext : f.Ordered (directoryNext f) :=
      ⟨fun i hi hv => ⟨(hord.ids i hi hv).1, habove i hi hv⟩, hord.ranges⟩
    rw [heq]
    exact ⟨hfirst, hnext.reopened hre,
      fun hb => absurd hb (Log.not_busy rfl rfl)⟩
  · have hnone := bootLog_foreign_none hm
    rw [bootLog_foreign hm] at hnone ⊢
    exact ⟨Nat.le_refl _, Flash.Ordered.none hnone, fun _ hv => absurd hv (hnone _)⟩

/-- What a power cut leaves of a boot: the directory up to open flags, or one that no firmware
    trusts, or the freshly wiped one. -/
theorem bootCut_image {f : Flash} (hf : f.dirMeta = ownMeta → PlainCounts f) (k : Nat) :
    Reopened f (replay Ev.effect ((bootLog f).trace.take k) f) ∨
      ((replay Ev.effect ((bootLog f).trace.take k) f).data = f.data ∧
        ∀ i, ¬ ((replay Ev.effect ((bootLog f).trace.take k) f).entries i).Valid) := by
  by_cases hm : f.dirMeta = ownMeta
  · exact Or.inl ((bootLog_own (hf hm) hm).2.cut rfl k)
  · have htr : (bootLog f).trace = [.readMeta, .wipeDir, .writeMeta ownMeta] := by
      rw [bootLog_foreign hm]
      rfl
    rw [htr]
    match k with
    | 0 => exact Or.inl (Reopened.refl f)
    | 1 => exact Or.inl (Reopened.refl f)
    | 2 => exact Or.inr ⟨rfl, fun i => DirEntry.not_valid_erased⟩
    | k + 3 =>
      right
      rw [List.take_of_length_le (by simp)]
      exact ⟨rfl, fun i => DirEntry.not_valid_erased⟩

/-- **Cut boots.**  What a directory of this firmware has, whatever the open flags, and what an empty
    one has, the directory left by a power cut during a boot has too. -/
theorem bootCut_keeps {P : Flash → Prop} {f : Flash} (hf : f.dirMeta = ownMeta → PlainCounts f)
    (h : f.dirMeta = ownMeta → P f) (hre : ∀ g, Reopened f g → P f → P g)
    (hnone : ∀ g : Flash, (∀ i, ¬ (g.entries i).Valid) → P g) (k : Nat)
    (hown : (replay Ev.effect ((bootLog f).trace.take k) f).dirMeta = ownMeta) :
    P (replay Ev.effect ((bootLog f).trace.take k) f) := by
  rcases bootCut_image hf k with hopen | ⟨-, hempty⟩
  · exact hre _ hopen (h (hopen.2.1.symm.trans hown))
  · exact hnone _ hempty

/-! ## Runs -/

/-- A device whose directory is filed: of an unpowered one only a directory that this firmware will
    trust is spoken about. -/
def Device.Filed : Device → Prop
  | .on s _ => s.Filed
  | .off f _ => f.dirMeta = ownMeta → f.Filed 4294967295

/-- A device whose directory is in order. -/
def Device.Ordered : Device → Prop
  | .on s _ => s.Ordered
  | .off f _ => f.dirMeta = ownMeta → f.Ordered 4294967295

theorem device_filed {d d' : Device} {e : Event} (h : d.Filed) (hG : onCall Room d e)
    (hst : DeviceStep d e d') : d'.Filed := by
  cases device_turn hst with
  | call s j o => exact exec_filed (s := s) h o hG
  | uncalled s j o =>
    have hs : s.Filed := h
    have hword := hs.total
    exact fun _ => hs.entries.mono (by omega)
  | cut s j o k =>
    have hs : s.Filed := h
    have hroom : Room s o := hG
    have hword := hs.total
    intro _
    refine ((cutImage_after s o k).filed hs hroom).mono ?_
    cases o with
    | drain ret =>
      have hT := hroom.1
      show s.totalAbs + s.drainCount ≤ _
      omega
    | start | append | stop | erase =>
      show s.totalAbs ≤ _
      omega
  | boot f j => exact boot_filed h
  | bootCut f j k =>
    have hf : f.dirMeta = ownMeta → f.Filed 4294967295 := h
    exact bootCut_keeps (fun hm => (hf hm).plainCounts) hf (fun _ hre hfiled => hfiled.reopened hre)
      (fun _ => Flash.Filed.none) k

theorem device_ordered {d d' : Device} {e : Event} (hf : d.Filed) (h : d.Ordered)
    (hG : onCall Fits d e) (hst : DeviceStep d e d') : d'.Ordered := by
  cases device_turn hst with
  | call s j o => exact exec_ordered (s := s) hf h o hG
  | uncalled s j o =>
    have ho : s.Ordered := h
    have hword := Log.Filed.next hf
    exact fun _ => ho.entries.mono (by omega)
  | cut s j o k => exact fun _ => (cutImage_after s o k).ordered hf h hG
  | boot f j =>
    have hfl : f.dirMeta = ownMeta → f.Filed 4294967295 := hf
    have hord : f.dirMeta = ownMeta → f.Ordered 4294967295 := h
    exact boot_ordered fun hm => ⟨hfl hm, hord hm⟩
  | bootCut f j k =>
    have hfl : f.dirMeta = ownMeta → f.Filed 4294967295 := hf
    have hord : f.dirMeta = ownMeta → f.Ordered 4294967295 := h
    exact bootCut_keeps (fun hm => (hfl hm).plainCounts) hord (fun _ hre ho => ho.reopened hre)
      (fun _ => Flash.Ordered.none) k

/-- **Run lemma.**  In a run whose calls leave the counters room, every device is filed. -/
theorem reach_filed {G : Device → Event → Prop}
    (hG : ∀ d e, d.Filed → G d e → onCall Room d e) {d : Device}
    (h : Reach Fresh (guarded G DeviceStep) d) : d.Filed := by
  refine h.invariant ?_ ?_
  · rintro d ⟨f, rfl, hforeign⟩ hown
    exact absurd hown hforeign
  · rintro d e d' - hd ⟨hg, hst⟩
    exact device_filed hd (hG d e hd hg) hst

/-- **Run lemma.**  And if `seq_next` does not wrap either, every directory is in order. -/
theorem reach_ordered {G : Device → Event → Prop}
    (hG : ∀ d e, d.Filed → G d e → onCall Room d e) (hG' : ∀ d e, G d e → onCall Fits d e)
    {d : Device} (h : Reach Fresh (guarded G DeviceStep) d) : d.Ordered := by
  refine h.invariant ?_ ?_
  · rintro d ⟨f, rfl, hforeign⟩ hown
    exact absurd hown hforeign
  · rintro d e d' hr hd ⟨hg, hst⟩
    exact device_ordered (reach_filed hG hr) hd (hG' d e hg) hst

/-! ## The all-ones count -/

/-- Slots without an entry leave the boot loop's statics and the flash alone. -/
theorem initFold_none (l : List Nat) :
    ∀ s : Log, (∀ i ∈ l, ¬ (s.flash.entries i).Valid) →
      (l.foldl initSlot s).flash = s.flash ∧ (l.foldl initSlot s).totalAbs = s.totalAbs ∧
        (l.foldl initSlot s).active = s.active := by
  induction l with
  | nil => intro s _; exact ⟨rfl, rfl, rfl⟩
  | cons i l ih =>
    intro s hnone
    have hskip : initSlot s i = s.emit (.readEntry i) := if_pos (hnone i (by simp))
    rw [List.foldl_cons, hskip]
    exact ih (s.emit (.readEntry i)) fun k hk => hnone k (by simp [hk])

/-- A boot takes a closed session with an all-ones count for an empty one. -/
theorem boot_all_ones {f : Flash} (hm : f.dirMeta = ownMeta) (hv : (f.entries 0).Valid)
    (hstart : (f.entries 0).startRec = 0) (hones : (f.entries 0).recCount = 0xFFFFFFFF)
    (hclosed : (f.entries 0).isOpen = 0) (hothers : ∀ i, i ≠ 0 → ¬ (f.entries i).Valid) :
    (bootLog f).totalAbs = 0 ∧ (bootLog f).flash = f ∧ (bootLog f).active = false := by
  have hrange : List.range maxSessions = 0 :: List.range' 1 15 := by decide
  have hmend : (f.entries 0).mended = { f.entries 0 with recCount := 0 } := if_pos hones
  have hkeep : closeSlot (((Log.cold f).emit .readMeta).emit (.readEntry 0)) 0
      { f.entries 0 with recCount := 0 } = ((Log.cold f).emit .readMeta).emit (.readEntry 0) :=
    if_neg fun hc => hc hclosed
  have hslot : initSlot ((Log.cold f).emit .readMeta) 0 =
      takeOver (((Log.cold f).emit .readMeta).emit (.readEntry 0))
        { f.entries 0 with recCount := 0 } := by
    have hstep : initSlot ((Log.cold f).emit .readMeta) 0 =
        takeOver (closeSlot (((Log.cold f).emit .readMeta).emit (.readEntry 0)) 0
          (f.entries 0).mended) (f.entries 0).mended := if_neg fun hc => hc hv
    rw [hstep, hmend, hkeep]
  have heq : bootLog f = (List.range' 1 15).foldl initSlot
      (takeOver (((Log.cold f).emit .readMeta).emit (.readEntry 0))
        { f.entries 0 with recCount := 0 }) := by
    have hfold : bootLog f =
        (List.range maxSessions).foldl initSlot ((Log.cold f).emit .readMeta) :=
      if_neg fun hc => hc hm
    rw [hfold, hrange, List.foldl_cons, hslot]
  obtain ⟨hfl, htot, hact⟩ := initFold_none (List.range' 1 15)
    (takeOver (((Log.cold f).emit .readMeta).emit (.readEntry 0))
      { f.entries 0 with recCount := 0 })
    (fun i hi => hothers i (by have := List.mem_range'.mp hi; omega))
  rw [heq]
  refine ⟨htot.trans ?_, hfl, hact⟩
  show (if u32 ((f.entries 0).startRec + 0) > 0 then u32 ((f.entries 0).startRec + 0) else 0) = 0
  rw [hstart]
  rfl

/-! ## The directory representation invariant -/

/-- Every listed session lies in the slot of its id, no id is listed twice, and the ranges follow
    each other in the order of the ids. -/
structure Flash.Directory (f : Flash) : Prop where
  slot : ∀ i, i < maxSessions → (f.entries i).Valid → slotOf (f.entries i).seq = i
  unique : ∀ i k, i < maxSessions → k < maxSessions → (f.entries i).Valid → (f.entries k).Valid →
    (f.entries i).seq = (f.entries k).seq → i = k
  ranges : ∀ i k, i < maxSessions → k < maxSessions → (f.entries i).Valid → (f.entries k).Valid →
    (f.entries i).seq < (f.entries k).seq →
      (f.entries i).startRec + (f.entries i).recCount ≤ (f.entries k).startRec

/-- The directory invariant: of a powered device, also against `seq_next` and `total_abs`, with the
    live count for the running session; of an unpowered one, if its directory will be trusted. -/
def Device.DirectoryOk : Device → Prop
  | .on s _ => s.flash.Directory ∧ ∀ i, i < maxSessions → (s.flash.entries i).Valid →
      (s.flash.entries i).seq < s.seqNext ∧
      (s.flash.entries i).startRec + s.liveCount i ≤ s.totalAbs
  | .off f _ => f.dirMeta = ownMeta → f.Directory

theorem Flash.Filed.directory {f : Flash} {T N : Nat} (h : f.Filed T) (ho : f.Ordered N) :
    f.Directory := by
  refine ⟨fun i hi hv => (h i hi hv).slot, fun i k hi hk hvi hvk heq => ?_, ho.ranges⟩
  rw [← (h i hi hvi).slot, ← (h k hk hvk).slot, heq]

/-- `total_abs` does not wrap in a drain, `cur_count` stays off the all-ones value there, and
    `seq_next` does not wrap in a start. -/
def Unwrapped (s : Log) (o : Op) : Prop := Room s o ∧ Fits s o

/-- **The directory invariant**, in every state of every run with power cuts, failed starts and
    reboots. -/
theorem directory_invariant {d : Device}
    (h : Reach Fresh (guarded (onCall Unwrapped) DeviceStep) d) : d.DirectoryOk := by
  have hroom : ∀ d e, onCall Unwrapped d e → onCall Room d e :=
    fun d e hg => onCall_imp (fun _ _ hu => hu.1) hg
  have hfits : ∀ d e, onCall Unwrapped d e → onCall Fits d e :=
    fun d e hg => onCall_imp (fun _ _ hu => hu.2) hg
  have hfiled := reach_filed (fun d e _ hg => hroom d e hg) h
  have hordered := reach_ordered (fun d e _ hg => hroom d e hg) hfits h
  cases d with
  | on s j =>
    have hf : s.Filed := hfiled
    have ho : s.Ordered := hordered
    refine ⟨hf.entries.directory ho.entries, fun i hi hv => ⟨(ho.entries.ids i hi hv).2, ?_⟩⟩
    unfold Log.liveCount
    split
    · rename_i hrun
      obtain ⟨hact, rfl⟩ := hrun
      obtain ⟨-, hstart, -, hsum⟩ := (hf.bound (Or.inl hact)).entry hv
      omega
    · exact (hf.entries i hi hv).ends
  | off f j => exact fun hown => (hfiled hown).directory (hordered hown)

/-- `total_abs` does not wrap in a drain, and `seq_next` not in a start. -/
def NoWrap (s : Log) (o : Op) : Prop :=
  Fits s o ∧ ∀ ret, o = .drain ret → s.totalAbs + s.drainCount < 4294967296

/-- Up to the last 32-bit value a session of any length is reached without wrapping. -/
theorem logged_noWrap (l : List ImuSample) (hl : l.length ≤ 4294967295) :
    ∃ s j, Reach Fresh (guarded (onCall NoWrap) DeviceStep) (.on s j) ∧ Logged l s j := by
  refine logged_reach (by decide) (fun _ _ => trivial) (fun s j o hw => ?_) l hl
  exact ⟨hw.2.1, fun ret ho => Nat.lt_succ_of_le (hw.2.2 ret ho)⟩

/-- A blank device, booted, with session 1 opened. -/
theorem reach_opened {G : Log → Op → Prop} (hG : G (bootLog Flash.blank) (.start Stamp.zero 0)) :
    Reach Fresh (guarded (onCall G) DeviceStep)
      (.on (exec (bootLog Flash.blank) (.start Stamp.zero 0))
        (Journal.empty.record (bootLog Flash.blank) (.start Stamp.zero 0))) := by
  have hfresh : Reach Fresh (guarded (onCall G) DeviceStep) (.off Flash.blank Journal.empty) :=
    .start ⟨Flash.blank, rfl, by decide⟩
  exact reach_call (reach_boot hfresh) _ hG

/-- A power cut in the middle of a stop, and the boot after it. -/
theorem directory_invariant_after_cut : Device.DirectoryOk
    (.on (bootLog (cutImage (exec (bootLog Flash.blank) (.start Stamp.zero 0)) .stop 1))
      (Journal.empty.record (bootLog Flash.blank) (.start Stamp.zero 0))) := by
  have hstart : Unwrapped (bootLog Flash.blank) (.start Stamp.zero 0) := by
    refine ⟨trivial, fun _ => ?_⟩
    rw [bootLog_foreign (by decide)]
    show 1 + 1 < 4294967296
    decide
  exact directory_invariant (reach_boot (reach_cut (reach_opened hstart) .stop 1
    ⟨trivial, trivial⟩))

/-- **The one session length that is lost.**  With `total_abs` merely kept from wrapping, the
    directory invariant fails: a session of 2^32 - 1 records is closed with the all-ones count, the
    next boot reads that as zero, and `total_abs` restarts below the session's end. -/
theorem sentinel_lost :
    ¬ ∀ d, Reach Fresh (guarded (onCall NoWrap) DeviceStep) d → d.DirectoryOk := by
  intro hall
  obtain ⟨s, j, hr, h⟩ := logged_noWrap (List.replicate 4294967295 default)
    (Nat.le_of_eq (List.length_replicate ..))
  have hfree : ∀ s', NoWrap s' .stop := fun s' => ⟨trivial, fun ret h => by cases h⟩
  obtain ⟨e, he, hv, -, hstart, -⟩ := h.entry
  obtain ⟨hown, hzero, hothers, -⟩ := h.stop
  rw [he, List.length_replicate] at hzero
  obtain ⟨htot, hflash, hact⟩ := boot_all_ones hown (by rw [hzero]; exact hv)
    (by rw [hzero]; exact hstart) (by rw [hzero]) (by rw [hzero])
    (fun i hi => by rw [hothers i hi]; exact h.others i hi)
  have hagain := reach_boot (reach_cut (reach_call hr .stop (hfree s)) .stop 0 (hfree _))
  rw [cutImage_zero] at hagain
  have hend := (hall _ hagain).2 0 (by decide) (by rw [hflash, hzero]; exact hv)
  have hidle : (bootLog (exec s .stop).flash).liveCount 0 =
      ((bootLog (exec s .stop).flash).flash.entries 0).recCount := by
    refine if_neg ?_
    rintro ⟨hrun, -⟩
    exact Log.not_active hact hrun
  have hle := hend.2
  rw [htot, hidle, hflash, hzero] at hle
  have hle' : e.startRec + 4294967295 ≤ 0 := hle
  omega

end Caterpillar.ImuLog
