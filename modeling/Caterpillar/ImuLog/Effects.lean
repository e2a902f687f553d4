/-
  What one log operation can do to the flash and to the statics — said once.

  Every later invariant (the directory invariant, the dump theorem, the power-loss theorem) is
  derived from the lemmas of this file; none of them unfolds an operation again.

  * `Issues P s s'` — going from `s` to `s'` issued accesses all of whose CUT IMAGES satisfy `P`.
    It composes (`Issues.trans`), so an operation is covered access by access, and the same fact
    serves the uncut operation (`Issues.full`) and the power cut in the middle of it.
  * `Evolves R f f'` — the shape every directory update has: an entry that is valid afterwards is
    the entry that was there before, with its count changed as `R` allows and its open flag free.
    Entries only ever disappear otherwise; the one operation that CREATES an entry is
    `imuLogStart`.
  * one equation per operation for the statics (`dirRefreshCurrent_ram`, `writerDrainBatch_eq`, …).
-/
import Caterpillar.ImuLog.Ops

namespace Caterpillar.ImuLog

open Caterpillar.Word Caterpillar.Ring Caterpillar.Runs Caterpillar.Imu

/-! ## Accesses issued between two states -/

/-- The accesses issued between `s` and `s'` leave `P` true at every point a cut can fall. -/
def Issues (P : Flash → Prop) (s s' : Log) : Prop :=
  ∃ t, s'.trace = s.trace ++ t ∧ s'.flash = replay Ev.effect t s.flash ∧
    Along Ev.effect P t s.flash

/-- Changing statics only issues nothing. -/
theorem Issues.ram {P : Flash → Prop} {s s' : Log} (hP : P s.flash) (htr : s'.trace = s.trace)
    (hfl : s'.flash = s.flash) : Issues P s s' :=
  ⟨[], by rw [htr, List.append_nil], hfl, along_nil hP⟩

theorem Issues.emit {P : Flash → Prop} {s : Log} {ev : Ev} (h0 : P s.flash)
    (h1 : P (ev.effect s.flash)) : Issues P s (s.emit ev) :=
  ⟨[ev], rfl, rfl, along_singleton h0 h1⟩

theorem Issues.trans {P : Flash → Prop} {s s' s'' : Log} (h : Issues P s s')
    (h' : Issues P s' s'') : Issues P s s'' := by
  obtain ⟨t, htr, hfl, hal⟩ := h
  obtain ⟨u, hur, hul, hual⟩ := h'
  refine ⟨t ++ u, ?_, ?_, ?_⟩
  · rw [hur, htr, List.append_assoc]
  · rw [hul, hfl, replay_append]
  · exact along_append hal (hfl ▸ hual)

/-- The image after the last access satisfies `P`. -/
theorem Issues.full {P : Flash → Prop} {s s' : Log} (h : Issues P s s') : P s'.flash := by
  obtain ⟨t, -, hfl, hal⟩ := h
  exact hfl ▸ hal.full

/-- The image a cut leaves satisfies `P`. -/
theorem Issues.cut {P : Flash → Prop} {s s' : Log} (h : Issues P s s') (htr : s.trace = [])
    (k : Nat) : P (replay Ev.effect (s'.trace.take k) s.flash) := by
  obtain ⟨t, ht, -, hal⟩ := h
  rw [ht, htr, List.nil_append]
  exact hal k

theorem Issues.mono {P Q : Flash → Prop} {s s' : Log} (h : Issues P s s')
    (hPQ : ∀ f, P f → Q f) : Issues Q s s' := by
  obtain ⟨t, htr, hfl, hal⟩ := h
  exact ⟨t, htr, hfl, hal.mono hPQ⟩

/-- A fold issues what its iterations issue; `Q` is what the iterations keep true of the statics. -/
theorem Issues.foldl {P : Flash → Prop} {Q : Log → Prop} {step : Log → Nat → Log}
    (hstep : ∀ s i, Q s → P s.flash → Issues P s (step s i) ∧ Q (step s i)) (l : List Nat) :
    ∀ s : Log, Q s → P s.flash → Issues P s (l.foldl step s) := by
  induction l with
  | nil => intro s _ hP; exact Issues.ram hP rfl rfl
  | cons i l ih =>
    intro s hQ hP
    obtain ⟨h1, hQ1⟩ := hstep s i hQ hP
    exact h1.trans (ih (step s i) hQ1 h1.full)

/-! ## How directory entries evolve -/

/-- An entry valid in `f'` is the entry of `f` in the same slot, up to its open flag and to a count
    that `R slot old new` allows. -/
def Evolves (R : Nat → Nat → Nat → Prop) (f f' : Flash) : Prop :=
  ∀ i, (f'.entries i).Valid → ∃ c o,
    f'.entries i = { f.entries i with recCount := c, isOpen := o } ∧ R i (f.entries i).recCount c

/-- Counts after a refresh of slot `cur` with `cnt`. -/
def Refreshed (cur cnt : Nat) (i c c' : Nat) : Prop := c' = c ∨ (i = cur ∧ c' = cnt)

/-- Counts after a stop: the running session's entry takes the live count. -/
def Closing (s : Log) (i c c' : Nat) : Prop :=
  c' = c ∨ (s.active = true ∧ i = s.curSlot ∧ c' = s.curCount)

theorem Evolves.refl {R : Nat → Nat → Nat → Prop} (hR : ∀ i c, R i c c) (f : Flash) :
    Evolves R f f :=
  fun i _ => ⟨(f.entries i).recCount, (f.entries i).isOpen, rfl, hR i _⟩

/-- Only the entries matter. -/
theorem Evolves.congr {R : Nat → Nat → Nat → Prop} {f f' g : Flash} (h : Evolves R f f')
    (hg : g.entries = f'.entries) : Evolves R f g := by
  intro i hv
  rw [hg] at hv ⊢
  exact h i hv

/-- An entry that survives was valid before. -/
theorem Evolves.valid {R : Nat → Nat → Nat → Prop} {f f' : Flash} (h : Evolves R f f') {i : Nat}
    (hv : (f'.entries i).Valid) : (f.entries i).Valid := by
  obtain ⟨c, o, heq, -⟩ := h i hv
  have hm : (f'.entries i).magic = (f.entries i).magic := by rw [heq]
  exact hm.symm.trans hv

/-- Writing one slot: the others evolve as they did. -/
theorem Evolves.writeEntry {R : Nat → Nat → Nat → Prop} {f f' : Flash} (h : Evolves R f f')
    {slot : Nat} {e : DirEntry}
    (he : e.Valid → ∃ c o, e = { f.entries slot with recCount := c, isOpen := o } ∧
      R slot (f.entries slot).recCount c) :
    Evolves R f ((Ev.writeEntry slot e 0).effect f') := by
  intro i hv
  rw [effect_writeEntry_entries (by decide)] at hv ⊢
  by_cases hi : i = slot
  · subst hi
    rw [if_pos rfl] at hv ⊢
    exact he hv
  · rw [if_neg hi] at hv ⊢
    exact h i hv

/-- Wiping the directory leaves no entry to speak about. -/
theorem Evolves.of_none {R : Nat → Nat → Nat → Prop} {f f' : Flash}
    (h : ∀ i, ¬ (f'.entries i).Valid) : Evolves R f f' :=
  fun i hv => absurd hv (h i)

/-- The image of `f` with directory evolved along `R` and ring bytes untouched. -/
def Image (R : Nat → Nat → Nat → Prop) (f f' : Flash) : Prop := Evolves R f f' ∧ f'.data = f.data

theorem Image.refl {R : Nat → Nat → Nat → Prop} (hR : ∀ i c, R i c c) (f : Flash) : Image R f f :=
  ⟨Evolves.refl hR f, rfl⟩

theorem Refreshed.refl (cur cnt i c : Nat) : Refreshed cur cnt i c c := Or.inl rfl

theorem Closing.refl (s : Log) (i c : Nat) : Closing s i c c := Or.inl rfl

/-- A wider allowance for the counts allows more images. -/
theorem Image.mono {R R' : Nat → Nat → Nat → Prop} {f g : Flash} (h : Image R f g)
    (hR : ∀ i c c', R i c c' → R' i c c') : Image R' f g := by
  refine ⟨fun i hv => ?_, h.2⟩
  obtain ⟨c, o, heq, hc⟩ := h.1 i hv
  exact ⟨c, o, heq, hR _ _ _ hc⟩

/-! ## `invalidate_consumed` -/

theorem consumeSlot_ram (floor : Nat) (s : Log) (i : Nat) :
    ∃ f t, consumeSlot floor s i = { s with flash := f, trace := t } := by
  unfold consumeSlot
  split
  · exact ⟨s.flash, s.trace, rfl⟩
  · dsimp only
    split
    · exact ⟨_, _, rfl⟩
    · split
      · exact ⟨_, _, rfl⟩
      · exact ⟨_, _, rfl⟩

theorem consumeFold_ram (floor : Nat) (l : List Nat) :
    ∀ s : Log, ∃ f t, l.foldl (consumeSlot floor) s = { s with flash := f, trace := t } := by
  induction l with
  | nil => intro s; exact ⟨s.flash, s.trace, rfl⟩
  | cons i l ih =>
    intro s
    obtain ⟨f, t, h1⟩ := consumeSlot_ram floor s i
    obtain ⟨f', t', h2⟩ := ih (consumeSlot floor s i)
    rw [List.foldl_cons, h2, h1]
    exact ⟨f', t', rfl⟩

/-- `invalidate_consumed` touches no static. -/
theorem invalidateConsumed_ram (s : Log) :
    ∃ f t, invalidateConsumed s = { s with flash := f, trace := t } :=
  consumeFold_ram s.ringFloor (List.range maxSessions) s

theorem consumeSlot_issues {R : Nat → Nat → Nat → Prop} {f : Flash} (floor : Nat) (s : Log)
    (i : Nat) (h : Image R f s.flash) : Issues (Image R f) s (consumeSlot floor s i) := by
  unfold consumeSlot
  split
  · exact Issues.ram h rfl rfl
  · dsimp only
    have hread : Issues (Image R f) s (s.emit (.readEntry i)) := Issues.emit h h
    split
    · exact hread
    · split
      · -- the entry goes: an invalid entry never has to be accounted for
        have hinv : Image R f ((Ev.writeEntry i DirEntry.invalid 0).effect s.flash) :=
          ⟨h.1.writeEntry fun hv => absurd hv DirEntry.not_valid_invalid,
            (effect_writeEntry_data i _ 0 _).trans h.2⟩
        have hwr : Issues (Image R f) (s.emit (.readEntry i))
            (entryInvalidate (s.emit (.readEntry i)) i) := Issues.emit h hinv
        have hmsg : Issues (Image R f) (entryInvalidate (s.emit (.readEntry i)) i)
            ((entryInvalidate (s.emit (.readEntry i)) i).emit
              (.msg (.removed (s.flash.entries i).seq s.curSeq))) := Issues.emit hinv hinv
        exact hread.trans (hwr.trans hmsg)
      · exact hread

/-- `invalidate_consumed` only removes entries. -/
theorem invalidateConsumed_issues {R : Nat → Nat → Nat → Prop} {f : Flash} (s : Log)
    (h : Image R f s.flash) : Issues (Image R f) s (invalidateConsumed s) :=
  @Issues.foldl (Image R f) (fun _ => True) _
    (fun s' i _ hs => ⟨consumeSlot_issues _ s' i hs, trivial⟩) _ s trivial h

/-- **What outlives the removal of every other entry** outlives `invalidate_consumed`. -/
theorem invalidateConsumed_spares {P : Flash → Prop} (s : Log) (hact : s.active = true)
    (hP : ∀ f i, i ≠ s.curSlot → P f → P ((Ev.writeEntry i DirEntry.invalid 0).effect f))
    (h : P s.flash) : Issues P s (invalidateConsumed s) := by
  refine Issues.foldl (fun s' i (hQ : s'.active = true ∧ s'.curSlot = s.curSlot) hs' => ?_) _ s
    ⟨hact, rfl⟩ h
  obtain ⟨g, t, hram⟩ := consumeSlot_ram s.ringFloor s' i
  refine ⟨?_, by rw [hram]; exact hQ⟩
  by_cases hi : i = s.curSlot
  · have hskip : consumeSlot s.ringFloor s' i = s' := if_pos ⟨hQ.1, by rw [hQ.2]; exact hi⟩
    rw [hskip]
    exact Issues.ram hs' rfl rfl
  · unfold consumeSlot
    rw [if_neg (fun hc => hi (hc.2.trans hQ.2))]
    dsimp only
    have hread : Issues P s' (s'.emit (.readEntry i)) := Issues.emit hs' hs'
    split
    · exact hread
    · split
      · -- another slot is rewritten
        have hinv : P ((Ev.writeEntry i DirEntry.invalid 0).effect s'.flash) := hP _ i hi hs'
        have hwr : Issues P (s'.emit (.readEntry i)) (entryInvalidate (s'.emit (.readEntry i)) i) :=
          Issues.emit hs' hinv
        have hmsg : Issues P (entryInvalidate (s'.emit (.readEntry i)) i)
            ((entryInvalidate (s'.emit (.readEntry i)) i).emit
              (.msg (.removed (s'.flash.entries i).seq s'.curSeq))) := Issues.emit hinv hinv
        exact hread.trans (hwr.trans hmsg)
      · exact hread

/-- The running session's entry is never removed. -/
theorem invalidateConsumed_keeps (s : Log) (hact : s.active = true)
    (hv : (s.flash.entries s.curSlot).Valid) :
    ((invalidateConsumed s).flash.entries s.curSlot).Valid := by
  refine (invalidateConsumed_spares (P := fun f => (f.entries s.curSlot).Valid) s hact ?_ hv).full
  intro f i hi hf
  rw [effect_writeEntry_entries (by decide), if_neg hi.symm]
  exact hf

/-- An entry whose data is all there stays. -/
theorem consumeSlot_entry (floor : Nat) (s : Log) (i : Nat) {k : Nat}
    (h : ¬ (s.flash.entries k).startRec < floor) :
    (consumeSlot floor s i).flash.entries k = s.flash.entries k := by
  unfold consumeSlot
  split
  · rfl
  · dsimp only
    split
    · rfl
    · split
      · rename_i hgone
        have hne : k ≠ i := by
          rintro rfl
          exact h hgone
        exact (@effect_writeEntry_entries 0 (by decide) _ _ _ k).trans (if_neg hne)
      · rfl

theorem consumeFold_entry (floor : Nat) (l : List Nat) {k : Nat} :
    ∀ s : Log, ¬ (s.flash.entries k).startRec < floor →
      (l.foldl (consumeSlot floor) s).flash.entries k = s.flash.entries k := by
  induction l with
  | nil => exact fun _ _ => rfl
  | cons i l ih =>
    intro s h
    have hstep := consumeSlot_entry floor s i h
    rw [List.foldl_cons, ih _ (by rw [hstep]; exact h), hstep]

/-- With nothing but the running session in the directory there is nothing to remove. -/
theorem consumeFold_none (floor : Nat) (l : List Nat) :
    ∀ s : Log, s.active = true → (∀ i, i ≠ s.curSlot → ¬ (s.flash.entries i).Valid) →
      (l.foldl (consumeSlot floor) s).flash = s.flash := by
  induction l with
  | nil => intro s _ _; rfl
  | cons i l ih =>
    intro s hact hnone
    have hstep : consumeSlot floor s i = s ∨
        consumeSlot floor s i = s.emit (.readEntry i) := by
      unfold consumeSlot
      by_cases hi : i = s.curSlot
      · exact Or.inl (if_pos ⟨hact, hi⟩)
      · right
        rw [if_neg (fun hc => hi hc.2)]
        dsimp only
        rw [if_pos (hnone i hi)]
    rw [List.foldl_cons]
    rcases hstep with h | h
    · rw [h]; exact ih s hact hnone
    · rw [h]; exact ih (s.emit (.readEntry i)) hact hnone

/-! ## `dir_refresh_current` -/

/-- `dir_refresh_current` touches no static but `last_dir_refresh`. -/
theorem dirRefreshCurrent_ram (s : Log) (closing : Bool) :
    ∃ f t L, dirRefreshCurrent s closing = { s with flash := f, trace := t, lastDirRefresh := L } ∧
      (L = s.lastDirRefresh ∨ L = s.curCount) := by
  unfold dirRefreshCurrent
  dsimp only
  split
  · exact ⟨_, _, s.lastDirRefresh, rfl, Or.inl rfl⟩
  · exact ⟨_, _, s.curCount, rfl, Or.inr rfl⟩

/-- With the running session's entry in place, it is rewritten with the live count. -/
theorem dirRefreshCurrent_eq (s : Log) (closing : Bool)
    (hv : (s.flash.entries s.curSlot).Valid) :
    dirRefreshCurrent s closing =
      { (s.emit (.readEntry s.curSlot)).emit (.writeEntry s.curSlot
          { s.flash.entries s.curSlot with
            recCount := s.curCount, isOpen := if closing then 0 else 1 } 0) with
        lastDirRefresh := s.curCount } := by
  unfold dirRefreshCurrent
  dsimp only
  rw [if_neg (fun h => h hv)]
  rfl

/-- `dir_refresh_current` changes the count of the running session's slot, if it is in use. -/
theorem dirRefreshCurrent_issues {f : Flash} (s : Log) (closing : Bool)
    (h : Image (Refreshed s.curSlot s.curCount) f s.flash) :
    Issues (Image (Refreshed s.curSlot s.curCount) f) s (dirRefreshCurrent s closing) := by
  have hread : Issues (Image (Refreshed s.curSlot s.curCount) f) s
      (s.emit (.readEntry s.curSlot)) := Issues.emit h h
  by_cases hv : (s.flash.entries s.curSlot).Valid
  · rw [dirRefreshCurrent_eq s closing hv]
    obtain ⟨c, o, heq, -⟩ := h.1 s.curSlot hv
    have hwr : Image (Refreshed s.curSlot s.curCount) f
        ((Ev.writeEntry s.curSlot { s.flash.entries s.curSlot with
          recCount := s.curCount, isOpen := if closing then 0 else 1 } 0).effect s.flash) := by
      refine ⟨h.1.writeEntry fun _ => ⟨s.curCount, if closing then 0 else 1, ?_, Or.inr ⟨rfl, rfl⟩⟩,
        (effect_writeEntry_data _ _ _ _).trans h.2⟩
      rw [heq]
    exact (hread.trans (Issues.emit h hwr)).trans (Issues.ram hwr rfl rfl)
  · have hskip : dirRefreshCurrent s closing = s.emit (.readEntry s.curSlot) := by
      unfold dirRefreshCurrent
      exact if_pos hv
    rw [hskip]
    exact hread

/-- A refreshed entry stays valid. -/
theorem dirRefreshCurrent_keeps (s : Log) (closing : Bool)
    (hv : (s.flash.entries s.curSlot).Valid) :
    ((dirRefreshCurrent s closing).flash.entries s.curSlot).Valid := by
  rw [dirRefreshCurrent_eq s closing hv]
  show (((Ev.writeEntry s.curSlot _ 0).effect s.flash).entries s.curSlot).Valid
  rw [effect_writeEntry_entries (by decide), if_pos rfl]
  exact hv

/-! ## `writer_drain_batch` -/

/-- Nothing staged, nothing done. -/
theorem writerDrainBatch_empty (s : Log) (ret : Int)
    (h : u32Sub s.stageHead s.stageTail = 0) : writerDrainBatch s ret = s := by
  unfold writerDrainBatch
  dsimp only
  rw [h, if_pos (by decide)]

theorem drainCount_pos (s : Log) (h : u32Sub s.stageHead s.stageTail ≠ 0) : 0 < s.drainCount := by
  have hpos : s.totalAbs % recCapacity < recCapacity := Nat.mod_lt _ (by decide)
  unfold Log.drainCount
  rw [batchRecs_eq]
  omega

theorem drainCount_le_staged (s : Log) : s.drainCount ≤ u32Sub s.stageHead s.stageTail := by
  unfold Log.drainCount
  omega

/-- The batch never crosses the physical end of the ring. -/
theorem drainCount_fits (s : Log) : s.totalAbs % recCapacity + s.drainCount ≤ recCapacity := by
  have hpos : s.totalAbs % recCapacity < recCapacity := Nat.mod_lt _ (by decide)
  unfold Log.drainCount
  omega

theorem drainCount_le_batch (s : Log) : s.drainCount ≤ 256 := by
  unfold Log.drainCount
  rw [batchRecs_eq]
  omega

@[simp] theorem stagedBatch_length (s : Log) (n : Nat) : (s.stagedBatch n).length = n := by
  simp only [Log.stagedBatch, List.length_map, List.length_range]

/-- The data write of a drain. -/
def Log.drainWrite (s : Log) (ret : Int) : Ev :=
  .writeData (s.totalAbs % recCapacity * recSize) (recordBytes (s.stagedBatch s.drainCount)) ret

/-- The data write of a drain leaves the directory alone. -/
theorem drainWrite_entries (s : Log) (ret : Int) :
    ((s.drainWrite ret).effect s.flash).entries = s.flash.entries :=
  effect_writeData_entries _ _ ret s.flash

/-- The data write of a drain leaves the stamp alone. -/
theorem drainWrite_dirMeta (s : Log) (ret : Int) :
    ((s.drainWrite ret).effect s.flash).dirMeta = s.flash.dirMeta := by
  unfold Log.drainWrite
  simp only [Ev.effect]
  split
  · rfl
  · rfl

/-- The statics right after the data write. -/
def Log.drained (s : Log) (ret : Int) : Log :=
  { s.emit (s.drainWrite ret) with
    stageTail := u32 (s.stageTail + s.drainCount)
    totalAbs := u32 (s.totalAbs + s.drainCount)
    curCount := u32 (s.curCount + s.drainCount) }

/-- A drain with something staged: the data write, the counters, and a refresh of the directory once
    `DIR_REFRESH_RECS` records went unaccounted. -/
theorem writerDrainBatch_eq (s : Log) (ret : Int) (h : u32Sub s.stageHead s.stageTail ≠ 0) :
    writerDrainBatch s ret =
      if u32Sub (u32 (s.curCount + s.drainCount)) s.lastDirRefresh ≥ dirRefreshRecs then
        invalidateConsumed (dirRefreshCurrent (s.drained ret) false)
      else s.drained ret := by
  unfold writerDrainBatch
  dsimp only
  rw [if_neg (by rw [batchRecs_eq]; omega)]
  rfl

/-- **What a drain can do to the statics.** -/
theorem writerDrainBatch_ram (s : Log) (ret : Int) (h : u32Sub s.stageHead s.stageTail ≠ 0) :
    ∃ f t L, writerDrainBatch s ret = { s.drained ret with
        flash := f, trace := t, lastDirRefresh := L } ∧
      (L = s.lastDirRefresh ∨ L = u32 (s.curCount + s.drainCount)) := by
  rw [writerDrainBatch_eq s ret h]
  split
  · obtain ⟨f, t, L, h1, hL⟩ := dirRefreshCurrent_ram (s.drained ret) false
    obtain ⟨f', t', h2⟩ := invalidateConsumed_ram (dirRefreshCurrent (s.drained ret) false)
    refine ⟨f', t', L, ?_, hL⟩
    rw [h2, h1]
  · exact ⟨_, _, s.lastDirRefresh, rfl, Or.inl rfl⟩

/-- The entry of another session stays as long as none of its records is overwritten. -/
theorem writerDrainBatch_entry (s : Log) (ret : Int) {k : Nat} (hk : k ≠ s.curSlot)
    (hroom : s.totalAbs + s.drainCount < 4294967296)
    (h : s.totalAbs + s.drainCount ≤ (s.flash.entries k).startRec + recCapacity) :
    (writerDrainBatch s ret).flash.entries k = s.flash.entries k := by
  by_cases hne : u32Sub s.stageHead s.stageTail = 0
  · rw [writerDrainBatch_empty s ret hne]
  · have hdrained : (s.drained ret).flash.entries k = s.flash.entries k :=
      congrFun (drainWrite_entries s ret) k
    rw [writerDrainBatch_eq s ret hne]
    split
    · have hrefresh : (dirRefreshCurrent (s.drained ret) false).flash.entries k =
          s.flash.entries k := by
        unfold dirRefreshCurrent
        dsimp only
        split
        · exact hdrained
        · exact (@effect_writeEntry_entries 0 (by decide) _ _ _ k).trans
            ((if_neg hk).trans hdrained)
      obtain ⟨f, t, L, hram, -⟩ := dirRefreshCurrent_ram (s.drained ret) false
      have htotal : (dirRefreshCurrent (s.drained ret) false).totalAbs =
          s.totalAbs + s.drainCount := by
        rw [hram]
        exact u32_of_lt hroom
      refine (consumeFold_entry _ _ _ ?_).trans hrefresh
      rw [hrefresh]
      unfold Log.ringFloor
      rw [htotal]
      split
      · omega
      · exact Nat.not_lt_zero _
    · exact hdrained

/-- **What a drain can do to the flash**: the data write, and from there on directory updates that
    count the running session up to its new length. -/
theorem writerDrainBatch_issues (s : Log) (ret : Int)
    (h : u32Sub s.stageHead s.stageTail ≠ 0) :
    Issues (Image (Refreshed s.curSlot (u32 (s.curCount + s.drainCount)))
        ((s.drainWrite ret).effect s.flash))
      (s.emit (s.drainWrite ret)) (writerDrainBatch s ret) := by
  have h0 : Image (Refreshed s.curSlot (u32 (s.curCount + s.drainCount)))
      ((s.drainWrite ret).effect s.flash) (s.drained ret).flash :=
    Image.refl (Refreshed.refl _ _) _
  have hdr : Issues (Image (Refreshed s.curSlot (u32 (s.curCount + s.drainCount)))
      ((s.drainWrite ret).effect s.flash)) (s.emit (s.drainWrite ret)) (s.drained ret) :=
    Issues.ram h0 rfl rfl
  rw [writerDrainBatch_eq s ret h]
  split
  · have hrf := dirRefreshCurrent_issues (s.drained ret) false h0
    exact hdr.trans (hrf.trans (invalidateConsumed_issues _ hrf.full))
  · exact hdr

/-- The running session's entry survives its own drains. -/
theorem writerDrainBatch_keeps (s : Log) (ret : Int) (hact : s.active = true)
    (hv : (s.flash.entries s.curSlot).Valid) :
    ((writerDrainBatch s ret).flash.entries s.curSlot).Valid := by
  by_cases h : u32Sub s.stageHead s.stageTail = 0
  · rw [writerDrainBatch_empty s ret h]
    exact hv
  · have hd : ((s.drained ret).flash.entries s.curSlot).Valid := by
      show (((s.drainWrite ret).effect s.flash).entries s.curSlot).Valid
      rw [Log.drainWrite, effect_writeData_entries]
      exact hv
    rw [writerDrainBatch_eq s ret h]
    split
    · obtain ⟨f, t, L, hram, -⟩ := dirRefreshCurrent_ram (s.drained ret) false
      have hk := dirRefreshCurrent_keeps (s.drained ret) false hd
      rw [hram] at hk ⊢
      exact invalidateConsumed_keeps _ hact hk
    · exact hd

/-! ## `imu_log_stop`, `imu_log_erase` -/

/-- **What a stop can do to the statics.** -/
theorem stopClose_ram (s : Log) (h : s.active = true) :
    ∃ f t L, stopClose s = { s with
        active := false, sessionDetached := false, flash := f, trace := t, lastDirRefresh := L } ∧
      (L = s.lastDirRefresh ∨ L = s.curCount) := by
  unfold stopClose
  rw [if_pos h]
  obtain ⟨f, t, L, h1, hL⟩ :=
    dirRefreshCurrent_ram { s with active := false, sessionDetached := false } true
  exact ⟨f, t, L, h1, hL⟩

theorem stopClose_inactive (s : Log) (h : s.active = false) : stopClose s = s := by
  unfold stopClose
  rw [if_neg (by rw [h]; decide)]

/-- **What a stop can do to the flash.** -/
theorem stopClose_issues (s : Log) :
    Issues (Image (Closing s) s.flash) s (stopClose s) := by
  have h0 : Image (Closing s) s.flash s.flash := Image.refl (Closing.refl s) _
  unfold stopClose
  split
  · rename_i ha
    have hclose := dirRefreshCurrent_issues { s with active := false, sessionDetached := false }
      true (Image.refl (Refreshed.refl s.curSlot s.curCount) s.flash)
    refine (Issues.ram h0 rfl rfl).trans (hclose.mono fun g hg => hg.mono ?_)
    rintro i c c' (hc | ⟨hi, hc⟩)
    · exact Or.inl hc
    · exact Or.inr ⟨ha, hi, hc⟩
  · exact Issues.ram h0 rfl rfl

/-- The wipe leaves no valid entry. -/
theorem dirWipe_none (s : Log) (i : Nat) : ¬ ((dirWipeAndStamp s).flash.entries i).Valid :=
  DirEntry.not_valid_erased

/-- The two writes of the wipe: entries go, ring bytes stay. -/
theorem dirWipe_issues {R : Nat → Nat → Nat → Prop} {f : Flash} (s : Log)
    (h : Image R f s.flash) : Issues (Image R f) s (dirWipeAndStamp s) := by
  have h1 : Image R f (Ev.wipeDir.effect s.flash) :=
    ⟨Evolves.of_none fun _ => DirEntry.not_valid_erased, h.2⟩
  have h2 : Image R f ((Ev.writeMeta ownMeta).effect (Ev.wipeDir.effect s.flash)) :=
    ⟨Evolves.of_none fun _ => DirEntry.not_valid_erased, h.2⟩
  exact (Issues.emit h h1).trans (Issues.emit h1 h2)

/-- **What an erase can do to the flash.** -/
theorem imuLogErase_issues (s : Log) :
    Issues (Image (Closing s) s.flash) s (imuLogErase s) := by
  have hstop := stopClose_issues s
  have hwipe := dirWipe_issues (stopClose s) hstop.full
  exact hstop.trans (hwipe.trans (Issues.ram hwipe.full rfl rfl))

theorem imuLogErase_none (s : Log) (i : Nat) : ¬ ((imuLogErase s).flash.entries i).Valid :=
  DirEntry.not_valid_erased

/-- **What an erase can do to the statics.** -/
theorem imuLogErase_ram (s : Log) :
    ∃ f t L, imuLogErase s = { s with
      active := false
      sessionDetached := if s.active then false else s.sessionDetached
      totalAbs := 0, seqNext := 1, curCount := 0, flash := f, trace := t, lastDirRefresh := L } := by
  by_cases ha : s.active = true
  · obtain ⟨f, t, L, h1, -⟩ := stopClose_ram s ha
    refine ⟨(imuLogErase s).flash, (imuLogErase s).trace, L, ?_⟩
    unfold imuLogErase imuLogStop eraseWipe
    rw [h1, if_pos ha]
    rfl
  · have hf : s.active = false := by simpa using ha
    refine ⟨(imuLogErase s).flash, (imuLogErase s).trace, s.lastDirRefresh, ?_⟩
    unfold imuLogErase imuLogStop eraseWipe
    rw [stopClose_inactive s hf, if_neg ha, ← hf]
    rfl

/-! ## `imu_log_append` -/

theorem appendOne_ram (s : Log) (x : ImuSample) :
    ∃ g h d, appendOne s x = { s with stage := g, stageHead := h, logDropped := d } := by
  unfold appendOne
  split
  · exact ⟨_, _, _, rfl⟩
  · exact ⟨_, _, _, rfl⟩

/-- `imu_log_append` touches the staging ring and the drop counter only. -/
theorem imuLogAppend_ram (s : Log) (xs : List ImuSample) :
    ∃ g h d, imuLogAppend s xs = { s with stage := g, stageHead := h, logDropped := d } := by
  unfold imuLogAppend
  split
  · induction xs generalizing s with
    | nil => exact ⟨_, _, _, rfl⟩
    | cons x xs ih =>
      obtain ⟨g, h, d, h1⟩ := appendOne_ram s x
      obtain ⟨g', h', d', h2⟩ := ih (appendOne s x) (by rw [h1]; assumption)
      rw [List.foldl_cons, h2, h1]
      exact ⟨g', h', d', rfl⟩
  · exact ⟨_, _, _, rfl⟩

theorem imuLogAppend_inactive (s : Log) (xs : List ImuSample) (h : s.active = false) :
    imuLogAppend s xs = s := by
  unfold imuLogAppend
  rw [if_neg (by rw [h]; decide)]

/-! ## `imu_log_start` -/

/-- The statics once `imu_log_start` has claimed the next session id. -/
def Log.claimed (s : Log) : Log :=
  { s with
    curSeq := s.seqNext
    seqNext := u32 (s.seqNext + 1)
    curSlot := slotOf s.seqNext
    curStart := s.totalAbs
    curCount := 0
    lastDirRefresh := 0
    stageTail := s.stageHead
    logDropped := 0 }

theorem imuLogStart_busy (s : Log) (st : Stamp) (ret : Int) (h : s.active = true) :
    imuLogStart s st ret = (s, eBusy) := by
  unfold imuLogStart
  rw [if_pos h]

/-- A start whose entry write fails: the id is spent, no session opens. -/
theorem imuLogStart_fail (s : Log) (st : Stamp) {ret : Int} (h : s.active = false)
    (hret : ret < 0) :
    imuLogStart s st ret = (s.claimed.emit (.writeEntry (slotOf s.seqNext)
      (newEntry s.seqNext s.totalAbs st) ret), ret) := by
  unfold imuLogStart
  rw [if_neg (by rw [h]; decide)]
  dsimp only
  rw [if_pos hret]
  rfl

/-- A start whose entry write succeeds opens the session. -/
theorem imuLogStart_ok (s : Log) (st : Stamp) {ret : Int} (h : s.active = false)
    (hret : ¬ ret < 0) :
    imuLogStart s st ret = ({ s.claimed.emit (.writeEntry (slotOf s.seqNext)
      (newEntry s.seqNext s.totalAbs st) ret) with active := true }, 0) := by
  unfold imuLogStart
  rw [if_neg (by rw [h]; decide)]
  dsimp only
  rw [if_neg hret]
  rfl

/-! ## The two flags

What other parts of the firmware read of the log is `active` and `session_detached`; only a start, a
stop and a mark change them. -/

/-- `active` and `session_detached`. -/
def Log.flags (s : Log) : Bool × Bool := (s.active, s.sessionDetached)

theorem Log.flags_eq {s s' : Log} (h : s'.flags = s.flags) :
    s'.active = s.active ∧ s'.sessionDetached = s.sessionDetached :=
  ⟨congrArg Prod.fst h, congrArg Prod.snd h⟩

@[simp] theorem flags_emit (s : Log) (ev : Ev) : (s.emit ev).flags = s.flags := rfl

/-- **What a boot can do to the statics.** -/
theorem imuLogInit_ram (s : Log) :
    ∃ f t T n, imuLogInit s = { s with flash := f, trace := t, totalAbs := T, seqNext := n } := by
  have hslot : ∀ (s : Log) (i : Nat), ∃ f t T n,
      initSlot s i = { s with flash := f, trace := t, totalAbs := T, seqNext := n } := by
    intro s i
    unfold initSlot
    dsimp only
    split
    · exact ⟨_, _, s.totalAbs, s.seqNext, rfl⟩
    · unfold closeSlot
      split
      · exact ⟨_, _, _, _, rfl⟩
      · exact ⟨_, _, _, _, rfl⟩
  have hfold : ∀ (l : List Nat) (s : Log), ∃ f t T n,
      l.foldl initSlot s = { s with flash := f, trace := t, totalAbs := T, seqNext := n } := by
    intro l
    induction l with
    | nil => exact fun s => ⟨s.flash, s.trace, s.totalAbs, s.seqNext, rfl⟩
    | cons i l ih =>
      intro s
      obtain ⟨f, t, T, n, h1⟩ := hslot s i
      obtain ⟨f', t', T', n', h2⟩ := ih (initSlot s i)
      refine ⟨f', t', T', n', ?_⟩
      rw [List.foldl_cons, h2, h1]
  unfold imuLogInit
  dsimp only
  split
  · exact ⟨_, _, s.totalAbs, s.seqNext, rfl⟩
  · exact hfold _ _

theorem imuLogInit_flags (s : Log) : (imuLogInit s).flags = s.flags := by
  obtain ⟨f, t, T, n, h⟩ := imuLogInit_ram s
  rw [h]
  rfl

theorem writerDrainBatch_flags (s : Log) (ret : Int) : (writerDrainBatch s ret).flags = s.flags := by
  by_cases h : u32Sub s.stageHead s.stageTail = 0
  · rw [writerDrainBatch_empty s ret h]
  · obtain ⟨f, t, L, hram, -⟩ := writerDrainBatch_ram s ret h
    rw [hram]
    rfl

theorem imuLogAppend_flags (s : Log) (xs : List ImuSample) : (imuLogAppend s xs).flags = s.flags := by
  obtain ⟨g, h, d, hram⟩ := imuLogAppend_ram s xs
  rw [hram]
  rfl

/-- A stop clears both flags of an active session, and leaves a stale one alone. -/
theorem stopClose_flags (s : Log) :
    (stopClose s).flags = if s.active then (false, false) else s.flags := by
  cases ha : s.active with
  | true =>
    obtain ⟨f, t, L, hram, -⟩ := stopClose_ram s ha
    rw [hram]
    rfl
  | false =>
    rw [stopClose_inactive s ha]
    rfl

theorem eraseWipe_flags (s : Log) : (eraseWipe s).flags = s.flags := rfl

/-- A start either opens a session or changes no flag; its result says which. -/
theorem imuLogStart_flags (s : Log) (st : Stamp) (ret : Int) :
    (s.active = false ∧ ¬ ret < 0 ∧ (imuLogStart s st ret).2 = 0 ∧
        (imuLogStart s st ret).1.flags = (true, s.sessionDetached)) ∨
      ((imuLogStart s st ret).2 ≠ 0 ∧ (imuLogStart s st ret).1.flags = s.flags) := by
  cases ha : s.active with
  | true =>
    rw [imuLogStart_busy s st ret ha]
    exact Or.inr ⟨by show eBusy ≠ 0; decide, rfl⟩
  | false =>
    by_cases hret : ret < 0
    · rw [imuLogStart_fail s st ha hret]
      exact Or.inr ⟨by show ret ≠ 0; omega, rfl⟩
    · rw [imuLogStart_ok s st ha hret]
      exact Or.inl ⟨rfl, hret, rfl, rfl⟩

end Caterpillar.ImuLog
