/-
  The staging ring over the whole range of its counters (src/imu/imu_log.c).

  "SPSC staging ring: producer = pump (imu_log_append), consumer = writer thread."

  1. **The queue.**  A `Staging` is a log with a session running, and beside it the records that were
     accepted and the ones that were drained.  It is `Ordered` if the accepted ones are the drained
     ones followed by the staged ones.
  2. `append_ring`, `drain_ring` — what a block and a drain do to the ring, wherever the counters
     are: as many records are accepted as there is room for, and a drain takes at least one.
  3. **At the wrap.**  The ring has 1536 slots and 2^32 is 1024 more than a multiple of that, so
     across the wrap two records 1024 apart are staged in one slot (`pending_meet`).
  4. `staging_fifo` — the queue stays ordered as long as every block `Fits`, and that is exactly what
     it takes; `staging_overwrites` is a run in which the 1025th staged record replaces the first.
-/
import Caterpillar.ImuLog.PowerLoss

namespace Caterpillar.ImuLog

open Caterpillar.Word Caterpillar.Ring Caterpillar.Runs Caterpillar.Imu

/-! ## The queue -/

/-- A log, what its staging ring accepted and what was drained from it. -/
structure Staging where
  log : Log
  taken : List ImuSample
  drained : List ImuSample

/-- A turn of the pump or of the writer thread; `ret` is what the data write returns. -/
inductive Handoff where
  | append (xs : List ImuSample)
  | drain (ret : Int)

/-- `imu_log_append` and `writer_drain_batch`. -/
def Staging.turn (t : Staging) : Handoff → Staging
  | .append xs => ⟨imuLogAppend t.log xs, t.taken ++ accepted t.log xs, t.drained⟩
  | .drain ret =>
      ⟨writerDrainBatch t.log ret, t.taken, t.drained ++ t.log.stagedBatch t.log.drainCount⟩

/-- A session is running and nothing is staged; the counters may be anywhere. -/
structure Staging.Start (t : Staging) : Prop where
  active : t.log.active = true
  even : t.log.stageHead = t.log.stageTail
  word : t.log.stageHead < 4294967296
  taken : t.taken = []
  drained : t.drained = []

def StagingStep (t : Staging) (e : Handoff) (t' : Staging) : Prop := t' = t.turn e

/-- The accepted records are the drained ones and the staged ones, in order. -/
def Staging.Ordered (t : Staging) : Prop := t.taken = t.drained ++ t.log.pending

/-- What a block of `n` records fills the ring up to does not reach over the wrap, or is at most
    1024 records. -/
def Staging.Fits (t : Staging) (n : Nat) : Prop :=
  t.log.stageTail + min stageN (t.log.staged + n) ≤ 4294967296 ∨
    min stageN (t.log.staged + n) ≤ 1024

/-- The guard of a run: every block fits. -/
def fitting (t : Staging) : Handoff → Prop
  | .append xs => t.Fits xs.length
  | .drain _ => True

/-- What holds of the ring whatever the counters are: it is never over-full, it refuses a record
    exactly if it is full, and a drain takes at least one record from it. -/
structure Staging.Bounded (t : Staging) : Prop where
  level : t.log.staged ≤ stageN
  refuses : ∀ (xs : List ImuSample) (x : ImuSample),
    accepted (xs.foldl appendOne t.log) [x] = [] ↔ (xs.foldl appendOne t.log).staged = stageN
  progress : ∀ ret, t.log.staged ≠ 0 → ∃ batch, batch ≠ [] ∧
    (t.turn (.drain ret)).drained = t.drained ++ batch ∧
    (t.turn (.drain ret)).log.staged + batch.length = t.log.staged

/-! ## Blocks and drains -/

/-- As many records of a block are accepted as there is room for. -/
theorem append_ring (xs : List ImuSample) :
    ∀ {s : Log}, s.Metered → accepted s xs = xs.take (stageN - s.staged) ∧
      (xs.foldl appendOne s).staged = min stageN (s.staged + xs.length) := by
  rw [stageN_eq]
  induction xs with
  | nil =>
    intro s h
    have hle := h.level
    refine ⟨List.take_nil.symm, ?_⟩
    rw [List.foldl_nil, List.length_nil]
    omega
  | cons x xs ih =>
    intro s h
    have hle := h.level
    obtain ⟨hacc, hlevel⟩ := ih (appendOne_metered h x)
    rw [List.foldl_cons, List.length_cons, hlevel]
    rcases appendOne_cases s x h.head h.tail with ⟨hfull, heq⟩ | ⟨hroom, hn, -⟩
    · have hsame : (appendOne s x).staged = s.staged := by rw [heq]; rfl
      have hnone : 1536 - s.staged = 0 := by omega
      have hstep : accepted s (x :: xs) = accepted (appendOne s x) xs := if_pos hfull
      rw [hsame] at hacc ⊢
      rw [hstep, hacc, hnone]
      refine ⟨rfl, ?_⟩
      omega
    · have hstep : accepted s (x :: xs) = x :: accepted (appendOne s x) xs :=
        if_neg (by rw [stageN_eq]; exact Nat.not_le.mpr hroom)
      have hmore : 1536 - s.staged = 1536 - (s.staged + 1) + 1 := by omega
      rw [hn] at hacc ⊢
      rw [hstep, hacc, hmore, List.take_succ_cons]
      refine ⟨rfl, ?_⟩
      omega

/-- A record is refused exactly if the ring is full. -/
theorem refused_iff {s : Log} (h : s.Metered) (x : ImuSample) :
    accepted s [x] = [] ↔ s.staged = stageN := by
  have hle := h.level
  rw [(append_ring [x] h).1, List.take_eq_nil_iff, stageN_eq]
  constructor
  · intro hnone
    rcases hnone with hnone | hnone
    · omega
    · exact absurd hnone (List.cons_ne_nil x [])
  · intro hfull
    exact Or.inl (by omega)

/-- The staging ring does not depend on the rest of the statics. -/
theorem ring_ram (s : Log) (f : Flash) (tr : List Ev) (L : Nat) :
    ({ s with flash := f, trace := tr, lastDirRefresh := L } : Log).staged = s.staged ∧
      ({ s with flash := f, trace := tr, lastDirRefresh := L } : Log).pending = s.pending :=
  ⟨rfl, rfl⟩

/-- What a drain does to the ring. -/
theorem drain_ring {s : Log} (h : s.Metered) (ret : Int) :
    (writerDrainBatch s ret).active = s.active ∧ (writerDrainBatch s ret).Metered ∧
      (writerDrainBatch s ret).stageTail = u32 (s.stageTail + s.drainCount) ∧
      (writerDrainBatch s ret).staged = s.staged - s.drainCount ∧
      s.pending = s.stagedBatch s.drainCount ++ (writerDrainBatch s ret).pending := by
  have hle : s.drainCount ≤ s.staged := drainCount_le_staged s
  by_cases hnone : s.staged = 0
  · have hzero : s.drainCount = 0 := by omega
    have hsame : writerDrainBatch s ret = s := writerDrainBatch_empty s ret hnone
    have hnobatch : s.stagedBatch 0 = [] := rfl
    rw [hsame, hzero, hnobatch, Nat.add_zero, Nat.sub_zero, u32_of_lt h.tail, List.nil_append]
    exact ⟨rfl, h, rfl, rfl, rfl⟩
  · obtain ⟨f, tr, L, heq, -⟩ := writerDrainBatch_ram s ret hnone
    have hstaged : (s.drained ret).staged = s.staged - s.drainCount :=
      u32Sub_advance h.head h.tail hle
    have hpending := pending_drain h.head h.tail ret
    have hlevel := h.level
    obtain ⟨hs, hp⟩ := ring_ram (s.drained ret) f tr L
    rw [← heq] at hs hp
    rw [hs, hp, hstaged]
    have htail : (writerDrainBatch s ret).stageTail = u32 (s.stageTail + s.drainCount) := by
      rw [heq]
      rfl
    refine ⟨by rw [heq]; rfl, ⟨?_, ?_, ?_⟩, htail, rfl, hpending⟩
    · rw [heq]
      exact h.head
    · rw [htail]
      exact u32_lt _
    · rw [hs, hstaged]
      omega

/-- A drain leaves the staged records in slots of their own. -/
theorem drain_unbroken {s : Log} (h : s.Metered) (hu : s.Unbroken) (ret : Int) :
    (writerDrainBatch s ret).Unbroken := by
  obtain ⟨-, -, htail, hstaged, -⟩ := drain_ring h ret
  have hle : s.drainCount ≤ s.staged := drainCount_le_staged s
  have hmod := Nat.mod_le (s.stageTail + s.drainCount) 4294967296
  unfold Log.Unbroken at hu ⊢
  rw [htail, hstaged]
  unfold u32
  omega

/-! ## At the wrap -/

theorem pending_get {s : Log} {i : Nat} (hi : i < s.staged) :
    s.pending[i]? = some (s.stage (u32 (s.stageTail + i) % stageN)) := by
  unfold Log.pending Log.stagedBatch
  rw [List.getElem?_map, List.getElem?_range hi]
  rfl

/-- **Two records in one slot**: across the wrap of the counters, what is staged 1024 records after
    another is staged in its place. -/
theorem pending_meet {s : Log} (h : s.Metered) {k : Nat} (hk : 1024 ≤ k) (hstaged : k < s.staged)
    (hfront : s.stageTail + (k - 1024) < 4294967296) (hwrap : 4294967296 ≤ s.stageTail + k) :
    s.pending[k - 1024]? = s.pending[k]? := by
  have hlevel := h.level
  have hmeet : u32 (s.stageTail + k) % 1536 = u32 (s.stageTail + (k - 1024)) % 1536 ↔
      s.stageTail + (k - 1024) < 4294967296 ∧ 4294967296 ≤ s.stageTail + k ∧
        s.stageTail + k - (s.stageTail + (k - 1024)) = 1024 :=
    wrapped_slot_eq_iff (by omega) (by omega) (by omega)
  have hslot := hmeet.mpr ⟨hfront, hwrap, by omega⟩
  rw [pending_get (by omega : k - 1024 < s.staged), pending_get hstaged, stageN_eq, hslot]

theorem appendFold_tail (s : Log) (xs : List ImuSample) :
    (xs.foldl appendOne s).stageTail = s.stageTail := by
  obtain ⟨g, hd, d, hram⟩ := appendFold_ram s xs
  rw [hram]

/-- A block of records `v`, and `b` from index `j` on. -/
theorem block_front {n i j : Nat} (v b : ImuSample) (hi : i < j) :
    (List.replicate j v ++ List.replicate n b)[i]? = some v := by
  rw [List.getElem?_append_left (by rw [List.length_replicate]; exact hi),
    List.getElem?_replicate_of_lt hi]

theorem block_back {n j : Nat} (v b : ImuSample) (hn : 0 < n) :
    (List.replicate j v ++ List.replicate n b)[j]? = some b := by
  rw [List.getElem?_append_right (Nat.le_of_eq (List.length_replicate ..)), List.length_replicate,
    Nat.sub_self, List.getElem?_replicate_of_lt hn]

instance : Nontrivial ImuSample := ⟨distinct, default, by decide⟩

/-- **Too long a block is misplaced**: a record of it takes the place of the one 1024 before. -/
theorem append_misplaced {s : Log} (h : s.Metered) (hu : s.Unbroken) {n : Nat}
    (hwrap : 4294967296 < s.stageTail + min 1536 (s.staged + n))
    (hlong : 1024 < min 1536 (s.staged + n)) :
    ∃ xs : List ImuSample, xs.length = n ∧
      (xs.foldl appendOne s).pending ≠ s.pending ++ accepted s xs := by
  -- the first record behind the wrap that is not among the first 1024
  obtain ⟨k, hk⟩ : ∃ k, k = max 1024 (4294967296 - s.stageTail) := ⟨_, rfl⟩
  have ht := h.tail
  have hback : s.staged ≤ k := by
    unfold Log.Unbroken at hu
    omega
  have hsize : s.pending.length = s.staged := stagedBatch_length s s.staged
  -- a block in which the record at `k` differs from the one 1024 before it
  obtain ⟨v, hv⟩ : ∃ v, v = s.pending.getD (k - 1024) default := ⟨_, rfl⟩
  obtain ⟨b, hb⟩ := exists_ne v
  obtain ⟨xs, hxs⟩ : ∃ xs, xs = List.replicate (k - s.staged) v ++
      List.replicate (n - (k - s.staged)) b := ⟨_, rfl⟩
  have hlen : xs.length = n := by
    rw [hxs, List.length_append, List.length_replicate, List.length_replicate]
    omega
  obtain ⟨hacc, hlevel⟩ := append_ring xs h
  rw [hlen, stageN_eq] at hlevel
  have hmet := appendFold_metered xs h
  refine ⟨xs, hlen, fun hord => ?_⟩
  have hsame : (xs.foldl appendOne s).pending[k - 1024]? = (xs.foldl appendOne s).pending[k]? := by
    have htail := appendFold_tail s xs
    refine pending_meet hmet (by omega) (by omega) ?_ ?_
    · rw [htail]
      omega
    · rw [htail]
      omega
  have hat : (s.pending ++ accepted s xs)[k]? = some b := by
    rw [List.getElem?_append_right (by omega), hsize, hacc,
      List.getElem?_take_of_lt (by rw [stageN_eq]; omega), hxs]
    exact block_back v b (by omega)
  have hbefore : (s.pending ++ accepted s xs)[k - 1024]? = some v := by
    rcases Nat.lt_or_ge (k - 1024) s.staged with hold | hnew
    · rw [List.getElem?_append_left (by omega), hv, List.getD_eq_getElem?_getD,
        List.getElem?_eq_getElem (by omega), Option.getD_some]
    · rw [List.getElem?_append_right (by omega), hsize, hacc,
        List.getElem?_take_of_lt (by rw [stageN_eq]; omega), hxs]
      exact block_front v b (by omega)
  rw [hord, hbefore, hat] at hsame
  exact hb (Option.some.inj hsame).symm

/-- The records of an `Unbroken` ring stay in order under exactly the blocks that fit. -/
theorem append_ordered_iff {s : Log} (h : s.Metered) (hu : s.Unbroken) (n : Nat) :
    (∀ xs : List ImuSample, xs.length = n →
      (xs.foldl appendOne s).pending = s.pending ++ accepted s xs) ↔
    s.stageTail + min stageN (s.staged + n) ≤ 4294967296 ∨ min stageN (s.staged + n) ≤ 1024 := by
  constructor
  · intro hall
    by_contra hlong
    rw [stageN_eq] at hlong
    obtain ⟨xs, hlen, hne⟩ := append_misplaced h hu (n := n) (by omega) (by omega)
    exact hne (hall xs hlen)
  · intro hfits xs hlen
    refine appendFold_pending xs h ?_
    have hlevel := (append_ring xs h).2
    unfold Log.Unbroken
    rw [appendFold_tail, hlevel, hlen]
    exact hfits

/-! ## Runs -/

/-- What every turn keeps: the session is running, and the counters are in order. -/
structure Staging.Running (t : Staging) : Prop where
  active : t.log.active = true
  metered : t.log.Metered

theorem Staging.Running.append_turn {t : Staging} (h : t.Running) (xs : List ImuSample) :
    t.turn (.append xs) =
      ⟨xs.foldl appendOne t.log, t.taken ++ accepted t.log xs, t.drained⟩ := by
  have hlog : imuLogAppend t.log xs = xs.foldl appendOne t.log := if_pos h.active
  rw [← hlog]
  rfl

theorem Staging.Running.append_log {t : Staging} (h : t.Running) (xs : List ImuSample) :
    (t.turn (.append xs)).log = xs.foldl appendOne t.log := by
  rw [h.append_turn xs]

theorem Staging.Start.running {t : Staging} (h : t.Start) : t.Running := by
  refine ⟨h.active, h.word, ?_, ?_⟩
  · rw [← h.even]
    exact h.word
  · rw [(pending_nil h.even).1]
    exact Nat.zero_le _

theorem turn_running {t : Staging} (h : t.Running) (e : Handoff) : (t.turn e).Running := by
  cases e with
  | append xs =>
    obtain ⟨g, hd, d, hram⟩ := appendFold_ram t.log xs
    refine ⟨?_, ?_⟩
    · rw [h.append_log xs, hram]
      exact h.active
    · rw [h.append_log xs]
      exact appendFold_metered xs h.metered
  | drain ret =>
    obtain ⟨hact, hmet, -, -, -⟩ := drain_ring h.metered ret
    exact ⟨hact.trans h.active, hmet⟩

theorem reach_running {t : Staging} (h : Reach Staging.Start StagingStep t) : t.Running := by
  refine Reach.invariant (I := Staging.Running) (fun _ => Staging.Start.running) ?_ h
  rintro t e _ _ ht rfl
  exact turn_running ht e

theorem Staging.Running.bounded {t : Staging} (h : t.Running) : t.Bounded := by
  have hlevel := h.metered.level
  refine ⟨by rw [stageN_eq]; exact hlevel, fun xs x => ?_, fun ret hne => ?_⟩
  · exact refused_iff (appendFold_metered xs h.metered) x
  · have hpos := drainCount_pos t.log hne
    have hle : t.log.drainCount ≤ t.log.staged := drainCount_le_staged t.log
    have hsize := stagedBatch_length t.log t.log.drainCount
    refine ⟨t.log.stagedBatch t.log.drainCount, ?_, rfl, ?_⟩
    · intro hnil
      rw [hnil, List.length_nil] at hsize
      omega
    · obtain ⟨-, -, -, hstaged, -⟩ := drain_ring h.metered ret
      have hrest : (t.turn (.drain ret)).log.staged = t.log.staged - t.log.drainCount := hstaged
      rw [hrest, hsize]
      omega

theorem ordered_iff (s : Log) (taken drained : List ImuSample) :
    Staging.Ordered ⟨s, taken, drained⟩ ↔ taken = drained ++ s.pending := Iff.rfl

/-- A block keeps the queue ordered exactly if it joins the staged records at the end. -/
theorem append_turn_ordered {t : Staging} (h : t.Running) (ho : t.Ordered) (xs : List ImuSample) :
    (t.turn (.append xs)).Ordered ↔
      (xs.foldl appendOne t.log).pending = t.log.pending ++ accepted t.log xs := by
  have htaken : t.taken = t.drained ++ t.log.pending := ho
  rw [h.append_turn xs, ordered_iff, htaken, List.append_assoc, List.append_right_inj]
  exact eq_comm

/-- A drain keeps the queue as it is. -/
theorem drain_turn_ordered {t : Staging} (h : t.Running) (ret : Int) :
    (t.turn (.drain ret)).Ordered ↔ t.Ordered := by
  obtain ⟨-, -, -, -, hsplit⟩ := drain_ring h.metered ret
  have hturn : t.turn (.drain ret) =
      ⟨writerDrainBatch t.log ret, t.taken, t.drained ++ t.log.stagedBatch t.log.drainCount⟩ := rfl
  rw [hturn, ordered_iff, List.append_assoc, ← hsplit]
  exact Iff.rfl

/-- What every turn keeps while the blocks fit. -/
structure Staging.Orderly (t : Staging) : Prop where
  running : t.Running
  unbroken : t.log.Unbroken
  ordered : t.Ordered

theorem Staging.Start.orderly {t : Staging} (h : t.Start) : t.Orderly := by
  obtain ⟨hzero, hnone⟩ := pending_nil h.even
  refine ⟨h.running, Or.inr ?_, ?_⟩
  · rw [hzero]
    exact Nat.zero_le _
  · unfold Staging.Ordered
    rw [h.taken, h.drained, hnone]
    rfl

/-- **Step lemma.** -/
theorem turn_orderly {t : Staging} (h : t.Orderly) {e : Handoff} (hfit : fitting t e) :
    (t.turn e).Orderly := by
  refine ⟨turn_running h.running e, ?_, ?_⟩
  · cases e with
    | append xs =>
      have hfits : t.Fits xs.length := hfit
      unfold Staging.Fits at hfits
      rw [h.running.append_log xs]
      unfold Log.Unbroken
      rw [appendFold_tail, (append_ring xs h.running.metered).2]
      exact hfits
    | drain ret => exact drain_unbroken h.running.metered h.unbroken ret
  · cases e with
    | append xs =>
      have hfits : t.Fits xs.length := hfit
      refine (append_turn_ordered h.running h.ordered xs).mpr ?_
      exact (append_ordered_iff h.running.metered h.unbroken xs.length).mpr hfits xs rfl
    | drain ret => exact (drain_turn_ordered h.running ret).mpr h.ordered

/-- **Run lemma.** -/
theorem reach_orderly {t : Staging} (h : Reach Staging.Start (guarded fitting StagingStep) t) :
    t.Orderly := by
  refine Reach.invariant (I := Staging.Orderly) (fun _ => Staging.Start.orderly) ?_ h
  rintro t e _ _ ht ⟨hfit, rfl⟩
  exact turn_orderly ht hfit

/-- **The staging ring is a FIFO queue.**  Wherever the counters start and whatever the turns are,
    the ring is never over-full, refuses a record exactly if it is full, and a drain makes progress.
    In every run whose blocks fit, what was accepted is what was drained and what is staged, in
    order; and the next `n` records keep it so, whatever they are, exactly if they fit. -/
theorem staging_fifo {t : Staging} :
    (Reach Staging.Start StagingStep t → t.Bounded) ∧
    (Reach Staging.Start (guarded fitting StagingStep) t → t.Ordered ∧
      ∀ n, (∀ xs : List ImuSample, xs.length = n → (t.turn (.append xs)).Ordered) ↔ t.Fits n) := by
  refine ⟨fun h => (reach_running h).bounded, fun h => ?_⟩
  have ht := reach_orderly h
  refine ⟨ht.ordered, fun n => ?_⟩
  have hblock := append_ordered_iff ht.running.metered ht.unbroken n
  constructor
  · intro hall
    refine hblock.mp fun xs hlen => ?_
    exact (append_turn_ordered ht.running ht.ordered xs).mp (hall xs hlen)
  · intro hfits xs hlen
    exact (append_turn_ordered ht.running ht.ordered xs).mpr (hblock.mpr hfits xs hlen)

/-- A log with a session running, 2^32 - 1 records after the first. -/
def lateLog : Log :=
  { bootLog Flash.blank with active := true, stageHead := 4294967295, stageTail := 4294967295 }

theorem lateLog_start : Staging.Start ⟨lateLog, [], []⟩ :=
  ⟨rfl, rfl, by decide, rfl, rfl⟩

/-- Two records across the wrap. -/
theorem staging_fifo_two :
    (Staging.turn ⟨lateLog, [], []⟩ (.append [default, distinct])).Bounded ∧
      (Staging.turn ⟨lateLog, [], []⟩ (.append [default, distinct])).Ordered := by
  have hfit : fitting ⟨lateLog, [], []⟩ (.append [default, distinct]) := by
    refine Or.inr (Nat.le_trans (Nat.min_le_right _ _) ?_)
    rw [(pending_nil lateLog_start.even).1]
    decide
  have hfitting : Reach Staging.Start (guarded fitting StagingStep)
      (Staging.turn ⟨lateLog, [], []⟩ (.append [default, distinct])) :=
    (Reach.start lateLog_start).next (a := .append [default, distinct]) ⟨hfit, rfl⟩
  have hany : Reach Staging.Start StagingStep _ :=
    hfitting.mono (fun _ h0 => h0) fun _ _ _ hst => hst.2
  exact ⟨staging_fifo.1 hany, (staging_fifo.2 hfitting).1⟩

/-! ## The 1025th record -/

theorem turn_append {t : Staging} (h : t.Running) (xs ys : List ImuSample) :
    (t.turn (.append xs)).turn (.append ys) = t.turn (.append (xs ++ ys)) := by
  have hnext := (turn_running h (.append xs)).append_turn ys
  rw [hnext, h.append_turn xs, h.append_turn (xs ++ ys), List.foldl_append, accepted_append,
    List.append_assoc]

/-- Blocks appended one after the other are one block. -/
theorem appends_flatten (xss : List (List ImuSample)) : ∀ {t : Staging}, t.Running →
    (xss.map Handoff.append).foldl Staging.turn t = t.turn (.append xss.flatten) := by
  induction xss with
  | nil =>
    intro t h
    have hnone := h.append_turn []
    rw [List.foldl_nil, accepted, List.append_nil] at hnone
    exact hnone.symm
  | cons xs xss ih =>
    intro t h
    rw [List.map_cons, List.foldl_cons, ih (turn_running h (.append xs)), turn_append h,
      List.flatten_cons]

/-- The record appended last is the last one staged. -/
theorem appendOne_last {s : Log} (h : s.Metered) (hroom : s.staged < 1536) (x : ImuSample) :
    (appendOne s x).pending[s.staged]? = some x := by
  rcases appendOne_cases s x h.head h.tail with ⟨hfull, -⟩ | ⟨-, hn, heq⟩
  · omega
  · rw [pending_get (by omega), heq]
    show some (Function.update s.stage (s.stageHead % stageN) x
      (u32 (s.stageTail + s.staged) % stageN)) = some x
    rw [h.next_slot, Function.update_self]

theorem reach_turns {t : Staging} (h : Reach Staging.Start StagingStep t) (es : List Handoff) :
    Reach Staging.Start StagingStep (es.foldl Staging.turn t) := by
  induction es generalizing t with
  | nil => exact h
  | cons e es ih => exact ih (h.next (a := e) rfl)

/-- 1024 records in the pump's blocks of 64, and one that is not like them. -/
def lateBlocks : List (List ImuSample) :=
  List.replicate 16 (List.replicate 64 default) ++ [[distinct]]

theorem lateBlocks_flatten : lateBlocks.flatten = alikeButLast 1024 := by
  unfold lateBlocks alikeButLast
  rw [List.flatten_append, List.flatten_replicate_replicate, List.flatten_singleton]

/-- One record in front of the wrap, the 1025th record is staged in the place of the first. -/
theorem first_replaced {s : Log} (h : s.Metered) (hzero : s.staged = 0)
    (htail : s.stageTail = 4294967295) :
    ((alikeButLast 1024).foldl appendOne s).pending[0]? = some distinct := by
  have hmet := appendFold_metered (List.replicate 1024 default) h
  have hmet' := appendFold_metered (alikeButLast 1024) h
  have hfront := (append_ring (List.replicate 1024 default) h).2
  have hall := (append_ring (alikeButLast 1024) h).2
  have htail' := appendFold_tail s (alikeButLast 1024)
  rw [hzero, List.length_replicate, stageN_eq] at hfront
  rw [hzero, alikeButLast_length, stageN_eq] at hall
  have hlast := appendOne_last hmet (by omega) distinct
  have hfold : (alikeButLast 1024).foldl appendOne s =
      appendOne ((List.replicate 1024 default).foldl appendOne s) distinct := by
    unfold alikeButLast
    rw [List.foldl_append, List.foldl_cons, List.foldl_nil]
  have hmeet := pending_meet hmet' (k := 1024) (by decide) (by omega) (by omega) (by omega)
  have hindex : ((List.replicate 1024 default).foldl appendOne s).staged = 1024 := by omega
  rw [hindex, ← hfold] at hlast
  exact hmeet.trans hlast

/-- **The 1025th record replaces the first**: started one record in front of the wrap, the ring takes
    1025 records without a drain, and the first record drained is the last one accepted. -/
theorem staging_overwrites :
    ¬ ∀ t, Reach Staging.Start StagingStep t → t.drained <+: t.taken := by
  intro hall
  have hrun := lateLog_start.running
  have hzero := (pending_nil lateLog_start.even).1
  have htaken : accepted lateLog (alikeButLast 1024) = alikeButLast 1024 := by
    rw [(append_ring (alikeButLast 1024) hrun.metered).1]
    refine List.take_of_length_le ?_
    rw [alikeButLast_length, hzero, stageN_eq]
    decide
  have hstart : (alikeButLast 1024)[0]? = some default := by
    unfold alikeButLast
    rw [List.getElem?_append_left (by rw [List.length_replicate]; decide),
      List.getElem?_replicate_of_lt (by decide)]
  have hreach := reach_turns (Reach.start lateLog_start) (lateBlocks.map Handoff.append)
  rw [appends_flatten lateBlocks hrun, lateBlocks_flatten, hrun.append_turn, htaken,
    List.nil_append] at hreach
  have hfirst := first_replaced hrun.metered hzero rfl
  have hmet := appendFold_metered (alikeButLast 1024) hrun.metered
  have hfull := (append_ring (alikeButLast 1024) hrun.metered).2
  rw [hzero, alikeButLast_length, stageN_eq] at hfull
  generalize (alikeButLast 1024).foldl appendOne lateLog = s at hreach hfirst hmet hfull
  generalize alikeButLast 1024 = l at hreach hstart
  -- the first batch
  have hbatch : [] ++ s.stagedBatch s.drainCount <+: l := hall _ (hreach.next (a := .drain 0) rfl)
  rw [List.nil_append] at hbatch
  obtain ⟨-, -, -, -, hsplit⟩ := drain_ring hmet 0
  have hpos := drainCount_pos s (by show s.staged ≠ 0; omega)
  have hsize := stagedBatch_length s s.drainCount
  obtain ⟨rest, rfl⟩ := hbatch
  rw [hsplit, List.getElem?_append_left (by omega)] at hfirst
  rw [List.getElem?_append_left (by omega), hfirst] at hstart
  exact absurd hstart (by decide)

end Caterpillar.ImuLog
