/-
  Stopping a session: the pump, the writer thread and the callers of `imu_log_stop`, interleaved.

  The pump stages records without a lock.  The writer tests `active` and the staging ring without a
  lock, too, and drains under it.  A stop waits for the staging ring to run empty, for 200 rounds at
  most, and then closes the session under the lock.

  1. `Threads` — the log with the place of every thread; beside it the records accepted into staging
     since the session began (`accepted`) and the count of the session closed last (`final`).
  2. `step` — one record staged, one test, one locked section at a time.
  3. `Settled` — **the invariant**: while a session runs, its records are drained or staged; once it is
     closed, nothing is staged and nobody can stage.
  4. `stopped_final` — so a closed session is complete in every run in which a stop closes a session
     only with nothing staged and no append under way; `late_append` is a run in which it does not.
-/
import Caterpillar.ImuLog.PowerLoss

namespace Caterpillar.ImuLog.Stopping

open Caterpillar.Word Caterpillar.Runs Caterpillar.Imu Caterpillar.ImuLog

/-! ## The threads -/

/-- Where the writer thread is. -/
inductive WriterPc where
  /-- At the test of `active` and the staging ring. -/
  | test
  /-- About to take the lock. -/
  | tested
  /-- With the lock, before `writer_drain_batch`. -/
  | locked
  deriving DecidableEq

/-- Where `imu_log_stop` is. -/
inductive StopPc where
  /-- At the test of `active`. -/
  | test
  /-- In `writer_flush`, after `i` rounds. -/
  | flush (i : Nat)
  /-- About to take the lock. -/
  | close
  /-- With the lock. -/
  | locked
  deriving DecidableEq

/-- Where the command thread is. -/
inductive CmdPc where
  | idle
  /-- In `imu_log_stop`, called by `imu_log_erase` or by itself. -/
  | stopping (p : StopPc) (erase : Bool)
  /-- `imu_log_erase` is about to wipe the directory. -/
  | wiping
  deriving DecidableEq

/-- The log and its threads. -/
structure Threads where
  log : Log
  /-- `log_lock` is held. -/
  held : Bool
  /-- What the `imu_log_append` under way has still to stage. -/
  pump : Option (List ImuSample)
  writer : WriterPc
  command : CmdPc
  /-- The stop of the disconnect handler. -/
  disconnect : Option StopPc
  /-- Records accepted into staging since the session began. -/
  accepted : Nat
  /-- The count a stop has closed the last session with; no start and no erase came since. -/
  final : Option Nat

/-- What can happen. -/
inductive Event where
  /-- `imu_log_append` is called. -/
  | append (xs : List ImuSample)
  /-- Its loop takes up one record. -/
  | stage
  /-- It returns. -/
  | appended
  /-- The writer's next step. -/
  | writer (ret : Int)
  /-- The command thread calls `imu_log_start`. -/
  | start (st : Stamp) (ret : Int)
  /-- The command thread calls `imu_log_stop` or `imu_log_erase`. -/
  | stop (erase : Bool)
  /-- The command thread's next step. -/
  | command
  /-- The disconnect handler calls `imu_log_stop`. -/
  | disconnect
  /-- Its next step. -/
  | bt

/-- One iteration of the staging loop. -/
def stageStep (s : Threads) : Option Threads :=
  match s.pump with
  | some (x :: xs) => some { s with
      log := appendOne s.log x
      pump := some xs
      accepted := if s.log.staged ≥ stageN then s.accepted else s.accepted + 1 }
  | _ => none

/-- One step of the writer thread. -/
def writerStep (s : Threads) (ret : Int) : Option Threads :=
  match s.writer with
  | .test =>
      if s.log.active ∧ s.log.stageHead ≠ s.log.stageTail then some { s with writer := .tested }
      else some s
  | .tested => if s.held then none else some { s with writer := .locked, held := true }
  | .locked => some { s with
      log := writerDrainBatch s.log ret
      held := false
      writer := .test }

/-- One step of `imu_log_stop`, and where it goes on; it returns where that is `none`. -/
def stopStep (s : Threads) : StopPc → Option (Threads × Option StopPc)
  | .test => if s.log.active then some (s, some (.flush 0)) else some (s, none)
  | .flush i =>
      if i < 200 ∧ s.log.stageHead ≠ s.log.stageTail then some (s, some (.flush (i + 1)))
      else some (s, some .close)
  | .close => if s.held then none else some ({ s with held := true }, some .locked)
  | .locked => some ({ s with
      log := stopClose s.log
      held := false
      final := if s.log.active then some s.log.curCount else s.final }, none)

/-- One step of the command thread. -/
def commandStep (s : Threads) : Option Threads :=
  match s.command with
  | .idle => none
  | .stopping p erase => (stopStep s p).map fun (t, next) =>
      { t with command := match next with
        | some p => .stopping p erase
        | none => if erase then .wiping else .idle }
  | .wiping =>
      if s.held then none
      else some { s with log := eraseWipe s.log, command := .idle, final := none }

/-- One step of the disconnect handler. -/
def btStep (s : Threads) : Option Threads :=
  match s.disconnect with
  | none => none
  | some p => (stopStep s p).map fun (t, next) => { t with disconnect := next }

/-- One step; `none` where it cannot happen. -/
def step (s : Threads) : Event → Option Threads
  | .append xs =>
      if s.pump = none then
        if s.log.active then some { s with pump := some xs } else some s
      else none
  | .stage => stageStep s
  | .appended => if s.pump = some [] then some { s with pump := none } else none
  | .writer ret => writerStep s ret
  | .start st ret =>
      if s.command = .idle ∧ s.held = false then
        if s.log.active then some s
        else some { s with
          log := (imuLogStart s.log st ret).1
          accepted := 0
          final := none }
      else none
  | .stop erase =>
      if s.command = .idle then some { s with command := .stopping .test erase } else none
  | .command => commandStep s
  | .disconnect => if s.disconnect = none then some { s with disconnect := some .test } else none
  | .bt => btStep s

/-- The step relation. -/
def Step (s : Threads) (e : Event) (s' : Threads) : Prop := step s e = some s'

/-- Just booted, over any flash. -/
def Start (s : Threads) : Prop :=
  ∃ f, s = ⟨bootLog f, false, none, .test, .idle, none, 0, none⟩

/-- A stop is about to close a session. -/
def closing (s : Threads) : Event → Bool
  | .command => match s.command with
      | .stopping .locked _ => s.log.active
      | _ => false
  | .bt => match s.disconnect with
      | some .locked => s.log.active
      | _ => false
  | _ => false

/-- Nothing is staged, and no append has records left to stage; the count fits its 32 bits. -/
def Drained (s : Threads) : Prop :=
  s.log.staged = 0 ∧ (s.pump = none ∨ s.pump = some []) ∧ s.accepted < 4294967296

instance (s : Threads) : Decidable (Drained s) := inferInstanceAs (Decidable (_ ∧ _ ∧ _))

/-- A session is closed with nothing staged and no append under way. -/
def complete (s : Threads) (e : Event) : Bool := !closing s e || decide (Drained s)

/-! ## Final -/

/-- The closed session's entry, the records accepted for it and `imu_log_records_total` agree on
    `n`. -/
structure Final (s : Threads) (n : Nat) : Prop where
  valid : (s.log.flash.entries s.log.curSlot).Valid
  seq : (s.log.flash.entries s.log.curSlot).seq = s.log.curSeq
  entry : (s.log.flash.entries s.log.curSlot).recCount = n
  accepted : s.accepted = n
  total : imuLogRecordsTotal s.log = n

/-- The running session: its entry is in place, and its records are drained or staged. -/
structure Running (s : Threads) : Prop where
  valid : (s.log.flash.entries s.log.curSlot).Valid
  seq : (s.log.flash.entries s.log.curSlot).seq = s.log.curSeq
  unclosed : s.final = none
  records : ∃ d, s.log.curCount = u32 d ∧ s.accepted = d + s.log.staged

/-- **The invariant.** -/
structure Settled (s : Threads) : Prop where
  head : s.log.stageHead < 4294967296
  tail : s.log.stageTail < 4294967296
  running : s.log.active = true → Running s
  stopped : s.log.active = false → s.log.staged = 0 ∧ (s.pump = none ∨ s.pump = some [])
  final : ∀ n, s.final = some n → s.log.active = false ∧ Final s n
  wiping : s.command = .wiping → s.log.active = false

theorem start_settled {s : Threads} (h : Start s) : Settled s := by
  obtain ⟨f, rfl⟩ := h
  obtain ⟨g, t, T, n, hboot⟩ := imuLogInit_ram (Log.cold f)
  have hlog : bootLog f =
      { Log.cold f with flash := g, trace := t, totalAbs := T, seqNext := n } := hboot
  rw [hlog]
  refine ⟨?_, ?_, ?_, ?_, ?_, ?_⟩
  · exact Nat.zero_lt_succ _
  · exact Nat.zero_lt_succ _
  · exact fun hact => absurd hact Bool.false_ne_true
  · exact fun _ => ⟨u32Sub_self 0, Or.inl rfl⟩
  · exact fun n hn => absurd hn (by simp)
  · exact fun hw => absurd hw (by simp)

/-- Only the threads move. -/
theorem Settled.keep {s s' : Threads} (h : Settled s) (hlog : s'.log = s.log)
    (hacc : s'.accepted = s.accepted) (hfinal : s'.final = s.final)
    (hpump : s.log.active = false → s'.pump = none ∨ s'.pump = some [])
    (hwiping : s'.command = .wiping → s.log.active = false) : Settled s' := by
  obtain ⟨log, held, pump, writer, command, disconnect, accepted, final⟩ := s
  obtain ⟨log', held', pump', writer', command', disconnect', accepted', final'⟩ := s'
  obtain rfl : log' = log := hlog
  obtain rfl : accepted' = accepted := hacc
  obtain rfl : final' = final := hfinal
  refine ⟨h.head, h.tail, fun hact => ?_, fun hoff => ⟨(h.stopped hoff).1, hpump hoff⟩,
    fun n hn => ?_, hwiping⟩
  · obtain ⟨h1, h2, h3, h4⟩ := h.running hact
    exact ⟨h1, h2, h3, h4⟩
  · obtain ⟨hoff, h1, h2, h3, h4, h5⟩ := h.final n hn
    exact ⟨hoff, h1, h2, h3, h4, h5⟩

/-! ## The pump -/

/-- **A record is staged, or dropped.** -/
theorem stage_settled {s s' : Threads} (h : Settled s) (hs : stageStep s = some s') :
    Settled s' := by
  obtain ⟨log, held, pump, writer, command, disconnect, accepted, final⟩ := s
  cases pump with
  | none => exact absurd hs (by simp [stageStep])
  | some l =>
    cases l with
    | nil => exact absurd hs (by simp [stageStep])
    | cons x xs =>
      obtain rfl := Option.some.inj hs
      have hact : log.active = true := by
        by_contra hoff
        rcases (h.stopped (by simpa using hoff)).2 with hnone | hnil
        · exact absurd hnone (by simp)
        · exact absurd hnil (by simp)
      obtain ⟨hv, hseq, hnone, d, hd, hacc⟩ := h.running hact
      have hclosed : ∀ n, final ≠ some n := fun n hn => by
        have hno : final = none := hnone
        exact absurd (hno.symm.trans hn) (by simp)
      have hwiping : command = .wiping → log.active = false := h.wiping
      have hacc' : accepted = d + log.staged := hacc
      have hsize := stageN_eq
      have hrunning : ∀ log' accepted', log'.active = log.active → log'.flash = log.flash →
          log'.curSlot = log.curSlot → log'.curSeq = log.curSeq → log'.curCount = log.curCount →
          log'.stageHead < 4294967296 → log'.stageTail < 4294967296 →
          accepted' = d + log'.staged →
          Settled ⟨log', held, some xs, writer, command, disconnect, accepted', final⟩ := by
        intro log' accepted' hact' hflash hslot hseq' hcount hh ht hsum
        refine ⟨hh, ht, fun _ => ⟨?_, ?_, hnone, d, ?_, hsum⟩, fun hoff => ?_,
          fun n hn => absurd hn (hclosed n), fun hw => hact'.trans (hwiping hw)⟩
        · show (log'.flash.entries log'.curSlot).Valid
          rw [hflash, hslot]
          exact hv
        · show (log'.flash.entries log'.curSlot).seq = log'.curSeq
          rw [hflash, hslot, hseq']
          exact hseq
        · exact hcount.trans hd
        · exact absurd (hoff.symm.trans (hact'.trans hact)) (by decide)
      rcases appendOne_cases log x h.head h.tail with ⟨hfull, hone⟩ | ⟨hroom, hmore, hone⟩
      · have hdrop : ¬ log.staged < stageN := by omega
        rw [if_pos (Nat.not_lt.mp hdrop)]
        rw [hone]
        exact hrunning _ _ rfl rfl rfl rfl rfl h.head h.tail hacc
      · have hkeep : ¬ log.staged ≥ stageN := by omega
        rw [if_neg hkeep]
        rw [hone] at hmore ⊢
        refine hrunning _ _ rfl rfl rfl rfl rfl (u32_lt _) h.tail ?_
        rw [hmore, hacc', Nat.add_assoc]

/-! ## The writer -/

/-- A drain of the running session leaves its entry in place. -/
theorem drain_running {l : Log} (ret : Int) (hne : u32Sub l.stageHead l.stageTail ≠ 0)
    (hact : l.active = true) (hv : (l.flash.entries l.curSlot).Valid) :
    ∃ f t L, writerDrainBatch l ret = { l.drained ret with
        flash := f, trace := t, lastDirRefresh := L } ∧
      (f.entries l.curSlot).Valid ∧
      (f.entries l.curSlot).seq = (l.flash.entries l.curSlot).seq := by
  obtain ⟨f, t, L, hram, -⟩ := writerDrainBatch_ram l ret hne
  have hkeep := writerDrainBatch_keeps l ret hact hv
  have himage := (writerDrainBatch_issues l ret hne).full
  rw [hram] at hkeep himage
  obtain ⟨c, o, heq, -⟩ := himage.1 l.curSlot hkeep
  refine ⟨f, t, L, hram, hkeep, ?_⟩
  have hseq : (f.entries l.curSlot).seq =
      (((l.drainWrite ret).effect l.flash).entries l.curSlot).seq := by
    have hsame := congrArg DirEntry.seq heq
    exact hsame
  rw [hseq, drainWrite_entries]

theorem drain_settled {s : Threads} (h : Settled s) (ret : Int) :
    Settled { s with log := writerDrainBatch s.log ret, held := false, writer := .test } := by
  obtain ⟨log, held, pump, writer, command, disconnect, accepted, final⟩ := s
  by_cases hzero : u32Sub log.stageHead log.stageTail = 0
  · dsimp only
    rw [writerDrainBatch_empty log ret hzero]
    exact h.keep rfl rfl rfl (fun hoff => (h.stopped hoff).2) h.wiping
  · have hact : log.active = true := by
      by_contra hoff
      exact hzero (h.stopped (by simpa using hoff)).1
    obtain ⟨hv, hseq, hnone, d, hd, hacc⟩ := h.running hact
    have hhead : log.stageHead < 4294967296 := h.head
    have htail : log.stageTail < 4294967296 := h.tail
    have hd' : log.curCount = u32 d := hd
    have hacc' : accepted = d + log.staged := hacc
    have hstaged : log.staged = u32Sub log.stageHead log.stageTail := rfl
    have hnone' : final = none := hnone
    have hle := drainCount_le_staged log
    obtain ⟨f, t, L, hram, hfv, hfseq⟩ := drain_running ret hzero hact hv
    dsimp only
    rw [hram]
    refine ⟨hhead, u32_lt _, fun _ => ⟨hfv, hfseq.trans hseq, hnone, d + log.drainCount, ?_, ?_⟩,
      fun hoff => absurd (hoff.symm.trans hact) (by decide), fun n hn => ?_, h.wiping⟩
    · show u32 (log.curCount + log.drainCount) = u32 (d + log.drainCount)
      rw [hd', u32_u32_add]
    · show accepted = d + log.drainCount + u32Sub log.stageHead (u32 (log.stageTail + log.drainCount))
      rw [u32Sub_advance hhead htail hle]
      omega
    · have hn' : final = some n := hn
      rw [hnone'] at hn'
      exact absurd hn' (by simp)

theorem writer_settled {s s' : Threads} (h : Settled s) {ret : Int}
    (hs : writerStep s ret = some s') : Settled s' := by
  have hkept : ∀ held writer, Settled { s with held := held, writer := writer } := fun held writer =>
    h.keep rfl rfl rfl (fun hoff => (h.stopped hoff).2) h.wiping
  unfold writerStep at hs
  split at hs
  · split at hs
    · obtain rfl := Option.some.inj hs
      exact hkept s.held .tested
    · obtain rfl := Option.some.inj hs
      exact h
  · obtain ⟨-, hs⟩ := Option.ite_none_left_eq_some.mp hs
    obtain rfl := Option.some.inj hs
    exact hkept true .locked
  · obtain rfl := Option.some.inj hs
    exact drain_settled h ret

/-! ## The stop -/

/-- **The close.**  The entry takes the live count, which is that of all records accepted. -/
theorem close_settled {s : Threads} (h : Settled s) (hdrained : s.log.active = true → Drained s) :
    Settled { s with
      log := stopClose s.log
      held := false
      final := if s.log.active then some s.log.curCount else s.final } ∧
      (stopClose s.log).active = false := by
  obtain ⟨log, held, pump, writer, command, disconnect, accepted, final⟩ := s
  by_cases hact : log.active = true
  · obtain ⟨hstaged, hpump, hfits⟩ := hdrained hact
    obtain ⟨hv, hseq, hnone, d, hd, hacc⟩ := h.running hact
    have hstaged' : log.staged = 0 := hstaged
    have hcount : log.curCount = accepted := by
      have hd' : log.curCount = u32 d := hd
      have hacc' : accepted = d + log.staged := hacc
      have hfits' : accepted < 4294967296 := hfits
      rw [hd', u32_of_lt (by omega)]
      omega
    have hclose : stopClose log =
        dirRefreshCurrent { log with active := false, sessionDetached := false } true := if_pos hact
    have heq := hclose.trans (dirRefreshCurrent_eq
      { log with active := false, sessionDetached := false } true hv)
    have hentry : (stopClose log).flash.entries log.curSlot =
        { log.flash.entries log.curSlot with recCount := log.curCount, isOpen := 0 } := by
      rw [heq]
      exact (@effect_writeEntry_entries 0 (by decide) _ _ _ _).trans (if_pos rfl)
    obtain ⟨f, t, L, hram, -⟩ := stopClose_ram log hact
    rw [hram] at hentry
    have hentry' : f.entries log.curSlot =
        { log.flash.entries log.curSlot with recCount := log.curCount, isOpen := 0 } := hentry
    dsimp only
    rw [hram, if_pos hact]
    refine ⟨⟨h.head, h.tail, fun hon => absurd hon Bool.false_ne_true,
      fun _ => ⟨hstaged, hpump⟩, fun n hn => ⟨rfl, ?_⟩, fun _ => rfl⟩, rfl⟩
    obtain rfl := Option.some.inj hn
    refine ⟨?_, ?_, ?_, hcount.symm, rfl⟩
    · show (f.entries log.curSlot).Valid
      rw [hentry']
      exact hv
    · show (f.entries log.curSlot).seq = log.curSeq
      rw [hentry']
      exact hseq
    · show (f.entries log.curSlot).recCount = log.curCount
      rw [hentry']
  · have hoff : log.active = false := by simpa using hact
    dsimp only
    rw [stopClose_inactive log hoff, if_neg hact]
    exact ⟨h.keep rfl rfl rfl (fun hoff => (h.stopped hoff).2) h.wiping, hoff⟩

/-- **One step of a stop**, whoever calls it: where it returns, no session is active. -/
theorem stop_settled {s t : Threads} {p : StopPc} {next : Option StopPc} (h : Settled s)
    (hdrained : p = .locked → s.log.active = true → Drained s)
    (hs : stopStep s p = some (t, next)) :
    Settled t ∧ (next = none → t.log.active = false) ∧ t.command = s.command ∧
      (s.log.active = false → t.log.active = false) := by
  cases p with
  | test =>
    have hs' : (if s.log.active then some (s, some (.flush 0)) else some (s, none)) =
      some (t, next) := hs
    by_cases hact : s.log.active = true
    · rw [if_pos hact] at hs'
      obtain ⟨rfl, rfl⟩ := Prod.mk.inj (Option.some.inj hs')
      exact ⟨h, fun hn => absurd hn (by simp), rfl, fun hoff => hoff⟩
    · rw [if_neg hact] at hs'
      obtain ⟨rfl, rfl⟩ := Prod.mk.inj (Option.some.inj hs')
      exact ⟨h, fun _ => by simpa using hact, rfl, fun hoff => hoff⟩
  | flush i =>
    simp only [stopStep] at hs
    split at hs
    · obtain ⟨rfl, rfl⟩ := Prod.mk.inj (Option.some.inj hs)
      exact ⟨h, fun hn => absurd hn (by simp), rfl, fun hoff => hoff⟩
    · obtain ⟨rfl, rfl⟩ := Prod.mk.inj (Option.some.inj hs)
      exact ⟨h, fun hn => absurd hn (by simp), rfl, fun hoff => hoff⟩
  | close =>
    obtain ⟨-, hs⟩ := Option.ite_none_left_eq_some.mp hs
    obtain ⟨rfl, rfl⟩ := Prod.mk.inj (Option.some.inj hs)
    exact ⟨h.keep rfl rfl rfl (fun hoff => (h.stopped hoff).2) h.wiping,
      fun hn => absurd hn (by simp), rfl, fun hoff => hoff⟩
  | locked =>
    obtain ⟨rfl, rfl⟩ := Prod.mk.inj (Option.some.inj hs)
    obtain ⟨hclosed, hoff⟩ := close_settled h (hdrained rfl)
    exact ⟨hclosed, fun _ => hoff, rfl, fun _ => hoff⟩

theorem command_settled {s s' : Threads} (h : Settled s) (hg : complete s .command = true)
    (hs : commandStep s = some s') : Settled s' := by
  unfold commandStep at hs
  split at hs
  · exact absurd hs (by simp)
  · rename_i p erase hpc
    obtain ⟨⟨t, next⟩, ht, rfl⟩ := Option.map_eq_some_iff.mp hs
    have hdrained : p = .locked → s.log.active = true → Drained s := by
      rintro rfl hact
      simpa [complete, closing, hpc, hact] using hg
    obtain ⟨hset, hret, -, -⟩ := stop_settled h hdrained ht
    refine hset.keep rfl rfl rfl (fun hoff => (hset.stopped hoff).2) fun hw => ?_
    cases next with
    | some p => exact absurd hw (by simp)
    | none => exact hret rfl
  · rename_i hpc
    obtain ⟨-, hs⟩ := Option.ite_none_left_eq_some.mp hs
    obtain rfl := Option.some.inj hs
    have hoff := h.wiping hpc
    refine ⟨h.head, h.tail, fun hon => ?_, fun _ => h.stopped hoff, fun n hn => absurd hn (by simp),
      fun hw => absurd hw (by simp)⟩
    have hon' : s.log.active = true := hon
    rw [hoff] at hon'
    exact absurd hon' Bool.false_ne_true

theorem bt_settled {s s' : Threads} (h : Settled s) (hg : complete s .bt = true)
    (hs : btStep s = some s') : Settled s' := by
  unfold btStep at hs
  split at hs
  · exact absurd hs (by simp)
  · rename_i p hpc
    obtain ⟨⟨t, next⟩, ht, rfl⟩ := Option.map_eq_some_iff.mp hs
    have hdrained : p = .locked → s.log.active = true → Drained s := by
      rintro rfl hact
      simpa [complete, closing, hpc, hact] using hg
    obtain ⟨hset, -, -, -⟩ := stop_settled h hdrained ht
    exact hset.keep rfl rfl rfl (fun hoff => (hset.stopped hoff).2) hset.wiping

/-! ## The start -/

theorem start_session {s : Threads} (h : Settled s) (hidle : s.command = .idle)
    (hoff : s.log.active = false) (st : Stamp) (ret : Int) :
    Settled { s with log := (imuLogStart s.log st ret).1, accepted := 0, final := none } := by
  obtain ⟨log, held, pump, writer, command, disconnect, accepted, final⟩ := s
  have hpump := (h.stopped hoff).2
  have hwiping : ∀ {P : Prop}, command = .wiping → P := fun hw => by
    have hidle' : command = .idle := hidle
    rw [hidle'] at hw
    exact absurd hw (by simp)
  by_cases hret : ret < 0
  · dsimp only
    rw [imuLogStart_fail log st hoff hret]
    exact ⟨h.head, h.head, fun hon => absurd (hoff.symm.trans hon) Bool.false_ne_true,
      fun _ => ⟨u32Sub_self _, hpump⟩, fun n hn => absurd hn (by simp), hwiping⟩
  · dsimp only
    rw [imuLogStart_ok log st hoff hret]
    have hentry : ((Ev.writeEntry (slotOf log.seqNext) (newEntry log.seqNext log.totalAbs st)
        ret).effect log.flash).entries (slotOf log.seqNext) =
          newEntry log.seqNext log.totalAbs st :=
      (effect_writeEntry_entries hret _ _ _ _).trans (if_pos rfl)
    refine ⟨h.head, h.head, fun _ => ⟨?_, ?_, rfl, 0, rfl, ?_⟩,
      fun hoff' => absurd hoff' (by simp), fun n hn => absurd hn (by simp), hwiping⟩
    · show (((Ev.writeEntry (slotOf log.seqNext) (newEntry log.seqNext log.totalAbs st)
        ret).effect log.flash).entries (slotOf log.seqNext)).Valid
      rw [hentry]
      exact rfl
    · show (((Ev.writeEntry (slotOf log.seqNext) (newEntry log.seqNext log.totalAbs st)
        ret).effect log.flash).entries (slotOf log.seqNext)).seq = log.seqNext
      rw [hentry]
      rfl
    · show 0 = 0 + u32Sub log.stageHead log.stageHead
      rw [u32Sub_self]

/-- **Step lemma.** -/
theorem step_settled {s s' : Threads} {e : Event} (h : Settled s) (hg : complete s e = true)
    (hs : Step s e s') : Settled s' := by
  have hpump := fun hoff => (h.stopped hoff).2
  cases e with
  | append xs =>
    obtain ⟨-, hs⟩ := Option.ite_none_right_eq_some.mp hs
    by_cases hact : s.log.active = true
    · rw [if_pos hact] at hs
      obtain rfl := Option.some.inj hs
      refine h.keep rfl rfl rfl (fun hoff => ?_) h.wiping
      exact absurd (hoff.symm.trans hact) Bool.false_ne_true
    · rw [if_neg hact] at hs
      obtain rfl := Option.some.inj hs
      exact h
  | stage => exact stage_settled h hs
  | appended =>
    obtain ⟨-, hs⟩ := Option.ite_none_right_eq_some.mp hs
    obtain rfl := Option.some.inj hs
    exact h.keep rfl rfl rfl (fun _ => Or.inl rfl) h.wiping
  | writer ret => exact writer_settled h hs
  | start st ret =>
    obtain ⟨⟨hidle, -⟩, hs⟩ := Option.ite_none_right_eq_some.mp hs
    by_cases hact : s.log.active = true
    · rw [if_pos hact] at hs
      obtain rfl := Option.some.inj hs
      exact h
    · rw [if_neg hact] at hs
      obtain rfl := Option.some.inj hs
      exact start_session h hidle (by simpa using hact) st ret
  | stop erase =>
    obtain ⟨-, hs⟩ := Option.ite_none_right_eq_some.mp hs
    obtain rfl := Option.some.inj hs
    exact h.keep rfl rfl rfl hpump fun hw => absurd hw (by simp)
  | command => exact command_settled h hg hs
  | disconnect =>
    obtain ⟨-, hs⟩ := Option.ite_none_right_eq_some.mp hs
    obtain rfl := Option.some.inj hs
    exact h.keep rfl rfl rfl hpump h.wiping
  | bt => exact bt_settled h hg hs

/-! ## A closed session is final -/

/-- A start or the wipe of an erase. -/
def reopens (s : Threads) : Event → Prop
  | .start _ _ => True
  | .command => s.command = .wiping
  | _ => False

/-- A stop that finds no session leaves the last one as it is. -/
theorem stopStep_final {s t : Threads} {p : StopPc} {next : Option StopPc}
    (hoff : s.log.active = false) (hs : stopStep s p = some (t, next)) : t.final = s.final := by
  have hno : ¬ s.log.active = true := by simp [hoff]
  cases p with
  | test =>
    simp only [stopStep, if_neg hno] at hs
    obtain ⟨rfl, -⟩ := Prod.mk.inj (Option.some.inj hs)
    rfl
  | flush i =>
    simp only [stopStep] at hs
    split at hs
    · obtain ⟨rfl, -⟩ := Prod.mk.inj (Option.some.inj hs)
      rfl
    · obtain ⟨rfl, -⟩ := Prod.mk.inj (Option.some.inj hs)
      rfl
  | close =>
    obtain ⟨-, hs⟩ := Option.ite_none_left_eq_some.mp hs
    obtain ⟨rfl, -⟩ := Prod.mk.inj (Option.some.inj hs)
    rfl
  | locked =>
    obtain ⟨rfl, -⟩ := Prod.mk.inj (Option.some.inj hs)
    exact if_neg hno

/-- Only a start or an erase ends the count of a closed session. -/
theorem final_kept {s s' : Threads} {e : Event} {n : Nat} (hoff : s.log.active = false)
    (hf : s.final = some n) (hs : Step s e s') : s'.final = some n ∨ reopens s e := by
  have hno : ¬ s.log.active = true := by simp [hoff]
  cases e with
  | append xs =>
    obtain ⟨-, hs⟩ := Option.ite_none_right_eq_some.mp hs
    rw [if_neg hno] at hs
    obtain rfl := Option.some.inj hs
    exact Or.inl hf
  | stage =>
    simp only [Step, step, stageStep] at hs
    split at hs
    · obtain rfl := Option.some.inj hs
      exact Or.inl hf
    · exact absurd hs (by simp)
  | appended =>
    obtain ⟨-, hs⟩ := Option.ite_none_right_eq_some.mp hs
    obtain rfl := Option.some.inj hs
    exact Or.inl hf
  -- without a session the writer counts nothing
  | writer ret =>
    simp only [Step, step, writerStep] at hs
    split at hs
    · rw [if_neg fun hc => hno hc.1] at hs
      obtain rfl := Option.some.inj hs
      exact Or.inl hf
    · obtain ⟨-, hs⟩ := Option.ite_none_left_eq_some.mp hs
      obtain rfl := Option.some.inj hs
      exact Or.inl hf
    · obtain rfl := Option.some.inj hs
      exact Or.inl hf
  | start st ret => exact Or.inr trivial
  | stop erase =>
    obtain ⟨-, hs⟩ := Option.ite_none_right_eq_some.mp hs
    obtain rfl := Option.some.inj hs
    exact Or.inl hf
  | command =>
    simp only [Step, step, commandStep] at hs
    split at hs
    · exact absurd hs (by simp)
    · obtain ⟨⟨t, next⟩, ht, rfl⟩ := Option.map_eq_some_iff.mp hs
      exact Or.inl ((stopStep_final hoff ht).trans hf)
    · rename_i hpc
      exact Or.inr hpc
  | disconnect =>
    obtain ⟨-, hs⟩ := Option.ite_none_right_eq_some.mp hs
    obtain rfl := Option.some.inj hs
    exact Or.inl hf
  | bt =>
    simp only [Step, step, btStep] at hs
    split at hs
    · exact absurd hs (by simp)
    · obtain ⟨⟨t, next⟩, ht, rfl⟩ := Option.map_eq_some_iff.mp hs
      exact Or.inl ((stopStep_final hoff ht).trans hf)

/-- The close of a session leaves its count. -/
theorem closing_final {s s' : Threads} {e : Event} (hc : closing s e = true) (hs : Step s e s') :
    s'.final = some s.log.curCount := by
  cases e with
  | command =>
    simp only [Step, step, commandStep] at hs
    simp only [closing] at hc
    split at hc
    · rename_i erase hpc
      rw [hpc] at hs
      obtain rfl := Option.some.inj hs
      exact if_pos hc
    · exact absurd hc Bool.false_ne_true
  | bt =>
    simp only [Step, step, btStep] at hs
    simp only [closing] at hc
    split at hc
    · rename_i hpc
      rw [hpc] at hs
      obtain rfl := Option.some.inj hs
      exact if_pos hc
    · exact absurd hc Bool.false_ne_true
  | _ => exact absurd hc Bool.false_ne_true

/-- **A stopped session is final and complete**, in every interleaving in which a stop closes a session
    only with nothing staged and no append under way: the close leaves a count, and from there until
    the next start or erase the entry, the records accepted for the session and
    `imu_log_records_total` agree on it. -/
theorem stopped_final {s : Threads}
    (h : Reach Start (guarded (fun s e => complete s e = true) Step) s) :
    (∀ e s', closing s e = true → Step s e s' → s'.final = some s.log.curCount) ∧
      ∀ n, s.final = some n →
        Final s n ∧ ∀ e s', Step s e s' → s'.final = some n ∨ reopens s e := by
  have hset : Settled s := by
    refine h.invariant (fun _ h0 => start_settled h0) ?_
    rintro s e s' - hi ⟨hg, hst⟩
    exact step_settled hi hg hst
  refine ⟨fun e s' hc hs => closing_final hc hs, fun n hf => ?_⟩
  obtain ⟨hoff, hfinal⟩ := hset.final n hf
  exact ⟨hfinal, fun e s' hs => final_kept hoff hf hs⟩

/-- What a run comes to, as far as it can be printed. -/
def comesTo (g : Threads → Event → Bool) (es : List Event) (final : Option Nat)
    (accepted entry : Nat) : Bool :=
  (es.foldlM (fun s e => if g s e then step s e else none)
    ⟨bootLog Flash.blank, false, none, .test, .idle, none, 0, none⟩).any fun s : Threads =>
      decide (s.final = final ∧ s.accepted = accepted ∧
        (s.log.flash.entries s.log.curSlot).recCount = entry)

/-- Two records are appended, drained, and the session stopped. -/
theorem stopped_final_two : ∃ s : Threads, Final s 2 ∧ s.final = some 2 := by
  have hrun : comesTo complete
      ([.start Stamp.zero 0, .append [default, default], .stage, .stage, .appended, .writer 0,
        .writer 0, .writer 0, .stop false] ++ List.replicate 4 .command) (some 2) 2 2 = true := by
    decide +kernel
  obtain ⟨s, hs, hout⟩ := (Option.any_eq_true _ _).mp hrun
  have hfinal := (of_decide_eq_true hout).1
  have hclosed := (stopped_final (Reach.runGuarded (.start ⟨_, rfl⟩) hs)).2 2 hfinal
  exact ⟨s, hclosed.1, hfinal⟩

/-- **A late append.**  The pump appends between the flush and the close: the session is closed with
    count 0 and the record staged for it is never written. -/
theorem late_append :
    ¬ ∀ s, Reach Start Step s → ∀ n, s.final = some n → Final s n := by
  intro hall
  have hrun : comesTo (fun _ _ => true)
      [.start Stamp.zero 0, .stop false, .command, .command, .append [default], .stage, .appended,
        .command, .command] (some 0) 1 0 = true := by
    decide +kernel
  obtain ⟨s, hs, hout⟩ := (Option.any_eq_true _ _).mp hrun
  obtain ⟨hfinal, hacc, -⟩ := of_decide_eq_true hout
  have hf := hall s (Reach.run (fun _ _ _ hst => hst) (.start ⟨_, rfl⟩) hs) 0 hfinal
  exact absurd (hf.accepted.symm.trans hacc) (by decide)

end Caterpillar.ImuLog.Stopping
