/-
  `robot_collect` with `--erase` (scripts/fleet.py) against the device it talks to.

  The host writes STOP, sleeps 0.3 s, reads the session directory, dumps `sessions[0]` and writes ERASE.
  Each write of 0xFFEA only queues a command; the device executes it when it gets there.

  1. `Collection` — the log with its writer thread, the command queue and the command being executed, the
     host and its dump.  `executeLog` is what `execute` (app/device_cmd.c) does to the log.
  2. `Inv` — **the invariant**: from a directory read on that finds the device settled, nothing changes
     the log until the ERASE is executed.
  3. `collected` — so no record of the newest session is erased undumped if the directory is read from a
     settled device and no chunk is missing; `stop_still_queued` is a run that reads it too early.
-/
import Caterpillar.App.Session
import Caterpillar.Ble.DumpLog
import Caterpillar.Host.Reassembly
import Caterpillar.ImuLog.Listing

namespace Caterpillar.Host.Collect

open Caterpillar.Word Caterpillar.Ring Caterpillar.Runs Caterpillar.Slice Caterpillar.Imu Caterpillar.ImuLog
open Caterpillar.App (DeviceCmd Board cmdQueueDepth execute opStop opStart opErase opStartDetached startLog
  onLogStarted_frame onLogStopped_frame)
open Caterpillar.Ble.Dump (DumpJob DumpChunk)
open Caterpillar.Ble.DumpLog (sound)

/-! ## Host and device -/

/-- `Session.bytes`. -/
def bytes (sess : ImuLogSession) : Nat := sess.recCount * recSize

/-- Where `robot_collect` is. -/
inductive HostPc where
  /-- About to write STOP. -/
  | connected
  /-- STOP is acknowledged. -/
  | sleeping
  /-- Waiting for `sink.done`. -/
  | dumping (sess : ImuLogSession)
  /-- ERASE is acknowledged. -/
  | erasing (sess : ImuLogSession)
  /-- Returned, or raised. -/
  | ended
  deriving DecidableEq

/-- The device and the host. -/
structure Collection where
  log : Log
  journal : Journal
  /-- `writer_thread` is about to call `writer_drain_batch`. -/
  writing : Bool
  cmdMsgq : List DeviceCmd
  /-- The command in `execute`. -/
  executing : Option DeviceCmd
  host : HostPc
  sink : DumpSink
  /-- The dump requests the device has not given up. -/
  jobs : List DumpJob
  /-- The chunks delivered while the host was not done. -/
  delivered : List DumpChunk

/-- What can happen. -/
inductive Event where
  /-- `imu_log_append`. -/
  | append (xs : List ImuSample)
  /-- The test of the writer's inner loop succeeds. -/
  | wake
  /-- `writer_drain_batch`. -/
  | drain (ret : Int)
  /-- `k_msgq_get`. -/
  | takeCmd
  /-- `execute` is through; a session start gets this stamp, and this from its entry write. -/
  | execute (st : Stamp) (ret : Int)
  /-- The host writes STOP. -/
  | stop
  /-- It reads the directory and requests the dump. -/
  | readDir
  /-- The next chunk of the `k`-th request is sent and arrives. -/
  | deliver (k : Nat)
  /-- The next chunk of the `k`-th request is sent and is lost. -/
  | lose (k : Nat)
  /-- The device gives the `k`-th request up. -/
  | giveUp (k : Nat)
  /-- The host asks for the rest. -/
  | resume
  /-- The host writes ERASE. -/
  | erase
  /-- The dump fails. -/
  | quit

/-- The call a command makes into the log. -/
def logCall (cmd : DeviceCmd) (st : Stamp) (ret : Int) : Option Op :=
  match cmd with
  | .setVoltMv _ => none
  | .log op =>
      if op = opStop then some .stop
      else if op = opStart ∨ op = opStartDetached then some (.start st ret)
      else if op = opErase then some .erase
      else none

/-- A session is detached when its start succeeded. -/
def detaches (s : Log) (cmd : DeviceCmd) (st : Stamp) (ret : Int) : Bool :=
  decide (cmd = .log opStartDetached) && decide ((imuLogStart s st ret).2 = 0)

/-- `execute`, on the log. -/
def executeLog (s : Log) (cmd : DeviceCmd) (st : Stamp) (ret : Int) : Log :=
  match logCall cmd st ret with
  | none => s
  | some o => if detaches s cmd st ret then imuLogMarkDetached (exec s o) else exec s o

/-- A call into the log. -/
def Collection.call (c : Collection) (o : Op) : Collection :=
  { c with log := exec c.log o, journal := c.journal.record c.log o }

/-- A command is executed. -/
def Collection.executed (c : Collection) (cmd : DeviceCmd) (st : Stamp) (ret : Int) : Collection :=
  { c with
    log := executeLog c.log cmd st ret
    journal := match logCall cmd st ret with
      | none => c.journal
      | some o => c.journal.record c.log o
    executing := none }

/-- A write of 0xFFEA: the command is queued, or the write fails and `robot_collect` with it. -/
def Collection.submit (c : Collection) (op : UInt8) (next : HostPc) : Collection :=
  if c.cmdMsgq.length < cmdQueueDepth then
    { c with cmdMsgq := c.cmdMsgq ++ [.log op], host := next }
  else { c with host := .ended }

/-- The chunk the device sends next for a request. -/
def Collection.chunk (c : Collection) (j : DumpJob) : DumpChunk :=
  j.chunk (imuLogReadSession c.log j.session j.off j.want)

/-- The requests once the `k`-th has sent that chunk. -/
def Collection.sent (c : Collection) (k : Nat) (j : DumpJob) : List DumpJob :=
  if (c.chunk j).last then c.jobs.eraseIdx k
  else c.jobs.set k (j.advance (c.chunk j).data.length)

/-- `sessions[0]` of the directory, if there is anything to dump. -/
def newest (s : Log) : Option ImuLogSession :=
  (imuLogSessionList s 16).head?.filter fun sess => sess.recCount ≠ 0

/-- One step; `none` where it cannot happen. -/
def step (c : Collection) : Event → Option Collection
  | .append xs => some (c.call (.append xs))
  | .wake =>
      if c.log.active = true ∧ c.log.stageHead ≠ c.log.stageTail then some { c with writing := true }
      else none
  | .drain ret => if c.writing then some { c.call (.drain ret) with writing := false } else none
  | .takeCmd =>
      match c.executing, c.cmdMsgq with
      | none, cmd :: rest => some { c with executing := some cmd, cmdMsgq := rest }
      | _, _ => none
  | .execute st ret => c.executing.map fun cmd => c.executed cmd st ret
  | .stop => if c.host = .connected then some (c.submit opStop .sleeping) else none
  | .readDir =>
      if c.host = .sleeping then
        match newest c.log with
        | none => some { c with host := .ended }
        | some sess => some { c with
            host := .dumping sess
            sink := DumpSink.init (bytes sess)
            jobs := [⟨sess.seq, 0, bytes sess⟩]
            delivered := [] }
      else none
  | .deliver k =>
      match c.jobs[k]? with
      | none => none
      | some j =>
          if 0 < j.remaining then
            some { c with
              sink := c.sink.onChunk (c.chunk j)
              jobs := c.sent k j
              delivered := if c.sink.done then c.delivered else c.delivered ++ [c.chunk j] }
          else none
  | .lose k =>
      match c.jobs[k]? with
      | none => none
      | some j => if 0 < j.remaining then some { c with jobs := c.sent k j } else none
  | .giveUp k => some { c with jobs := c.jobs.eraseIdx k }
  | .resume =>
      match c.host with
      | .dumping sess =>
          if c.sink.done then none
          else some { c with
            jobs := c.jobs ++ [⟨sess.seq, c.sink.maxEnd, bytes sess - c.sink.maxEnd⟩] }
      | _ => none
  | .erase =>
      match c.host with
      | .dumping sess => if c.sink.done then some (c.submit opErase (.erasing sess)) else none
      | _ => none
  | .quit =>
      match c.host with
      | .dumping _ => some { c with host := .ended }
      | _ => none

/-- The step relation. -/
def Step (c : Collection) (e : Event) (c' : Collection) : Prop := step c e = some c'

/-- Any device that has been logging, with anything in its queue, and a host that has just connected. -/
def Start (c : Collection) : Prop :=
  (∃ flag, Reach Fresh (guarded sound DeviceStep)
    (.on { c.log with sessionDetached := flag } c.journal)) ∧ c.host = .connected

/-- No flash write fails and the counter is at most 2^28. -/
def writes (c : Collection) : Event → Prop
  | .drain ret => 0 ≤ ret ∧ Low c.log (.drain ret)
  | .execute _ ret => 0 ≤ ret
  | _ => True

/-- No command is pending and the writer has nothing in hand. -/
def Collection.settled (c : Collection) : Prop :=
  c.executing = none ∧ c.cmdMsgq = [] ∧ c.writing = false

/-- What the device has of a session. -/
def content (s : Log) (sess : ImuLogSession) : List UInt8 :=
  imuLogReadSession s sess.seq 0 (bytes sess)

/-- The directory is read from a settled device, and every byte that no chunk delivered is 0. -/
def careful (c : Collection) : Event → Prop
  | .readDir => c.settled
  | .erase => ∀ sess, c.host = .dumping sess → ∀ i, i < bytes sess → ¬ Covered c.delivered i →
      (content c.log sess)[i]? = some 0
  | _ => True

/-- While the ERASE of `robot_collect` is executed: what the newest session holds is in the buffer. -/
def Saved (c : Collection) : Prop :=
  ∀ sess, c.host = .erasing sess → c.executing = some (.log opErase) →
    ∀ i, i < maxSessions → (c.log.flash.entries i).Valid →
      (∀ k, k < maxSessions → (c.log.flash.entries k).Valid →
        (c.log.flash.entries k).seq ≤ (c.log.flash.entries i).seq) →
      recordBytes (c.log.readable i (c.journal.drained (c.log.flash.entries i).seq)) <:+: c.sink.buf

/-- `executeLog` is what `execute` does. -/
theorem execute_log (b : Board) (cmd : DeviceCmd) (ret : Int) (h : b.log.trace = []) :
    (execute b cmd ret).log = executeLog b.log cmd b.stamp ret := by
  have hfresh : { b.log with trace := [] } = b.log := by rw [← h]
  have hexec : ∀ o, exec b.log o = runOp b.log o := by
    intro o
    unfold exec
    rw [hfresh]
  cases cmd with
  | setVoltMv v =>
    show (if ret < 0 then b else _).log = b.log
    split
    · rfl
    · rfl
  | log op =>
    unfold execute executeLog logCall detaches
    dsimp only
    by_cases hstop : op = opStop
    · subst hstop
      rw [if_pos rfl, if_pos rfl, (onLogStopped_frame _).1]
      simp only [hexec]
      rfl
    · rw [if_neg hstop, if_neg hstop]
      by_cases hstart : op = opStart
      · subst hstart
        rw [if_pos rfl, if_pos (Or.inl rfl)]
        simp only [hexec]
        have hnot : ¬ DeviceCmd.log opStart = .log opStartDetached := by decide
        rw [decide_eq_false hnot, Bool.false_and]
        show (if (startLog b ret).2 = 0 then _ else _ : Board).log = (startLog b ret).1.log
        split
        · exact (onLogStarted_frame _).1
        · rfl
      · rw [if_neg hstart]
        by_cases hdet : op = opStartDetached
        · subst hdet
          rw [if_pos rfl, if_pos (Or.inr rfl)]
          simp only [hexec]
          show (if (startLog b ret).2 = 0 then _ else _ : Board).log =
            if (true && decide ((startLog b ret).2 = 0)) = true then _ else _
          rw [Bool.true_and]
          by_cases hret : (startLog b ret).2 = 0
          · rw [if_pos hret, (onLogStarted_frame _).1, if_pos (decide_eq_true hret)]
            rfl
          · rw [if_neg hret, decide_eq_false hret]
            rfl
        · rw [if_neg hdet, if_neg (not_or.mpr ⟨hstart, hdet⟩)]
          by_cases herase : op = opErase
          · subst herase
            rw [if_pos rfl, if_pos rfl]
            simp only [hexec]
            rfl
          · rw [if_neg herase, if_neg herase]

/-! ## The log -/

/-- The log keeps its directory and its records, and the counter is at most 2^28. -/
structure Sound (s : Log) (drained : Nat → List ImuSample) : Prop where
  filed : s.Filed
  kept : s.Kept drained
  low : s.totalAbs ≤ 268435456

/-- None of this is about the detached flag. -/
theorem Sound.flag {s : Log} {drained : Nat → List ImuSample} {b : Bool}
    (h : Sound { s with sessionDetached := b } drained) (b' : Bool) :
    Sound { s with sessionDetached := b' } drained where
  filed := {
    total := h.filed.total
    next := h.filed.next
    head := h.filed.head
    tail := h.filed.tail
    count := h.filed.count
    plain := h.filed.plain
    entries := h.filed.entries
    bound := fun hb => ⟨(h.filed.bound hb).slot, (h.filed.bound hb).entry⟩
    running := h.filed.running }
  kept := ⟨h.kept.stored, h.kept.live⟩
  low := h.low

theorem Sound.exec {s : Log} {j : Journal} (h : Sound s j.drained) {o : Op} (hok : o.Ok)
    (hlow : Low s o) : Sound (exec s o) (j.record s o).drained where
  filed := exec_filed h.filed o (hlow.room h.filed)
  kept := exec_kept h.filed h.kept o (hlow.room h.filed) hok
  low := exec_low h.low hlow

/-- Appending and draining neither open nor close a session. -/
theorem logging_active {s : Log} {o : Op} (ho : Ble.DumpLog.Logging o) :
    (exec s o).active = s.active := by
  have hout := exec_cases s o
  generalize exec s o = s' at hout
  rcases ho with ⟨xs, rfl⟩ | ⟨ret, rfl⟩
  · cases hout with
    | idle _ => rfl
    | staged ha =>
      obtain ⟨g, hd, d, hram⟩ := appendFold_ram s xs
      rw [hram]
  · cases hout with
    | idle _ => rfl
    | wrote hne hg hk hL => rfl

/-- Without a session an append does nothing. -/
theorem append_inactive {s : Log} (ha : s.active = false) (j : Journal) (xs : List ImuSample) :
    exec s (.append xs) = { s with trace := [] } ∧ j.record s (.append xs) = j := by
  have hnot : ¬ s.active = true := by
    rw [ha]
    decide
  exact ⟨if_neg hnot, if_neg hnot⟩

theorem stop_inactive (s : Log) : (exec s .stop).active = false := by
  have hout := exec_cases s .stop
  generalize exec s .stop = s' at hout
  cases hout with
  | idle hidle =>
    rcases hidle with ⟨st, ret, heq, -⟩ | ⟨xs, heq, -⟩ | ⟨ret, heq, -⟩ | ⟨-, ha⟩
    · exact absurd heq (by simp)
    · exact absurd heq (by simp)
    · exact absurd heq (by simp)
    · exact ha
  | closed ha hg => rfl

/-! ## The newest session -/

section

variable {s : Log} {drained : Nat → List ImuSample} (h : Sound s drained)

include h

/-- The session the host dumps is the newest of those that have something to dump. -/
theorem newest_some {sess : ImuLogSession} (hnew : newest s = some sess) :
    ∃ i, i < maxSessions ∧ (s.flash.entries i).Valid ∧ sess.seq = (s.flash.entries i).seq ∧
      sess.recCount = s.readableCount i ∧
      ∀ k, k < maxSessions → (s.flash.entries k).Valid → 0 < s.readableCount k →
        (s.flash.entries k).seq ≤ sess.seq := by
  unfold newest at hnew
  obtain ⟨hhead, -⟩ := Option.filter_eq_some_iff.mp hnew
  rw [sessionList_all s (Int.le_refl 16)] at hhead
  have hsorted := newestFirst_pairwise (listed_ids h.filed)
  have hmem : ∀ e, e ∈ newestFirst ((List.range maxSessions).filterMap s.listSlot) ↔
      ∃ i, i < maxSessions ∧ s.listSlot i = some e := by
    intro e
    rw [(newestFirst_perm _).mem_iff, List.mem_filterMap]
    simp only [List.mem_range]
  generalize newestFirst ((List.range maxSessions).filterMap s.listSlot) = l at hhead hsorted hmem
  obtain ⟨rest, rfl⟩ := List.head?_eq_some_iff.mp hhead
  obtain ⟨i, hi, hslot⟩ := (hmem sess).mp List.mem_cons_self
  obtain ⟨hv, hseq, hcount⟩ := listSlot_some h.filed hi hslot
  refine ⟨i, hi, hv, hseq, hcount, ?_⟩
  intro k hk hvk hpos
  have hshown : ¬ (s.flash.entries k).startRec + s.liveCount k ≤ s.ringFloor := by
    have hfloor := (le_clippedStart s k).2.1
    unfold Log.readableCount at hpos
    omega
  have hslotk := listSlot_eq h.filed hk hvk
  rw [if_neg hshown] at hslotk
  rcases List.mem_cons.mp ((hmem _).mpr ⟨k, hk, hslotk⟩) with heq | hrest
  · rw [← heq]
  · exact Nat.le_of_lt ((List.pairwise_cons.mp hsorted).1 _ hrest)

/-- What the device has of it is what was drained for it, as far as the ring goes back. -/
theorem content_eq {i : Nat} (hi : i < maxSessions) (hv : (s.flash.entries i).Valid)
    {sess : ImuLogSession} (hseq : sess.seq = (s.flash.entries i).seq)
    (hcount : sess.recCount = s.readableCount i) :
    content s sess = recordBytes (s.readable i (drained (s.flash.entries i).seq)) ∧
      (content s sess).length = bytes sess := by
  have hbytes : bytes sess = 16 * s.readableCount i := by
    unfold bytes
    rw [hcount, recSize_eq, Nat.mul_comm]
  obtain ⟨hdata, hlen⟩ := dump_exact h.filed h.kept h.low hi hv 0 (bytes sess)
  unfold content
  rw [hseq]
  constructor
  · rw [hdata, List.drop_zero]
    apply List.take_of_length_le
    rw [recordBytes_length, hbytes]
    unfold Log.readable Log.readableCount
    have hclip := (le_clippedStart s i).1
    rw [List.length_drop, List.length_take]
    omega
  · rw [hlen, hbytes, Nat.sub_zero, Nat.min_self]

/-- The chunks of its dump are chunks of that. -/
theorem chunk_eq {sess : ImuLogSession} (hnew : newest s = some sess) {j : DumpJob}
    (hj : j.session = sess.seq) :
    j.chunk (imuLogReadSession s j.session j.off j.want) = nextChunk (content s sess) j := by
  obtain ⟨i, hi, hv, hseq, hcount, -⟩ := newest_some h hnew
  obtain ⟨hcontent, -⟩ := content_eq h hi hv hseq hcount
  unfold nextChunk
  rw [hj, hseq, (dump_exact h.filed h.kept h.low hi hv j.off j.want).1, hcontent]

theorem content_length {sess : ImuLogSession} (hnew : newest s = some sess) :
    (content s sess).length = bytes sess := by
  obtain ⟨i, hi, hv, hseq, hcount, -⟩ := newest_some h hnew
  exact (content_eq h hi hv hseq hcount).2

/-- And nothing else is newest. -/
theorem newest_covers {sess : ImuLogSession} (hnew : newest s = some sess) {i : Nat}
    (hi : i < maxSessions) (hv : (s.flash.entries i).Valid)
    (hmax : ∀ k, k < maxSessions → (s.flash.entries k).Valid →
      (s.flash.entries k).seq ≤ (s.flash.entries i).seq) :
    recordBytes (s.readable i (drained (s.flash.entries i).seq)) <:+: content s sess := by
  obtain ⟨k, hk, hvk, hseq, hcount, hfirst⟩ := newest_some h hnew
  rcases Nat.eq_zero_or_pos (s.readableCount i) with hzero | hpos
  · -- an empty session has no bytes
    have hnil : recordBytes (s.readable i (drained (s.flash.entries i).seq)) = [] := by
      apply List.eq_nil_of_length_eq_zero
      rw [recordBytes_length]
      unfold Log.readableCount at hzero
      have hclip := (le_clippedStart s i).1
      unfold Log.readable
      rw [List.length_drop, List.length_take]
      omega
    rw [hnil]
    exact List.nil_infix
  · have hsame : (s.flash.entries k).seq = (s.flash.entries i).seq := by
      apply Nat.le_antisymm (hmax k hk hvk)
      rw [← hseq]
      exact hfirst i hi hv hpos
    have hslot : k = i := by
      rw [← (h.filed.entries k hk hvk).slot, hsame, (h.filed.entries i hi hv).slot]
    subst hslot
    rw [(content_eq h hk hvk hseq hcount).1]

end

/-! ## The invariant -/

/-- The STOP is queued, is being executed, or is through. -/
def Stopping (c : Collection) : Prop :=
  (∃ q, c.cmdMsgq = q ++ [.log opStop]) ∨
  (c.cmdMsgq = [] ∧ (c.executing = some (.log opStop) ∨
    c.executing = none ∧ c.log.active = false))

/-- Nothing but a command changes the log any more. -/
structure Fixed (c : Collection) (sess : ImuLogSession) : Prop where
  inactive : c.log.active = false
  quiet : c.writing = false
  first : newest c.log = some sess

/-- The dump goes on. -/
structure Dumping (c : Collection) (sess : ImuLogSession) : Prop where
  idle : c.executing = none ∧ c.cmdMsgq = []
  fixed : Fixed c sess
  jobs : ∀ j ∈ c.jobs, j.session = sess.seq
  total : c.sink.total = bytes sess
  shows : Shows (content c.log sess) c.delivered c.sink.buf

/-- The ERASE is through, or the dump is what it is going to erase. -/
def Erasing (c : Collection) (sess : ImuLogSession) : Prop :=
  (c.executing = none ∧ c.cmdMsgq = []) ∨
  ((c.executing = none ∧ c.cmdMsgq = [.log opErase] ∨
      c.executing = some (.log opErase) ∧ c.cmdMsgq = []) ∧
    Fixed c sess ∧ c.sink.done = true ∧ c.sink.buf = content c.log sess)

/-- The invariant. -/
structure Inv (c : Collection) : Prop where
  sound : Sound c.log c.journal.drained
  sleeping : c.host = .sleeping → Stopping c
  dumping : ∀ sess, c.host = .dumping sess → Dumping c sess
  erasing : ∀ sess, c.host = .erasing sess → Erasing c sess

/-- Nothing is said of a host that has ended. -/
theorem Inv.ended {c : Collection} (h : Sound c.log c.journal.drained) (hhost : c.host = .ended) :
    Inv c where
  sound := h
  sleeping := fun hpc => by simp [hhost] at hpc
  dumping := fun sess hpc => by simp [hhost] at hpc
  erasing := fun sess hpc => by simp [hhost] at hpc

theorem start_inv {c : Collection} (h : Start c) : Inv c := by
  obtain ⟨⟨flag, hreach⟩, hhost⟩ := h
  obtain ⟨hf, hl, hk⟩ := reach_kept (fun _ _ hg => hg) hreach
  have hsound : Sound { c.log with sessionDetached := flag } c.journal.drained := ⟨hf, hk, hl⟩
  exact {
    sound := hsound.flag c.log.sessionDetached
    sleeping := fun hpc => by simp [hhost] at hpc
    dumping := fun sess hpc => by simp [hhost] at hpc
    erasing := fun sess hpc => by simp [hhost] at hpc }

/-- The log and its writer move, without opening or closing a session.  Once the log is fixed, only the
    trace of the last call is new. -/
theorem logging_inv {c : Collection} (h : Inv c) {s : Log} {j : Journal} {w : Bool}
    (hsound : Sound s j.drained) (hactive : s.active = c.log.active)
    (hfixed : c.log.active = false → c.writing = false →
      (∃ t, s = { c.log with trace := t }) ∧ w = false) :
    Inv { c with log := s, journal := j, writing := w } where
  sound := hsound
  sleeping := by
    intro hpc
    rcases h.sleeping hpc with hq | ⟨hq, hdone⟩
    · exact Or.inl hq
    · refine Or.inr ⟨hq, hdone.imp_right ?_⟩
      rintro ⟨hexec, ha⟩
      exact ⟨hexec, hactive.trans ha⟩
  dumping := by
    intro sess hpc
    obtain ⟨hidle, hfix, hjobs, htotal, hshows⟩ := h.dumping sess hpc
    obtain ⟨⟨t, rfl⟩, rfl⟩ := hfixed hfix.inactive hfix.quiet
    exact ⟨hidle, ⟨hfix.inactive, rfl, hfix.first⟩, hjobs, htotal, hshows⟩
  erasing := by
    intro sess hpc
    rcases h.erasing sess hpc with hover | ⟨hpending, hfix, hdone, hbuf⟩
    · exact Or.inl hover
    · obtain ⟨⟨t, rfl⟩, rfl⟩ := hfixed hfix.inactive hfix.quiet
      exact Or.inr ⟨hpending, ⟨hfix.inactive, rfl, hfix.first⟩, hdone, hbuf⟩

theorem append_inv {c : Collection} (h : Inv c) (xs : List ImuSample) :
    Inv (c.call (.append xs)) := by
  unfold Collection.call
  refine logging_inv h (h.sound.exec (o := .append xs) trivial trivial)
    (logging_active (Or.inl ⟨xs, rfl⟩)) ?_
  intro ha hquiet
  exact ⟨⟨[], (append_inactive ha c.journal xs).1⟩, hquiet⟩

theorem wake_inv {c : Collection} (h : Inv c) (ha : c.log.active = true) :
    Inv { c with writing := true } :=
  logging_inv h h.sound rfl fun hinactive _ => Log.not_active hinactive ha

theorem drain_inv {c : Collection} (h : Inv c) {ret : Int} (hw : writes c (.drain ret))
    (hwriting : c.writing = true) : Inv { c.call (.drain ret) with writing := false } := by
  have hactive : (exec c.log (.drain ret)).active = c.log.active := logging_active (Or.inr ⟨ret, rfl⟩)
  have hsound := h.sound.exec (o := .drain ret) hw.1 hw.2
  unfold Collection.call
  dsimp only
  generalize exec c.log (.drain ret) = s at hactive hsound ⊢
  refine logging_inv h hsound hactive ?_
  intro _ hquiet
  rw [hwriting] at hquiet
  exact absurd hquiet (by decide)

theorem takeCmd_inv {c : Collection} (h : Inv c) {cmd : DeviceCmd} {rest : List DeviceCmd}
    (hexec : c.executing = none) (hq : c.cmdMsgq = cmd :: rest) :
    Inv { c with executing := some cmd, cmdMsgq := rest } where
  sound := h.sound
  sleeping := by
    intro hpc
    rcases h.sleeping hpc with ⟨q, hstop⟩ | ⟨hnil, -⟩
    · rw [hq] at hstop
      cases q with
      | nil =>
        obtain ⟨rfl, rfl⟩ := List.cons.inj hstop
        exact Or.inr ⟨rfl, Or.inl rfl⟩
      | cons x q => exact Or.inl ⟨q, (List.cons.inj hstop).2⟩
    · rw [hq] at hnil
      exact absurd hnil (by simp)
  dumping := by
    intro sess hpc
    have hnil := (h.dumping sess hpc).idle.2
    rw [hq] at hnil
    exact absurd hnil (by simp)
  erasing := by
    intro sess hpc
    rcases h.erasing sess hpc with ⟨-, hnil⟩ | ⟨⟨-, herase⟩ | ⟨hsome, -⟩, hrest⟩
    · rw [hq] at hnil
      exact absurd hnil (by simp)
    · rw [hq] at herase
      obtain ⟨rfl, rfl⟩ := List.cons.inj herase
      exact Or.inr ⟨Or.inr ⟨rfl, rfl⟩, ⟨hrest.1.inactive, hrest.1.quiet, hrest.1.first⟩, hrest.2⟩
    · rw [hexec] at hsome
      exact absurd hsome (by simp)

/-- The calls a command can make. -/
theorem logCall_some {cmd : DeviceCmd} {st : Stamp} {ret : Int} {o : Op}
    (h : logCall cmd st ret = some o) : o = .stop ∨ o = .start st ret ∨ o = .erase := by
  cases cmd with
  | setVoltMv v => exact absurd h (by simp [logCall])
  | log op =>
    unfold logCall at h
    dsimp only at h
    split at h
    · exact Or.inl (Option.some.inj h).symm
    · split at h
      · exact Or.inr (Or.inl (Option.some.inj h).symm)
      · obtain ⟨-, h⟩ := Option.ite_none_right_eq_some.mp h
        exact Or.inr (Or.inr (Option.some.inj h).symm)

/-- Executing a command keeps the log sound. -/
theorem executed_sound {c : Collection} (h : Inv c) (cmd : DeviceCmd) (st : Stamp) {ret : Int}
    (hret : 0 ≤ ret) :
    Sound (c.executed cmd st ret).log (c.executed cmd st ret).journal.drained := by
  unfold Collection.executed executeLog
  dsimp only
  cases hcall : logCall cmd st ret with
  | none => exact h.sound
  | some o =>
    have hok : o.Ok ∧ Low c.log o := by
      rcases logCall_some hcall with rfl | rfl | rfl
      · exact ⟨trivial, trivial⟩
      · exact ⟨hret, trivial⟩
      · exact ⟨trivial, trivial⟩
    have hexec := h.sound.exec hok.1 hok.2
    dsimp only
    split
    · exact Sound.flag (b := (exec c.log o).sessionDetached) hexec true
    · exact hexec

theorem executed_inv {c : Collection} (h : Inv c) {cmd : DeviceCmd} (hexec : c.executing = some cmd)
    (st : Stamp) {ret : Int} (hret : 0 ≤ ret) : Inv (c.executed cmd st ret) := by
  have hsound := executed_sound h cmd st hret
  have hstop : cmd = .log opStop → (executeLog c.log cmd st ret).active = false := by
    rintro rfl
    exact stop_inactive c.log
  unfold Collection.executed at hsound ⊢
  dsimp only at hsound ⊢
  generalize executeLog c.log cmd st ret = s at hsound hstop ⊢
  constructor
  case sound => exact hsound
  case sleeping =>
    intro hpc
    rcases h.sleeping hpc with hq | ⟨hq, hstopping | ⟨hnone, -⟩⟩
    · exact Or.inl hq
    · rw [hexec] at hstopping
      exact Or.inr ⟨hq, Or.inr ⟨rfl, hstop (Option.some.inj hstopping)⟩⟩
    · rw [hexec] at hnone
      exact absurd hnone (by simp)
  case dumping =>
    intro sess hpc
    have hnone := (h.dumping sess hpc).idle.1
    rw [hexec] at hnone
    exact absurd hnone (by simp)
  case erasing =>
    intro sess hpc
    rcases h.erasing sess hpc with ⟨hnone, -⟩ | ⟨⟨hnone, -⟩ | ⟨-, hq⟩, -⟩
    · rw [hexec] at hnone
      exact absurd hnone (by simp)
    · rw [hexec] at hnone
      exact absurd hnone (by simp)
    · exact Or.inl ⟨rfl, hq⟩

theorem stop_inv {c : Collection} (h : Inv c) : Inv (c.submit opStop .sleeping) := by
  unfold Collection.submit
  split
  · exact {
      sound := h.sound
      sleeping := fun _ => Or.inl ⟨c.cmdMsgq, rfl⟩
      dumping := fun sess hpc => absurd hpc (by simp)
      erasing := fun sess hpc => absurd hpc (by simp) }
  · exact Inv.ended h.sound rfl

/-- **The directory is read from a settled device**: the STOP is through, so nothing is logged any
    more. -/
theorem readDir_inv {c : Collection} (h : Inv c) (hpc : c.host = .sleeping) (hsettled : c.settled)
    {sess : ImuLogSession} (hnew : newest c.log = some sess) :
    Inv { c with
      host := .dumping sess
      sink := DumpSink.init (bytes sess)
      jobs := [⟨sess.seq, 0, bytes sess⟩]
      delivered := [] } where
  sound := h.sound
  sleeping := fun hpc' => absurd hpc' (by simp)
  dumping := by
    intro sess' hpc'
    obtain rfl := HostPc.dumping.inj hpc'
    obtain ⟨hexec, hq, hquiet⟩ := hsettled
    have hinactive : c.log.active = false := by
      rcases h.sleeping hpc with ⟨q, hstop⟩ | ⟨-, hstop | ⟨-, ha⟩⟩
      · rw [hq] at hstop
        exact absurd hstop (by simp)
      · rw [hexec] at hstop
        exact absurd hstop (by simp)
      · exact ha
    refine ⟨⟨hexec, hq⟩, ⟨hinactive, hquiet, hnew⟩, ?_, rfl, ?_⟩
    · intro j hj
      rw [List.mem_singleton.mp hj]
    · show Shows (content c.log sess) [] (List.replicate (bytes sess) 0)
      rw [← content_length h.sound hnew]
      exact shows_start _
  erasing := fun sess hpc' => absurd hpc' (by simp)

/-- Requests come and go. -/
theorem jobs_inv {c : Collection} (h : Inv c) {jobs : List DumpJob}
    (hjobs : ∀ sess, c.host = .dumping sess → ∀ j ∈ jobs, j.session = sess.seq) :
    Inv { c with jobs := jobs } where
  sound := h.sound
  sleeping := h.sleeping
  dumping := by
    intro sess hpc
    have hdump := h.dumping sess hpc
    exact ⟨hdump.idle, ⟨hdump.fixed.inactive, hdump.fixed.quiet, hdump.fixed.first⟩, hjobs sess hpc,
      hdump.total, hdump.shows⟩
  erasing := by
    intro sess hpc
    rcases h.erasing sess hpc with hover | ⟨hpending, hfix, hdone, hbuf⟩
    · exact Or.inl hover
    · exact Or.inr ⟨hpending, ⟨hfix.inactive, hfix.quiet, hfix.first⟩, hdone, hbuf⟩

/-- A request that has sent a chunk is still for the same session. -/
theorem sent_sessions {c : Collection} {seq k : Nat} {j : DumpJob} (hj : j ∈ c.jobs)
    (h : ∀ j ∈ c.jobs, j.session = seq) : ∀ j' ∈ c.sent k j, j'.session = seq := by
  intro j' hj'
  unfold Collection.sent at hj'
  split at hj'
  · exact h j' (List.mem_of_mem_eraseIdx hj')
  · rcases List.mem_or_eq_of_mem_set hj' with hold | rfl
    · exact h j' hold
    · exact h j hj

/-- **A chunk arrives.**  It is a chunk of what the ERASE is going to erase. -/
theorem deliver_inv {c : Collection} (h : Inv c) {k : Nat} {j : DumpJob} (hj : j ∈ c.jobs) :
    Inv { c with
      sink := c.sink.onChunk (c.chunk j)
      jobs := c.sent k j
      delivered := if c.sink.done then c.delivered else c.delivered ++ [c.chunk j] } where
  sound := h.sound
  sleeping := h.sleeping
  dumping := by
    intro sess hpc
    obtain ⟨hidle, hfix, hjobs, htotal, hshows⟩ := h.dumping sess hpc
    refine ⟨hidle, ⟨hfix.inactive, hfix.quiet, hfix.first⟩, sent_sessions hj hjobs, ?_, ?_⟩
    · exact (DumpSink.onChunk_total _ _).trans htotal
    · show Shows (content c.log sess)
        (if c.sink.done then c.delivered else c.delivered ++ [c.chunk j])
        (c.sink.onChunk (c.chunk j)).buf
      cases hdone : c.sink.done with
      | true =>
        have hsame : c.sink.onChunk (c.chunk j) = c.sink := fleet_lawful.finished _ _ hdone
        rw [hsame]
        exact hshows
      | false =>
        have hchunk : c.chunk j = nextChunk (content c.log sess) j :=
          chunk_eq h.sound hfix.first (hjobs j hj)
        rw [DumpSink.onChunk_open _ hdone, htotal, ← content_length h.sound hfix.first, hchunk]
        exact hshows.place j
  erasing := by
    intro sess hpc
    rcases h.erasing sess hpc with hover | ⟨hpending, hfix, hdone, hbuf⟩
    · exact Or.inl hover
    · have hsame : c.sink.onChunk (c.chunk j) = c.sink := fleet_lawful.finished _ _ hdone
      rw [hsame]
      exact Or.inr ⟨hpending, ⟨hfix.inactive, hfix.quiet, hfix.first⟩, hdone, hbuf⟩

/-- **The ERASE is written** after a dump that is missing nothing. -/
theorem erase_inv {c : Collection} (h : Inv c) {sess : ImuLogSession} (hpc : c.host = .dumping sess)
    (hdone : c.sink.done = true) (hcareful : careful c .erase) :
    Inv (c.submit opErase (.erasing sess)) := by
  obtain ⟨hidle, hfix, -, -, hshows⟩ := h.dumping sess hpc
  have hbuf : c.sink.buf = content c.log sess := by
    refine (hshows.complete_iff.mpr ?_).2
    rw [content_length h.sound hfix.first]
    exact hcareful sess hpc
  unfold Collection.submit
  split
  · exact {
      sound := h.sound
      sleeping := fun hpc' => absurd hpc' (by simp)
      dumping := fun sess' hpc' => absurd hpc' (by simp)
      erasing := by
        intro sess' hpc'
        obtain rfl := HostPc.erasing.inj hpc'
        refine Or.inr ⟨Or.inl ⟨hidle.1, ?_⟩, ⟨hfix.inactive, hfix.quiet, hfix.first⟩, hdone, hbuf⟩
        show c.cmdMsgq ++ [DeviceCmd.log opErase] = _
        rw [hidle.2, List.nil_append] }
  · exact Inv.ended h.sound rfl

/-- **Step lemma.** -/
theorem step_inv {c c' : Collection} {e : Event} (h : Inv c) (hw : writes c e) (hc : careful c e)
    (hs : Step c e c') : Inv c' := by
  cases e with
  | append xs =>
    obtain rfl := Option.some.inj hs
    exact append_inv h xs
  | wake =>
    obtain ⟨hon, hs⟩ := Option.ite_none_right_eq_some.mp hs
    obtain rfl := Option.some.inj hs
    exact wake_inv h hon.1
  | drain ret =>
    obtain ⟨hwriting, hs⟩ := Option.ite_none_right_eq_some.mp hs
    obtain rfl := Option.some.inj hs
    exact drain_inv h hw hwriting
  | takeCmd =>
    simp only [Step, step] at hs
    split at hs
    · rename_i hexec hq
      obtain rfl := Option.some.inj hs
      exact takeCmd_inv h hexec hq
    · exact absurd hs (by simp)
  | execute st ret =>
    obtain ⟨cmd, hexec, rfl⟩ := Option.map_eq_some_iff.mp hs
    exact executed_inv h hexec st hw
  | stop =>
    obtain ⟨-, hs⟩ := Option.ite_none_right_eq_some.mp hs
    obtain rfl := Option.some.inj hs
    exact stop_inv h
  -- with nothing listed the host has nothing to do; otherwise it takes the newest session
  | readDir =>
    obtain ⟨hpc, hs⟩ := Option.ite_none_right_eq_some.mp hs
    split at hs
    · obtain rfl := Option.some.inj hs
      exact Inv.ended h.sound rfl
    · rename_i sess hnew
      obtain rfl := Option.some.inj hs
      exact readDir_inv h hpc hc hnew
  | deliver k =>
    simp only [Step, step] at hs
    split at hs
    · exact absurd hs (by simp)
    · rename_i j hj
      obtain ⟨-, hs⟩ := Option.ite_none_right_eq_some.mp hs
      obtain rfl := Option.some.inj hs
      exact deliver_inv h (List.mem_of_getElem? hj)
  | lose k =>
    simp only [Step, step] at hs
    split at hs
    · exact absurd hs (by simp)
    · rename_i j hj
      obtain ⟨-, hs⟩ := Option.ite_none_right_eq_some.mp hs
      obtain rfl := Option.some.inj hs
      apply jobs_inv h
      intro sess hpc
      exact sent_sessions (List.mem_of_getElem? hj) (h.dumping sess hpc).jobs
  | giveUp k =>
    obtain rfl := Option.some.inj hs
    apply jobs_inv h
    intro sess hpc j hj
    exact (h.dumping sess hpc).jobs j (List.mem_of_mem_eraseIdx hj)
  -- the job asked for is of the session being dumped
  | resume =>
    simp only [Step, step] at hs
    split at hs
    · rename_i sess hpc
      obtain ⟨-, hs⟩ := Option.ite_none_left_eq_some.mp hs
      obtain rfl := Option.some.inj hs
      apply jobs_inv h
      intro sess' hpc' j hj
      rw [hpc] at hpc'
      obtain rfl := HostPc.dumping.inj hpc'
      rcases List.mem_append.mp hj with hold | hnew
      · exact (h.dumping sess hpc).jobs j hold
      · rw [List.mem_singleton.mp hnew]
    · exact absurd hs (by simp)
  | erase =>
    simp only [Step, step] at hs
    split at hs
    · rename_i sess hpc
      obtain ⟨hdone, hs⟩ := Option.ite_none_right_eq_some.mp hs
      obtain rfl := Option.some.inj hs
      exact erase_inv h hpc hdone hc
    · exact absurd hs (by simp)
  | quit =>
    simp only [Step, step] at hs
    split at hs
    · obtain rfl := Option.some.inj hs
      exact Inv.ended h.sound rfl
    · exact absurd hs (by simp)

/-- **Nothing undumped is erased** in any run whose writes succeed, in which the directory is read from
    a settled device and in which no chunk with anything in it is missing when ERASE is written. -/
theorem collected {c : Collection}
    (h : Reach Start (guarded (fun c e => writes c e ∧ careful c e) Step) c) : Saved c := by
  have hinv : Inv c := by
    refine h.invariant (fun _ h0 => start_inv h0) ?_
    rintro c e c' - hinv ⟨⟨hw, hc⟩, hst⟩
    exact step_inv hinv hw hc hst
  intro sess hpc hexec i hi hv hmax
  rcases hinv.erasing sess hpc with ⟨hnone, -⟩ | ⟨-, hfix, -, hbuf⟩
  · rw [hexec] at hnone
    exact absurd hnone (by simp)
  · rw [hbuf]
    exact newest_covers hinv.sound hfix.first hi hv hmax

/-! ## Too early -/

/-- A device with a single session, in slot 0. -/
structure Single (s : Log) (n : Nat) : Prop where
  valid : (s.flash.entries 0).Valid
  seq : (s.flash.entries 0).seq = 1
  start : (s.flash.entries 0).startRec = 0
  others : ∀ i, i ≠ 0 → ¬ (s.flash.entries i).Valid
  total : s.totalAbs = n
  count : s.liveCount 0 = n

theorem logged_single {l : List ImuSample} {s : Log} {j : Journal} (h : Logged l s j) :
    Single s l.length := by
  obtain ⟨e, rfl, hv, hseq, hstart, -⟩ := h.entry
  exact ⟨hv, hseq, hstart, h.others, h.total, (if_pos ⟨h.active, h.slot.symm⟩).trans h.count⟩

theorem stopped_single {l : List ImuSample} {s : Log} {j : Journal} (h : Logged l s j) :
    Single (exec s .stop) l.length := by
  obtain ⟨e, rfl, hv, hseq, hstart, -⟩ := h.entry
  obtain ⟨-, hentry, hothers, htotal, -⟩ := h.stop
  have hstopped := stop_inactive s
  generalize exec s .stop = s' at hentry hothers htotal hstopped
  constructor
  · rw [hentry]
    exact hv
  · rw [hentry]
    exact hseq
  · rw [hentry]
    exact hstart
  · intro i hi
    rw [hothers i hi]
    exact h.others i hi
  · exact htotal
  · have hnot : ¬ (s'.active = true ∧ 0 = s'.curSlot) := fun hrun => Log.not_active hstopped hrun.1
    unfold Log.liveCount
    rw [if_neg hnot, hentry]

/-- Up to a ring length all of it can be read. -/
theorem Single.readable {s : Log} {n : Nat} (h : Single s n) (hn : n ≤ 43478) :
    s.clippedStart 0 = 0 ∧ s.readableCount 0 = n := by
  have hclip : s.clippedStart 0 = 0 := by
    obtain ⟨h1, h2, h3⟩ := le_clippedStart s 0
    have hfloor := ringFloor_eq s
    rw [h.total, recCapacity_eq] at hfloor
    rw [h.start] at h3
    omega
  refine ⟨hclip, ?_⟩
  unfold Log.readableCount
  rw [h.start, h.count, hclip]
  omega

/-- Nothing else is newer. -/
theorem Single.newest_slot {s : Log} {n : Nat} (h : Single s n) : ∀ k, k < maxSessions →
    (s.flash.entries k).Valid → (s.flash.entries k).seq ≤ (s.flash.entries 0).seq := by
  intro k _ hv
  by_cases hzero : k = 0
  · rw [hzero]
  · exact absurd hv (h.others k hzero)

/-- A shorter buffer does not hold it. -/
theorem Single.not_in {s : Log} {n : Nat} (h : Single s n) (hn : n ≤ 43478)
    {drained : Nat → List ImuSample} {buf : List UInt8} (hl : (drained 1).length = n)
    (hshort : buf.length < 16 * n) :
    ¬ recordBytes (s.readable 0 (drained (s.flash.entries 0).seq)) <:+: buf := by
  intro hinfix
  have hlen := hinfix.length_le
  rw [h.seq, recordBytes_length] at hlen
  unfold Log.readable at hlen
  rw [(h.readable hn).1, h.start, h.count, List.length_drop, List.length_take, hl] at hlen
  omega

/-- It is what the host dumps. -/
theorem Single.newest {s : Log} {n : Nat} (h : Single s n) (hn : n ≤ 43478) (hpos : 0 < n)
    {drained : Nat → List ImuSample} (hs : Sound s drained) :
    ∃ sess, newest s = some sess ∧ sess.seq = 1 ∧ bytes sess = 16 * n := by
  obtain ⟨-, hcount⟩ := h.readable hn
  have hslot := listSlot_eq hs.filed (by decide) h.valid
  have hshown : ¬ (s.flash.entries 0).startRec + s.liveCount 0 ≤ s.ringFloor := by
    have hfloor := (le_clippedStart s 0).2.1
    unfold Log.readableCount at hcount
    omega
  rw [if_neg hshown] at hslot
  obtain ⟨sess, hsess⟩ : ∃ sess, s.listSlot 0 = some sess := ⟨_, hslot⟩
  obtain ⟨-, hseq, hrec⟩ := listSlot_some hs.filed (by decide) hsess
  have honly : ∀ e, e ∈ newestFirst ((List.range maxSessions).filterMap s.listSlot) ↔ e = sess := by
    intro e
    rw [(newestFirst_perm _).mem_iff, List.mem_filterMap]
    constructor
    · rintro ⟨i, hi, hsome⟩
      by_cases hzero : i = 0
      · rw [hzero, hsess] at hsome
        exact (Option.some.inj hsome).symm
      · -- the other slots are empty
        obtain ⟨hvi, -, -⟩ := listSlot_some hs.filed (List.mem_range.mp hi) hsome
        exact absurd hvi (h.others i hzero)
    · rintro rfl
      exact ⟨0, List.mem_range.mpr (by decide), hsess⟩
  refine ⟨sess, ?_, hseq.trans h.seq, ?_⟩
  · unfold Collect.newest
    rw [sessionList_all s (Int.le_refl 16), Option.filter_eq_some_iff]
    generalize newestFirst ((List.range maxSessions).filterMap s.listSlot) = list at honly
    constructor
    · cases list with
      | nil => exact absurd ((honly sess).mpr rfl) (by simp)
      | cons x rest =>
        rw [(honly x).mp List.mem_cons_self]
        rfl
    · rw [decide_eq_true_eq, hrec, hcount]
      omega
  · unfold bytes
    rw [hrec, hcount, recSize_eq, Nat.mul_comm]

/-- A chunk that goes on where the last one ended. -/
theorem onChunk_next {sink : DumpSink} {c : DumpChunk} (hopen : sink.done = false)
    (hoff : c.offset = sink.maxEnd) (hfit : c.offset + c.data.length ≤ sink.total) :
    (sink.onChunk c).maxEnd = c.offset + c.data.length ∧
      (sink.onChunk c).done = decide (sink.total ≤ c.offset + c.data.length) := by
  have hstop : min (c.offset + c.data.length) sink.total = c.offset + c.data.length :=
    Nat.min_eq_left hfit
  have hmax : max sink.maxEnd (c.offset + c.data.length) = c.offset + c.data.length := by omega
  unfold DumpSink.onChunk
  rw [if_neg (by rw [hopen]; decide)]
  dsimp only
  rw [hstop, hmax]
  refine ⟨rfl, ?_⟩
  cases c.last with
  | false => rfl
  | true => exact Bool.or_self _

/-- A whole dump in one chunk. -/
theorem onChunk_whole {n : Nat} {c : DumpChunk} (hoff : c.offset = 0) (hlen : c.data.length = n) :
    ((DumpSink.init n).onChunk c).done = true ∧ ((DumpSink.init n).onChunk c).buf.length = n := by
  subst hlen
  have hstop : min (c.offset + c.data.length) c.data.length = c.data.length := by omega
  constructor
  · rw [(onChunk_next (rfl : (DumpSink.init c.data.length).done = false) hoff
      (by rw [hoff, Nat.zero_add]; exact Nat.le_refl _)).2, hoff, Nat.zero_add]
    exact decide_eq_true (Nat.le_refl _)
  · show (place (List.replicate c.data.length 0) c.data.length c).length = c.data.length
    have hlen : (setSlice (List.replicate c.data.length 0) 0 (0 + c.data.length) c.data).length =
        (List.replicate c.data.length (0 : UInt8)).length :=
      setSlice_length (by rw [List.length_replicate, Nat.zero_add])
    unfold place
    dsimp only
    rw [hstop, hoff, Int.natCast_zero, Int.sub_zero, takeUpTo_length]
    rwa [Nat.zero_add, List.length_replicate] at hlen

/-- The device with its log in this state, and a host that has just connected. -/
def connected (s : Log) (j : Journal) : Collection where
  log := s
  journal := j
  writing := false
  cmdMsgq := []
  executing := none
  host := .connected
  sink := DumpSink.init 0
  jobs := []
  delivered := []

/-- A device that has logged these records, on its way to a collect. -/
theorem logged_start (l : List ImuSample) (hl : l.length ≤ 268435456) :
    ∃ s j, Logged l s j ∧ Sound s j.drained ∧ Start (connected s j) := by
  obtain ⟨s, j, hr, h⟩ := logged_steady l hl
  obtain ⟨hf, hlow, hk⟩ := reach_kept (fun d e => steady_call) hr
  have hlog : Reach Fresh (guarded sound DeviceStep) (.on s j) :=
    hr.mono (fun _ h0 => h0) fun _ _ _ hst => ⟨steady_call hst.1, hst.2⟩
  exact ⟨s, j, h, ⟨hf, hk, hlow⟩, ⟨s.sessionDetached, hlog⟩, rfl⟩

/-- The host reads the directory. -/
theorem readDir_step {c : Collection} {sess : ImuLogSession} (hpc : c.host = .sleeping)
    (hnew : newest c.log = some sess) : Step c .readDir
      ⟨c.log, c.journal, c.writing, c.cmdMsgq, c.executing, .dumping sess, DumpSink.init (bytes sess),
        [⟨sess.seq, 0, bytes sess⟩], []⟩ := by
  simp only [Step, step, hpc, if_true, hnew]

/-- The STOP is executed. -/
theorem execute_stop {c : Collection} (h : c.executing = some (.log opStop)) (st : Stamp) (ret : Int) :
    Step c (.execute st ret)
      ⟨exec c.log .stop, c.journal, c.writing, c.cmdMsgq, none, c.host, c.sink, c.jobs, c.delivered⟩ := by
  have hlog : executeLog c.log (.log opStop) st ret = exec c.log .stop := by
    have hcall : logCall (.log opStop) st ret = some .stop := rfl
    unfold executeLog
    rw [hcall]
    exact if_neg (by simp [detaches, opStop, opStartDetached])
  simp only [Step, step, h, Option.map_some, Collection.executed, hlog]
  rfl

/-- The first request is served. -/
theorem deliver_step {c : Collection} {j : DumpJob} (hjobs : c.jobs = [j]) (hpos : 0 < j.remaining)
    (hdone : c.sink.done = false) : Step c (.deliver 0)
      ⟨c.log, c.journal, c.writing, c.cmdMsgq, c.executing, c.host, c.sink.onChunk (c.chunk j),
        c.sent 0 j, c.delivered ++ [c.chunk j]⟩ := by
  have hfirst : c.jobs[0]? = some j := by
    rw [hjobs]
    rfl
  simp only [Step, step, hfirst, hpos, hdone, if_true, Bool.false_eq_true, if_false]

section

variable {G : Collection → Event → Prop} {s : Log} {j : Journal} {sess : ImuLogSession}

/-- One record more is appended and drained. -/
theorem reach_logged {l : List ImuSample} {q : List DeviceCmd} {e : Option DeviceCmd} {host : HostPc}
    {sink : DumpSink} {jobs : List DumpJob} {delivered : List DumpChunk}
    (h : Reach Start (guarded G Step) ⟨s, j, false, q, e, host, sink, jobs, delivered⟩)
    (hlog : Logged l s j) (hs : Sound s j.drained) (hl : l.length < 268435456)
    (happend : ∀ c xs, G c (.append xs)) (hwake : ∀ c, G c .wake)
    (hdrain : ∀ c, Low c.log (.drain 0) → G c (.drain 0)) (x : ImuSample) :
    ∃ s' j', Reach Start (guarded G Step) ⟨s', j', false, q, e, host, sink, jobs, delivered⟩ ∧
      Logged (l ++ [x]) s' j' ∧ Sound s' j'.drained := by
  obtain ⟨hroom, hlog'⟩ := hlog.cycle (by omega) x
  obtain ⟨hap, -, -⟩ := hlog.append x
  have hlow : Low (exec s (.append [x])) (.drain 0) := Nat.le_trans (Nat.le_of_eq hroom) hl
  have hs' := (hs.exec (o := .append [x]) trivial trivial).exec (o := .drain 0) (Int.le_refl 0) hlow
  have happended := h.next (a := Event.append [x]) ⟨happend _ _, rfl⟩
  have hwoken := happended.next (a := Event.wake) ⟨hwake _, by
    refine if_pos ?_
    show (exec s (.append [x])).active = true ∧
      (exec s (.append [x])).stageHead ≠ (exec s (.append [x])).stageTail
    rw [hap]
    refine ⟨hlog.active, ?_⟩
    show u32 (s.stageHead + 1) ≠ s.stageTail
    rw [hlog.head, hlog.tail, u32_u32_add, u32_of_lt (by omega), u32_of_lt (by omega)]
    exact Nat.succ_ne_self _⟩
  exact ⟨_, _, hwoken.next (a := Event.drain 0) ⟨hdrain _ hlow, rfl⟩, hlog', hs'⟩

/-- One chunk of the session arrives. -/
theorem reach_chunk {q : List DeviceCmd} {sink : DumpSink} (off rest : Nat) {n m : Nat}
    {delivered : List DumpChunk}
    (h : Reach Start (guarded G Step)
      ⟨s, j, false, q, none, .dumping sess, sink, [⟨1, off, rest⟩], delivered⟩)
    (hG : ∀ c, G c (.deliver 0)) (hsingle : Single s n) (hs : Sound s j.drained) (hn : n ≤ 43478)
    (hfit : off + rest ≤ 16 * n) (hpos : 0 < rest) (hopen : sink.done = false)
    (hm : min rest 232 = m) :
    ∃ chunk : DumpChunk, chunk.offset = off ∧ chunk.data.length = m ∧
      Reach Start (guarded G Step) ⟨s, j, false, q, none, .dumping sess, sink.onChunk chunk,
        if m = rest then [] else [⟨1, u32 (off + m), u32Sub rest m⟩], delivered ++ [chunk]⟩ := by
  have hlen : (imuLogReadSession s 1 off (DumpJob.want ⟨1, off, rest⟩)).length = m := by
    rw [← hsingle.seq, readSession_length hs.filed hs.low (by decide) hsingle.valid,
      (hsingle.readable hn).2]
    show min (min rest 232) (16 * n - off) = m
    omega
  have hnext := h.next (a := Event.deliver 0) ⟨hG _, deliver_step rfl hpos hopen⟩
  refine ⟨DumpJob.chunk ⟨1, off, rest⟩ (imuLogReadSession s 1 off (DumpJob.want ⟨1, off, rest⟩)),
    rfl, hlen, ?_⟩
  have hwant : DumpJob.want ⟨1, off, rest⟩ = m := hm
  have hjobs : Collection.sent
      ⟨s, j, false, q, none, .dumping sess, sink, [⟨1, off, rest⟩], delivered⟩ 0 ⟨1, off, rest⟩ =
      if m = rest then [] else [⟨1, u32 (off + m), u32Sub rest m⟩] := by
    unfold Collection.sent Collection.chunk DumpJob.chunk
    dsimp only
    rw [hlen, hwant]
    by_cases hall : m = rest
    · rw [if_pos (decide_eq_true (Or.inr hall)), if_pos hall]
      rfl
    · rw [if_neg hall, if_neg]
      · rfl
      · rw [decide_eq_true_eq]
        omega
  rw [hjobs] at hnext
  exact hnext

/-- A dump of one record arrives in one chunk. -/
theorem reach_whole {q : List DeviceCmd} {n : Nat}
    (h : Reach Start (guarded G Step) ⟨s, j, false, q, none, .dumping sess, DumpSink.init (bytes sess),
      [⟨sess.seq, 0, bytes sess⟩], []⟩) (hG : ∀ c, G c (.deliver 0)) (hsingle : Single s n)
    (hs : Sound s j.drained) (hpos : 0 < n) (hn : n ≤ 43478) (hseq : sess.seq = 1)
    (hbytes : bytes sess = 16) :
    ∃ sink jobs chunk, Reach Start (guarded G Step)
        ⟨s, j, false, q, none, .dumping sess, sink, jobs, [chunk]⟩ ∧
      sink.done = true ∧ sink.buf.length = 16 := by
  rw [hseq, hbytes] at h
  obtain ⟨chunk, hoff, hlen, hnext⟩ := reach_chunk _ _ h hG hsingle hs hn (by omega) (by decide) rfl
    (m := 16) rfl
  obtain ⟨hdone, hbuf⟩ := onChunk_whole hoff hlen
  exact ⟨_, _, _, hnext, hdone, hbuf⟩

/-- ERASE is written and taken. -/
theorem reach_erase {sink : DumpSink} {jobs : List DumpJob} {delivered : List DumpChunk}
    (h : Reach Start (guarded G Step) ⟨s, j, false, [], none, .dumping sess, sink, jobs, delivered⟩)
    (hdone : sink.done = true)
    (herase : G ⟨s, j, false, [], none, .dumping sess, sink, jobs, delivered⟩ .erase)
    (htake : ∀ c, G c .takeCmd) : Reach Start (guarded G Step)
      ⟨s, j, false, [], some (.log opErase), .erasing sess, sink, jobs, delivered⟩ := by
  have hwritten : Reach Start (guarded G Step)
      ⟨s, j, false, [.log opErase], none, .erasing sess, sink, jobs, delivered⟩ :=
    h.next (a := Event.erase) ⟨herase, if_pos hdone⟩
  exact hwritten.next (a := Event.takeCmd) ⟨htake _, rfl⟩

end

/-- Twenty records are logged, and one more while the STOP is queued; the STOP is through when the
    directory is read, and the dump arrives in two chunks. -/
theorem collected_logging : ∃ c sess, Reach Start (guarded (fun c e => writes c e ∧ careful c e) Step) c ∧
    c.host = .erasing sess ∧ c.executing = some (.log opErase) ∧ c.delivered.length = 2 ∧
    recordBytes (numbered 21) <:+: c.sink.buf ∧ Saved c := by
  obtain ⟨s, j, h, hs, hstart⟩ := logged_start (numbered 20) (by decide)
  have hqueued : Reach Start (guarded (fun c e => writes c e ∧ careful c e) Step)
      ⟨s, j, false, [.log opStop], none, .sleeping, DumpSink.init 0, [], []⟩ :=
    (Reach.start hstart).next (a := Event.stop) ⟨⟨trivial, trivial⟩, rfl⟩
  obtain ⟨s₁, j₁, hlogged, h₁, hs₁⟩ := reach_logged hqueued h hs (by decide)
    (fun _ _ => ⟨trivial, trivial⟩) (fun _ => ⟨trivial, trivial⟩)
    (fun _ hlow => ⟨⟨Int.le_refl 0, hlow⟩, trivial⟩) ⟨21, 5376, 23, 24, 25, 26, 27, 21⟩
  have hall : j₁.drained 1 = numbered 21 := h₁.drained
  have htaken : Reach Start (guarded (fun c e => writes c e ∧ careful c e) Step)
      ⟨s₁, j₁, false, [], some (.log opStop), .sleeping, DumpSink.init 0, [], []⟩ :=
    hlogged.next (a := Event.takeCmd) ⟨⟨trivial, trivial⟩, rfl⟩
  have hstopped := htaken.next (a := Event.execute Stamp.zero 0)
    ⟨⟨Int.le_refl 0, trivial⟩, execute_stop rfl Stamp.zero 0⟩
  have hs' : Sound (exec s₁ .stop) j₁.drained := hs₁.exec (o := .stop) trivial trivial
  have hsingle : Single (exec s₁ .stop) 21 := stopped_single h₁
  dsimp only at hstopped
  generalize exec s₁ .stop = s' at hsingle hs' hstopped
  obtain ⟨sess, hnew, hseq, hbytes⟩ :
      ∃ sess, newest s' = some sess ∧ sess.seq = 1 ∧ bytes sess = 336 :=
    hsingle.newest (by decide) (by decide) hs'
  have hread := hstopped.next (a := Event.readDir) ⟨⟨trivial, rfl, rfl, rfl⟩, readDir_step rfl hnew⟩
  dsimp only at hread
  rw [hseq, hbytes] at hread
  -- the two chunks
  obtain ⟨first, hoff, hlen, hone⟩ := reach_chunk 0 336 hread (fun _ => ⟨trivial, trivial⟩) hsingle hs'
    (by decide) (by decide) (by decide) rfl (m := 232) rfl
  obtain ⟨hend, hopen⟩ := onChunk_next (rfl : (DumpSink.init 336).done = false) hoff
    (by rw [hoff, hlen]; decide)
  rw [hoff, hlen] at hend hopen
  obtain ⟨second, hoff', hlen', htwo⟩ := reach_chunk 232 104 hone
    (fun _ => ⟨trivial, trivial⟩) hsingle hs' (by decide) (by decide) (by decide) hopen
    (m := 104) rfl
  obtain ⟨-, hdone⟩ := onChunk_next hopen (hoff'.trans hend.symm)
    (by rw [hoff', hlen', DumpSink.onChunk_total]; decide)
  rw [hoff', hlen', DumpSink.onChunk_total] at hdone
  have hlast := reach_erase htwo hdone ⟨trivial, by
    intro sess' hpc i hi hmissing
    obtain rfl := HostPc.dumping.inj hpc
    rw [hbytes] at hi
    -- the two chunks cover everything
    refine absurd ?_ hmissing
    by_cases hfirst : i < 232
    · exact ⟨first, .head _, by omega, by omega⟩
    · exact ⟨second, .tail _ (.head _), by omega, by omega⟩⟩
    (fun _ => ⟨trivial, trivial⟩)
  have hsaved := collected hlast
  refine ⟨_, sess, hlast, rfl, rfl, rfl, ?_, hsaved⟩
  have hsession := hsaved sess rfl rfl 0 (by decide) hsingle.valid hsingle.newest_slot
  obtain ⟨hclip, -⟩ := hsingle.readable (by decide)
  have hreadable : s'.readable 0 (j₁.drained (s'.flash.entries 0).seq) = numbered 21 := by
    unfold Log.readable
    rw [hsingle.seq, hall, hsingle.count, hclip, hsingle.start]
    rfl
  rw [hreadable] at hsession
  exact hsession

/-- One record is logged when the directory is read, and a second one before the STOP is executed. -/
theorem reach_undumped : ∃ s j sess sink jobs chunk, Reach Start (guarded writes Step)
      ⟨s, j, false, [], some (.log opErase), .erasing sess, sink, jobs, [chunk]⟩ ∧
    Single s 2 ∧ (j.drained 1).length = 2 ∧ sink.buf.length = 16 := by
  obtain ⟨s, j, h, hs, hstart⟩ := logged_start [default] (by decide)
  obtain ⟨sess, hnew, hseq, hbytes⟩ : ∃ sess, newest s = some sess ∧ sess.seq = 1 ∧ bytes sess = 16 :=
    (logged_single h).newest (by decide) (by decide) hs
  have hqueued : Reach Start (guarded writes Step)
      ⟨s, j, false, [.log opStop], none, .sleeping, DumpSink.init 0, [], []⟩ :=
    (Reach.start hstart).next (a := Event.stop) ⟨trivial, rfl⟩
  have hread := hqueued.next (a := Event.readDir) ⟨trivial, readDir_step rfl hnew⟩
  -- one record more
  obtain ⟨s', j', hdrain, h', hs'⟩ := reach_logged hread h hs (by decide) (fun _ _ => trivial)
    (fun _ => trivial) (fun _ hlow => ⟨Int.le_refl 0, hlow⟩) default
  -- the dump of the first record is complete before the STOP is executed
  obtain ⟨sink, jobs, chunk, hdump, hdone, hbuf⟩ := reach_whole hdrain (fun _ => trivial)
    (logged_single h') hs' (by decide) (by decide) hseq hbytes
  have htaken : Reach Start (guarded writes Step)
      ⟨s', j', false, [], some (.log opStop), .dumping sess, sink, jobs, [chunk]⟩ :=
    hdump.next (a := Event.takeCmd) ⟨trivial, rfl⟩
  have hstopped := htaken.next (a := Event.execute Stamp.zero 0)
    ⟨Int.le_refl 0, execute_stop rfl Stamp.zero 0⟩
  have hsingle : Single (exec s' .stop) 2 := stopped_single h'
  have hdrained : (j'.drained 1).length = 2 := congrArg List.length h'.drained
  dsimp only at hstopped
  generalize exec s' .stop = s'' at hstopped hsingle
  exact ⟨s'', j', sess, sink, jobs, chunk, reach_erase hstopped hdone trivial (fun _ => trivial),
    hsingle, hdrained, hbuf⟩

/-- **The STOP is still queued**: two records are persisted, and 16 bytes are in the buffer when the
    ERASE is executed. -/
theorem stop_still_queued : ¬ ∀ c, Reach Start (guarded writes Step) c → Saved c := by
  intro hall
  obtain ⟨s, j, sess, sink, jobs, chunk, hlast, hsingle, hdrained, hbuf⟩ := reach_undumped
  have hinfix := hall _ hlast sess rfl rfl 0 (by decide) hsingle.valid hsingle.newest_slot
  exact hsingle.not_in (by decide) hdrained (by rw [hbuf]; decide) hinfix

end Caterpillar.Host.Collect
