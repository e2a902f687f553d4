/-
  Who owns a log session: the command thread, the disconnect handler and the detached flag.

  Commands are acknowledged when they are queued and run later, on their own thread; a disconnect is
  handled in the Bluetooth context, where `imu_log_stop` may sleep in its flush.  Here the two run
  interleaved, with the calls that take the log's lock as single steps.

  1. `StopPc`, `CmdPc`, `BtPc`, `System` — where `imu_log_stop`, the command thread and the disconnect
     handler are.  Beside the code's state there are the command that opened the session last opened
     (`opener`) and who closed which session (`closures`).
  2. `Effect` — everything a step can do to sessions, said once (`step_effect`).
  3. `Covered` — an active session is detached, or will be closed when the host is gone:
     `undetached_closed`, for runs in which no START executes too late (`inTime`).
  4. `Owned` — the flag is set exactly on sessions that asked for it: `detached_owned`, for runs in
     which the handler closes nothing that became detached behind its back (`undisturbed`).
-/
import Caterpillar.App.Arbiter

namespace Caterpillar.App.Lifetime

open Caterpillar.Word Caterpillar.Bytes Caterpillar.Imu Caterpillar.ImuLog Caterpillar.Settings
open Caterpillar.Ble Caterpillar.Runs

/-! ## Two threads -/

/-- Where `imu_log_stop` is. -/
inductive StopPc where
  /-- At the test of `active`. -/
  | test
  /-- In `writer_flush`, after `i` rounds. -/
  | flush (i : Nat)
  /-- About to take the lock. -/
  | close
  deriving DecidableEq

/-- Where the command thread is. -/
inductive CmdPc where
  /-- In `k_msgq_get`. -/
  | idle
  /-- `execute` is entered. -/
  | fetched (cmd : DeviceCmd)
  /-- In `imu_log_stop`, called by `imu_log_erase` or by `execute` itself. -/
  | stopping (p : StopPc) (erase : Bool)
  /-- `imu_log_erase` is about to wipe the directory. -/
  | wiping
  /-- `imu_log_mark_detached` is next. -/
  | marking
  /-- `session_on_log_started` is next. -/
  | started
  /-- `session_on_log_stopped` is next. -/
  | stopped
  deriving DecidableEq

/-- Where the Bluetooth context is: idle, or in `session_on_disconnect`. -/
inductive BtPc where
  | idle
  | flows
  /-- At the test of `imu_log_detached`. -/
  | testDetached
  | stopping (p : StopPc)
  /-- `session_imu_run_update` is next. -/
  | update
  deriving DecidableEq

/-- Who closed a session. -/
inductive Closer where
  | command
  | disconnect
  deriving DecidableEq

/-- The board with its two threads. -/
structure System where
  board : Board
  cmd : CmdPc
  bt : BtPc
  opener : Option UInt8
  closures : List (Option UInt8 × Closer)

/-- The log replaced. -/
def System.withLog (s : System) (l : Log) : System := { s with board := { s.board with log := l } }

/-- One step of `imu_log_stop`; `none` when it returns. -/
def stopStep (s : System) (who : Closer) : StopPc → System × Option StopPc
  | .test => if imuLogActive s.board.log then (s, some (.flush 0)) else (s, none)
  | .flush i =>
      if i < 200 ∧ s.board.log.stageHead ≠ s.board.log.stageTail then (s, some (.flush (i + 1)))
      else (s, some .close)
  | .close =>
      ({ s.withLog (stopClose s.board.log) with
        closures :=
          if imuLogActive s.board.log then s.closures ++ [(s.opener, who)] else s.closures },
        none)

/-- One step of the command thread; `ret` is what the driver under it returns. -/
def cmdStep (s : System) (ret : Int) : Option System :=
  match s.cmd with
  | .idle =>
      match s.board.cmdMsgq with
      | [] => none
      | cmd :: rest => some { s with board := { s.board with cmdMsgq := rest }, cmd := .fetched cmd }
  | .fetched (.setVoltMv v) =>
      some { s with board := execute s.board (.setVoltMv v) ret, cmd := .idle }
  | .fetched (.log op) =>
      if op = opStop then some { s with cmd := .stopping .test false }
      else if op = opStart ∨ op = opStartDetached then
        let (board, r) := startLog s.board ret
        if r = 0 then
          some { s with
            board, opener := some op, cmd := if op = opStart then .started else .marking }
        else some { s with board, cmd := .idle }
      else if op = opErase then some { s with cmd := .stopping .test true }
      else some { s with cmd := .idle }
  | .stopping p erase =>
      match stopStep s .command p with
      | (s, some p) => some { s with cmd := .stopping p erase }
      | (s, none) => some { s with cmd := if erase then .wiping else .stopped }
  | .wiping => some { s.withLog (eraseWipe s.board.log) with cmd := .idle }
  | .marking => some { s.withLog (imuLogMarkDetached s.board.log) with cmd := .started }
  | .started => some { s with board := sessionOnLogStarted s.board, cmd := .idle }
  | .stopped => some { s with board := sessionOnLogStopped s.board, cmd := .idle }

/-- One step of the disconnect handler. -/
def btStep (s : System) : Option System :=
  match s.bt with
  | .idle => none
  | .flows => some { s with board := stopDataFlows s.board, bt := .testDetached }
  | .testDetached =>
      if imuLogDetached s.board.log then some { s with bt := .update }
      else some { s with bt := .stopping .test }
  | .stopping p =>
      match stopStep s .disconnect p with
      | (s, some p) => some { s with bt := .stopping p }
      | (s, none) => some { s with bt := .update }
  | .update => some { s with board := sessionImuRunUpdate s.board, bt := .idle }

/-- Who takes the next step. -/
inductive Event where
  /-- An event that is one call: of a Bluetooth handler, the pump, the writer thread, the clock. -/
  | call (e : App.Event)
  | cmd (ret : Int)
  | bt

/-- One step; `none` where it cannot happen.  Bluetooth handlers run one at a time, and all but
    `connected` need a connection. -/
def step (s : System) : Event → Option System
  | .cmd ret => cmdStep s ret
  | .bt => btStep s
  | .call (.execute _) => none
  | .call .disconnect =>
      if s.bt = .idle ∧ s.board.curConn = true then
        some { s with board := { s.board with curConn := false }, bt := .flows }
      else none
  | .call .connect =>
      if s.bt = .idle ∧ s.board.curConn = false then some { s with board := connected s.board }
      else none
  | .call (.append xs) => some (s.withLog (imuLogAppend s.board.log xs))
  | .call (.drain ret) => some (s.withLog (writerDrainBatch s.board.log ret))
  | .call (.tick ms) => some { s with board := { s.board with uptime := s.board.uptime + ms } }
  | .call e =>
      if s.bt = .idle ∧ s.board.curConn = true then some { s with board := App.step s.board e }
      else none

/-- The step relation of the system. -/
def Step (s : System) (e : Event) (s' : System) : Prop := step s e = some s'

/-- Just booted: no connection, nothing queued, no session. -/
def Start (s : System) : Prop :=
  ∃ f, s.board.log = bootLog f ∧ s.board.curConn = false ∧ s.board.cmdMsgq = [] ∧
    s.cmd = .idle ∧ s.bt = .idle ∧ s.opener = none ∧ s.closures = []

/-- The disconnect handler has still to decide about the active session, or to close it. -/
def BtPc.pending : BtPc → Bool
  | .flows | .testDetached | .stopping _ => true
  | .idle | .update => false

/-- A START that opens a session executes while a host is connected, or early enough for the
    disconnect handler to close the session (or with the detached flag left over). -/
def inTime (s : System) : Event → Bool
  | .cmd ret =>
      match s.cmd with
      | .fetched (.log op) =>
          !(op == opStart) || decide (ret < 0) || s.board.log.active || s.board.curConn ||
            s.bt.pending || s.board.log.sessionDetached
      | _ => true
  | _ => true

/-- When the disconnect handler closes a session, the test of `imu_log_detached` it made before its
    flush would come out the same, and no `imu_log_mark_detached` is under way. -/
def undisturbed (s : System) : Event → Bool
  | .bt =>
      match s.bt with
      | .stopping .close =>
          !s.board.log.active || (!s.board.log.sessionDetached && !decide (s.cmd = .marking))
      | _ => true
  | _ => true

/-! ## What the calls leave alone -/

theorem stream_frame (b : Board) (on : Bool) :
    (streamCccChanged b on).log = b.log ∧ (streamCccChanged b on).curConn = b.curConn :=
  runUpdate_frame _

theorem imucfg_frame (b : Board) (buf : List UInt8) (offset : Nat) :
    (onImucfgWrite b buf offset).1.log = b.log ∧
      (onImucfgWrite b buf offset).1.curConn = b.curConn := by
  rcases onImucfgWrite_cases b buf offset with heq | ⟨odr, content, afs, gfs, preview, heq⟩
  · rw [heq]
    exact ⟨rfl, rfl⟩
  · rw [heq]
    exact runUpdate_frame _

theorem logctl_frame (b : Board) (buf : List UInt8) (offset : Nat) :
    (onLogctlWrite b buf offset).1.log = b.log ∧
      (onLogctlWrite b buf offset).1.curConn = b.curConn := by
  obtain ⟨q, hq⟩ := onLogctlWrite_queue b buf offset
  rw [hq]
  exact ⟨rfl, rfl⟩

theorem setVolt_frame (b : Board) (v : UInt16) (ret : Int) :
    (execute b (.setVoltMv v) ret).log = b.log ∧
      (execute b (.setVoltMv v) ret).curConn = b.curConn := by
  show (if ret < 0 then b else b.set settingMotorVdcMv v).log = b.log ∧
    (if ret < 0 then b else b.set settingMotorVdcMv v).curConn = b.curConn
  split
  · exact ⟨rfl, rfl⟩
  · exact ⟨rfl, rfl⟩

/-! ## What a step can do to sessions -/

/-- **Everything a step can do to sessions.** -/
inductive Effect (s : System) (e : Event) (s' : System) : Prop where
  /-- Nothing; and the handler lets go only of what is detached. -/
  | quiet (hflags : s'.board.log.flags = s.board.log.flags) (hopener : s'.opener = s.opener)
      (hclosures : s'.closures = s.closures) (hmark : s'.cmd = .marking ↔ s.cmd = .marking)
      (hhost : s.board.curConn = true ∨ s.bt.pending = true → s.board.log.active = true →
        s.board.log.sessionDetached = true ∨ s'.board.curConn = true ∨ s'.bt.pending = true)
  /-- The command thread opens one. -/
  | opened (op : UInt8) (ret : Int) (hevent : e = .cmd ret) (hret : ¬ ret < 0)
      (hcmd : s.cmd = .fetched (.log op)) (hactive : s.board.log.active = false)
      (hflags : s'.board.log.flags = (true, s.board.log.sessionDetached))
      (hopener : s'.opener = some op) (hclosures : s'.closures = s.closures)
      (hop : op = opStart ∧ s'.cmd ≠ .marking ∨ op = opStartDetached ∧ s'.cmd = .marking)
      (hhost : s'.board.curConn = s.board.curConn ∧ s'.bt = s.bt)
  /-- Somebody closes one. -/
  | closed (who : Closer) (hactive : s.board.log.active = true)
      (hflags : s'.board.log.flags = (false, false)) (hopener : s'.opener = s.opener)
      (hclosures : s'.closures = s.closures ++ [(s.opener, who)])
      (hwho : who = .disconnect ∧ e = .bt ∧ s.bt = .stopping .close ∧ s'.cmd = s.cmd ∨
        who = .command ∧ s.cmd ≠ .marking ∧ s'.cmd ≠ .marking)
  /-- The command thread marks one detached. -/
  | marked (hcmd : s.cmd = .marking) (hcmd' : s'.cmd ≠ .marking)
      (hflags : s'.board.log.flags = (s.board.log.active, true)) (hopener : s'.opener = s.opener)
      (hclosures : s'.closures = s.closures)
      (hhost : s'.board.curConn = s.board.curConn ∧ s'.bt = s.bt)

/-- A step that leaves log, connection, threads and owner alone. -/
theorem Effect.frame {s s' : System} {e : Event} (hlog : s'.board.log.flags = s.board.log.flags)
    (hconn : s'.board.curConn = s.board.curConn) (hopener : s'.opener = s.opener)
    (hclosures : s'.closures = s.closures) (hmark : s'.cmd = .marking ↔ s.cmd = .marking)
    (hbt : s'.bt = s.bt) : Effect s e s' := by
  refine .quiet hlog hopener hclosures hmark fun h _ => Or.inr ?_
  rw [hconn, hbt]
  exact h

theorem stopStep_close (s : System) (who : Closer) : stopStep s who .close =
    ({ s.withLog (stopClose s.board.log) with
      closures :=
        if imuLogActive s.board.log then s.closures ++ [(s.opener, who)] else s.closures },
      none) := rfl

/-- A call under the log's lock that leaves its flags alone. -/
theorem Effect.withLog {s : System} {e : Event} {l : Log} (hl : l.flags = s.board.log.flags) :
    Effect s e (s.withLog l) :=
  .frame hl rfl rfl rfl Iff.rfl rfl

/-- **One step of `imu_log_stop`**: it goes on, it returns with nothing to close, or it closes the
    active session. -/
theorem stopStep_cases (s : System) (who : Closer) (p : StopPc) :
    (∃ p', stopStep s who p = (s, some p')) ∨
    (s.board.log.active = false ∧ ∃ l, l.flags = s.board.log.flags ∧
      stopStep s who p = (s.withLog l, none)) ∨
    (p = .close ∧ s.board.log.active = true ∧ ∃ l, l.flags = (false, false) ∧
      stopStep s who p =
        ({ s.withLog l with closures := s.closures ++ [(s.opener, who)] }, none)) := by
  cases p with
  | test =>
    cases ha : s.board.log.active with
    | true =>
      refine Or.inl ⟨.flush 0, ?_⟩
      exact if_pos ha
    | false =>
      refine Or.inr (Or.inl ⟨rfl, s.board.log, rfl, ?_⟩)
      exact if_neg (by rw [imuLogActive, ha]; decide)
  | flush i =>
    left
    show ∃ p', (if i < 200 ∧ s.board.log.stageHead ≠ s.board.log.stageTail
      then (s, some (StopPc.flush (i + 1))) else (s, some .close)) = (s, some p')
    split
    · exact ⟨_, rfl⟩
    · exact ⟨_, rfl⟩
  | close =>
    have hflags := stopClose_flags s.board.log
    right
    cases ha : s.board.log.active with
    | true =>
      rw [ha] at hflags
      refine Or.inr ⟨rfl, rfl, stopClose s.board.log, hflags, ?_⟩
      rw [stopStep_close, imuLogActive, ha]
      rfl
    | false =>
      rw [ha] at hflags
      refine Or.inl ⟨rfl, stopClose s.board.log, hflags, ?_⟩
      rw [stopStep_close, imuLogActive, ha]
      rfl

theorem cmdStep_effect {s s' : System} {ret : Int} (h : cmdStep s ret = some s') :
    Effect s (.cmd ret) s' := by
  unfold cmdStep at h
  cases hcmd : s.cmd with
  | idle =>
    simp only [hcmd] at h
    cases hq : s.board.cmdMsgq with
    | nil => simp [hq] at h
    | cons c rest =>
      simp only [hq] at h
      obtain rfl := Option.some.inj h
      exact .frame rfl rfl rfl rfl (by simp [hcmd]) rfl
  | wiping =>
    simp only [hcmd] at h
    obtain rfl := Option.some.inj h
    exact .frame (eraseWipe_flags s.board.log) rfl rfl rfl (by simp [hcmd]) rfl
  | marking =>
    simp only [hcmd] at h
    obtain rfl := Option.some.inj h
    exact .marked hcmd (by simp) rfl rfl rfl ⟨rfl, rfl⟩
  | started =>
    simp only [hcmd] at h
    obtain rfl := Option.some.inj h
    obtain ⟨hlog, hconn⟩ := onLogStarted_frame s.board
    exact .frame (congrArg Log.flags hlog) hconn rfl rfl (by simp [hcmd]) rfl
  | stopped =>
    simp only [hcmd] at h
    obtain rfl := Option.some.inj h
    obtain ⟨hlog, hconn⟩ := onLogStopped_frame s.board
    exact .frame (congrArg Log.flags hlog) hconn rfl rfl (by simp [hcmd]) rfl
  -- the flush changes no flag; the close does, if a session runs
  | stopping p erase =>
    simp only [hcmd] at h
    rcases stopStep_cases s .command p with ⟨p', heq⟩ | ⟨-, l, hl, heq⟩ | ⟨-, ha, l, hl, heq⟩
    · rw [heq] at h
      obtain rfl := Option.some.inj h
      exact .frame rfl rfl rfl rfl (by simp [hcmd]) rfl
    · rw [heq] at h
      obtain rfl := Option.some.inj h
      exact .frame hl rfl rfl rfl (by cases erase <;> simp [hcmd]) rfl
    · rw [heq] at h
      obtain rfl := Option.some.inj h
      exact .closed .command ha hl rfl rfl
        (Or.inr ⟨rfl, by simp [hcmd], by cases erase <;> simp⟩)
  | fetched cmd =>
    cases cmd with
    | setVoltMv v =>
      simp only [hcmd] at h
      obtain rfl := Option.some.inj h
      obtain ⟨hlog, hconn⟩ := setVolt_frame s.board v ret
      exact .frame (congrArg Log.flags hlog) hconn rfl rfl (by simp [hcmd]) rfl
    | log op =>
      simp only [hcmd] at h
      split at h
      · obtain rfl := Option.some.inj h
        exact .frame rfl rfl rfl rfl (by simp [hcmd]) rfl
      · split at h
        · rename_i hop
          -- a start opens a session or is refused
          rcases imuLogStart_flags s.board.log s.board.stamp ret with
            ⟨ha, hret, hr, hflags⟩ | ⟨hr, hflags⟩
          · have hr' : (startLog s.board ret).2 = 0 := hr
            rw [if_pos hr'] at h
            obtain rfl := Option.some.inj h
            refine .opened op ret rfl hret hcmd ha hflags rfl rfl ?_ ⟨rfl, rfl⟩
            rcases hop with rfl | rfl
            · exact Or.inl ⟨rfl, by simp⟩
            · exact Or.inr ⟨rfl, rfl⟩
          · have hr' : (startLog s.board ret).2 ≠ 0 := hr
            rw [if_neg hr'] at h
            obtain rfl := Option.some.inj h
            exact .frame hflags rfl rfl rfl (by simp [hcmd]) rfl
        · split at h
          · obtain rfl := Option.some.inj h
            exact .frame rfl rfl rfl rfl (by simp [hcmd]) rfl
          · obtain rfl := Option.some.inj h
            exact .frame rfl rfl rfl rfl (by simp [hcmd]) rfl

theorem btStep_effect {s s' : System} (h : btStep s = some s') : Effect s .bt s' := by
  unfold btStep at h
  cases hbt : s.bt with
  | idle => simp [hbt] at h
  | flows =>
    simp only [hbt] at h
    obtain rfl := Option.some.inj h
    exact .quiet rfl rfl rfl Iff.rfl fun _ _ => Or.inr (Or.inr rfl)
  | testDetached =>
    simp only [hbt] at h
    split at h
    · -- the handler lets go of a detached session
      rename_i hdet
      obtain rfl := Option.some.inj h
      have hflag : s.board.log.sessionDetached = true := ((Bool.and_eq_true _ _).mp hdet).2
      exact .quiet rfl rfl rfl Iff.rfl fun _ _ => Or.inl hflag
    · obtain rfl := Option.some.inj h
      exact .quiet rfl rfl rfl Iff.rfl fun _ _ => Or.inr (Or.inr rfl)
  | update =>
    simp only [hbt] at h
    obtain rfl := Option.some.inj h
    obtain ⟨hlog, hconn⟩ := runUpdate_frame s.board
    refine .quiet (congrArg Log.flags hlog) rfl rfl Iff.rfl fun hor _ => ?_
    rcases hor with hc | hp
    · exact Or.inr (Or.inl (hconn.trans hc))
    · rw [hbt] at hp
      exact absurd hp (by decide)
  | stopping p =>
    simp only [hbt] at h
    rcases stopStep_cases s .disconnect p with ⟨p', heq⟩ | ⟨ha, l, hl, heq⟩ | ⟨rfl, ha, l, hl, heq⟩
    · rw [heq] at h
      obtain rfl := Option.some.inj h
      exact .quiet rfl rfl rfl Iff.rfl fun _ _ => Or.inr (Or.inr rfl)
    · rw [heq] at h
      obtain rfl := Option.some.inj h
      exact .quiet hl rfl rfl Iff.rfl fun _ hact => absurd hact (by rw [ha]; decide)
    · rw [heq] at h
      obtain rfl := Option.some.inj h
      exact .closed .disconnect ha hl rfl rfl (Or.inl ⟨rfl, rfl, hbt, rfl⟩)

/-- **Step inversion.** -/
theorem step_effect {s s' : System} {e : Event} (h : Step s e s') : Effect s e s' := by
  cases e with
  | cmd ret => exact cmdStep_effect h
  | bt => exact btStep_effect h
  | call e =>
    have hcall : ∀ {b : Board}, b.log = s.board.log → b.curConn = s.board.curConn →
        (if s.bt = .idle ∧ s.board.curConn = true then some { s with board := b } else none) =
          some s' → Effect s (.call e) s' := by
      intro b hlog hconn hst
      split at hst
      · obtain rfl := Option.some.inj hst
        exact .frame (congrArg Log.flags hlog) hconn rfl rfl Iff.rfl rfl
      · exact absurd hst (by simp)
    cases e with
    | execute ret => exact absurd h (by simp [Step, step])
    | disconnect =>
      have hst : (if s.bt = .idle ∧ s.board.curConn = true then
          some { s with board := { s.board with curConn := false }, bt := BtPc.flows }
        else none) = some s' := h
      split at hst
      · obtain rfl := Option.some.inj hst
        exact .quiet rfl rfl rfl Iff.rfl fun _ _ => Or.inr (Or.inr rfl)
      · exact absurd hst (by simp)
    | connect =>
      have hst : (if s.bt = .idle ∧ s.board.curConn = false then
          some { s with board := connected s.board } else none) = some s' := h
      obtain ⟨hlog, hconn⟩ := requestParams_frame { s.board with curConn := true } false
      split at hst
      · obtain rfl := Option.some.inj hst
        exact .quiet (congrArg Log.flags hlog) rfl rfl Iff.rfl
          fun _ _ => Or.inr (Or.inl hconn)
      · exact absurd hst (by simp)
    | append xs =>
      obtain rfl := Option.some.inj h
      exact .withLog (imuLogAppend_flags s.board.log xs)
    | drain ret =>
      obtain rfl := Option.some.inj h
      exact .withLog (writerDrainBatch_flags s.board.log ret)
    | tick ms =>
      obtain rfl := Option.some.inj h
      exact .frame rfl rfl rfl rfl Iff.rfl rfl
    | stream on => exact hcall (stream_frame s.board on).1 (stream_frame s.board on).2 h
    | imucfg buf offset =>
      exact hcall (imucfg_frame s.board buf offset).1 (imucfg_frame s.board buf offset).2 h
    | logctl buf offset =>
      exact hcall (logctl_frame s.board buf offset).1 (logctl_frame s.board buf offset).2 h
    | timeSync epoch =>
      have hclock : ∀ w, Board.log { s.board with wallEpochAtBoot := w } = s.board.log ∧
          Board.curConn { s.board with wallEpochAtBoot := w } = s.board.curConn :=
        fun _ => ⟨rfl, rfl⟩
      exact hcall (hclock _).1 (hclock _).2 h

/-! ## Sessions and connections -/

theorem bootLog_flags (f : Flash) : (bootLog f).flags = (false, false) :=
  imuLogInit_flags (Log.cold f)

/-- An active session is detached, its host is connected, the disconnect handler has still to see to
    it, or the command thread is about to detach it. -/
def Covered (s : System) : Prop :=
  s.board.log.active = true →
    s.board.log.sessionDetached = true ∨ s.board.curConn = true ∨ s.bt.pending = true ∨
      s.cmd = .marking

/-- What `inTime` says of the step that opens a session. -/
theorem inTime_start {s : System} {op : UInt8} {ret : Int} (h : inTime s (.cmd ret) = true)
    (hcmd : s.cmd = .fetched (.log op)) (hop : op = opStart) (hret : ¬ ret < 0)
    (hactive : s.board.log.active = false) :
    s.board.curConn = true ∨ s.bt.pending = true ∨ s.board.log.sessionDetached = true := by
  subst hop
  have hguard : (!(opStart == opStart) || decide (ret < 0) || s.board.log.active ||
      s.board.curConn || s.bt.pending || s.board.log.sessionDetached) = true := by
    unfold inTime at h
    rw [hcmd] at h
    exact h
  simpa [hret, hactive, or_assoc] using hguard

/-- **Step lemma.** -/
theorem covered_step {s s' : System} {e : Event} (h : Covered s) (hG : inTime s e = true)
    (hst : Step s e s') : Covered s' := by
  intro hact'
  cases step_effect hst with
  | quiet hflags hopener hclosures hmark hhost =>
    obtain ⟨ha, hd⟩ := Log.flags_eq hflags
    rw [ha] at hact'
    rw [hd]
    rcases h hact' with hdet | hconn | hpend | hm
    · exact Or.inl hdet
    · rcases hhost (Or.inl hconn) hact' with h1 | h1 | h1
      · exact Or.inl h1
      · exact Or.inr (Or.inl h1)
      · exact Or.inr (Or.inr (Or.inl h1))
    · rcases hhost (Or.inr hpend) hact' with h1 | h1 | h1
      · exact Or.inl h1
      · exact Or.inr (Or.inl h1)
      · exact Or.inr (Or.inr (Or.inl h1))
    · exact Or.inr (Or.inr (Or.inr (hmark.mpr hm)))
  | opened op ret hevent hret hcmd hactive hflags hopener hclosures hop hhost =>
    obtain ⟨hconn, hbt⟩ := hhost
    have hd : s'.board.log.sessionDetached = s.board.log.sessionDetached := congrArg Prod.snd hflags
    rcases hop with ⟨hstart, -⟩ | ⟨-, hm⟩
    · rw [hconn, hbt, hd]
      rw [hevent] at hG
      rcases inTime_start hG hcmd hstart hret hactive with h1 | h1 | h1
      · exact Or.inr (Or.inl h1)
      · exact Or.inr (Or.inr (Or.inl h1))
      · exact Or.inl h1
    · exact Or.inr (Or.inr (Or.inr hm))
  | closed who hactive hflags hopener hclosures hwho =>
    have hoff : s'.board.log.active = false := congrArg Prod.fst hflags
    exact Log.not_active hoff hact'
  | marked hcmd hcmd' hflags hopener hclosures hhost =>
    exact Or.inl (congrArg Prod.snd hflags)

/-- **A session's lifetime follows its connection**, in every run whose STARTs execute in time: with
    no host connected and nothing executing, an active session is a detached one. -/
theorem undetached_closed {s : System}
    (h : Reach Start (guarded (fun s e => inTime s e = true) Step) s)
    (hconn : s.board.curConn = false) (hcmd : s.cmd = .idle) (hbt : s.bt = .idle) :
    imuLogActive s.board.log = true → imuLogDetached s.board.log = true := by
  have hcov : Covered s := by
    refine Reach.invariant (I := Covered) ?_ ?_ h
    · rintro s ⟨f, hlog, -⟩ hact
      have hoff : s.board.log.active = false := by
        rw [hlog]
        exact congrArg Prod.fst (bootLog_flags f)
      exact Log.not_active hoff hact
    · rintro s e s' - hs ⟨hG, hst⟩
      exact covered_step hs hG hst
  intro hact
  rcases hcov hact with h1 | h1 | h1 | h1
  · exact (Bool.and_eq_true _ _).mpr ⟨hact, h1⟩
  · rw [hconn] at h1
    exact absurd h1 (by decide)
  · rw [hbt] at h1
    exact absurd h1 (by decide)
  · rw [hcmd] at h1
    exact absurd h1 (by decide)

/-- A system just booted from blank flash. -/
def System.fresh : System where
  board := { Board.fresh [] with log := bootLog Flash.blank, curConn := false }
  cmd := .idle
  bt := .idle
  opener := none
  closures := []

theorem fresh_start : Start System.fresh :=
  ⟨Flash.blank, rfl, rfl, rfl, rfl, rfl, rfl, rfl⟩

/-- A host connects and writes a log command. -/
def command (op : UInt8) : List Event := [.call .connect, .call (.logctl [op] 0)]

/-- A START DETACHED still queued at the disconnect opens a session without a host: a detached one. -/
theorem undetached_closed_late : ∃ s,
    Reach Start (guarded (fun s e => inTime s e = true) Step) s ∧ s.board.curConn = false ∧
      imuLogActive s.board.log = true ∧ imuLogDetached s.board.log = true := by
  let events : List Event := command opStartDetached ++ [.call .disconnect] ++
    List.replicate 4 .bt ++ List.replicate 4 (.cmd 0)
  have hrun : (events.foldlM (fun s e => if inTime s e then step s e else none) System.fresh).any
      (fun s => decide (s.board.curConn = false ∧ s.cmd = .idle ∧ s.bt = .idle ∧
        imuLogActive s.board.log = true)) = true := by
    decide +kernel
  obtain ⟨s, hs, hend⟩ := (Option.any_eq_true ..).mp hrun
  obtain ⟨hconn, hcmd, hbt, hact⟩ := decide_eq_true_eq.mp hend
  have hreach : Reach Start (guarded (fun s e => inTime s e = true) Step) s :=
    Reach.runGuarded (.start fresh_start) hs
  exact ⟨s, hreach, hconn, hact, undetached_closed hreach hconn hcmd hbt hact⟩

/-- **A START that is queued when the host disconnects** opens a session nobody closes. -/
theorem late_start_survives : ∃ s, Reach Start Step s ∧ s.board.curConn = false ∧ s.cmd = .idle ∧
    s.bt = .idle ∧ imuLogActive s.board.log = true ∧ imuLogDetached s.board.log = false := by
  let events : List Event := command opStart ++ [.call .disconnect] ++ List.replicate 4 .bt ++
    List.replicate 3 (.cmd 0)
  have hrun : (events.foldlM step System.fresh).any
      (fun s => decide (s.board.curConn = false ∧ s.cmd = .idle ∧ s.bt = .idle ∧
        imuLogActive s.board.log = true ∧ imuLogDetached s.board.log = false)) = true := by
    decide +kernel
  obtain ⟨s, hs, hend⟩ := (Option.any_eq_true ..).mp hrun
  exact ⟨s, Reach.run (f := step) (fun _ _ _ hst => hst) (.start fresh_start) hs,
    decide_eq_true_eq.mp hend⟩

/-! ## The detached flag and its owner -/

/-- The flag is up on a session opened by op 3, and on every such session once it is marked; none of
    them was closed by a disconnect. -/
structure Owned (s : System) : Prop where
  flag : s.board.log.sessionDetached = true →
    s.board.log.active = true ∧ s.opener = some opStartDetached
  detached : s.board.log.active = true → s.opener = some opStartDetached →
    s.board.log.sessionDetached = true ∨ s.cmd = .marking
  marking : s.cmd = .marking → s.board.log.active = true ∧ s.opener = some opStartDetached
  closures : (some opStartDetached, Closer.disconnect) ∉ s.closures

/-- What `undisturbed` says of the step that closes a session. -/
theorem undisturbed_close {s : System} (h : undisturbed s .bt = true)
    (hbt : s.bt = .stopping .close) (hactive : s.board.log.active = true) :
    s.board.log.sessionDetached = false ∧ s.cmd ≠ .marking := by
  have hguard : (!s.board.log.active || (!s.board.log.sessionDetached &&
      !decide (s.cmd = .marking))) = true := by
    unfold undisturbed at h
    rw [hbt] at h
    exact h
  simpa [hactive] using hguard

/-- **Step lemma.** -/
theorem owned_step {s s' : System} {e : Event} (h : Owned s) (hG : undisturbed s e = true)
    (hst : Step s e s') : Owned s' := by
  obtain ⟨hflag, hdet, hmarking, hcl⟩ := h
  cases step_effect hst with
  | quiet hflags hopener hclosures hmark hhost =>
    obtain ⟨ha, hd⟩ := Log.flags_eq hflags
    constructor
    · rw [ha, hd, hopener]
      exact hflag
    · rw [ha, hd, hopener, hmark]
      exact hdet
    · rw [ha, hopener, hmark]
      exact hmarking
    · rw [hclosures]
      exact hcl
  | opened op ret hevent hret hcmd hactive hflags hopener hclosures hop hhost =>
    have hd : s'.board.log.sessionDetached = s.board.log.sessionDetached := congrArg Prod.snd hflags
    have ha : s'.board.log.active = true := congrArg Prod.fst hflags
    -- no flag is left over from an earlier session
    have hclear : s.board.log.sessionDetached = false := by
      by_contra hset
      rw [Bool.not_eq_false] at hset
      exact Log.not_active hactive (hflag hset).1
    refine ⟨fun hset => ?_, fun _ ho => ?_, fun hm => ?_, ?_⟩
    · rw [hd, hclear] at hset
      exact absurd hset (by decide)
    · rcases hop with ⟨rfl, -⟩ | ⟨-, hm⟩
      · rw [hopener] at ho
        exact absurd ho (by decide)
      · exact Or.inr hm
    · rcases hop with ⟨-, hm'⟩ | ⟨rfl, -⟩
      · exact absurd hm hm'
      · exact ⟨ha, hopener⟩
    · rw [hclosures]
      exact hcl
  | closed who hactive hflags hopener hclosures hwho =>
    have hd : s'.board.log.sessionDetached = false := congrArg Prod.snd hflags
    have ha : s'.board.log.active = false := congrArg Prod.fst hflags
    refine ⟨fun hset => ?_, fun hact => Log.not_active ha hact, fun hm => ?_, ?_⟩
    · rw [hd] at hset
      exact absurd hset (by decide)
    · rcases hwho with ⟨-, he, hbt, hcmd⟩ | ⟨-, -, hm'⟩
      · rw [he] at hG
        rw [hcmd] at hm
        exact absurd hm (undisturbed_close hG hbt hactive).2
      · exact absurd hm hm'
    · rw [hclosures, List.mem_append, not_or]
      refine ⟨hcl, fun hmem => ?_⟩
      obtain ⟨ho, rfl⟩ := Prod.mk.inj (List.mem_singleton.mp hmem)
      rcases hwho with ⟨-, he, hbt, -⟩ | ⟨hwho, -⟩
      · rw [he] at hG
        obtain ⟨hclear, hm⟩ := undisturbed_close hG hbt hactive
        rcases hdet hactive ho.symm with hset | hm'
        · rw [hclear] at hset
          exact absurd hset (by decide)
        · exact hm hm'
      · exact absurd hwho (by decide)
  | marked hcmd hcmd' hflags hopener hclosures hhost =>
    have ha : s'.board.log.active = s.board.log.active := congrArg Prod.fst hflags
    obtain ⟨hact, ho⟩ := hmarking hcmd
    refine ⟨fun _ => ?_, fun _ _ => Or.inl (congrArg Prod.snd hflags), fun hm => absurd hm hcmd', ?_⟩
    · rw [ha, hopener]
      exact ⟨hact, ho⟩
    · rw [hclosures]
      exact hcl

/-- **The detached flag belongs to the session that asked for it**, in every run whose disconnects are
    undisturbed: a session opened by op 1 is never reported detached, and one opened by op 3 is never
    closed by a disconnect. -/
theorem detached_owned {s : System}
    (h : Reach Start (guarded (fun s e => undisturbed s e = true) Step) s) :
    (imuLogActive s.board.log = true → s.opener = some opStart →
        imuLogDetached s.board.log = false) ∧
      (some opStartDetached, Closer.disconnect) ∉ s.closures := by
  have hown : Owned s := by
    refine Reach.invariant (I := Owned) ?_ ?_ h
    · rintro s ⟨f, hlog, -, -, hcmd, -, -, hcl⟩
      have hflags : s.board.log.flags = (false, false) := by
        rw [hlog]
        exact bootLog_flags f
      have ha : s.board.log.active = false := congrArg Prod.fst hflags
      have hd : s.board.log.sessionDetached = false := congrArg Prod.snd hflags
      refine ⟨fun hset => ?_, fun hact => Log.not_active ha hact, fun hm => ?_, ?_⟩
      · rw [hd] at hset
        exact absurd hset (by decide)
      · rw [hcmd] at hm
        exact absurd hm (by decide)
      · rw [hcl]
        exact List.not_mem_nil
    · rintro s e s' - hs ⟨hG, hst⟩
      exact owned_step hs hG hst
  refine ⟨fun _ ho => ?_, hown.closures⟩
  by_contra hdet
  rw [Bool.not_eq_false] at hdet
  have ho' := (hown.flag ((Bool.and_eq_true _ _).mp hdet).2).2
  rw [ho] at ho'
  exact absurd ho' (by decide)

/-- A session opened by op 1 is closed by the disconnect of its host. -/
theorem detached_owned_closed : ∃ s,
    Reach Start (guarded (fun s e => undisturbed s e = true) Step) s ∧
      s.closures.length = 1 ∧ (some opStartDetached, Closer.disconnect) ∉ s.closures := by
  let events : List Event := command opStart ++ List.replicate 3 (.cmd 0) ++
    [.call .disconnect] ++ List.replicate 6 .bt
  have hrun : (events.foldlM (fun s e => if undisturbed s e then step s e else none)
      System.fresh).any (fun s => decide (s.closures.length = 1)) = true := by
    decide +kernel
  obtain ⟨s, hs, hend⟩ := (Option.any_eq_true ..).mp hrun
  have hreach : Reach Start (guarded (fun s e => undisturbed s e = true) Step) s :=
    Reach.runGuarded (.start fresh_start) hs
  exact ⟨s, hreach, decide_eq_true_eq.mp hend, (detached_owned hreach).2⟩

/-- **A disconnect between op 3's start and its mark** closes the session that was to be detached, and
    the mark that follows detaches the next session, opened by op 1. -/
theorem stale_mark : ∃ s, Reach Start Step s ∧
    (imuLogActive s.board.log = true ∧ s.opener = some opStart ∧
      imuLogDetached s.board.log = true) ∧
    (some opStartDetached, Closer.disconnect) ∈ s.closures := by
  let events : List Event := command opStartDetached ++ List.replicate 2 (.cmd 0) ++
    [.call .disconnect] ++ List.replicate 6 .bt ++ List.replicate 2 (.cmd 0) ++
    command opStart ++ List.replicate 3 (.cmd 0)
  have hrun : (events.foldlM step System.fresh).any
      (fun s => decide ((imuLogActive s.board.log = true ∧ s.opener = some opStart ∧
        imuLogDetached s.board.log = true) ∧
        (some opStartDetached, Closer.disconnect) ∈ s.closures)) = true := by
    decide +kernel
  obtain ⟨s, hs, hend⟩ := (Option.any_eq_true ..).mp hrun
  exact ⟨s, Reach.run (f := step) (fun _ _ _ hst => hst) (.start fresh_start) hs,
    decide_eq_true_eq.mp hend⟩

end Caterpillar.App.Lifetime
