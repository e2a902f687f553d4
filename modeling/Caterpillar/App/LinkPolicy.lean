/-
  The connection interval the host is asked for: fast, and slow while a session is logged.

  Every radio event blocks the flash for its time slot, so a running session wants few of them.
  The request goes out from three places only: `connected`, `session_on_log_started` and
  `session_on_log_stopped`.

  1. `Event`, `step` — connections, and the log commands as the command thread executes them.
  2. `Policy` — a connected host was last asked for the slow parameters exactly while a session is
     active.
  3. `Announced` — the steps that do not slip past the three places: `connected` always asks for
     the fast parameters, and an erase ends a session without asking for any.
  4. `step_policy_iff`, `policy_iff` — a step keeps the policy exactly if it is one of these, and so
     does a run.
-/
import Caterpillar.App.Arbiter

namespace Caterpillar.App.Link

open Caterpillar.Word Caterpillar.Runs Caterpillar.Imu Caterpillar.ImuLog Caterpillar.Settings
open Caterpillar.Ble

/-! ## The machine -/

/-- What can happen to the link and to the session. -/
inductive Event where
  | connect
  | disconnect
  /-- The command thread executes a log command; `ret` is what the entry write of a start
      returns. -/
  | execute (op : UInt8) (ret : Int)

/-- One event. -/
def step (b : Board) : Event → Board
  | .connect => connected b
  | .disconnect => disconnected b
  | .execute op ret => execute b (.log op) ret

/-- A run. -/
def run (b : Board) (es : List Event) : Board := es.foldl step b

/-- The parameters `ble_conn_request_params` asks for. -/
def params (slow : Bool) : ConnParam := if slow then ⟨32, 48, 0, 400⟩ else ⟨6, 12, 0, 400⟩

/-- A connected host was last asked for the slow parameters exactly while a session is active. -/
def Policy (b : Board) : Prop :=
  b.curConn = true → (b.connParam = some (params true) ↔ imuLogActive b.log = true)

/-- A connection finds no active session, and so does an erase while a host is connected. -/
def Announced (b : Board) : Event → Prop
  | .connect => imuLogActive b.log = false
  | .disconnect => True
  | .execute op _ => op = opErase → b.curConn = true → imuLogActive b.log = false

/-! ## What the functions do to the three fields -/

theorem params_inj (slow slow' : Bool) : params slow = params slow' ↔ slow = slow' := by
  cases slow <;> cases slow' <;> decide

theorem runUpdate_connParam (b : Board) : (sessionImuRunUpdate b).connParam = b.connParam := by
  unfold sessionImuRunUpdate
  split
  · rfl
  · rfl

/-- The request reaches a connected host. -/
theorem requestParams_connParam {b : Board} (slow : Bool) (h : b.curConn = true) :
    (bleConnRequestParams b slow).connParam = some (params slow) := by
  rw [bleConnRequestParams, if_pos h]
  rfl

/-- A request that fits the session makes the policy true, whatever was asked for before. -/
theorem requestParams_policy {b : Board} {slow : Bool} (h : imuLogActive b.log = slow) :
    Policy (sessionImuRunUpdate (bleConnRequestParams b slow)) := by
  obtain ⟨hlog, hconn⟩ := runUpdate_frame (bleConnRequestParams b slow)
  obtain ⟨hlog', hconn'⟩ := requestParams_frame b slow
  intro hc
  have hc' : b.curConn = true := (hconn.trans hconn').symm.trans hc
  rw [runUpdate_connParam, requestParams_connParam slow hc', hlog, hlog', h, Option.some_inj,
    params_inj, eq_comm]

/-- What leaves connection, request and session alone keeps the policy. -/
theorem Policy.congr {b b' : Board} (h : Policy b) (hconn : b'.curConn = b.curConn)
    (hparam : b'.connParam = b.connParam) (hlog : b'.log.active = b.log.active) : Policy b' := by
  intro hc
  rw [hparam, imuLogActive, hlog]
  exact h (hconn ▸ hc)

/-! ## One step -/

/-- `connected` asks for the fast parameters, session or not. -/
theorem connected_policy_iff (b : Board) : Policy (connected b) ↔ imuLogActive b.log = false := by
  have hparam : (connected b).connParam = some (params false) := requestParams_connParam false rfl
  have hne : some (params false) ≠ some (params true) := by decide
  constructor
  · intro h
    rw [← Bool.not_eq_true]
    intro hact
    exact hne (hparam.symm.trans ((h rfl).mpr hact))
  · intro hact _
    rw [hparam]
    exact iff_of_false hne (Bool.eq_false_iff.mp hact)

theorem disconnected_curConn (b : Board) : (disconnected b).curConn = false := by
  rw [disconnected, sessionOnDisconnect, (runUpdate_frame _).2]
  split
  · rfl
  · rfl

/-- A START asks for the slow parameters exactly when it opens a session. -/
theorem start_policy {b : Board} (h : Policy b) (ret : Int) (mark : Log → Log)
    (hmark : ∀ l, (mark l).active = l.active) :
    Policy (if (startLog b ret).2 = 0 then
      sessionOnLogStarted { (startLog b ret).1 with log := mark (startLog b ret).1.log }
      else (startLog b ret).1) := by
  rcases imuLogStart_flags b.log b.stamp ret with ⟨-, -, hr, hflags⟩ | ⟨hr, hflags⟩
  · rw [startLog, if_pos hr]
    refine requestParams_policy ?_
    rw [imuLogActive, hmark]
    exact congrArg Prod.fst hflags
  · rw [startLog, if_neg hr]
    exact h.congr rfl rfl (Log.flags_eq hflags).1

/-- A stop ends the session, if there is one. -/
theorem stop_active (l : Log) : imuLogActive (imuLogStop l) = false := by
  have hflags := stopClose_flags l
  cases ha : l.active with
  | true =>
    rw [ha] at hflags
    exact congrArg Prod.fst hflags
  | false =>
    rw [ha] at hflags
    exact (Log.flags_eq hflags).1.trans ha

/-- An erase ends the session, too, and asks for nothing. -/
theorem erase_policy_iff {b : Board} (h : Policy b) :
    Policy { b with log := imuLogErase b.log } ↔ (b.curConn = true → imuLogActive b.log = false) := by
  have hended : imuLogActive (imuLogErase b.log) = false := stop_active b.log
  constructor
  · intro h' hc
    rw [← Bool.not_eq_true]
    intro hact
    have hslow : b.connParam = some (params true) := (h hc).mpr hact
    exact Bool.eq_false_iff.mp hended ((h' hc).mp hslow)
  · intro hidle hc
    rw [hended, ← hidle hc]
    exact h hc

/-- **Step lemma.** -/
theorem step_policy_iff {b : Board} (h : Policy b) (e : Event) : Policy (step b e) ↔ Announced b e := by
  cases e with
  | connect => exact connected_policy_iff b
  | disconnect =>
    refine iff_of_true (fun hc => ?_) trivial
    exact absurd hc (Bool.eq_false_iff.mp (disconnected_curConn b))
  | execute op ret =>
    show Policy (execute b (.log op) ret) ↔ (op = opErase → _)
    unfold execute
    dsimp only
    split
    · rename_i hop
      refine iff_of_true (requestParams_policy ?_) fun he => absurd (hop.symm.trans he) (by decide)
      exact stop_active b.log
    · split
      · rename_i hop
        refine iff_of_true ?_ fun he => absurd (hop.symm.trans he) (by decide)
        exact start_policy h ret id fun _ => rfl
      · split
        · rename_i hop
          refine iff_of_true ?_ fun he => absurd (hop.symm.trans he) (by decide)
          exact start_policy h ret imuLogMarkDetached fun _ => rfl
        · split
          · rename_i hop
            exact (erase_policy_iff h).trans ⟨fun h _ => h, fun h => h hop⟩
          · rename_i hop
            exact iff_of_true h fun he => absurd he hop

/-! ## Over runs -/

/-- **A connected host is asked for the slow parameters exactly while a session is active**, after
    every event of a run, if and only if every connection of the run finds no active session, and so
    does every erase executed while a host is connected. -/
theorem policy_iff {b : Board} (h : b.curConn = false) (es : List Event) :
    (∀ k, Policy (run b (es.take k))) ↔
      ∀ k e, es[k]? = some e → Announced (run b (es.take k)) e := by
  have hstart : Policy b := fun hc => absurd hc (Bool.eq_false_iff.mp h)
  exact foldl_keeps_iff (I := fun _ => True) (P := Policy) (G := Announced) (fun _ _ _ => trivial)
    (fun _ e _ hp => step_policy_iff hp e) trivial hstart es

/-- A board that no host is connected to. -/
def idleBoard : Board := { Board.fresh [] with curConn := false }

/-- A host logs a session, stops it and erases it; a detached session is erased while nobody is
    connected, and the host comes back. -/
def erasedRun : List Event :=
  [.connect, .execute opStart 0, .execute opStop 0, .execute opErase 0, .execute opStartDetached 0,
    .disconnect, .execute opErase 0, .connect]

/-- The second erase ends a running session, and the policy holds throughout. -/
theorem policy_iff_erased : imuLogActive (run idleBoard (erasedRun.take 6)).log = true ∧
    (run idleBoard erasedRun).curConn = true ∧ ∀ k, Policy (run idleBoard (erasedRun.take k)) := by
  refine ⟨by decide +kernel, by decide +kernel, (policy_iff rfl erasedRun).mpr fun k e he => ?_⟩
  match k with
  | 0 | 7 =>
    obtain rfl := Option.some.inj he
    show imuLogActive _ = false
    decide +kernel
  | 1 | 2 | 4 =>
    obtain rfl := Option.some.inj he
    exact fun h => absurd h (by decide)
  | 3 =>
    obtain rfl := Option.some.inj he
    exact fun _ _ => by decide +kernel
  | 5 =>
    obtain rfl := Option.some.inj he
    trivial
  | 6 =>
    obtain rfl := Option.some.inj he
    exact fun _ h => absurd h (by decide +kernel)
  | k + 8 => exact absurd he (by simp [erasedRun])

/-- **A host that comes back to a detached session is asked for the fast parameters.** -/
theorem reconnect_asks_fast : ¬ ∀ k, Policy (run idleBoard
    ([.connect, .execute opStartDetached 0, .disconnect, .connect].take k)) := by
  let b := run idleBoard [.connect, .execute opStartDetached 0, .disconnect, .connect]
  intro hall
  have hpolicy : Policy b := hall 4
  have hconn : b.curConn = true := by decide +kernel
  have hactive : imuLogActive b.log = true := by decide +kernel
  have hparam : b.connParam ≠ some (params true) := by decide +kernel
  exact hparam ((hpolicy hconn).mpr hactive)

end Caterpillar.App.Link
