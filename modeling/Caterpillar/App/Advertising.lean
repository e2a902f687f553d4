/-
  What the advertisement says about logging.

  The fleet tools decide from bit 0 of the flags byte whether a robot logs, without connecting.
  The byte is a snapshot: `build_ad` takes it 50 ms after a disconnect, and nothing takes another
  one until the next disconnect, while queued commands go on executing.

  1. `buildAd` — name and manufacturer data, as `build_ad` composes them.
  2. `Beacon`, `step` — the two threads of `Lifetime`, and beside them the advertiser and the delayed
     restart, whose two calls are two steps.
  3. `Fresh` — the snapshot on the air tells the session state: kept by every step that is no
     command opening or closing a session while a snapshot is on the air (`settled`).
  4. `advertised_truthfully` — over runs.
-/
import Caterpillar.App.Lifetime

namespace Caterpillar.App.Advertising

open Caterpillar.Word Caterpillar.Runs Caterpillar.Imu Caterpillar.ImuLog Caterpillar.Settings
open Caterpillar.Ble
open Caterpillar.App.Lifetime (System CmdPc BtPc)

/-! ## The advertisement -/

/-- `APP_VERSION_MAJOR`, `APP_VERSION_MINOR` and `APP_PATCHLEVEL` of the modelled firmware. -/
def appVersion : List UInt8 := [1, 5, 1]

/-- A byte under the format `%02X`. -/
def hex2 (x : UInt8) : String :=
  String.ofList [(Nat.digitChar (x.toNat / 16)).toUpper, (Nat.digitChar (x.toNat % 16)).toUpper]

/-- `adv_name` and `adv_mfg`. -/
structure Ad where
  advName : String
  advMfg : List UInt8

/-- `build_ad`; `uid` is what `hwinfo_get_device_id` delivers, empty when it fails. -/
def buildAd (b : Board) (uid : List UInt8) : Ad where
  advName :=
    let id := b.setting settingRobotId
    if id > 0 then "Cat-" ++ (if id < 10 then "0" else "") ++ toString id.toNat
    else match uid.reverse with
      | lo :: hi :: _ => "Cat-" ++ hex2 hi ++ hex2 lo
      | _ => "Cat-????"
  advMfg :=
    [0xFF, 0xFF, (b.setting settingRobotId).toUInt8] ++ appVersion ++
      [if imuLogActive b.log then 1 else 0]

/-- Bit 0 of the flags byte. -/
def Ad.logging (ad : Ad) : Bool := ad.advMfg.getD 6 0 &&& 1 == 1

/-- A robot with the id 7 is `Cat-07`, one without an id goes by the last bytes of its device id. -/
example : (buildAd (Board.fresh []) [0x12, 0xA0, 0x3F]).advName = "Cat-A03F" ∧
    (buildAd ((Board.fresh []).set settingRobotId 7) [0x12, 0xA0, 0x3F]).advName = "Cat-07" := by
  decide +kernel

/-- The snapshot. -/
theorem buildAd_logging (b : Board) (uid : List UInt8) :
    (buildAd b uid).logging = imuLogActive b.log := by
  cases h : imuLogActive b.log with
  | true => simp [Ad.logging, buildAd, appVersion, h]
  | false => simp [Ad.logging, buildAd, appVersion, h]

/-! ## The machine -/

/-- `adv_restart_work`. -/
inductive Restart where
  | idle
  | scheduled
  /-- `build_ad` has run, `bt_le_adv_start` is next. -/
  | built
  deriving DecidableEq

/-- The board with its threads, its advertiser and the delayed restart. -/
structure Beacon where
  sys : System
  ad : Ad
  advertising : Bool
  restart : Restart

/-- A snapshot is advertised, or about to be. -/
def Beacon.onAir (b : Beacon) : Bool := b.advertising || decide (b.restart = .built)

/-- `k_work_schedule(&adv_restart_work, …)`. -/
def Beacon.schedule (b : Beacon) : Beacon :=
  if b.restart = .idle then { b with restart := .scheduled } else b

/-- Who takes the next step. -/
inductive Event where
  /-- A step of the threads of `Lifetime`. -/
  | sys (e : Lifetime.Event)
  /-- `connected` reports a connection that was never established. -/
  | connectFailed
  /-- `restart_advertise` takes its snapshot. -/
  | buildAd (uid : List UInt8)
  /-- `restart_advertise` advertises; `ret` is what `bt_le_adv_start` returns. -/
  | advStart (ret : Int)

/-- One step; `none` where it cannot happen.  A host connects to what is advertised, which ends the
    advertising; the end of the disconnect handler schedules the restart. -/
def step (b : Beacon) : Event → Option Beacon
  | .sys e =>
      match Lifetime.step b.sys e with
      | none => none
      | some s =>
          match e with
          | .call .connect =>
              if b.advertising then some { b with sys := s, advertising := false } else none
          | .bt => some (if s.bt = .idle then { b with sys := s }.schedule else { b with sys := s })
          | _ => some { b with sys := s }
  | .connectFailed => if b.advertising then some { b with advertising := false }.schedule else none
  | .buildAd uid =>
      if b.restart = .scheduled then
        some { b with ad := buildAd b.sys.board uid, restart := .built }
      else none
  | .advStart ret =>
      if b.restart = .built then some { b with advertising := decide (ret = 0), restart := .idle }
      else none

/-- The step relation. -/
def Step (b : Beacon) (e : Event) (b' : Beacon) : Prop := step b e = some b'

/-- Just booted: `ble_interface_init` has built the advertisement and started to advertise, or failed
    to. -/
def Start (b : Beacon) : Prop :=
  Lifetime.Start b.sys ∧ b.restart = .idle ∧ ∃ uid, b.ad = buildAd b.sys.board uid

/-- **While the device advertises and no command executes, bit 0 of the flags byte is
    `imu_log_active()`.** -/
def Truthful (b : Beacon) : Prop :=
  b.advertising = true → b.sys.cmd = .idle → b.ad.logging = imuLogActive b.sys.board.log

/-- The next step of the command thread opens or closes a session. -/
def changes (s : System) (ret : Int) : Bool :=
  match s.cmd with
  | .fetched (.log op) =>
      (op == opStart || op == opStartDetached) && !decide (ret < 0) && !s.board.log.active
  | .stopping .close _ => s.board.log.active
  | _ => false

/-- No command opens or closes a session while a snapshot is on the air. -/
def settled (b : Beacon) : Event → Bool
  | .sys (.cmd ret) => !b.onAir || !changes b.sys ret
  | _ => true

/-! ## What the threads do to the session and to the link -/

/-- A host is connected, or its disconnect is being handled. -/
def hosted (s : System) : Prop := s.board.curConn = true ∨ s.bt ≠ .idle

/-- The disconnect handler runs only when the host is gone. -/
def handled (s : System) : Prop := s.bt ≠ .idle → s.board.curConn = false

/-- A start that opens no session leaves the log as active as it was. -/
theorem startLog_idle {b : Board} {ret : Int} (h : ret < 0 ∨ b.log.active = true) :
    (startLog b ret).1.log.active = b.log.active := by
  rcases imuLogStart_flags b.log b.stamp ret with ⟨hactive, hret, -, -⟩ | ⟨-, hflags⟩
  · rcases h with hlt | hact
    · exact absurd hlt hret
    · exact absurd hact (Log.not_active hactive)
  · exact (Log.flags_eq hflags).1

/-- **A step of the command thread** leaves the link alone, and the session, too, unless `changes`
    names it. -/
theorem cmdStep_frame {s s' : System} {ret : Int} (h : Lifetime.cmdStep s ret = some s') :
    s'.board.curConn = s.board.curConn ∧ s'.bt = s.bt ∧
      (changes s ret = false → imuLogActive s'.board.log = imuLogActive s.board.log) := by
  unfold Lifetime.cmdStep at h
  cases hcmd : s.cmd with
  | idle =>
    simp only [hcmd] at h
    split at h
    · exact absurd h (by simp)
    · obtain rfl := Option.some.inj h
      exact ⟨rfl, rfl, fun _ => rfl⟩
  | fetched c =>
    cases c with
    | setVoltMv v =>
      simp only [hcmd] at h
      obtain rfl := Option.some.inj h
      obtain ⟨hlog, hconn⟩ := Lifetime.setVolt_frame s.board v ret
      exact ⟨hconn, rfl, fun _ => congrArg imuLogActive hlog⟩
    | log op =>
      simp only [hcmd] at h
      split at h
      · obtain rfl := Option.some.inj h
        exact ⟨rfl, rfl, fun _ => rfl⟩
      · split at h
        · rename_i hop
          -- the guard leaves only starts that open nothing
          have hidle : changes s ret = false → ret < 0 ∨ s.board.log.active = true := by
            intro hch
            rw [changes, hcmd] at hch
            rcases hop with rfl | rfl
            · simpa [Decidable.or_iff_not_imp_left] using hch
            · simpa [Decidable.or_iff_not_imp_left] using hch
          split at h
          · obtain rfl := Option.some.inj h
            exact ⟨rfl, rfl, fun hch => startLog_idle (hidle hch)⟩
          · obtain rfl := Option.some.inj h
            exact ⟨rfl, rfl, fun hch => startLog_idle (hidle hch)⟩
        · split at h
          · obtain rfl := Option.some.inj h
            exact ⟨rfl, rfl, fun _ => rfl⟩
          · obtain rfl := Option.some.inj h
            exact ⟨rfl, rfl, fun _ => rfl⟩
  | stopping p erase =>
    simp only [hcmd] at h
    rcases Lifetime.stopStep_cases s .command p with
      ⟨p', heq⟩ | ⟨-, l, hl, heq⟩ | ⟨rfl, hact, l, -, heq⟩
    · rw [heq] at h
      obtain rfl := Option.some.inj h
      exact ⟨rfl, rfl, fun _ => rfl⟩
    · rw [heq] at h
      obtain rfl := Option.some.inj h
      exact ⟨rfl, rfl, fun _ => (Log.flags_eq hl).1⟩
    · rw [heq] at h
      obtain rfl := Option.some.inj h
      refine ⟨rfl, rfl, fun hch => ?_⟩
      rw [changes, hcmd] at hch
      exact absurd hact (Log.not_active hch)
  | wiping =>
    simp only [hcmd] at h
    obtain rfl := Option.some.inj h
    exact ⟨rfl, rfl, fun _ => rfl⟩
  | marking =>
    simp only [hcmd] at h
    obtain rfl := Option.some.inj h
    exact ⟨rfl, rfl, fun _ => rfl⟩
  | started =>
    simp only [hcmd] at h
    obtain rfl := Option.some.inj h
    obtain ⟨hlog, hconn⟩ := onLogStarted_frame s.board
    exact ⟨hconn, rfl, fun _ => congrArg imuLogActive hlog⟩
  | stopped =>
    simp only [hcmd] at h
    obtain rfl := Option.some.inj h
    obtain ⟨hlog, hconn⟩ := onLogStopped_frame s.board
    exact ⟨hconn, rfl, fun _ => congrArg imuLogActive hlog⟩

/-- **A call** leaves the session alone, and only `connected` brings a host. -/
theorem call_frame {s s' : System} {e : App.Event} (h : Lifetime.step s (.call e) = some s') :
    imuLogActive s'.board.log = imuLogActive s.board.log ∧
      (hosted s' → e = .connect ∨ hosted s) ∧ (handled s → handled s') := by
  have hhandler : ∀ {b : Board}, b.log = s.board.log →
      (if s.bt = .idle ∧ s.board.curConn = true then some { s with board := b } else none) =
        some s' →
      imuLogActive s'.board.log = imuLogActive s.board.log ∧
        (hosted s' → e = .connect ∨ hosted s) ∧ (handled s → handled s') := by
    intro b hlog hst
    obtain ⟨⟨hbt, hconn⟩, hst⟩ := Option.ite_none_right_eq_some.mp hst
    obtain rfl := Option.some.inj hst
    exact ⟨congrArg imuLogActive hlog, fun _ => Or.inr (Or.inl hconn), fun _ hne => absurd hbt hne⟩
  have hlocked : ∀ {l : Log}, l.flags = s.board.log.flags →
      imuLogActive (s.withLog l).board.log = imuLogActive s.board.log ∧
        (hosted (s.withLog l) → e = .connect ∨ hosted s) ∧ (handled s → handled (s.withLog l)) := by
    intro l hl
    exact ⟨(Log.flags_eq hl).1, Or.inr, id⟩
  cases e with
  | execute ret => exact absurd h (by simp [Lifetime.step])
  | connect =>
    have hst : (if s.bt = .idle ∧ s.board.curConn = false then
        some { s with board := connected s.board } else none) = some s' := h
    obtain ⟨⟨hbt, -⟩, hst⟩ := Option.ite_none_right_eq_some.mp hst
    obtain rfl := Option.some.inj hst
    have hlog := (requestParams_frame { s.board with curConn := true } false).1
    exact ⟨congrArg imuLogActive hlog, fun _ => Or.inl rfl, fun _ hne => absurd hbt hne⟩
  | disconnect =>
    have hst : (if s.bt = .idle ∧ s.board.curConn = true then
        some { s with board := { s.board with curConn := false }, bt := BtPc.flows }
      else none) = some s' := h
    obtain ⟨⟨-, hconn⟩, hst⟩ := Option.ite_none_right_eq_some.mp hst
    obtain rfl := Option.some.inj hst
    exact ⟨rfl, fun _ => Or.inr (Or.inl hconn), fun _ _ => rfl⟩
  | append xs =>
    obtain rfl := Option.some.inj h
    exact hlocked (imuLogAppend_flags s.board.log xs)
  | drain ret =>
    obtain rfl := Option.some.inj h
    exact hlocked (writerDrainBatch_flags s.board.log ret)
  | tick ms =>
    obtain rfl := Option.some.inj h
    exact ⟨rfl, Or.inr, id⟩
  | stream on => exact hhandler (Lifetime.stream_frame s.board on).1 h
  | imucfg buf offset => exact hhandler (Lifetime.imucfg_frame s.board buf offset).1 h
  | logctl buf offset => exact hhandler (Lifetime.logctl_frame s.board buf offset).1 h
  | timeSync epoch =>
    have hclock : ∀ w, Board.log { s.board with wallEpochAtBoot := w } = s.board.log := fun _ => rfl
    exact hhandler (hclock _) h

/-- The disconnect handler steps only while it runs, and leaves the connection alone. -/
theorem btStep_frame {s s' : System} (h : Lifetime.btStep s = some s') :
    s.bt ≠ .idle ∧ s'.board.curConn = s.board.curConn := by
  unfold Lifetime.btStep at h
  cases hbt : s.bt with
  | idle => simp [hbt] at h
  | flows =>
    simp only [hbt] at h
    obtain rfl := Option.some.inj h
    exact ⟨by decide, rfl⟩
  | testDetached =>
    simp only [hbt] at h
    split at h
    · obtain rfl := Option.some.inj h
      exact ⟨by decide, rfl⟩
    · obtain rfl := Option.some.inj h
      exact ⟨by decide, rfl⟩
  | stopping p =>
    refine ⟨by simp, ?_⟩
    simp only [hbt] at h
    rcases Lifetime.stopStep_cases s .disconnect p with
      ⟨p', heq⟩ | ⟨-, l, -, heq⟩ | ⟨-, -, l, -, heq⟩
    · rw [heq] at h
      obtain rfl := Option.some.inj h
      rfl
    · rw [heq] at h
      obtain rfl := Option.some.inj h
      rfl
    · rw [heq] at h
      obtain rfl := Option.some.inj h
      rfl
  | update =>
    simp only [hbt] at h
    obtain rfl := Option.some.inj h
    exact ⟨by decide, (runUpdate_frame s.board).2⟩

/-! ## The snapshot on the air -/

/-- Nothing is advertised to a host that is connected, one restart is under way at most, and the
    snapshot on the air tells the session state. -/
structure Fresh (b : Beacon) : Prop where
  gone : handled b.sys
  host : hosted b.sys → b.advertising = false ∧ b.restart = .idle
  single : b.advertising = true → b.restart = .idle
  snapshot : b.onAir = true → b.ad.logging = imuLogActive b.sys.board.log

/-- With nothing on the air there is nothing to be wrong about. -/
theorem Fresh.silent {b : Beacon} (hh : handled b.sys) (hadv : b.advertising = false)
    (hr : b.restart ≠ .built) (hhost : hosted b.sys → b.restart = .idle) : Fresh b := by
  have hoff : b.onAir = false := by
    rw [Beacon.onAir, hadv, decide_eq_false hr]
    rfl
  constructor
  · exact hh
  · exact fun h => ⟨hadv, hhost h⟩
  · exact fun hon => absurd hon (by rw [hadv]; decide)
  · exact fun hon => absurd hon (by rw [hoff]; decide)

/-- The restart is scheduled when nobody is connected. -/
theorem Fresh.scheduled {b : Beacon} (hh : handled b.sys) (hadv : b.advertising = false)
    (hr : b.restart = .idle) (hhost : ¬ hosted b.sys) : Fresh b.schedule := by
  rw [Beacon.schedule, if_pos hr]
  exact .silent hh hadv (fun hbuilt => Restart.noConfusion hbuilt) fun h => absurd h hhost

/-- A step of the threads that brings no host and leaves the session alone. -/
theorem Fresh.congr {b : Beacon} {s : System} (h : Fresh b) (hh : handled s)
    (hhost : hosted s → hosted b.sys)
    (hact : b.onAir = true → imuLogActive s.board.log = imuLogActive b.sys.board.log) :
    Fresh { b with sys := s } := by
  constructor
  · exact hh
  · exact fun h' => h.host (hhost h')
  · exact h.single
  · exact fun hon => (h.snapshot hon).trans (hact hon).symm

/-- **Step lemma.** -/
theorem step_fresh {b b' : Beacon} {e : Event} (h : Fresh b) (hG : settled b e = true)
    (hst : Step b e b') : Fresh b' := by
  cases e with
  -- with an advertisement on the air nobody is connected or busy
  | connectFailed =>
    obtain ⟨hadv, hst⟩ := Option.ite_none_right_eq_some.mp hst
    obtain rfl := Option.some.inj hst
    refine .scheduled h.gone rfl (h.single hadv) fun hh => ?_
    rw [(h.host hh).1] at hadv
    exact absurd hadv (by decide)
  | buildAd uid =>
    obtain ⟨hr, hst⟩ := Option.ite_none_right_eq_some.mp hst
    obtain rfl := Option.some.inj hst
    constructor
    · exact h.gone
    · intro hh
      rw [(h.host hh).2] at hr
      exact absurd hr (by decide)
    · intro hadv
      rw [h.single hadv] at hr
      exact absurd hr (by decide)
    · exact fun _ => buildAd_logging b.sys.board uid
  -- what is put on the air is the data built last
  | advStart ret =>
    obtain ⟨hr, hst⟩ := Option.ite_none_right_eq_some.mp hst
    obtain rfl := Option.some.inj hst
    constructor
    · exact h.gone
    · intro hh
      rw [(h.host hh).2] at hr
      exact absurd hr (by decide)
    · exact fun _ => rfl
    · exact fun _ => h.snapshot (by rw [Beacon.onAir, hr]; simp)
  | sys e =>
    cases hs : Lifetime.step b.sys e with
    | none => exact absurd hst (by simp [Step, step, hs])
    | some s =>
      cases e with
      | cmd ret =>
        obtain rfl : { b with sys := s } = b' := by simpa [Step, step, hs] using hst
        obtain ⟨hconn, hbt, hact⟩ := cmdStep_frame hs
        refine h.congr ?_ ?_ fun hon => hact ?_
        · intro hne
          rw [hbt] at hne
          rw [hconn]
          exact h.gone hne
        · intro hh
          rw [hosted, hconn, hbt] at hh
          exact hh
        · rw [settled, hon] at hG
          simpa using hG
      -- the disconnect work ends by scheduling a new advertisement
      | bt =>
        obtain ⟨hbusy, hconn⟩ := btStep_frame hs
        obtain ⟨hadv, hr⟩ := h.host (Or.inr hbusy)
        have hgone : s.board.curConn = false := hconn.trans (h.gone hbusy)
        have hst' : (if s.bt = .idle then { b with sys := s }.schedule else { b with sys := s }) =
            b' := by simpa [Step, step, hs] using hst
        split at hst'
        · rename_i hidle
          rw [← hst']
          refine .scheduled (fun _ => hgone) hadv hr fun hh => ?_
          rcases hh with hc | hne
          · exact absurd hc (by rw [hgone]; decide)
          · exact hne hidle
        · rw [← hst']
          refine .silent (fun _ => hgone) hadv ?_ fun _ => hr
          rw [hr]
          decide
      | call e =>
        obtain ⟨hact, hhost, hh⟩ := call_frame hs
        -- a connection takes the advertisement off the air
        by_cases he : e = .connect
        · obtain rfl := he
          have hst' : b.advertising = true ∧ { b with sys := s, advertising := false } = b' := by
            simpa [Step, step, hs] using hst
          obtain ⟨hadv, rfl⟩ := hst'
          have hr := h.single hadv
          refine .silent (hh h.gone) rfl ?_ fun _ => hr
          rw [hr]
          decide
        · have hst' : { b with sys := s } = b' := by
            cases e <;> simp_all [Step, step]
          rw [← hst']
          exact h.congr (hh h.gone) (fun h' => (hhost h').resolve_left he) fun _ => hact

/-! ## Over runs -/

theorem start_fresh {b : Beacon} (h : Start b) : Fresh b := by
  obtain ⟨⟨f, -, hconn, -, -, hbt, -⟩, hr, uid, had⟩ := h
  constructor
  · exact fun hne => absurd hbt hne
  · intro hh
    rcases hh with hc | hne
    · exact absurd hc (by rw [hconn]; decide)
    · exact absurd hbt hne
  · exact fun _ => hr
  · intro _
    rw [had]
    exact buildAd_logging b.sys.board uid

/-- **The advertisement tells the truth about logging** in every run in which no command opens or
    closes a session while a snapshot is on the air. -/
theorem advertised_truthfully {b : Beacon}
    (h : Reach Start (guarded (fun b e => settled b e = true) Step) b) : Truthful b := by
  have hfresh : Fresh b := by
    refine Reach.invariant (I := Fresh) (fun _ => start_fresh) ?_ h
    rintro b e b' - hb ⟨hG, hst⟩
    exact step_fresh hb hG hst
  intro hadv _
  refine hfresh.snapshot ?_
  rw [Beacon.onAir, hadv]
  rfl

/-- A board that advertises. -/
def Beacon.fresh : Beacon where
  sys := Lifetime.System.fresh
  ad := buildAd Lifetime.System.fresh.board []
  advertising := true
  restart := .idle

theorem fresh_beacon : Start Beacon.fresh := ⟨Lifetime.fresh_start, rfl, [], rfl⟩

/-- A host writes a START DETACHED and disconnects; the command thread takes `before` steps until the
    disconnect, the handler `handler` steps, and the command thread `after` once the device advertises
    again. -/
def visit (before handler after : Nat) : List Event :=
  (Lifetime.command opStartDetached).map .sys ++ List.replicate before (.sys (.cmd 0)) ++
    [.sys (.call .disconnect)] ++ List.replicate handler (.sys .bt) ++
    [.buildAd [], .advStart 0] ++ List.replicate after (.sys (.cmd 0))

/-- A detached session started before the disconnect is advertised. -/
theorem advertised_truthfully_detached : ∃ b,
    Reach Start (guarded (fun b e => settled b e = true) Step) b ∧ b.advertising = true ∧
      b.ad.logging = true ∧ Truthful b := by
  have hrun : ((visit 4 3 0).foldlM
      (fun b e => if settled b e then step b e else none) Beacon.fresh).any
      (fun b => decide (b.advertising = true ∧ b.ad.logging = true)) = true := by
    decide +kernel
  obtain ⟨b, hb, hend⟩ := (Option.any_eq_true ..).mp hrun
  obtain ⟨hadv, hlog⟩ := decide_eq_true_eq.mp hend
  have hreach : Reach Start (guarded (fun b e => settled b e = true) Step) b :=
    Reach.runGuarded (.start fresh_beacon) hb
  exact ⟨b, hreach, hadv, hlog, advertised_truthfully hreach⟩

/-- **A start that is still queued at the disconnect** runs under an advertisement that denies it. -/
theorem late_start_unadvertised : ∃ b, Reach Start Step b ∧ ¬ Truthful b := by
  have hrun : ((visit 0 4 4).foldlM step Beacon.fresh).any
      (fun b => decide (b.advertising = true ∧ b.sys.cmd = .idle ∧ b.ad.logging = false ∧
        imuLogActive b.sys.board.log = true)) = true := by
    decide +kernel
  obtain ⟨b, hb, hend⟩ := (Option.any_eq_true ..).mp hrun
  obtain ⟨hadv, hidle, hlog, hact⟩ := decide_eq_true_eq.mp hend
  refine ⟨b, Reach.run (f := step) (fun _ _ _ hst => hst) (.start fresh_beacon) hb, fun h => ?_⟩
  have htrue := h hadv hidle
  rw [hlog, hact] at htrue
  exact absurd htrue (by decide)

end Caterpillar.App.Advertising
