/-
  On-demand sampling: the sensor runs while a stream is subscribed or a session is logged.

  Demand is derived from two flags that change in five places; each place has to call
  `session_imu_run_update`, which copies the settings into the shared block and sets the stream's
  rate.  Here every handler and every command is one step.

  1. `Event`, `step` — what can happen to the board once the coprocessor runs.
  2. `Arbitrated` — what the arbiter stands for: the shared block and the stream's rate are those the
     settings and the demand of the moment call for.
  3. `runUpdate_arbitrated` — the arbiter makes it so; `Arbitrated.congr` — what leaves settings,
     demand, shared block and rate alone keeps it.
  4. `step_arbitrated_iff` — one step keeps it exactly if the step is not an erase that ends a session
     the arbitration still counts on (`Rearbitrated`).
  5. `arbitrated_iff` — over runs.
-/
import Caterpillar.ImuLog.LongRun
import Caterpillar.App.Session

namespace Caterpillar.App

open Caterpillar.Word Caterpillar.Bytes Caterpillar.Runs Caterpillar.Imu Caterpillar.ImuLog
open Caterpillar.Settings Caterpillar.Ble

/-! ## The machine -/

/-- What can happen to the board. -/
inductive Event where
  /-- The stream is subscribed or unsubscribed. -/
  | stream (on : Bool)
  /-- A write to 0xFFE8. -/
  | imucfg (buf : List UInt8) (offset : Nat)
  /-- A write to 0xFFEA. -/
  | logctl (buf : List UInt8) (offset : Nat)
  /-- The command thread executes the next queued command. -/
  | execute (ret : Int)
  | connect
  | disconnect
  /-- The host syncs the wall clock. -/
  | timeSync (epoch : Nat)
  | tick (ms : Nat)
  /-- The pump appends records to the log. -/
  | append (xs : List ImuSample)
  /-- The writer thread drains a batch. -/
  | drain (ret : Int)

/-- One event. -/
def step (b : Board) : Event → Board
  | .stream on => streamCccChanged b on
  | .imucfg buf offset => (onImucfgWrite b buf offset).1
  | .logctl buf offset => (onLogctlWrite b buf offset).1
  | .execute ret =>
      match b.cmdMsgq with
      | [] => b
      | cmd :: rest => execute { b with cmdMsgq := rest } cmd ret
  | .connect => connected b
  | .disconnect => disconnected b
  | .timeSync epoch => sessionTimeSync b epoch
  | .tick ms => { b with uptime := b.uptime + ms }
  | .append xs => { b with log := imuLogAppend b.log xs }
  | .drain ret => { b with log := writerDrainBatch b.log ret }

/-- A run. -/
def run (b : Board) (es : List Event) : Board := es.foldl step b

/-- The coprocessor runs, and the settings are loaded. -/
structure Ready (b : Board) : Prop where
  magic : b.sh.magic = imuSharedMagic
  settings : b.settings.Loaded settingsGen

/-- Any board just after `app_run`'s first arbitration. -/
def JustArbitrated (b : Board) : Prop := ∃ b₀, Ready b₀ ∧ b = firstArbitration b₀

/-- The shared block and the stream's rate are those the settings and the demand call for. -/
structure Arbitrated (b : Board) : Prop where
  odr : b.sh.cfgOdr.toNat = (b.setting settingImuOdrCode).toNat
  accelFs : b.sh.cfgAccelFs.toNat = (b.setting settingImuAccelFs).toNat
  gyroFs : b.sh.cfgGyroFs.toNat = (b.setting settingImuGyroFs).toNat
  content : b.sh.cfgContent.toNat =
    if b.streamActive || imuLogActive b.log then (b.setting settingImuContent).toNat else 0
  decim : b.stream.streamDecim =
    decimFor b.sh.cfgOdr b.stream.streamPreviewHz (imuLogActive b.log)

/-- The event is not an erase that ends a running session, unless the subscribed stream keeps the
    demand up and its rate does not depend on the session. -/
def Rearbitrated (b : Board) : Event → Prop
  | .execute _ =>
      b.cmdMsgq.head? = some (.log opErase) → imuLogActive b.log = true →
        b.streamActive = true ∧
        decimFor b.sh.cfgOdr b.stream.streamPreviewHz true =
          decimFor b.sh.cfgOdr b.stream.streamPreviewHz false
  | _ => True

/-! ## What the arbiter does -/

/-- A setting with a small maximum survives the cast to a byte. -/
theorem Ready.byte {b : Board} (h : Ready b) {id : Nat} {m : SettingMeta}
    (hm : metaFor settingsGen id = some m) (hmax : m.max ≤ 255) :
    (b.setting id).toUInt8.toNat = (b.setting id).toNat := by
  have hle : (b.setting id).toNat ≤ 255 := by
    have hmem := (h.settings.get settingsGen hm).2
    exact UInt16.le_iff_toNat_le.mp (UInt16.le_trans hmem hmax)
  rw [UInt16.toNat_toUInt8]
  omega

/-- **The arbiter.** -/
theorem runUpdate_arbitrated {b : Board} (h : Ready b) : Arbitrated (sessionImuRunUpdate b) := by
  have hupdate : sessionImuRunUpdate b = { b with
      sh := { b.sh with
        cfgOdr := (b.setting settingImuOdrCode).toUInt8
        cfgContent := if sessionImuDemand b then (b.setting settingImuContent).toUInt8 else 0
        cfgAccelFs := (b.setting settingImuAccelFs).toUInt8
        cfgGyroFs := (b.setting settingImuGyroFs).toUInt8
        cfgSeq := u32 (b.sh.cfgSeq + 1) }
      stream := streamUpdateDecim b.stream (b.setting settingImuOdrCode).toUInt8
        (imuLogActive b.log) b.uptime } := if_neg (fun hc => hc h.magic)
  rw [hupdate]
  constructor
  · exact h.byte rfl (by decide)
  · exact h.byte rfl (by decide)
  · exact h.byte rfl (by decide)
  · show (if sessionImuDemand b then (b.setting settingImuContent).toUInt8 else 0).toNat =
      if sessionImuDemand b then (b.setting settingImuContent).toNat else 0
    cases sessionImuDemand b with
    | true => exact h.byte rfl (by decide)
    | false => rfl
  · rfl

theorem runUpdate_ready {b : Board} (h : Ready b) : Ready (sessionImuRunUpdate b) := by
  rw [sessionImuRunUpdate, if_neg (fun hc => hc h.magic)]
  exact ⟨h.magic, h.settings⟩

/-- What leaves demand, shared block, stream and all settings but the rail's alone keeps the
    arbitration. -/
theorem Arbitrated.congr {b b' : Board} (h : Arbitrated b)
    (hset : ∀ id, id ≠ settingMotorVdcMv → b'.setting id = b.setting id) (hsh : b'.sh = b.sh)
    (hact : b'.streamActive = b.streamActive) (hlog : b'.log.active = b.log.active)
    (hstream : b'.stream = b.stream) : Arbitrated b' := by
  have hactive : imuLogActive b'.log = imuLogActive b.log := hlog
  constructor
  · rw [hsh, hset _ (by decide)]
    exact h.odr
  · rw [hsh, hset _ (by decide)]
    exact h.accelFs
  · rw [hsh, hset _ (by decide)]
    exact h.gyroFs
  · rw [hsh, hset _ (by decide), hact, hactive]
    exact h.content
  · rw [hsh, hstream, hactive]
    exact h.decim

theorem Ready.congr {b b' : Board} (h : Ready b) (hset : b'.settings = b.settings)
    (hsh : b'.sh = b.sh) : Ready b' :=
  ⟨by rw [hsh]; exact h.magic, by rw [hset]; exact h.settings⟩

theorem Ready.log {b : Board} (h : Ready b) (l : Log) : Ready { b with log := l } :=
  h.congr rfl rfl

theorem Ready.clock {b : Board} (h : Ready b) (uptime wall : Nat) :
    Ready { b with uptime := uptime, wallEpochAtBoot := wall } :=
  h.congr rfl rfl

theorem Arbitrated.log {b : Board} (h : Arbitrated b) {l : Log} (hl : l.active = b.log.active) :
    Arbitrated { b with log := l } :=
  h.congr (fun _ _ => rfl) rfl rfl hl rfl

theorem Arbitrated.clock {b : Board} (h : Arbitrated b) (uptime wall : Nat) :
    Arbitrated { b with uptime := uptime, wallEpochAtBoot := wall } :=
  h.congr (fun _ _ => rfl) rfl rfl rfl rfl

theorem Ready.set {b : Board} (h : Ready b) (id : Nat) (value : UInt16) : Ready (b.set id value) :=
  ⟨h.magic, h.settings.set settingsGen id value⟩

theorem bleConnRequestParams_ready {b : Board} (h : Ready b) (slow : Bool) :
    Ready (bleConnRequestParams b slow) := by
  unfold bleConnRequestParams
  split
  · exact ⟨h.magic, h.settings⟩
  · exact h

/-! ## One step -/

theorem onLogStarted_arbitrated {b : Board} (h : Ready b) : Arbitrated (sessionOnLogStarted b) :=
  runUpdate_arbitrated (bleConnRequestParams_ready h true)

theorem onLogStopped_arbitrated {b : Board} (h : Ready b) : Arbitrated (sessionOnLogStopped b) :=
  runUpdate_arbitrated (bleConnRequestParams_ready h false)

/-- A start that opens no session changes nothing the arbiter looks at. -/
theorem startLog_active (b : Board) (ret : Int) (h : (startLog b ret).2 ≠ 0) :
    (startLog b ret).1.log.active = b.log.active := by
  rcases imuLogStart_flags b.log b.stamp ret with ⟨-, -, hr, -⟩ | ⟨-, hflags⟩
  · exact absurd hr h
  · exact (Log.flags_eq hflags).1

/-- A command that is no erase leaves the board arbitrated. -/
theorem execute_arbitrated {b : Board} {cmd : DeviceCmd} (ret : Int) (hr : Ready b)
    (ha : Arbitrated b) (hcmd : cmd ≠ .log opErase) : Arbitrated (execute b cmd ret) := by
  cases cmd with
  | setVoltMv v =>
    show Arbitrated (if ret < 0 then b else b.set settingMotorVdcMv v)
    split
    · exact ha
    · refine ha.congr (fun id hid => ?_) rfl rfl rfl rfl
      exact settingsGet_set_ne settingsGen b.settings hid v
  | log op =>
    unfold execute
    dsimp only
    have hstarted : Ready (startLog b ret).1 := hr.congr rfl rfl
    split
    · exact onLogStopped_arbitrated (hr.congr rfl rfl)
    · split
      · split
        · exact onLogStarted_arbitrated hstarted
        · rename_i hne
          exact ha.congr (fun _ _ => rfl) rfl rfl (startLog_active b ret hne) rfl
      · split
        · split
          · exact onLogStarted_arbitrated (hstarted.congr rfl rfl)
          · rename_i hne
            exact ha.congr (fun _ _ => rfl) rfl rfl (startLog_active b ret hne) rfl
        · split
          · rename_i herase
            exact absurd (congrArg DeviceCmd.log herase) hcmd
          · exact ha

/-- **An erase does not re-arbitrate**: it leaves the board arbitrated exactly if no session was
    running, or the stream keeps the demand up at the same rate. -/
theorem erase_arbitrated_iff {b : Board} (hr : Ready b) (ha : Arbitrated b) :
    Arbitrated { b with log := imuLogErase b.log } ↔
      (imuLogActive b.log = true → b.streamActive = true ∧
        decimFor b.sh.cfgOdr b.stream.streamPreviewHz true =
          decimFor b.sh.cfgOdr b.stream.streamPreviewHz false) := by
  have hflags : (imuLogErase b.log).flags = if b.log.active then (false, false) else b.log.flags :=
    stopClose_flags b.log
  cases hact : b.log.active with
  | false =>
    rw [hact] at hflags
    refine iff_of_true ?_ fun h => absurd h (by rw [imuLogActive, hact]; decide)
    exact ha.log (Log.flags_eq hflags).1
  | true =>
    have hactive : imuLogActive b.log = true := hact
    have hended : imuLogActive (imuLogErase b.log) = false := by
      rw [hact] at hflags
      exact congrArg Prod.fst hflags
    have hcontent := ha.content
    have hdecim := ha.decim
    rw [hactive, Bool.or_true, if_pos rfl] at hcontent
    rw [hactive] at hdecim
    -- the content in use is the setting, which is never 0
    have hpos : 0 < (b.setting settingImuContent).toNat := by
      have hmeta : metaFor settingsGen settingImuContent = some _ := rfl
      have hmin := (hr.settings.get settingsGen hmeta).1
      exact UInt16.le_iff_toNat_le.mp hmin
    constructor
    · intro h _
      have hcontent' := h.content
      have hdecim' := h.decim
      rw [hended] at hcontent' hdecim'
      constructor
      · by_contra hoff
        rw [Bool.not_eq_true] at hoff
        have hzero : b.sh.cfgContent.toNat = 0 := by
          rw [hcontent']
          exact if_neg (by rw [hoff]; decide)
        omega
      · exact hdecim.symm.trans hdecim'
    · intro h
      obtain ⟨hon, hsame⟩ := h hactive
      refine ⟨ha.odr, ha.accelFs, ha.gyroFs, ?_, ?_⟩
      · rw [hended]
        show b.sh.cfgContent.toNat = if b.streamActive || false then _ else 0
        rw [hon]
        exact hcontent
      · rw [hended]
        exact hdecim.trans hsame

/-- `on_imucfg_write` either arbitrates or changes nothing. -/
theorem onImucfgWrite_cases (b : Board) (buf : List UInt8) (offset : Nat) :
    (onImucfgWrite b buf offset).1 = b ∨
      ∃ odr content afs gfs preview,
        (onImucfgWrite b buf offset).1 = applyImucfg b odr content afs gfs preview := by
  unfold onImucfgWrite
  split
  · split
    · exact Or.inl rfl
    · split
      · exact Or.inl rfl
      · exact Or.inr ⟨_, _, _, _, _, rfl⟩
  · exact Or.inl rfl

/-- `on_logctl_write` changes the queue at most. -/
theorem onLogctlWrite_queue (b : Board) (buf : List UInt8) (offset : Nat) :
    ∃ q, (onLogctlWrite b buf offset).1 = { b with cmdMsgq := q } := by
  unfold onLogctlWrite
  split
  · split
    · exact ⟨_, rfl⟩
    · split
      · exact ⟨_, rfl⟩
      · unfold deviceCmdSubmit
        dsimp only
        split
        · exact ⟨_, rfl⟩
        · exact ⟨_, rfl⟩
  · exact ⟨_, rfl⟩

/-- The board `on_imucfg_write` hands to the arbiter. -/
theorem applyImucfg_eq {b : Board} (h : Ready b) (odr content afs gfs : UInt8) (preview : UInt16) :
    ∃ b', Ready b' ∧ applyImucfg b odr content afs gfs preview = sessionImuRunUpdate b' := by
  have hstream : Ready { b with
      stream := streamSetPreview b.stream preview b.sh.cfgOdr (imuLogActive b.log) b.uptime } :=
    h.congr rfl rfl
  exact ⟨_, ((((hstream.set _ _).set _ _).set _ _).set _ _).set _ _, rfl⟩

theorem execute_ready {b : Board} (h : Ready b) (cmd : DeviceCmd) (ret : Int) :
    Ready (execute b cmd ret) := by
  have hstarted : ∀ {b'}, Ready b' → Ready (sessionOnLogStarted b') := fun h' =>
    runUpdate_ready (bleConnRequestParams_ready h' true)
  cases cmd with
  | setVoltMv v =>
    show Ready (if ret < 0 then b else b.set settingMotorVdcMv v)
    split
    · exact h
    · exact h.set _ _
  | log op =>
    unfold execute
    dsimp only
    split
    · exact runUpdate_ready (bleConnRequestParams_ready (h.log _) false)
    · split
      · split
        · exact hstarted (h.log _)
        · exact h.log _
      · split
        · split
          · exact hstarted (h.log _)
          · exact h.log _
        · split
          · exact h.log _
          · exact h

theorem sessionOnDisconnect_eq {b : Board} (h : Ready b) :
    ∃ b', Ready b' ∧ disconnected b = sessionImuRunUpdate b' := by
  refine ⟨_, ?_, rfl⟩
  split
  · exact h.congr rfl rfl
  · exact h.congr rfl rfl

/-- The board stays ready. -/
theorem step_ready {b : Board} (h : Ready b) (e : Event) : Ready (step b e) := by
  cases e with
  | stream on => exact runUpdate_ready (h.congr rfl rfl)
  | imucfg buf offset =>
    rcases onImucfgWrite_cases b buf offset with heq | ⟨odr, content, afs, gfs, preview, heq⟩
    · show Ready (onImucfgWrite b buf offset).1
      rw [heq]
      exact h
    · obtain ⟨b', hb', happly⟩ := applyImucfg_eq h odr content afs gfs preview
      show Ready (onImucfgWrite b buf offset).1
      rw [heq, happly]
      exact runUpdate_ready hb'
  | logctl buf offset =>
    obtain ⟨q, hq⟩ := onLogctlWrite_queue b buf offset
    show Ready (onLogctlWrite b buf offset).1
    rw [hq]
    exact h.congr rfl rfl
  | execute ret =>
    show Ready (match b.cmdMsgq with | [] => b | cmd :: rest => _)
    cases b.cmdMsgq with
    | nil => exact h
    | cons cmd rest =>
      have h' : Ready { b with cmdMsgq := rest } := h.congr rfl rfl
      exact execute_ready h' cmd ret
  | connect =>
    have h' : Ready { b with curConn := true } := h.congr rfl rfl
    exact bleConnRequestParams_ready h' false
  | disconnect =>
    obtain ⟨b', hb', heq⟩ := sessionOnDisconnect_eq h
    show Ready (disconnected b)
    rw [heq]
    exact runUpdate_ready hb'
  | timeSync epoch => exact h.clock _ _
  | tick ms => exact h.clock _ _
  | append xs => exact h.log _
  | drain ret => exact h.log _

/-- **Step lemma.** -/
theorem step_arbitrated_iff {b : Board} (hr : Ready b) (ha : Arbitrated b) (e : Event) :
    Arbitrated (step b e) ↔ Rearbitrated b e := by
  cases e with
  | stream on => exact iff_of_true (runUpdate_arbitrated (hr.congr rfl rfl)) trivial
  | imucfg buf offset =>
    refine iff_of_true ?_ trivial
    rcases onImucfgWrite_cases b buf offset with heq | ⟨odr, content, afs, gfs, preview, heq⟩
    · show Arbitrated (onImucfgWrite b buf offset).1
      rw [heq]
      exact ha
    · obtain ⟨b', hb', happly⟩ := applyImucfg_eq hr odr content afs gfs preview
      show Arbitrated (onImucfgWrite b buf offset).1
      rw [heq, happly]
      exact runUpdate_arbitrated hb'
  | logctl buf offset =>
    refine iff_of_true ?_ trivial
    obtain ⟨q, hq⟩ := onLogctlWrite_queue b buf offset
    show Arbitrated (onLogctlWrite b buf offset).1
    rw [hq]
    exact ha.congr (fun _ _ => rfl) rfl rfl rfl rfl
  | execute ret =>
    show Arbitrated (match b.cmdMsgq with | [] => b | cmd :: rest => _) ↔
      (b.cmdMsgq.head? = some (.log opErase) → _)
    cases b.cmdMsgq with
    | nil => exact iff_of_true ha fun h => absurd h (by simp)
    | cons cmd rest =>
      have hr' : Ready { b with cmdMsgq := rest } := hr.congr rfl rfl
      have ha' : Arbitrated { b with cmdMsgq := rest } :=
        ha.congr (fun _ _ => rfl) rfl rfl rfl rfl
      by_cases hcmd : cmd = .log opErase
      · subst hcmd
        rw [List.head?_cons]
        exact (erase_arbitrated_iff hr' ha').trans ⟨fun h _ => h, fun h => h rfl⟩
      · refine iff_of_true (execute_arbitrated ret hr' ha' hcmd) fun h => absurd ?_ hcmd
        exact Option.some.inj h
  | connect =>
    refine iff_of_true ?_ trivial
    exact ha.congr (fun _ _ => rfl) rfl rfl rfl rfl
  | disconnect =>
    refine iff_of_true ?_ trivial
    obtain ⟨b', hb', heq⟩ := sessionOnDisconnect_eq hr
    show Arbitrated (disconnected b)
    rw [heq]
    exact runUpdate_arbitrated hb'
  | timeSync epoch => exact iff_of_true (ha.clock _ _) trivial
  | tick ms => exact iff_of_true (ha.clock _ _) trivial
  | append xs =>
    exact iff_of_true (ha.log (Log.flags_eq (imuLogAppend_flags b.log xs)).1) trivial
  | drain ret =>
    exact iff_of_true (ha.log (Log.flags_eq (writerDrainBatch_flags b.log ret)).1) trivial

/-! ## Over runs -/

theorem justArbitrated {b : Board} (h : JustArbitrated b) : Ready b ∧ Arbitrated b := by
  obtain ⟨b₀, h₀, rfl⟩ := h
  have hstream : Ready { b₀ with
      stream := streamSetPreview b₀.stream (b₀.setting settingPreviewHz) b₀.sh.cfgOdr
        (imuLogActive b₀.log) b₀.uptime } := h₀.congr rfl rfl
  exact ⟨runUpdate_ready hstream, runUpdate_arbitrated hstream⟩

/-- **The board is arbitrated after every event of a run if and only if** no event of it is an erase
    that ends a running session, a stream that keeps the demand up at the same rate apart. -/
theorem arbitrated_iff {b : Board} (h : JustArbitrated b) (es : List Event) :
    (∀ k, Arbitrated (run b (es.take k))) ↔
      ∀ k e, es[k]? = some e → Rearbitrated (run b (es.take k)) e := by
  obtain ⟨hr, ha⟩ := justArbitrated h
  exact foldl_keeps_iff (P := Arbitrated) (G := Rearbitrated) (fun _ e hb => step_ready hb e)
    (fun _ e hb hp => step_arbitrated_iff hb hp e) hr ha es

/-- A board with default settings and an empty log, with the commands `cmds` queued. -/
def Board.fresh (cmds : List DeviceCmd) : Board where
  uptime := 0
  wallEpochAtBoot := 0
  settings := settingsStoreInit settingsGen crc32Ieee Store.cold none
  log := Log.cold Flash.blank
  streamActive := false
  sh := ⟨imuSharedMagic, 0, 7, 0, 0, 0⟩
  stream := Stream.cold
  dumpAbort := false
  curConn := true
  connParam := none
  cmdMsgq := cmds

theorem fresh_justArbitrated (cmds : List DeviceCmd) :
    JustArbitrated (firstArbitration (Board.fresh cmds)) :=
  ⟨_, ⟨rfl, settingsStoreInit_loaded settingsGen crc32Ieee Store.cold none⟩, rfl⟩

/-- Two sessions, one of them erased while it runs, the other stopped and then erased. -/
def erasures : List DeviceCmd := [.log opStart, .log opErase, .log opStart, .log opStop, .log opErase]

/-- They are executed under a stream whose rate the preview caps to 25 Hz. -/
def erasureRun : List Event :=
  [.imucfg [7, 3, 0, 0, 25, 0] 0, .stream true, .execute 0, .execute 0, .execute 0, .execute 0,
    .execute 0]

/-- The first erase ends a running session, and the board stays arbitrated. -/
theorem arbitrated_iff_erased :
    let b := firstArbitration (Board.fresh erasures)
    imuLogActive (run b (erasureRun.take 3)).log = true ∧
      (run b (erasureRun.take 3)).cmdMsgq.head? = some (.log opErase) ∧
      ∀ k, Arbitrated (run b (erasureRun.take k)) := by
  refine ⟨by decide +kernel, by decide +kernel,
    (arbitrated_iff (fresh_justArbitrated erasures) erasureRun).mpr fun k e he => ?_⟩
  match k with
  | 0 | 1 =>
    obtain rfl := Option.some.inj he
    trivial
  | 2 | 4 | 5 =>
    obtain rfl := Option.some.inj he
    exact fun h => absurd h (by decide +kernel)
  | 3 =>
    obtain rfl := Option.some.inj he
    exact fun _ _ => by decide +kernel
  | 6 =>
    obtain rfl := Option.some.inj he
    exact fun _ h => absurd h (by decide +kernel)
  | k + 7 => exact absurd he (by simp [erasureRun])

/-- **An erase leaves the sensor running**: a session is started and erased, and the shared block
    still asks for the data nobody wants. -/
theorem erase_leaves_running :
    ¬ ∀ k, Arbitrated (run (firstArbitration (Board.fresh [.log opStart, .log opErase]))
      ([.execute 0, .execute 0].take k)) := by
  let b := run (firstArbitration (Board.fresh [.log opStart, .log opErase]))
    [.execute 0, .execute 0]
  intro hall
  have hcontent : b.sh.cfgContent.toNat = if b.streamActive || imuLogActive b.log then
      (b.setting settingImuContent).toNat else 0 := (hall 2).content
  have hidle : (b.streamActive || imuLogActive b.log) = false := by
    decide +kernel
  have hrunning : b.sh.cfgContent.toNat = 3 := by
    decide +kernel
  rw [hidle, hrunning] at hcontent
  exact absurd hcontent (by decide)

end Caterpillar.App
