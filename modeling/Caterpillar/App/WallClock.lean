/-
  The wall clock: what the stamp of a session says, over power cycles.

  The board has no clock of its own.  A host that connects writes its time (`on_time_write`), from
  which `session_time_sync` takes the epoch at boot; `imu_log_start` stamps `session_wall_now()` into
  the directory entry, and 0 before the first sync.  A power cycle forgets the epoch, the directory
  keeps the stamps.

  1. **System** — `Clocked`: the board, the host's time, and for each slot when its session was opened
     (`Opening`).  Besides the board's own events the power may fail, after so many flash accesses of
     an event, and again in the boots that follow.
  2. **Entries** — `Kept`: entries go, their ids and stamps stay.  `app_kept` and `boot_kept` say so of
     every image on the way; an event that opens a session makes one access (`app_opens`).
  3. **Clock** — `sync_base`, `wallNow_near`: the two divisions by 1000 cost a second.
  4. **Run** — `stamps_tell_time`: whatever is on the flash is stamped with the time its session was
     opened at, within a second and the age of the sync; a 0 says that no host had synced the clock.
-/
import Caterpillar.App.Arbiter
import Caterpillar.ImuLog.Device

namespace Caterpillar.App.WallClock

open Caterpillar.Word Caterpillar.Runs Caterpillar.ImuLog Caterpillar.Settings Caterpillar.App

/-! ## The system -/

/-- A session is opened: its id, the host's time in milliseconds, and whether the board knows it. -/
structure Opening where
  seq : Nat
  host : Nat
  synced : Bool
  deriving DecidableEq

/-- The board under a host's clock. -/
structure Clocked where
  board : Board
  /-- The host's time when the board came up, in milliseconds since the epoch. -/
  boot : Nat
  /-- A host has synced the board's clock since. -/
  synced : Bool
  /-- The last session opened in each slot. -/
  opened : Nat → Option Opening

/-- The host's time. -/
def Clocked.host (s : Clocked) : Nat := s.boot + s.board.uptime

inductive Event where
  | board (e : App.Event)
  /-- The power fails in `e` after `k` of its accesses, and in the boots that follow after so many of
      theirs; `off` milliseconds later the board comes up as `b`. -/
  | cut (e : App.Event) (k : Nat) (boots : List Nat) (off : Nat) (b : Board)

/-- The entry `imu_log_start` writes if the event opens a session. -/
def opens (b : Board) : App.Event → Option DirEntry
  | .execute ret =>
      if b.log.active = false ∧ 0 ≤ ret ∧
          (b.cmdMsgq.head? = some (.log opStart) ∨ b.cmdMsgq.head? = some (.log opStartDetached)) then
        some (newEntry b.log.seqNext b.log.totalAbs b.stamp)
      else none
  | _ => none

/-- The openings once the event is through. -/
def Clocked.noted (s : Clocked) (e : App.Event) : Nat → Option Opening :=
  match opens s.board e with
  | none => s.opened
  | some entry => Function.update s.opened (slotOf entry.seq) (some ⟨entry.seq, s.host, s.synced⟩)

/-- The event syncs the clock. -/
def syncs : App.Event → Bool
  | .timeSync _ => true
  | _ => false

/-- The flash once `k` accesses of the event are done. -/
def cutFlash (b : Board) (e : App.Event) (k : Nat) : Flash :=
  replay Ev.effect (((App.step b e).log.trace.drop b.log.trace.length).take k) b.log.flash

/-- The flash once a boot was cut off after each of so many accesses. -/
def bootsCut (f : Flash) (boots : List Nat) : Flash :=
  boots.foldl (fun f k => replay Ev.effect ((bootLog f).trace.take k) f) f

/-- The board comes up on the flash; the settings and the link are whatever they are. -/
structure Booted (f : Flash) (b : Board) : Prop where
  log : b.log = bootLog f
  uptime : b.uptime = 0
  wall : b.wallEpochAtBoot = 0

/-- One step. -/
def Step (s : Clocked) : Event → Clocked → Prop
  | .board e, s' =>
      s' = { s with board := App.step s.board e, synced := s.synced || syncs e, opened := s.noted e }
  | .cut e k boots off b, s' =>
      Booted (bootsCut (cutFlash s.board e k) boots) b ∧
        s' = ⟨b, s.host + off, false, if k = 0 then s.opened else s.noted e⟩

/-- A host's time is right when it is taken, and at most `lag` seconds old when it arrives. -/
def Truthful (lag : Nat) (s : Clocked) : Event → Prop
  | .board (.timeSync epoch) => epoch ≤ s.host / 1000 ∧ s.host / 1000 ≤ epoch + lag
  | _ => True

/-- The board comes up on `f₀`, some time after 1970. -/
structure Start (lag : Nat) (f₀ : Flash) (s : Clocked) : Prop where
  booted : Booted f₀ s.board
  late : 1000 * (lag + 1) ≤ s.boot
  synced : s.synced = false
  opened : s.opened = fun _ => none

/-- The states of the system. -/
def Reached (lag : Nat) (f₀ : Flash) : Clocked → Prop :=
  Reach (Start lag f₀) (guarded (Truthful lag) Step)

/-- The seconds `wall` are the host's time, within one and the age of the sync. -/
def Near (lag : Nat) (host wall : Nat) : Prop := wall ≤ host / 1000 + 1 ∧ host / 1000 ≤ wall + lag + 1

/-- The entry is as it was at first, or it is the opened session's and tells the time. -/
def Stamped (lag : Nat) (e₀ : DirEntry) : Option Opening → DirEntry → Prop
  | none, e => e₀.Valid ∧ e.seq = e₀.seq ∧ e.wallStart = e₀.wallStart
  | some o, e => e.seq = o.seq ∧ if o.synced then Near lag o.host e.wallStart else e.wallStart = 0

/-! ## Clock and log

Stated for any log and any time: where the value is a call, comparing the boards would unfold it. -/

theorem clock_log (b : Board) (uptime wall : Nat) :
    ({ b with uptime := uptime, wallEpochAtBoot := wall } : Board).log = b.log := rfl

theorem log_clock (b : Board) (l : Log) : ({ b with log := l } : Board).uptime = b.uptime ∧
    ({ b with log := l } : Board).wallEpochAtBoot = b.wallEpochAtBoot := ⟨rfl, rfl⟩

theorem wall_clock (b : Board) (wall : Nat) :
    ({ b with wallEpochAtBoot := wall } : Board).uptime = b.uptime ∧
      ({ b with wallEpochAtBoot := wall } : Board).wallEpochAtBoot = wall := ⟨rfl, rfl⟩

/-! ## Entries -/

/-- Entries may go; those that stay keep their id and their stamp. -/
def Kept (f g : Flash) : Prop :=
  ∀ i, (g.entries i).Valid → (f.entries i).Valid ∧ (g.entries i).seq = (f.entries i).seq ∧
    (g.entries i).wallStart = (f.entries i).wallStart

theorem Kept.refl (f : Flash) : Kept f f := fun _ hv => ⟨hv, rfl, rfl⟩

theorem Kept.trans {f g h : Flash} (h1 : Kept f g) (h2 : Kept g h) : Kept f h := by
  intro i hv
  obtain ⟨hv₂, hseq₂, hwall₂⟩ := h2 i hv
  obtain ⟨hv₁, hseq₁, hwall₁⟩ := h1 i hv₂
  exact ⟨hv₁, hseq₂.trans hseq₁, hwall₂.trans hwall₁⟩

/-- Counts and open flags are no part of what is kept. -/
theorem Kept.image {R : Nat → Nat → Nat → Prop} {f g : Flash} (h : Image R f g) : Kept f g := by
  intro i hv
  obtain ⟨c, o, heq, -⟩ := h.1 i hv
  refine ⟨h.1.valid hv, ?_, ?_⟩
  · rw [heq]
  · rw [heq]

theorem Kept.of_entries {f g : Flash} (h : g.entries = f.entries) : Kept f g := by
  intro i hv
  rw [h] at hv ⊢
  exact ⟨hv, rfl, rfl⟩

theorem still_issues {s s' : Log} (h : s' = s) : Issues (Kept s.flash) s s' :=
  Issues.ram (Kept.refl s.flash) (congrArg Log.trace h) (congrArg Log.flash h)

theorem drain_issues (s : Log) (ret : Int) : Issues (Kept s.flash) s (writerDrainBatch s ret) := by
  by_cases h : u32Sub s.stageHead s.stageTail = 0
  · exact still_issues (writerDrainBatch_empty s ret h)
  · have hwrite : Kept s.flash ((s.drainWrite ret).effect s.flash) :=
      Kept.of_entries (drainWrite_entries s ret)
    have hrest := (writerDrainBatch_issues s ret h).mono fun f hf => hwrite.trans (Kept.image hf)
    exact (Issues.emit (Kept.refl s.flash) hwrite).trans hrest

theorem append_issues (s : Log) (xs : List Imu.ImuSample) :
    Issues (Kept s.flash) s (imuLogAppend s xs) := by
  obtain ⟨g, h, d, heq⟩ := imuLogAppend_ram s xs
  rw [heq]
  exact Issues.ram (Kept.refl s.flash) rfl rfl

theorem stop_issues (s : Log) : Issues (Kept s.flash) s (imuLogStop s) :=
  (stopClose_issues s).mono fun _ => Kept.image

theorem erase_issues (s : Log) : Issues (Kept s.flash) s (imuLogErase s) :=
  (imuLogErase_issues s).mono fun _ => Kept.image

/-- A start that opens nothing. -/
theorem start_issues (s : Log) (st : Stamp) (ret : Int) (h : s.active = true ∨ ret < 0) :
    Issues (Kept s.flash) s (imuLogStart s st ret).1 := by
  cases hact : s.active with
  | true => exact still_issues (by rw [imuLogStart_busy s st ret hact])
  | false =>
    rcases h with h | h
    · exact absurd (hact.symm.trans h) (by decide)
    · rw [imuLogStart_fail s st hact h]
      have hfail : (Ev.writeEntry (slotOf s.seqNext) (newEntry s.seqNext s.totalAbs st) ret).effect
          s.flash = s.flash := if_pos h
      have hissue : Issues (Kept s.flash) s (s.emit (.writeEntry (slotOf s.seqNext)
          (newEntry s.seqNext s.totalAbs st) ret)) :=
        Issues.emit (Kept.refl s.flash) (Kept.of_entries (congrArg Flash.entries hfail))
      exact hissue.trans (Issues.ram hissue.full rfl rfl)

/-- `s'` is `s` after one access, the statics apart. -/
def Wrote (s : Log) (ev : Ev) (s' : Log) : Prop :=
  s'.trace = s.trace ++ [ev] ∧ s'.flash = ev.effect s.flash

/-- A start that opens a session. -/
theorem start_wrote (b : Board) (ret : Int) (h : b.log.active = false ∧ 0 ≤ ret) :
    Wrote b.log (.writeEntry (slotOf b.log.seqNext)
      (newEntry b.log.seqNext b.log.totalAbs b.stamp) ret) (startLog b ret).1.log := by
  have hret : ¬ ret < 0 := Int.not_lt.mpr h.2
  unfold startLog
  rw [imuLogStart_ok _ _ h.1 hret]
  exact ⟨rfl, rfl⟩

/-- What a start command does to the log is what `imu_log_start` does, a mark apart. -/
theorem started_log (b : Board) (ret : Int) (op : UInt8) (hop : op = opStart ∨ op = opStartDetached) :
    (execute b (.log op) ret).log.trace = (startLog b ret).1.log.trace ∧
      (execute b (.log op) ret).log.flash = (startLog b ret).1.log.flash := by
  rcases hop with rfl | rfl
  · have heq : execute b (.log opStart) ret =
        if (startLog b ret).2 = 0 then sessionOnLogStarted (startLog b ret).1
        else (startLog b ret).1 := rfl
    rw [heq]
    split
    · rw [(onLogStarted_frame _).1]
      exact ⟨rfl, rfl⟩
    · exact ⟨rfl, rfl⟩
  · have heq : execute b (.log opStartDetached) ret =
        if (startLog b ret).2 = 0 then
          sessionOnLogStarted { (startLog b ret).1 with
            log := imuLogMarkDetached (startLog b ret).1.log }
        else (startLog b ret).1 := rfl
    rw [heq]
    split
    · rw [(onLogStarted_frame _).1]
      exact ⟨rfl, rfl⟩
    · exact ⟨rfl, rfl⟩

theorem execute_issues (b : Board) (cmd : DeviceCmd) (ret : Int)
    (h : cmd = .log opStart ∨ cmd = .log opStartDetached → b.log.active = true ∨ ret < 0) :
    Issues (Kept b.log.flash) b.log (execute b cmd ret).log := by
  cases cmd with
  | setVoltMv v =>
    refine still_issues ?_
    show (if ret < 0 then b else b.set settingMotorVdcMv v).log = b.log
    split
    · rfl
    · rfl
  | log op =>
    by_cases hop : op = opStart ∨ op = opStartDetached
    · have hissue := start_issues b.log b.stamp ret
        (h (hop.imp (congrArg DeviceCmd.log) (congrArg DeviceCmd.log)))
      obtain ⟨htrace, hflash⟩ := started_log b ret op hop
      exact hissue.trans (Issues.ram hissue.full htrace hflash)
    · obtain ⟨hstart, hdetached⟩ := not_or.mp hop
      unfold execute
      dsimp only
      rw [if_neg hstart, if_neg hdetached]
      split
      · rw [(onLogStopped_frame _).1]
        exact stop_issues b.log
      · split
        · exact erase_issues b.log
        · exact still_issues rfl

theorem execute_nil {b : Board} (hq : b.cmdMsgq = []) (ret : Int) :
    App.step b (.execute ret) = b := by
  simp only [App.step, hq]

theorem execute_cons {b : Board} {cmd : DeviceCmd} {rest : List DeviceCmd}
    (hq : b.cmdMsgq = cmd :: rest) (ret : Int) :
    App.step b (.execute ret) = execute { b with cmdMsgq := rest } cmd ret := by
  simp only [App.step, hq]

/-- **An event that opens no session** keeps the entries, on every image on the way. -/
theorem app_kept (b : Board) (e : App.Event) (h : opens b e = none) :
    Issues (Kept b.log.flash) b.log (App.step b e).log := by
  cases e with
  | stream on =>
    refine still_issues ?_
    show (sessionImuRunUpdate _).log = _
    rw [(runUpdate_frame _).1]
  | imucfg buf offset =>
    refine still_issues ?_
    show (onImucfgWrite b buf offset).1.log = b.log
    rcases onImucfgWrite_cases b buf offset with heq | ⟨odr, content, afs, gfs, preview, heq⟩
    · rw [heq]
    · rw [heq, applyImucfg, (runUpdate_frame _).1]
      rfl
  | logctl buf offset =>
    refine still_issues ?_
    show (onLogctlWrite b buf offset).1.log = b.log
    obtain ⟨q, hq⟩ := onLogctlWrite_queue b buf offset
    rw [hq]
  | execute ret =>
    have hnone : ¬ (b.log.active = false ∧ 0 ≤ ret ∧ _) := fun hc => by
      rw [opens, if_pos hc] at h
      exact absurd h (by simp)
    cases hq : b.cmdMsgq with
    | nil => exact still_issues (congrArg Board.log (execute_nil hq ret))
    | cons cmd rest =>
      rw [execute_cons hq ret]
      refine execute_issues { b with cmdMsgq := rest } cmd ret fun hcmd => ?_
      by_contra hopens
      obtain ⟨hidle, hret⟩ := not_or.mp hopens
      refine hnone ⟨Bool.eq_false_iff.mpr hidle, Int.not_lt.mp hret, ?_⟩
      rw [hq]
      exact hcmd.imp (congrArg some) (congrArg some)
  | connect =>
    refine still_issues ?_
    show (bleConnRequestParams _ false).log = _
    rw [(requestParams_frame _ false).1]
  | disconnect =>
    have hlog : (App.step b .disconnect).log =
        if imuLogDetached b.log then b.log else imuLogStop b.log := by
      show (sessionImuRunUpdate _).log = _
      rw [(runUpdate_frame _).1]
      split
      · rename_i hdet
        exact (if_pos hdet).symm
      · rename_i hdet
        exact (if_neg hdet).symm
    rw [hlog]
    split
    · exact still_issues rfl
    · exact stop_issues b.log
  | timeSync epoch => exact still_issues (clock_log b b.uptime _)
  | tick ms => exact still_issues (clock_log b _ b.wallEpochAtBoot)
  | append xs => exact append_issues b.log xs
  | drain ret => exact drain_issues b.log ret

/-- **An event that opens a session** writes its entry, and nothing else. -/
theorem app_opens (b : Board) {e : App.Event} {entry : DirEntry} (h : opens b e = some entry) :
    entry = newEntry b.log.seqNext b.log.totalAbs b.stamp ∧
      ∃ ret, ¬ ret < 0 ∧
        Wrote b.log (.writeEntry (slotOf entry.seq) entry ret) (App.step b e).log := by
  cases e with
  | execute ret =>
    obtain ⟨⟨hidle, hret, hcmd⟩, hentry⟩ := Option.ite_none_right_eq_some.mp h
    obtain rfl := Option.some.inj hentry
    refine ⟨rfl, ret, Int.not_lt.mpr hret, ?_⟩
    cases hq : b.cmdMsgq with
    | nil =>
      rw [hq] at hcmd
      exact absurd hcmd (by simp)
    | cons cmd rest =>
      obtain ⟨op, hop, rfl⟩ : ∃ op, (op = opStart ∨ op = opStartDetached) ∧ cmd = .log op := by
        rw [hq] at hcmd
        rcases hcmd with hcmd | hcmd
        · exact ⟨opStart, Or.inl rfl, Option.some.inj hcmd⟩
        · exact ⟨opStartDetached, Or.inr rfl, Option.some.inj hcmd⟩
      obtain ⟨htrace, hflash⟩ := started_log { b with cmdMsgq := rest } ret op hop
      obtain ⟨hwtrace, hwflash⟩ := start_wrote { b with cmdMsgq := rest } ret ⟨hidle, hret⟩
      rw [execute_cons hq ret]
      exact ⟨htrace.trans hwtrace, hflash.trans hwflash⟩
  | _ => exact absurd h (by simp [opens])

/-! ### Boots -/

theorem initSlot_issues {f : Flash} (s : Log) (i : Nat) (h : Kept f s.flash) :
    Issues (Kept f) s (initSlot s i) := by
  have hread : Issues (Kept f) s (s.emit (.readEntry i)) := Issues.emit h h
  unfold initSlot
  dsimp only
  split
  · exact hread
  · rename_i hv
    refine hread.trans ?_
    have hclose : Issues (Kept f) (s.emit (.readEntry i))
        (closeSlot (s.emit (.readEntry i)) i (s.flash.entries i).mended) := by
      unfold closeSlot
      split
      · refine Issues.emit h (h.trans fun j hj => ?_)
        rw [effect_writeEntry_entries (by decide)] at hj ⊢
        split at hj
        · rename_i hji
          subst hji
          refine ⟨not_not.mp hv, ?_, ?_⟩
          · rw [if_pos rfl]
            show (DirEntry.mended _).seq = _
            unfold DirEntry.mended
            split
            · rfl
            · rfl
          · rw [if_pos rfl]
            show (DirEntry.mended _).wallStart = _
            unfold DirEntry.mended
            split
            · rfl
            · rfl
        · rename_i hji
          rw [if_neg hji]
          exact ⟨hj, rfl, rfl⟩
      · exact Issues.ram h rfl rfl
    exact hclose.trans (Issues.ram hclose.full rfl rfl)

/-- **A boot** keeps the entries, on every image on the way. -/
theorem boot_kept (f : Flash) : Issues (Kept f) (Log.cold f) (bootLog f) := by
  have hread : Issues (Kept f) (Log.cold f) ((Log.cold f).emit .readMeta) :=
    Issues.emit (Kept.refl f) (Kept.refl f)
  unfold bootLog imuLogInit
  dsimp only
  split
  · have hwipe : Kept f (Ev.wipeDir.effect f) := fun _ hv => absurd hv DirEntry.not_valid_erased
    have hstamp : Kept f ((Ev.writeMeta ownMeta).effect (Ev.wipeDir.effect f)) := fun _ hv =>
      absurd hv DirEntry.not_valid_erased
    exact hread.trans ((Issues.emit (Kept.refl f) hwipe).trans (Issues.emit hwipe hstamp))
  · refine hread.trans ?_
    exact Issues.foldl (Q := fun _ => True) (fun s i _ hs => ⟨initSlot_issues s i hs, trivial⟩)
      (List.range maxSessions) ((Log.cold f).emit .readMeta) trivial (Kept.refl f)

theorem bootsCut_kept (f : Flash) (boots : List Nat) : Kept f (bootsCut f boots) := by
  induction boots generalizing f with
  | nil => exact Kept.refl f
  | cons k boots ih => exact ((boot_kept f).cut rfl k).trans (ih _)

/-! ## The clock -/

theorem runUpdate_clock (b : Board) : (sessionImuRunUpdate b).uptime = b.uptime ∧
    (sessionImuRunUpdate b).wallEpochAtBoot = b.wallEpochAtBoot := by
  unfold sessionImuRunUpdate
  split
  · exact ⟨rfl, rfl⟩
  · exact ⟨rfl, rfl⟩

theorem requestParams_clock (b : Board) (slow : Bool) :
    (bleConnRequestParams b slow).uptime = b.uptime ∧
      (bleConnRequestParams b slow).wallEpochAtBoot = b.wallEpochAtBoot := by
  unfold bleConnRequestParams
  split
  · exact ⟨rfl, rfl⟩
  · exact ⟨rfl, rfl⟩

theorem onLogStarted_clock (b : Board) : (sessionOnLogStarted b).uptime = b.uptime ∧
    (sessionOnLogStarted b).wallEpochAtBoot = b.wallEpochAtBoot := by
  obtain ⟨h1, h2⟩ := runUpdate_clock (bleConnRequestParams b true)
  obtain ⟨h3, h4⟩ := requestParams_clock b true
  exact ⟨h1.trans h3, h2.trans h4⟩

theorem onLogStopped_clock (b : Board) : (sessionOnLogStopped b).uptime = b.uptime ∧
    (sessionOnLogStopped b).wallEpochAtBoot = b.wallEpochAtBoot := by
  obtain ⟨h1, h2⟩ := runUpdate_clock (bleConnRequestParams b false)
  obtain ⟨h3, h4⟩ := requestParams_clock b false
  exact ⟨h1.trans h3, h2.trans h4⟩

theorem execute_clock (b : Board) (cmd : DeviceCmd) (ret : Int) :
    (execute b cmd ret).uptime = b.uptime ∧
      (execute b cmd ret).wallEpochAtBoot = b.wallEpochAtBoot := by
  cases cmd with
  | setVoltMv v =>
    unfold execute
    dsimp only
    split
    · exact ⟨rfl, rfl⟩
    · exact ⟨rfl, rfl⟩
  | log op =>
    have hstart : (startLog b ret).1.uptime = b.uptime ∧
        (startLog b ret).1.wallEpochAtBoot = b.wallEpochAtBoot := ⟨rfl, rfl⟩
    unfold execute
    dsimp only
    split
    · exact onLogStopped_clock { b with log := imuLogStop b.log }
    · split
      · split
        · exact onLogStarted_clock (startLog b ret).1
        · exact hstart
      · split
        · split
          · exact onLogStarted_clock { (startLog b ret).1 with
              log := imuLogMarkDetached (startLog b ret).1.log }
          · exact hstart
        · split
          · exact ⟨rfl, rfl⟩
          · exact ⟨rfl, rfl⟩

/-- **Only a sync sets the clock**, and the time does not go back. -/
theorem app_clock (b : Board) (e : App.Event) :
    (∃ epoch, e = .timeSync epoch ∧ (App.step b e).uptime = b.uptime ∧
        (App.step b e).wallEpochAtBoot = u32Sub epoch (u32 (b.uptime / 1000))) ∨
      (syncs e = false ∧ b.uptime ≤ (App.step b e).uptime ∧
        (App.step b e).wallEpochAtBoot = b.wallEpochAtBoot) := by
  have hkept : ∀ {b' : Board}, b'.uptime = b.uptime ∧ b'.wallEpochAtBoot = b.wallEpochAtBoot →
      b.uptime ≤ b'.uptime ∧ b'.wallEpochAtBoot = b.wallEpochAtBoot := fun h =>
    ⟨Nat.le_of_eq h.1.symm, h.2⟩
  cases e with
  | timeSync epoch => exact Or.inl ⟨epoch, rfl, wall_clock b _⟩
  | tick ms => exact Or.inr ⟨rfl, Nat.le_add_right b.uptime ms, rfl⟩
  | stream on =>
    refine Or.inr ⟨rfl, hkept ?_⟩
    show (sessionImuRunUpdate _).uptime = _ ∧ (sessionImuRunUpdate _).wallEpochAtBoot = _
    rw [(runUpdate_clock _).1, (runUpdate_clock _).2]
    exact ⟨rfl, rfl⟩
  | imucfg buf offset =>
    refine Or.inr ⟨rfl, hkept ?_⟩
    show (onImucfgWrite b buf offset).1.uptime = _ ∧ (onImucfgWrite b buf offset).1.wallEpochAtBoot = _
    rcases onImucfgWrite_cases b buf offset with heq | ⟨odr, content, afs, gfs, preview, heq⟩
    · rw [heq]
      exact ⟨rfl, rfl⟩
    · rw [heq, applyImucfg, (runUpdate_clock _).1, (runUpdate_clock _).2]
      exact ⟨rfl, rfl⟩
  | logctl buf offset =>
    refine Or.inr ⟨rfl, hkept ?_⟩
    show (onLogctlWrite b buf offset).1.uptime = _ ∧ (onLogctlWrite b buf offset).1.wallEpochAtBoot = _
    obtain ⟨q, hq⟩ := onLogctlWrite_queue b buf offset
    rw [hq]
    exact ⟨rfl, rfl⟩
  | execute ret =>
    refine Or.inr ⟨rfl, hkept ?_⟩
    cases hq : b.cmdMsgq with
    | nil =>
      rw [execute_nil hq ret]
      exact ⟨rfl, rfl⟩
    | cons cmd rest =>
      rw [execute_cons hq ret]
      exact execute_clock { b with cmdMsgq := rest } cmd ret
  | connect =>
    refine Or.inr ⟨rfl, hkept ?_⟩
    exact requestParams_clock { b with curConn := true } false
  | disconnect =>
    refine Or.inr ⟨rfl, hkept ?_⟩
    show (sessionImuRunUpdate _).uptime = _ ∧ (sessionImuRunUpdate _).wallEpochAtBoot = _
    rw [(runUpdate_clock _).1, (runUpdate_clock _).2]
    split
    · exact ⟨rfl, rfl⟩
    · exact ⟨rfl, rfl⟩
  | append xs => exact Or.inr ⟨rfl, hkept (log_clock b _)⟩
  | drain ret => exact Or.inr ⟨rfl, hkept (log_clock b _)⟩

/-- **A sync** takes the host's time at boot over, within a second and its age. -/
theorem sync_base {lag boot uptime epoch : Nat} (hlate : 1000 * (lag + 1) ≤ boot)
    (hle : epoch ≤ (boot + uptime) / 1000) (hage : (boot + uptime) / 1000 ≤ epoch + lag)
    (hyear : (boot + uptime) / 1000 + 1 < 4294967296) :
    boot / 1000 ≤ u32Sub epoch (u32 (uptime / 1000)) + lag ∧
      u32Sub epoch (u32 (uptime / 1000)) ≤ boot / 1000 + 1 := by
  have hsince : uptime / 1000 ≤ epoch := by
    omega
  rw [u32_of_lt (by omega : uptime / 1000 < 4294967296), u32Sub_of_le hsince (by omega)]
  omega

/-- **The clock of a synced board** is the host's, within a second and the age of the sync. -/
theorem wallNow_near {lag boot : Nat} {b : Board} (hlate : 1000 * (lag + 1) ≤ boot)
    (hlo : boot / 1000 ≤ b.wallEpochAtBoot + lag) (hhi : b.wallEpochAtBoot ≤ boot / 1000 + 1)
    (hyear : (boot + b.uptime) / 1000 + 1 < 4294967296) :
    Near lag (boot + b.uptime) (sessionWallNow b) := by
  have hset : b.wallEpochAtBoot ≠ 0 := by
    omega
  have hsum : b.wallEpochAtBoot + b.uptime / 1000 < 4294967296 := by
    omega
  unfold sessionWallNow
  rw [if_neg hset, u32_of_lt hsum]
  exact ⟨by omega, by omega⟩

/-! ## The run -/

/-- The year is one that 32 bits of seconds reach. -/
def Clocked.inTime (s : Clocked) : Prop := s.host / 1000 + 1 < 4294967296

/-- Every entry is stamped as `Stamped` says. -/
def Tells (lag : Nat) (f₀ : Flash) (opened : Nat → Option Opening) (f : Flash) : Prop :=
  ∀ i, (f.entries i).Valid → Stamped lag (f₀.entries i) (opened i) (f.entries i)

/-- What holds in every state. -/
structure Inv (lag : Nat) (f₀ : Flash) (s : Clocked) : Prop where
  late : 1000 * (lag + 1) ≤ s.boot
  unsynced : s.synced = false → s.board.wallEpochAtBoot = 0
  synced : s.inTime → s.synced = true →
    s.boot / 1000 ≤ s.board.wallEpochAtBoot + lag ∧ s.board.wallEpochAtBoot ≤ s.boot / 1000 + 1
  tells : s.inTime → Tells lag f₀ s.opened s.board.log.flash

variable {lag : Nat} {f₀ : Flash}

theorem Stamped.congr {e₀ e e' : DirEntry} {o : Option Opening} (h : Stamped lag e₀ o e)
    (hseq : e'.seq = e.seq) (hwall : e'.wallStart = e.wallStart) : Stamped lag e₀ o e' := by
  cases o with
  | none =>
    obtain ⟨hv, hs, hw⟩ := h
    exact ⟨hv, hseq.trans hs, hwall.trans hw⟩
  | some o =>
    obtain ⟨hs, hw⟩ := h
    refine ⟨hseq.trans hs, ?_⟩
    rw [hwall]
    exact hw

theorem Tells.kept {opened : Nat → Option Opening} {f g : Flash} (h : Tells lag f₀ opened f)
    (hkept : Kept f g) : Tells lag f₀ opened g := by
  intro i hv
  obtain ⟨hold, hseq, hwall⟩ := hkept i hv
  exact (h i hold).congr hseq hwall

theorem Tells.write {opened : Nat → Option Opening} {f : Flash} {entry : DirEntry} {o : Opening}
    {ret : Int} (h : Tells lag f₀ opened f) (slot : Nat) (hret : ¬ ret < 0)
    (hentry : ∀ e₀, Stamped lag e₀ (some o) entry) :
    Tells lag f₀ (Function.update opened slot (some o))
      ((Ev.writeEntry slot entry ret).effect f) := by
  intro i hv
  rw [effect_writeEntry_entries hret] at hv ⊢
  by_cases hi : i = slot
  · subst hi
    rw [if_pos rfl, Function.update_self]
    exact hentry _
  · rw [if_neg hi] at hv ⊢
    rw [Function.update_of_ne hi]
    exact h i hv

/-- What the board's clock reads. -/
theorem Inv.clock {s : Clocked} (h : Inv lag f₀ s) (hin : s.inTime) :
    if s.synced then Near lag s.host (sessionWallNow s.board) else sessionWallNow s.board = 0 := by
  cases hsync : s.synced with
  | false => exact if_pos (h.unsynced hsync)
  | true =>
    obtain ⟨hlo, hhi⟩ := h.synced hin hsync
    exact wallNow_near h.late hlo hhi hin

/-- **An event**, cut off or not, leaves entries that tell the time. -/
theorem Inv.event {s : Clocked} (h : Inv lag f₀ s) (hin : s.inTime) (e : App.Event) :
    Tells lag f₀ (s.noted e) (App.step s.board e).log.flash ∧
      ∀ k, Tells lag f₀ (if k = 0 then s.opened else s.noted e) (cutFlash s.board e k) := by
  have htells := h.tells hin
  unfold Clocked.noted
  cases hopens : opens s.board e with
  | none =>
    obtain ⟨t, htrace, hflash, halong⟩ := app_kept s.board e hopens
    refine ⟨htells.kept (hflash ▸ halong.full), fun k => ?_⟩
    rw [ite_self, cutFlash, htrace, List.drop_left]
    exact htells.kept (halong k)
  | some entry =>
    obtain ⟨hentry, ret, hret, htrace, hflash⟩ := app_opens s.board hopens
    have hstamped : ∀ e₀, Stamped lag e₀ (some ⟨entry.seq, s.host, s.synced⟩) entry := fun _ => by
      refine ⟨rfl, ?_⟩
      rw [hentry]
      exact h.clock hin
    have hwrite := htells.write (slotOf entry.seq) hret hstamped
    refine ⟨hflash ▸ hwrite, fun k => ?_⟩
    rw [cutFlash, htrace, List.drop_left]
    cases k with
    | zero => exact htells
    | succ k =>
      rw [if_neg (Nat.succ_ne_zero k), List.take_succ_cons, List.take_nil]
      exact hwrite

theorem start_inv {s : Clocked} (h : Start lag f₀ s) : Inv lag f₀ s := by
  obtain ⟨⟨hlog, -, hwall⟩, hlate, hsync, hopened⟩ := h
  refine ⟨hlate, fun _ => hwall, fun _ hs => ?_, fun _ i hv => ?_⟩
  · rw [hsync] at hs
    exact absurd hs (by decide)
  · rw [hlog] at hv ⊢
    rw [hopened]
    exact (boot_kept f₀).full i hv

theorem Clocked.inTime_mono {s s' : Clocked} (hle : s.host ≤ s'.host) (hin : s'.inTime) : s.inTime :=
  Nat.lt_of_le_of_lt (Nat.succ_le_succ (Nat.div_le_div_right hle)) hin

/-- A sync that is not too old. -/
theorem Inv.sync {s : Clocked} (h : Inv lag f₀ s) {epoch : Nat} {b : Board}
    {opened : Nat → Option Opening} (hepoch : epoch ≤ s.host / 1000)
    (hage : s.host / 1000 ≤ epoch + lag) (huptime : b.uptime = s.board.uptime)
    (hwall : b.wallEpochAtBoot = u32Sub epoch (u32 (s.board.uptime / 1000)))
    (htells : s.inTime → Tells lag f₀ opened b.log.flash) : Inv lag f₀ ⟨b, s.boot, true, opened⟩ := by
  have hin : Clocked.inTime ⟨b, s.boot, true, opened⟩ → s.inTime :=
    Clocked.inTime_mono (Nat.add_le_add_left (Nat.le_of_eq huptime.symm) s.boot)
  refine ⟨h.late, fun hs => absurd hs Bool.noConfusion, fun hin' _ => ?_, fun hin' => htells (hin hin')⟩
  show s.boot / 1000 ≤ b.wallEpochAtBoot + lag ∧ b.wallEpochAtBoot ≤ s.boot / 1000 + 1
  rw [hwall]
  exact sync_base h.late hepoch hage (hin hin')

/-- What leaves the clock alone. -/
theorem Inv.keep {s : Clocked} (h : Inv lag f₀ s) {b : Board} {opened : Nat → Option Opening}
    (huptime : s.board.uptime ≤ b.uptime) (hwall : b.wallEpochAtBoot = s.board.wallEpochAtBoot)
    (htells : s.inTime → Tells lag f₀ opened b.log.flash) :
    Inv lag f₀ ⟨b, s.boot, s.synced, opened⟩ := by
  have hin : Clocked.inTime ⟨b, s.boot, s.synced, opened⟩ → s.inTime :=
    Clocked.inTime_mono (Nat.add_le_add_left huptime s.boot)
  refine ⟨h.late, fun hs => hwall.trans (h.unsynced hs), fun hin' hs => ?_, fun hin' =>
    htells (hin hin')⟩
  show s.boot / 1000 ≤ b.wallEpochAtBoot + lag ∧ b.wallEpochAtBoot ≤ s.boot / 1000 + 1
  rw [hwall]
  exact h.synced (hin hin') hs

/-- A board that comes up again. -/
theorem Inv.reboot {s : Clocked} (h : Inv lag f₀ s) {b : Board} {f : Flash} (off : Nat)
    {opened : Nat → Option Opening} (hb : Booted f b) (htells : s.inTime → Tells lag f₀ opened f) :
    Inv lag f₀ ⟨b, s.host + off, false, opened⟩ := by
  have hlate : s.boot ≤ s.host := Nat.le_add_right ..
  have hin : Clocked.inTime ⟨b, s.host + off, false, opened⟩ → s.inTime :=
    Clocked.inTime_mono (Nat.le_trans (Nat.le_add_right s.host off) (Nat.le_add_right _ _))
  refine ⟨?_, fun _ => hb.wall, fun _ hs => absurd hs Bool.noConfusion, fun hin' => ?_⟩
  · exact Nat.le_trans h.late (Nat.le_trans hlate (Nat.le_add_right ..))
  · show Tells lag f₀ opened b.log.flash
    rw [hb.log]
    exact (htells (hin hin')).kept (boot_kept f).full

/-- **Step lemma.** -/
theorem step_inv {s s' : Clocked} {ev : Event} (h : Inv lag f₀ s) (hg : Truthful lag s ev)
    (hstep : Step s ev s') : Inv lag f₀ s' := by
  cases ev with
  | board e =>
    obtain rfl := hstep
    rcases app_clock s.board e with ⟨epoch, rfl, huptime, hwall⟩ | ⟨hsync, huptime, hwall⟩
    · rw [syncs, Bool.or_true]
      exact h.sync hg.1 hg.2 huptime hwall fun hin => (h.event hin _).1
    · rw [hsync, Bool.or_false]
      exact h.keep huptime hwall fun hin => (h.event hin e).1
  | cut e k boots off b =>
    obtain ⟨hb, rfl⟩ := hstep
    exact h.reboot off hb fun hin => ((h.event hin e).2 k).kept (bootsCut_kept _ boots)

theorem reached_inv {s : Clocked} (h : Reached lag f₀ s) : Inv lag f₀ s :=
  h.invariant (fun _ hs => start_inv hs) fun _ _ _ _ hi hst => step_inv hi hst.1 hst.2

/-- **Stamps tell the time.**  However syncs, sessions, erases and power failures come, as long as 32
    bits of seconds reach the host's time: the board's clock is the host's, within a second and the
    age of the sync, or reads 0 if no host has synced it since it came up; and every entry on the
    flash was there from the first, or was stamped with what the clock read when its session was
    opened. -/
theorem stamps_tell_time {s : Clocked} (h : Reached lag f₀ s) (hin : s.host / 1000 + 1 < 4294967296) :
    (if s.synced then Near lag s.host (sessionWallNow s.board) else sessionWallNow s.board = 0) ∧
      ∀ i, (s.board.log.flash.entries i).Valid →
        Stamped lag (f₀.entries i) (s.opened i) (s.board.log.flash.entries i) :=
  ⟨(reached_inv h).clock hin, (reached_inv h).tells hin⟩

/-- The board comes up on the flash, a start command in its queue. -/
def coming (f : Flash) : Board := { Board.fresh [.log opStart] with log := bootLog f }

theorem coming_booted (f : Flash) : Booted f (coming f) := ⟨rfl, rfl, rfl⟩

/-- Synced, and five seconds later the power fails as a session is opened, and again in the boot that
    follows. -/
theorem stamps_tell_time_power_cycle : ∃ s : Clocked, s.synced = false ∧
    s.opened 0 = some ⟨1, 1700000005000, true⟩ ∧ (s.board.log.flash.entries 0).Valid ∧
    Near 1 1700000005000 (s.board.log.flash.entries 0).wallStart := by
  let s₀ : Clocked := ⟨coming Flash.blank, 1700000000000, false, fun _ => none⟩
  let s₁ : Clocked := ⟨App.step s₀.board (.timeSync 1700000000), s₀.boot, true, s₀.noted (.timeSync 0)⟩
  let s₂ : Clocked := ⟨App.step s₁.board (.tick 5000), s₁.boot, true, s₁.noted (.tick 5000)⟩
  let f := bootsCut (cutFlash s₂.board (.execute 0) 1) [1]
  have h₀ : Reached 1 Flash.blank s₀ :=
    .start ⟨coming_booted Flash.blank, by decide, rfl, rfl⟩
  have h₁ : Reached 1 Flash.blank s₁ :=
    h₀.next (a := .board (.timeSync 1700000000)) ⟨⟨by decide, by decide⟩, rfl⟩
  have h₂ : Reached 1 Flash.blank s₂ := h₁.next (a := .board (.tick 5000)) ⟨trivial, rfl⟩
  let s₃ : Clocked := ⟨coming f, s₂.host + 2000, false, s₂.noted (.execute 0)⟩
  have h₃ : Reached 1 Flash.blank s₃ :=
    h₂.next (a := .cut (.execute 0) 1 [1] 2000 (coming f)) ⟨trivial, coming_booted f, rfl⟩
  have hyear : s₃.host / 1000 + 1 < 4294967296 := by decide +kernel
  have hopened : s₃.opened 0 = some ⟨1, 1700000005000, true⟩ := by decide +kernel
  have hvalid : (s₃.board.log.flash.entries 0).Valid := by decide +kernel
  have hsync : s₃.synced = false := rfl
  clear_value s₃
  obtain ⟨-, hall⟩ := stamps_tell_time h₃ hyear
  have htold := hall 0 hvalid
  rw [hopened] at htold
  obtain ⟨-, hnear⟩ := htold
  exact ⟨s₃, hsync, hopened, hvalid, hnear⟩

end Caterpillar.App.WallClock
