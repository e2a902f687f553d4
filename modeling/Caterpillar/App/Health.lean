/-
  The health monitor: the loop of `app_run` (src/app/app.c).

  Once a second it reads the coprocessor's block, the pump and the log, arbitrates the sensor when it
  first sees the coprocessor run, announces what was lost since the last turn, and warns of a fault at
  most every five seconds.

  1. **Program** — `iteration`, over one turn's `Readings`.  Every reading is free: the other threads
     run between any two of them.
  2. **Warnings** — `health_warns`: five seconds apart, each true of its turn, and no fault older than
     five seconds without one.
  3. **The account** — `overruns_add_up`: what is announced is the counter, and a whole turn of a word
     for each time the counter goes back.
  4. **Lines** — `text_whole`: no message is too long for its slot.
  5. **The first arbitration** — `boot_arbitrates`: from power-up on, whatever comes before the
     coprocessor runs, the loop leaves the shared block as the settings and the demand call for.
-/
import Caterpillar.App.Provenance
import Caterpillar.Ble.Messages
import Mathlib.Algebra.GroupWithZero.Nat
import Mathlib.Data.List.Induction

namespace Caterpillar.App.Health

open Caterpillar.Word Caterpillar.Bytes Caterpillar.Runs Caterpillar.ImuLog Caterpillar.Settings
open Caterpillar.App.Provenance (runUpdate_settings requestParams_settings onLogStarted_settings
  onLogStopped_settings)
open Caterpillar.Ble.Messages (decimal lineOf msgLen)

/-! ## The program -/

/-- What one turn reads, each once. -/
structure Readings where
  /-- `sh->magic == IMU_SHARED_MAGIC`. -/
  alive : Bool
  /-- `k_uptime_get()`. -/
  now : Int
  /-- `imu_pump_drained()`. -/
  drained : UInt32
  /-- `imu_pump_overrun()`. -/
  overrun : UInt32
  /-- `imu_log_write_dropped()`. -/
  wdrop : UInt32
  imuOk : Bool
  whoami : UInt8
  /-- `session_imu_demand()`. -/
  demand : Bool

/-- What is told over `ble_msg`. -/
inductive Msg where
  | overrun (lost total : UInt32)
  | backlog (lost total : UInt32)
  | notRunning
  | initFailed (whoami : UInt8)
  | stalled (drained : UInt32)
  deriving DecidableEq

/-- The locals of `app_run`. -/
structure Locals where
  flprAnnounced : Bool
  lastDrained : UInt32
  lastOverrun : UInt32
  lastWdrop : UInt32
  lastWarn : Int

/-- `app_run` is entered. -/
def Locals.start : Locals := ⟨false, 0, 0, 0, 0⟩

/-- The fault the branches of the loop see, pacing aside. -/
def fault (lastDrained : UInt32) (x : Readings) : Option Msg :=
  if !x.alive then some .notRunning
  else if !x.imuOk then some (.initFailed x.whoami)
  -- idle sampling is normal: stalled only counts when something wants data
  else if x.drained = lastDrained && x.demand then some (.stalled x.drained)
  else none

/-- The warning of a turn. -/
def warning (h : Locals) (x : Readings) : Option Msg :=
  if x.now - h.lastWarn ≥ 5000 then fault h.lastDrained x else none

/-- The losses a turn announces. -/
def losses (h : Locals) (x : Readings) : List Msg :=
  (if x.overrun ≠ h.lastOverrun then [.overrun (x.overrun - h.lastOverrun) x.overrun] else []) ++
    if x.wdrop > h.lastWdrop then [.backlog (x.wdrop - h.lastWdrop) x.wdrop] else []

/-- Whether a turn arbitrates the sensor. -/
def arbitrates (h : Locals) (x : Readings) : Bool := x.alive && !h.flprAnnounced

/-- One turn of the loop. -/
def turn (h : Locals) (x : Readings) : Locals where
  flprAnnounced := h.flprAnnounced || x.alive
  lastDrained := x.drained
  lastOverrun := x.overrun
  lastWdrop := x.wdrop
  lastWarn := if (warning h x).isSome then x.now else h.lastWarn

/-- The loop, with what it has told and how often it has arbitrated. -/
structure Monitor where
  locals : Locals
  warned : List (Int × Msg)
  lost : List Msg
  arbitrations : Nat

def Monitor.start : Monitor := ⟨Locals.start, [], [], 0⟩

/-- One turn. -/
def Monitor.iteration (m : Monitor) (x : Readings) : Monitor where
  locals := turn m.locals x
  warned := m.warned ++ (warning m.locals x).toList.map fun w => (x.now, w)
  lost := m.lost ++ losses m.locals x
  arbitrations := m.arbitrations + (arbitrates m.locals x).toNat

/-- The turns so far. -/
def monitor (xs : List Readings) : Monitor := xs.foldl Monitor.iteration Monitor.start

theorem monitor_snoc (xs : List Readings) (x : Readings) :
    monitor (xs ++ [x]) = (monitor xs).iteration x := by
  rw [monitor, List.foldl_append]
  rfl

/-! ## Warnings -/

/-- `last_drained` in the turn after the turns `xs`. -/
def drainedBefore (xs : List Readings) : UInt32 := (xs.getLast?.map Readings.drained).getD 0

theorem lastDrained_eq (xs : List Readings) : (monitor xs).locals.lastDrained = drainedBefore xs := by
  induction xs using List.reverseRecOn with
  | nil => rfl
  | append_singleton xs x _ =>
    rw [monitor_snoc, drainedBefore, List.getLast?_concat]
    rfl

/-- Where the monitor stands between two turns. -/
structure Paced (m : Monitor) : Prop where
  apart : m.warned.Pairwise fun a b => a.1 + 5000 ≤ b.1
  late : ∀ w ∈ m.warned, 5000 ≤ w.1 ∧ w.1 ≤ m.locals.lastWarn
  last : m.warned = [] ∧ m.locals.lastWarn = 0 ∨ ∃ w ∈ m.warned, w.1 = m.locals.lastWarn

/-- A warning is the fault of its turn, five seconds after the one before. -/
theorem warning_some {h : Locals} {x : Readings} {w : Msg} (hw : warning h x = some w) :
    5000 ≤ x.now - h.lastWarn ∧ fault h.lastDrained x = some w := by
  rw [warning] at hw
  split at hw
  · rename_i hlate
    exact ⟨hlate, hw⟩
  · exact absurd hw (by simp)

/-- **Step lemma.** -/
theorem iteration_paced {m : Monitor} (h : Paced m) (x : Readings) : Paced (m.iteration x) := by
  cases hw : warning m.locals x with
  | none =>
    have hwarned : (m.iteration x).warned = m.warned := by
      simp [Monitor.iteration, hw]
    have hlast : (m.iteration x).locals.lastWarn = m.locals.lastWarn := by
      simp [Monitor.iteration, turn, hw]
    constructor
    · rw [hwarned]; exact h.apart
    · rw [hwarned, hlast]; exact h.late
    · rw [hwarned, hlast]; exact h.last
  | some w =>
    obtain ⟨hlate, -⟩ := warning_some hw
    have hwarned : (m.iteration x).warned = m.warned ++ [(x.now, w)] := by
      simp [Monitor.iteration, hw]
    have hlast : (m.iteration x).locals.lastWarn = x.now := by
      simp [Monitor.iteration, turn, hw]
    have hpos : 0 ≤ m.locals.lastWarn := by
      rcases h.last with ⟨-, h0⟩ | ⟨v, hv, h0⟩
      · omega
      · have := (h.late v hv).1
        omega
    constructor
    · rw [hwarned, List.pairwise_append]
      refine ⟨h.apart, List.pairwise_singleton _ _, fun a ha b hb => ?_⟩
      obtain rfl := List.mem_singleton.mp hb
      have := (h.late a ha).2
      show a.1 + 5000 ≤ x.now
      omega
    · rw [hwarned, hlast]
      intro v hv
      rcases List.mem_append.mp hv with hv | hv
      · have := h.late v hv
        omega
      · obtain rfl := List.mem_singleton.mp hv
        show 5000 ≤ x.now ∧ x.now ≤ x.now
        omega
    · rw [hwarned, hlast]
      exact Or.inr ⟨(x.now, w), by simp, rfl⟩

theorem monitor_paced (xs : List Readings) : Paced (monitor xs) := by
  induction xs using List.reverseRecOn with
  | nil => exact ⟨List.Pairwise.nil, by simp [monitor, Monitor.start], Or.inl ⟨rfl, rfl⟩⟩
  | append_singleton xs x ih =>
    rw [monitor_snoc]
    exact iteration_paced ih x

/-- What the warnings of the turns `xs` are worth. -/
structure Warns (xs : List Readings) : Prop where
  /-- Any two are five seconds apart. -/
  apart : (monitor xs).warned.Pairwise fun a b => a.1 + 5000 ≤ b.1
  /-- Each says what its turn saw. -/
  sound : ∀ w ∈ (monitor xs).warned, ∃ ys x, ys ++ [x] <+: xs ∧ x.now = w.1 ∧
    fault (drainedBefore ys) x = some w.2
  /-- No turn sees a fault without a warning in its last five seconds, the first five apart. -/
  heard : ∀ ys x, ys ++ [x] <+: xs → fault (drainedBefore ys) x ≠ none →
    x.now < 5000 ∨ ∃ w ∈ (monitor (ys ++ [x])).warned, x.now < w.1 + 5000

/-- **Faults are warned of**, whatever the other threads do between the readings: at most every five
    seconds, truly, and each. -/
theorem health_warns (xs : List Readings) : Warns xs := by
  constructor
  · exact (monitor_paced xs).apart
  · induction xs using List.reverseRecOn with
    | nil => simp [monitor, Monitor.start]
    | append_singleton xs x ih =>
      intro w hw
      rw [monitor_snoc, Monitor.iteration] at hw
      rcases List.mem_append.mp hw with hold | hnew
      · obtain ⟨ys, y, hpre, hy⟩ := ih w hold
        exact ⟨ys, y, hpre.trans (List.prefix_append xs [x]), hy⟩
      · obtain ⟨f, hf, rfl⟩ := List.mem_map.mp hnew
        obtain ⟨-, hfault⟩ := warning_some (Option.mem_toList.mp hf)
        rw [lastDrained_eq] at hfault
        exact ⟨xs, x, List.prefix_rfl, rfl, hfault⟩
  · intro ys x _ hfault
    obtain ⟨f, hf⟩ := Option.ne_none_iff_exists'.mp hfault
    rw [← lastDrained_eq] at hf
    rw [monitor_snoc]
    by_cases hlate : x.now - (monitor ys).locals.lastWarn ≥ 5000
    · refine Or.inr ⟨(x.now, f), ?_, by show x.now < x.now + 5000; omega⟩
      simp [Monitor.iteration, warning, hlate, hf]
    · rcases (monitor_paced ys).last with ⟨-, h0⟩ | ⟨w, hw, h0⟩
      · exact Or.inl (by omega)
      · refine Or.inr ⟨w, ?_, by omega⟩
        rw [Monitor.iteration]
        exact List.mem_append_left _ hw

/-! ## The account -/

/-- The overruns told of. -/
def told (l : List Msg) : Nat :=
  (l.map fun
    | .overrun lost _ => lost.toNat
    | _ => 0).sum

/-- How often the coprocessor's counter is behind what it was: it starts over when the coprocessor
    does. -/
def setbacks (last : UInt32) : List Readings → Nat
  | [] => 0
  | x :: xs => (if x.overrun < last then 1 else 0) + setbacks x.overrun xs

/-- What one turn tells of. -/
theorem told_losses (h : Locals) (x : Readings) :
    told (losses h x) + h.lastOverrun.toNat =
      x.overrun.toNat + 4294967296 * if x.overrun < h.lastOverrun then 1 else 0 := by
  have hback : told (if x.wdrop > h.lastWdrop then [.backlog (x.wdrop - h.lastWdrop) x.wdrop]
      else []) = 0 := by
    split
    · rfl
    · rfl
  have hx := x.overrun.toNat_lt
  have hl := h.lastOverrun.toNat_lt
  rw [losses, told, List.map_append, List.sum_append]
  rw [told] at hback
  rw [hback]
  by_cases hsame : x.overrun = h.lastOverrun
  · rw [if_neg (not_not.mpr hsame), hsame, if_neg (UInt32.lt_irrefl _)]
    simp
  · rw [if_pos hsame]
    show (x.overrun - h.lastOverrun).toNat + 0 + 0 + h.lastOverrun.toNat = _
    rw [UInt32.toNat_sub]
    split
    · rename_i hlt
      have := UInt32.lt_iff_toNat_lt.mp hlt
      omega
    · rename_i hge
      have := UInt32.le_iff_toNat_le.mp (UInt32.not_lt.mp hge)
      omega

/-- **The overruns told of are the counter**, and a whole turn of a word more for each time it was
    set back. -/
theorem overruns_add_up (xs : List Readings) :
    told (monitor xs).lost =
      (monitor xs).locals.lastOverrun.toNat + 4294967296 * setbacks 0 xs := by
  have hrun (m : Monitor) : told (xs.foldl Monitor.iteration m).lost + m.locals.lastOverrun.toNat =
      told m.lost + (xs.foldl Monitor.iteration m).locals.lastOverrun.toNat +
        4294967296 * setbacks m.locals.lastOverrun xs := by
    induction xs generalizing m with
    | nil => rw [setbacks]; rfl
    | cons x xs ih =>
      have hone := told_losses m.locals x
      have hsum : told (m.iteration x).lost = told m.lost + told (losses m.locals x) := by
        simp [Monitor.iteration, told]
      have hrest := ih (m.iteration x)
      rw [hsum] at hrest
      rw [List.foldl_cons, setbacks, Nat.mul_add]
      have hlast : (m.iteration x).locals.lastOverrun = x.overrun := rfl
      rw [hlast] at hrest
      omega
  have h0 := hrun Monitor.start
  simpa [monitor, Monitor.start, Locals.start, told] using h0

/-! ## Lines -/

/-- The bytes of a text. -/
def chars (s : String) : List UInt8 := s.toList.map fun c => UInt8.ofNat c.toNat

/-- `%02x`. -/
def hex02 (x : UInt8) : List UInt8 :=
  [Nat.digitChar (x.toNat / 16), Nat.digitChar (x.toNat % 16)].map fun c => UInt8.ofNat c.toNat

/-- The texts of the loop. -/
def Msg.text : Msg → List UInt8
  | .overrun lost total => chars "IMU ring overrun: " ++ decimal lost.toNat ++
      chars " samples lost (total " ++ decimal total.toNat ++ chars ")"
  | .backlog lost total => chars "log write backlog: " ++ decimal lost.toNat ++
      chars " samples lost (total " ++ decimal total.toNat ++ chars ")"
  | .notRunning => chars "FLPR not running (no shared-memory magic)"
  | .initFailed whoami => chars "IMU init failed (WHO_AM_I=0x" ++ hex02 whoami ++ chars ")"
  | .stalled drained => chars "IMU samples stalled at " ++ decimal drained.toNat

/-- A text that a slot holds whole. -/
structure Short (l : List UInt8) (n : Nat) : Prop where
  fits : l.length ≤ n
  noNul : ∀ c ∈ l, c ≠ 0

theorem Short.append {l l' : List UInt8} {n k : Nat} (h : Short l n) (h' : Short l' k) :
    Short (l ++ l') (n + k) := by
  constructor
  · rw [List.length_append]
    exact Nat.add_le_add h.fits h'.fits
  · intro c hc
    rcases List.mem_append.mp hc with hc | hc
    · exact h.noNul c hc
    · exact h'.noNul c hc

/-- A text is looked at byte by byte. -/
theorem short_of_all {l : List UInt8} {n : Nat}
    (h : (decide (l.length ≤ n) && l.all fun c => c != 0) = true) : Short l n := by
  obtain ⟨hlen, hall⟩ := Bool.and_eq_true_iff.mp h
  refine ⟨of_decide_eq_true hlen, fun c hc => ?_⟩
  exact bne_iff_ne.mp (List.all_eq_true.mp hall c hc)

/-- A word has at most ten digits. -/
theorem decimal_short (x : UInt32) : Short (decimal x.toNat) 10 := by
  constructor
  · have hx := x.toNat_lt
    rw [decimal, List.length_map, Nat.length_toDigits_le_iff (by decide) (by decide)]
    omega
  · intro c hc
    obtain ⟨d, hd, rfl⟩ := List.mem_map.mp hc
    obtain ⟨hlo, hhi⟩ := Char.isDigit_iff_toNat.mp
      (Nat.isDigit_of_mem_toDigits (by decide) (by decide) hd)
    have h0 : '0'.toNat = 48 := rfl
    have h9 : '9'.toNat = 57 := rfl
    intro hzero
    have hmod : d.toNat % 256 = 0 := by
      simpa using congrArg UInt8.toNat hzero
    omega

theorem hex02_short (x : UInt8) : Short (hex02 x) 2 := by
  refine ⟨Nat.le_refl 2, ?_⟩
  have hall : ∀ n : Fin 16, UInt8.ofNat (Nat.digitChar n.val).toNat ≠ 0 := by decide
  intro c hc
  have hx := x.toNat_lt
  simp only [hex02, List.map_cons, List.map_nil, List.mem_cons, List.not_mem_nil, or_false] at hc
  rcases hc with rfl | rfl
  · exact hall ⟨x.toNat / 16, by omega⟩
  · exact hall ⟨x.toNat % 16, by omega⟩

/-- A counter after a text. -/
theorem counter_short (pre : String) (x : UInt32) {n : Nat} (h : Short (chars pre) n) :
    Short (chars pre ++ decimal x.toNat) (n + 10) :=
  h.append (decimal_short x)

/-- **No message is cut**: each fits the slot of `ble_msg` whole. -/
theorem text_whole (m : Msg) : lineOf m.text = m.text := by
  have hpair (pre : String) (lost total : UInt32) (h : Short (chars pre) 19) :
      Short (chars pre ++ decimal lost.toNat ++ chars " samples lost (total " ++
        decimal total.toNat ++ chars ")") 119 := by
    have htotal : Short (chars " samples lost (total ") 21 := short_of_all (by decide +kernel)
    have hclose : Short (chars ")") 1 := short_of_all (by decide +kernel)
    have hall := (((counter_short pre lost h).append htotal).append (decimal_short total)).append
      hclose
    exact ⟨hall.fits.trans (by decide), hall.noNul⟩
  have hshort : Short m.text 119 := by
    cases m with
    | overrun lost total => exact hpair _ lost total (short_of_all (by decide +kernel))
    | backlog lost total => exact hpair _ lost total (short_of_all (by decide +kernel))
    | notRunning => exact short_of_all (by decide +kernel)
    | initFailed whoami =>
      have hopen : Short (chars "IMU init failed (WHO_AM_I=0x") 28 := short_of_all (by decide +kernel)
      have hclose : Short (chars ")") 1 := short_of_all (by decide +kernel)
      have hall := (hopen.append (hex02_short whoami)).append hclose
      exact ⟨hall.fits.trans (by decide), hall.noNul⟩
    | stalled drained =>
      have hall := counter_short "IMU samples stalled at " drained (n := 23)
        (short_of_all (by decide +kernel))
      exact ⟨hall.fits.trans (by decide), hall.noNul⟩
  have htake : m.text.take (msgLen - 1) = m.text := List.take_of_length_le hshort.fits
  rw [lineOf, htake, List.takeWhile_eq_self_iff]
  intro c hc
  exact decide_eq_true (hshort.noNul c hc)

/-! ## The first arbitration -/

/-- A command sets the voltage at most. -/
theorem execute_settings (b : Board) (cmd : DeviceCmd) (ret : Int) :
    (execute b cmd ret).settings = b.settings ∨ ∃ v, (execute b cmd ret).settings =
      settingsSet settingsGen b.settings settingMotorVdcMv v := by
  cases cmd with
  | setVoltMv v =>
    rw [execute]
    split
    · exact Or.inl rfl
    · exact Or.inr ⟨v, rfl⟩
  | log op =>
    refine Or.inl ?_
    rw [execute]
    split
    · exact onLogStopped_settings _
    · split
      · dsimp only
        split
        · exact onLogStarted_settings _
        · rfl
      · split
        · dsimp only
          split
          · exact onLogStarted_settings _
          · rfl
        · split <;> rfl

/-- What an event of the board does to the settings, a write to 0xFFE8 apart. -/
theorem board_settings (b : Board) (e : App.Event) (he : ∀ buf offset, e ≠ .imucfg buf offset) :
    (App.step b e).settings = b.settings ∨ ∃ v, (App.step b e).settings =
      settingsSet settingsGen b.settings settingMotorVdcMv v := by
  cases e with
  | stream on => exact Or.inl (runUpdate_settings _)
  | imucfg buf offset => exact absurd rfl (he buf offset)
  | logctl buf offset =>
    obtain ⟨q, hq⟩ := onLogctlWrite_queue b buf offset
    refine Or.inl ?_
    rw [App.step, hq]
  | execute ret =>
    rw [App.step]
    split
    · exact Or.inl rfl
    · exact execute_settings _ _ _
  | connect => exact Or.inl (requestParams_settings _ _)
  | disconnect =>
    refine Or.inl ((runUpdate_settings _).trans ?_)
    split <;> rfl
  | timeSync epoch =>
    rw [App.step, sessionTimeSync]
    exact Or.inl rfl
  | tick ms => exact Or.inl rfl
  | append xs =>
    rw [App.step]
    exact Or.inl rfl
  | drain ret =>
    rw [App.step]
    exact Or.inl rfl

/-- An event of the board leaves the settings in their ranges. -/
theorem board_loaded {b : Board} (h : b.settings.Loaded settingsGen) (e : App.Event) :
    (App.step b e).settings.Loaded settingsGen := by
  by_cases he : ∀ buf offset, e ≠ .imucfg buf offset
  · rcases board_settings b e he with hs | ⟨v, hs⟩
    · rw [hs]; exact h
    · rw [hs]; exact h.set settingsGen settingMotorVdcMv v
  · obtain ⟨buf, offset, rfl⟩ : ∃ buf offset, e = .imucfg buf offset := by simpa using he
    show (onImucfgWrite b buf offset).1.settings.Loaded settingsGen
    rcases onImucfgWrite_cases b buf offset with hs | ⟨odr, content, afs, gfs, preview, hs⟩
    · rw [hs]; exact h
    · rw [hs, applyImucfg, runUpdate_settings]
      exact ((((h.set settingsGen settingImuOdrCode odr.toUInt16).set settingsGen settingImuContent
        content.toUInt16).set settingsGen settingImuAccelFs afs.toUInt16).set settingsGen
        settingImuGyroFs gfs.toUInt16).set settingsGen settingPreviewHz preview

/-- A board and the loop. -/
structure Machine where
  board : Board
  locals : Locals

/-- What can happen. -/
inductive Event where
  | turn (x : Readings)
  | board (e : App.Event)
  /-- The coprocessor boots, once, and publishes its block. -/
  | flpr (sh : ImuCfg)

/-- One event.  A turn reads the coprocessor's block as it is. -/
def step (u : Machine) : Event → Machine
  | .turn x =>
      let x := { x with alive := u.board.sh.magic == imuSharedMagic }
      { board := if arbitrates u.locals x then firstArbitration u.board else u.board
        locals := turn u.locals x }
  | .board e => { u with board := App.step u.board e }
  | .flpr sh =>
      if u.board.sh.magic = imuSharedMagic then u
      else { u with board := { u.board with sh := { sh with magic := imuSharedMagic } } }

/-- The step relation. -/
def Step (u : Machine) (e : Event) (u' : Machine) : Prop := step u e = u'

/-- The board out of `app_init`, and the loop before its first turn. -/
def Booted (u : Machine) : Prop := u.board.settings.Loaded settingsGen ∧ u.locals = Locals.start

/-- Once the coprocessor is announced, the board's events are those that arbitrate. -/
def Rearbitrates (u : Machine) : Event → Prop
  | .board e => u.locals.flprAnnounced = true → Rearbitrated u.board e
  | _ => True

/-- The invariant. -/
structure Sound (u : Machine) : Prop where
  loaded : u.board.settings.Loaded settingsGen
  announced : u.locals.flprAnnounced = true → Ready u.board ∧ Arbitrated u.board

/-- **Step lemma.** -/
theorem step_sound {u u' : Machine} {e : Event} (h : Sound u) (hG : Rearbitrates u e)
    (hst : Step u e u') : Sound u' := by
  obtain rfl := hst
  cases e with
  | turn x =>
    rw [step]
    cases hann : u.locals.flprAnnounced with
    | true =>
      -- announced before: the turn leaves the board
      have harb : arbitrates u.locals { x with alive := u.board.sh.magic == imuSharedMagic } =
          false := by simp [arbitrates, hann]
      rw [harb]
      exact ⟨h.loaded, fun _ => h.announced hann⟩
    | false =>
      by_cases hmagic : u.board.sh.magic = imuSharedMagic
      · have harb : arbitrates u.locals { x with alive := u.board.sh.magic == imuSharedMagic } =
            true := by simp [arbitrates, hann, hmagic]
        have hready : Ready u.board := ⟨hmagic, h.loaded⟩
        obtain ⟨hr, ha⟩ := justArbitrated ⟨u.board, hready, rfl⟩
        rw [harb]
        exact ⟨hr.settings, fun _ => ⟨hr, ha⟩⟩
      · have harb : arbitrates u.locals { x with alive := u.board.sh.magic == imuSharedMagic } =
            false := by simp [arbitrates, hmagic]
        rw [harb]
        refine ⟨h.loaded, fun hnow => ?_⟩
        have hno : (turn u.locals { x with alive := u.board.sh.magic == imuSharedMagic }).flprAnnounced
            = false := by simp [turn, hann, hmagic]
        rw [hno] at hnow
        exact absurd hnow Bool.false_ne_true
  | board e =>
    refine ⟨board_loaded h.loaded e, fun hann => ?_⟩
    obtain ⟨hr, ha⟩ := h.announced hann
    exact ⟨step_ready hr e, (step_arbitrated_iff hr ha e).mpr (hG hann)⟩
  | flpr sh =>
    rw [step]
    split
    · exact h
    · rename_i hmagic
      refine ⟨h.loaded, fun hann => ?_⟩
      exact absurd (h.announced hann).1.magic hmagic

/-- **From power-up on**: whatever happens before the coprocessor runs — a stream is subscribed, a
    session started, the settings written — once `app_run` has announced it, the shared block asks for
    what the settings and the demand call for, as long as every event arbitrates. -/
theorem boot_arbitrates {u : Machine} (h : Reach Booted (guarded Rearbitrates Step) u)
    (hann : u.locals.flprAnnounced = true) : Arbitrated u.board := by
  have hsound : Sound u := by
    refine Reach.invariant (I := Sound) ?_ ?_ h
    · rintro u ⟨hload, hstart⟩
      refine ⟨hload, fun hann => ?_⟩
      rw [hstart] at hann
      exact absurd hann Bool.false_ne_true
    · rintro u e u' - hu ⟨hg, hst⟩
      exact step_sound hu hg hst
  exact (hsound.announced hann).2

/-- A stream is subscribed before the coprocessor runs; the first turn that sees it asks for data. -/
theorem boot_arbitrates_subscribed : ∃ u : Machine,
    u.locals.flprAnnounced = true ∧ Arbitrated u.board ∧ u.board.streamActive = true := by
  let x : Readings := ⟨false, 1000, 0, 0, 0, true, 0x6C, false⟩
  let b : Board := { Board.fresh [] with sh := ⟨0, 0, 0, 0, 0, 0⟩ }
  have h0 : Reach Booted (guarded Rearbitrates Step) ⟨b, Locals.start⟩ :=
    .start ⟨settingsStoreInit_loaded settingsGen crc32Ieee Store.cold none, rfl⟩
  have h1 := h0.next (a := Event.turn x) ⟨trivial, rfl⟩
  have h2 := h1.next (a := Event.board (.stream true)) ⟨fun hann => absurd hann (by decide), rfl⟩
  have h3 := h2.next (a := Event.flpr ⟨0, 1, 7, 0, 0, 0⟩) ⟨trivial, rfl⟩
  have h4 := h3.next (a := Event.turn x) ⟨trivial, rfl⟩
  exact ⟨_, rfl, boot_arbitrates h4 rfl, rfl⟩

end Caterpillar.App.Health
