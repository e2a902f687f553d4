/-
  The heartbeat (src/drivers/driver_led.c) with its timer and its two callers: `app_init` of
  src/app/app.c and the handler of 0xFFED in src/ble/ble_interface.c.

  "First ~3 s after boot: 3 × 3 ms flashes per second — reset marker.  Afterwards: a single 3 ms flash
  per second — running.  Disable stops the timer and turns the LED off."

  1. **Program** — `Stmt`, the statements of the driver that touch what they share with the timer;
     `Lamp`, the statics with what either thread has still to execute.  `blinkTimerFn` may run between
     any two of the statements.
  2. **Calls** — taken alone, the statements of a call do what the calls `drvLedBlinkStart` and
     `drvLedSetEnabled` of the driver do at once (`blinkStart_alone`, `setEnabled_alone`).
  3. **Phases** — the pattern plays (`Playing`), the pin is dark, or a call is under way (`Phase`).
     A pattern is on its schedule: its age is the periods played, the steps of this one, and what the
     timer has used up of the step.
  4. **Result** — `heartbeat_shown`: between calls the pin shows the heartbeat of its age, and the
     handler of the timer stays inside the table of the pattern, in every run in which no write to
     0xFFED executes before `app_init` is through.  `early_write_blinks` and `early_write_overreads`
     are runs in which one does.
-/
import Caterpillar.Drivers.Motor
import Caterpillar.Lib.Runs
import Mathlib.Tactic.IntervalCases

namespace Caterpillar.Drivers.Heartbeat

open Caterpillar.Runs

/-! ## The program -/

/-- The statements. -/
inductive Stmt where
  | pattern (p : LedPattern)
  /-- `pattern_len = ARRAY_SIZE(…)`. -/
  | patternLen (p : LedPattern)
  | bootPeriodsLeft (n : Nat)
  /-- `step_idx = 0`. -/
  | stepIdx
  /-- `gpio_pin_set_raw(LED_PORT, LED_PIN, pattern[0].on)`. -/
  | firstPin
  /-- `k_timer_start(&blink_timer, K_MSEC(pattern[0].ms), K_NO_WAIT)`. -/
  | timerStart
  | timerStop
  | pinOff
  | ledEnabled (enable : Bool)
  /-- `drv_led_set_enabled`, up to its test. -/
  | setEnabled (enable : Bool)
  /-- `settings_set(SETTING_LED_ENABLED, on)`. -/
  | save (on : Bool)
  /-- `settings_get(SETTING_LED_ENABLED) == 0`. -/
  | testSetting
  deriving DecidableEq

/-- What starts a pattern. -/
def start (p : LedPattern) (periods : Nat) : List Stmt :=
  [.pattern p, .patternLen p, .bootPeriodsLeft periods, .stepIdx, .firstPin, .timerStart]

/-- `drv_led_blink_start`. -/
def blinkStart : List Stmt := start .boot 3

/-- `drv_led_set_enabled` after its test. -/
def switch (enable : Bool) : List Stmt :=
  if enable then .ledEnabled true :: start .run 0 else [.ledEnabled false, .timerStop, .pinOff]

/-- The statics of driver_led.c, and the setting. -/
structure Lamp where
  /-- Its `timer` is what is left until `blink_timer` expires. -/
  led : Led
  patternLen : Nat
  /-- `SETTING_LED_ENABLED`. -/
  setting : Bool
  /-- The pattern a thread started last. -/
  shown : LedPattern
  /-- Milliseconds since it did. -/
  age : Nat
  deriving DecidableEq

/-- Execute a statement; it may turn out to be a call of more. -/
def exec (s : Lamp) : Stmt → Lamp × List Stmt
  | .pattern p => ({ s with led := { s.led with pattern := p } }, [])
  | .patternLen p => ({ s with patternLen := p.steps.length }, [])
  | .bootPeriodsLeft n => ({ s with led := { s.led with bootPeriodsLeft := n } }, [])
  | .stepIdx => ({ s with led := { s.led with stepIdx := 0 } }, [])
  | .firstPin =>
      ({ s with led := { s.led with pin := (s.led.pattern.steps.getD 0 (false, 0)).1 } }, [])
  | .timerStart =>
      ({ s with
        led := { s.led with timer := some (s.led.pattern.steps.getD 0 (false, 0)).2 }
        shown := s.led.pattern
        age := 0 }, [])
  | .timerStop => ({ s with led := { s.led with timer := none } }, [])
  | .pinOff => ({ s with led := { s.led with pin := false } }, [])
  | .ledEnabled enable => ({ s with led := { s.led with ledEnabled := enable } }, [])
  | .setEnabled enable => (s, if enable = s.led.ledEnabled then [] else switch enable)
  | .save on => ({ s with setting := on }, [])
  | .testSetting => (s, if s.setting then [] else [.setEnabled false])

/-- The step `blink_timer_fn` moves on to, and the pattern it is a step of. -/
def advance (s : Lamp) : Lamp :=
  if s.led.stepIdx + 1 ≥ s.patternLen then
    let led := { s.led with stepIdx := 0, bootPeriodsLeft := s.led.bootPeriodsLeft - 1 }
    if s.led.bootPeriodsLeft = 1 then
      { s with led := { led with pattern := .run }, patternLen := LedPattern.run.steps.length }
    else { s with led }
  else { s with led := { s.led with stepIdx := s.led.stepIdx + 1 } }

/-- `blink_timer_fn`; `none` if it reads past the end of its table. -/
def blinkTimerFn (s : Lamp) : Option Lamp :=
  let s := advance s
  (s.led.pattern.steps[s.led.stepIdx]?).map fun step =>
    { s with led := { s.led with pin := step.1, timer := some step.2 } }

/-- A millisecond passes. -/
def elapse (s : Lamp) : Lamp :=
  { s with led := { s.led with timer := s.led.timer.map (· - 1) }, age := s.age + 1 }

/-- The lamp and the two threads. -/
structure System where
  lamp : Lamp
  /-- What `app_init` has still to execute, from `drv_led_blink_start` on. -/
  main : List Stmt
  /-- What the handler of 0xFFED has still to execute. -/
  bt : List Stmt
  deriving DecidableEq

/-- What can happen. -/
inductive Event where
  /-- `app_init` executes a statement. -/
  | main
  /-- The handler of 0xFFED executes a statement. -/
  | bt
  /-- The handler is entered, with a value it accepts. -/
  | write (on : Bool)
  /-- The timer expires. -/
  | expire
  /-- A millisecond passes; an expired timer does not wait. -/
  | tick
  deriving DecidableEq

/-- One step; `none` where it cannot happen. -/
def step (s : System) : Event → Option System
  | .main =>
      match s.main with
      | [] => none
      | c :: rest => some { s with lamp := (exec s.lamp c).1, main := (exec s.lamp c).2 ++ rest }
  | .bt =>
      match s.bt with
      | [] => none
      | c :: rest => some { s with lamp := (exec s.lamp c).1, bt := (exec s.lamp c).2 ++ rest }
  | .write on => if s.bt = [] then some { s with bt := [.setEnabled on, .save on] } else none
  | .expire =>
      if s.lamp.led.timer = some 0 then (blinkTimerFn s.lamp).map fun lamp => { s with lamp }
      else none
  | .tick => if s.lamp.led.timer = some 0 then none else some { s with lamp := elapse s.lamp }

/-- The step relation. -/
def Step (s : System) (e : Event) (s' : System) : Prop := step s e = some s'

/-- `app_init` is about to start the heartbeat; the statics are as `drv_led_init` leaves them, and the
    setting is what the store has loaded. -/
def Start (s : System) : Prop :=
  s.lamp.led = ⟨.boot, 0, 0, true, true, none⟩ ∧
    s.lamp.patternLen = LedPattern.boot.steps.length ∧ s.main = blinkStart ++ [.testSetting] ∧
    s.bt = []

/-- No write to 0xFFED executes before `app_init` is through. -/
def afterBoot (s : System) : Event → Bool
  | .write _ => s.main.isEmpty
  | _ => true

/-! ## What it is to show -/

/-- A pattern, so many milliseconds into its period. -/
def flashes : LedPattern → Nat → Bool
  | .boot, t => decide (t < 3 ∨ 103 ≤ t ∧ t < 106 ∨ 206 ≤ t ∧ t < 209)
  | .run, t => decide (t < 3)

/-- The pattern played so many milliseconds after a start: three periods of the boot marker, and the
    running heartbeat from then on. -/
def playedAt (p : LedPattern) (age : Nat) : LedPattern :=
  if p = .boot ∧ age < 3000 then .boot else .run

/-- **The heartbeat**, so many milliseconds after a start. -/
def heartbeat (p : LedPattern) (age : Nat) : Bool := flashes (playedAt p age) (age % 1000)

/-! ## Calls on their own -/

/-- Statements executed one after the other. -/
def execAll (s : Lamp) (cs : List Stmt) : Lamp := cs.foldl (fun s c => (exec s c).1) s

theorem blinkStart_alone (s : Lamp) : (execAll s blinkStart).led = drvLedBlinkStart s.led := rfl

theorem setEnabled_alone (s : Lamp) (enable : Bool) :
    (execAll s (exec s (.setEnabled enable)).2).led = drvLedSetEnabled s.led enable := by
  show (execAll s (if enable = s.led.ledEnabled then [] else switch enable)).led = _
  rw [drvLedSetEnabled]
  by_cases h : enable = s.led.ledEnabled
  · rw [if_pos h, if_pos h]
    rfl
  · rw [if_neg h, if_neg h]
    cases enable with
    | true => rfl
    | false => rfl

/-! ## A pattern on its schedule -/

/-- The time from the beginning of a period to its step `i`. -/
def offset (p : LedPattern) (i : Nat) : Nat := ((p.steps.take i).map Prod.snd).sum

/-- The pattern plays: `n` periods are over, and `left` milliseconds are left of the step `now`. -/
structure Playing (s : Lamp) (n left : Nat) (now : Bool × Nat) : Prop where
  timer : s.led.timer = some left
  len : s.patternLen = s.led.pattern.steps.length
  here : s.led.pattern.steps[s.led.stepIdx]? = some now
  pin : s.led.pin = now.1
  within : left ≤ now.2
  age : s.age = 1000 * n + offset s.led.pattern s.led.stepIdx + (now.2 - left)
  marker : s.led.pattern = .boot → s.shown = .boot ∧ n < 3 ∧ s.led.bootPeriodsLeft = 3 - n
  running : s.led.pattern = .run → s.led.bootPeriodsLeft = 0 ∧ (s.shown = .boot → 3 ≤ n)

/-- The steps there are, and when in the period each begins. -/
theorem step_table {p : LedPattern} {i : Nat} {now : Bool × Nat} (h : p.steps[i]? = some now) :
    i < p.steps.length ∧ 0 < now.2 ∧
      (∀ t, offset p i ≤ t → t < offset p i + now.2 → flashes p t = now.1) ∧
      offset p (i + 1) = offset p i + now.2 ∧ offset p i + now.2 ≤ 1000 ∧
      (i + 1 = p.steps.length → offset p i + now.2 = 1000) := by
  obtain ⟨hi, hnow⟩ := List.getElem?_eq_some_iff.mp h
  refine ⟨hi, ?_⟩
  subst hnow
  cases p with
  | boot =>
    have hi' : i < 6 := hi
    interval_cases i <;> simp [offset, LedPattern.steps, flashes] <;> omega
  | run =>
    have hi' : i < 2 := hi
    interval_cases i <;> simp [offset, LedPattern.steps, flashes]
    omega

/-- A pattern on its schedule shows the heartbeat of its age. -/
theorem Playing.shows {s : Lamp} {n left : Nat} {now : Bool × Nat} (h : Playing s n left now)
    (hleft : left ≠ 0) : s.led.pin = heartbeat s.shown s.age := by
  obtain ⟨-, hpos, hflash, -, hperiod, -⟩ := step_table h.here
  have hle := h.within
  have hage := h.age
  have hmod : s.age % 1000 = offset s.led.pattern s.led.stepIdx + (now.2 - left) := by omega
  have hplayed : playedAt s.shown s.age = s.led.pattern := by
    cases hp : s.led.pattern with
    | boot =>
      obtain ⟨hshown, hn, -⟩ := h.marker hp
      exact if_pos ⟨hshown, by omega⟩
    | run =>
      refine if_neg ?_
      rintro ⟨hshown, hlt⟩
      have hn := (h.running hp).2 hshown
      omega
  rw [heartbeat, hplayed, hmod, h.pin]
  exact (hflash _ (by omega) (by omega)).symm

/-- A millisecond of it. -/
theorem Playing.elapse {s : Lamp} {n left : Nat} {now : Bool × Nat} (h : Playing s n left now)
    (hleft : left ≠ 0) : Playing (elapse s) n (left - 1) now where
  timer := congrArg (Option.map (· - 1)) h.timer
  len := h.len
  here := h.here
  pin := h.pin
  within := by have hle := h.within; omega
  age := by
    have hle := h.within
    have hage : s.age + 1 = 1000 * n + offset s.led.pattern s.led.stepIdx + (now.2 - (left - 1)) := by
      have hage := h.age
      omega
    exact hage
  marker := h.marker
  running := h.running

/-- The next step of the same period. -/
theorem Playing.next {s : Lamp} {n : Nat} {now : Bool × Nat} (h : Playing s n 0 now)
    (hlt : s.led.stepIdx + 1 < s.led.pattern.steps.length) :
    ∃ s' now', blinkTimerFn s = some s' ∧ Playing s' n now'.2 now' ∧
      s'.led.ledEnabled = s.led.ledEnabled ∧ s'.setting = s.setting := by
  have hadv : advance s = { s with led := { s.led with stepIdx := s.led.stepIdx + 1 } } := by
    rw [advance, if_neg]
    rw [h.len]
    omega
  have hnext := List.getElem?_eq_getElem hlt
  generalize s.led.pattern.steps[s.led.stepIdx + 1] = now' at hnext
  have hrun : blinkTimerFn s = some { s with led := { s.led with
      stepIdx := s.led.stepIdx + 1, pin := now'.1, timer := some now'.2 } } := by
    rw [blinkTimerFn, hadv]
    dsimp only
    rw [hnext]
    rfl
  refine ⟨_, now', hrun, ?_, rfl, rfl⟩
  obtain ⟨-, -, -, hoff, -, -⟩ := step_table h.here
  have hage := h.age
  exact {
    timer := rfl
    len := h.len
    here := hnext
    pin := rfl
    within := Nat.le_refl _
    age := by
      show s.age = 1000 * n + offset s.led.pattern (s.led.stepIdx + 1) + (now'.2 - now'.2)
      omega
    marker := h.marker
    running := h.running }

/-- The state at the first step of a period. -/
theorem Playing.first (s : Lamp) {n : Nat} (p : LedPattern) (periods : Nat) (hage : s.age = 1000 * n)
    (hmarker : p = .boot → s.shown = .boot ∧ n < 3 ∧ periods = 3 - n)
    (hrunning : p = .run → periods = 0 ∧ (s.shown = .boot → 3 ≤ n)) :
    Playing { s with
      led := { s.led with
        pattern := p, stepIdx := 0, bootPeriodsLeft := periods, pin := true, timer := some 3 }
      patternLen := p.steps.length } n 3 (true, 3) where
  timer := rfl
  len := rfl
  here := by cases p <;> rfl
  pin := rfl
  within := Nat.le_refl 3
  age := by
    show s.age = 1000 * n + offset p 0 + (3 - 3)
    rw [hage]
    rfl
  marker := hmarker
  running := hrunning

/-- The first step of the next period: of the boot marker until three are over, of the running
    heartbeat from then on. -/
theorem Playing.wrap {s : Lamp} {n : Nat} {now : Bool × Nat} (h : Playing s n 0 now)
    (hlast : s.led.stepIdx + 1 = s.led.pattern.steps.length) :
    ∃ s' now', blinkTimerFn s = some s' ∧ Playing s' (n + 1) now'.2 now' ∧
      s'.led.ledEnabled = s.led.ledEnabled ∧ s'.setting = s.setting := by
  obtain ⟨-, -, -, -, -, hfull⟩ := step_table h.here
  have hage : s.age = 1000 * (n + 1) := by
    have hsum := h.age
    have hend := hfull hlast
    omega
  have hlen := h.len
  have hwrap : s.led.stepIdx + 1 ≥ s.patternLen := by omega
  rcases s with ⟨⟨p, i, b, en, pin, t⟩, len, v, shown, age⟩
  dsimp only at hage hlen hwrap hlast ⊢
  by_cases hb : b = 1
  · have hboot : p = .boot := by
      cases p with
      | boot => rfl
      | run =>
        have hzero := (h.running rfl).1
        exact absurd (hb.symm.trans hzero) (by decide)
    obtain ⟨hshown, hn, hleft⟩ := h.marker hboot
    refine ⟨_, (true, 3), ?_, Playing.first ⟨⟨p, i, b, en, pin, t⟩, len, v, shown, age⟩ .run 0 hage (fun hr => by cases hr)
      (fun _ => ⟨rfl, fun _ => ?_⟩), rfl, rfl⟩
    · rw [blinkTimerFn, advance, if_pos hwrap]
      dsimp only
      rw [if_pos hb, hb]
      rfl
    · dsimp only at hleft
      omega
  · refine ⟨_, (true, 3), ?_, Playing.first ⟨⟨p, i, b, en, pin, t⟩, len, v, shown, age⟩ p (b - 1) hage (fun hp => ?_)
      (fun hp => ?_), rfl, rfl⟩
    · rw [blinkTimerFn, advance, if_pos hwrap]
      dsimp only
      rw [if_neg hb, hlen]
      cases p <;> rfl
    · obtain ⟨hshown, hn, hleft⟩ := h.marker hp
      dsimp only at hshown hleft
      exact ⟨hshown, by omega, by omega⟩
    · obtain ⟨hzero, hthree⟩ := h.running hp
      dsimp only at hzero hthree
      exact ⟨by omega, fun hs => Nat.le_succ_of_le (hthree hs)⟩

/-- **The timer's handler stays inside its table**, and leaves the pattern on its schedule. -/
theorem Playing.expire {s : Lamp} {n : Nat} {now : Bool × Nat} (h : Playing s n 0 now) :
    ∃ s', blinkTimerFn s = some s' ∧ (∃ n' left' now', Playing s' n' left' now') ∧
      s'.led.ledEnabled = s.led.ledEnabled ∧ s'.setting = s.setting := by
  rcases Nat.lt_or_ge (s.led.stepIdx + 1) s.led.pattern.steps.length with hlt | hge
  · obtain ⟨s', now', hrun, hplay, hframe⟩ := h.next hlt
    exact ⟨s', hrun, ⟨n, _, now', hplay⟩, hframe⟩
  · have hhere := (step_table h.here).1
    obtain ⟨s', now', hrun, hplay, hframe⟩ := h.wrap (by omega)
    exact ⟨s', hrun, ⟨n + 1, _, now', hplay⟩, hframe⟩

/-! ## Phases -/

/-- What is still to be executed after a call, the driver being enabled or not and the setting what it
    is: it ends with the two in agreement. -/
inductive Owes : List Stmt → Bool → Bool → Prop
  | settled (v : Bool) : Owes [] v v
  | test (v : Bool) : Owes [.testSetting] true v
  | boot : Owes [.setEnabled false] true false
  | write (on v : Bool) : Owes [.setEnabled on, .save on] v v
  | save (on v : Bool) : Owes [.save on] on v

/-- The first `k` statements of a start are executed. -/
structure Assigned (s : Lamp) (p : LedPattern) (periods k : Nat) : Prop where
  timer : s.led.timer = none
  enabled : s.led.ledEnabled = true
  pattern : 1 ≤ k → s.led.pattern = p
  len : 2 ≤ k → s.patternLen = p.steps.length
  periods : 3 ≤ k → s.led.bootPeriodsLeft = periods
  stepIdx : 4 ≤ k → s.led.stepIdx = 0
  pin : 5 ≤ k → s.led.pin = true

/-- A pattern plays. -/
def Plays (s : Lamp) : Prop := ∃ n left now, Playing s n left now

/-- Where the calls are, by what is still to be executed. -/
inductive Phase (s : Lamp) : List Stmt → Prop
  | lit {rest : List Stmt} : Plays s → s.led.ledEnabled = true → Owes rest true s.setting →
      Phase s rest
  | dark {rest : List Stmt} : s.led.timer = none → s.led.pin = false → s.led.ledEnabled = false →
      Owes rest false s.setting → Phase s rest
  | opening {rest : List Stmt} : s.led.timer = none → Owes rest true s.setting →
      Phase s (switch true ++ rest)
  | starting {rest : List Stmt} (p : LedPattern) (k : Nat) : k < 6 →
      Assigned s p (if p = .boot then 3 else 0) k → Owes rest true s.setting →
      Phase s ((start p (if p = .boot then 3 else 0)).drop k ++ rest)
  | closing {rest : List Stmt} : Plays s → Owes rest false s.setting → Phase s (switch false ++ rest)
  | stopping {rest : List Stmt} : Plays s → s.led.ledEnabled = false → Owes rest false s.setting →
      Phase s (.timerStop :: .pinOff :: rest)
  | stopped {rest : List Stmt} : s.led.timer = none → s.led.ledEnabled = false →
      Owes rest false s.setting → Phase s (.pinOff :: rest)

/-- Neither the setting nor `led_enabled` is in it. -/
theorem Plays.set {s : Lamp} (h : Plays s) (enable v : Bool) :
    Plays { s with led := { s.led with ledEnabled := enable }, setting := v } := by
  obtain ⟨n, left, now, ⟨h1, h2, h3, h4, h5, h6, h7, h8⟩⟩ := h
  exact ⟨n, left, now, ⟨h1, h2, h3, h4, h5, h6, h7, h8⟩⟩

section Calls

variable {s : Lamp} {c : Stmt} {rest : List Stmt}

/-- Between calls, the pattern playing. -/
theorem lit_exec (hplay : Plays s) (hen : s.led.ledEnabled = true)
    (h : Owes (c :: rest) true s.setting) : Phase (exec s c).1 ((exec s c).2 ++ rest) := by
  generalize htodo : c :: rest = todo at h
  generalize hv : s.setting = v at h
  generalize hb : true = b at h
  cases h with
  | settled v => cases htodo
  | test v =>
    cases htodo
    cases hset : s.setting with
    | true =>
      have hrun : exec s .testSetting = (s, []) := by rw [exec, hset]; rfl
      rw [hrun]
      exact .lit hplay hen (by rw [hset]; exact .settled true)
    | false =>
      have hrun : exec s .testSetting = (s, [.setEnabled false]) := by rw [exec, hset]; rfl
      rw [hrun]
      exact .lit hplay hen (by rw [hset]; exact .boot)
  | boot =>
    cases htodo
    have hrun : exec s (.setEnabled false) = (s, switch false) := by rw [exec, hen]; rfl
    rw [hrun]
    exact .closing hplay (by rw [hv]; exact .settled false)
  | write on v =>
    cases htodo
    cases on with
    | true =>
      have hrun : exec s (.setEnabled true) = (s, []) := by rw [exec, hen]; rfl
      rw [hrun]
      exact .lit hplay hen (.save true s.setting)
    | false =>
      have hrun : exec s (.setEnabled false) = (s, switch false) := by rw [exec, hen]; rfl
      rw [hrun]
      exact .closing hplay (.save false s.setting)
  | save on v =>
    cases htodo
    subst hb
    exact .lit (hplay.set s.led.ledEnabled true) hen (.settled true)

/-- Between calls, the heartbeat disabled. -/
theorem dark_exec (htimer : s.led.timer = none) (hpin : s.led.pin = false)
    (hen : s.led.ledEnabled = false) (h : Owes (c :: rest) false s.setting) :
    Phase (exec s c).1 ((exec s c).2 ++ rest) := by
  generalize htodo : c :: rest = todo at h
  generalize hv : s.setting = v at h
  generalize hb : false = b at h
  cases h with
  | settled => cases htodo
  | test => cases hb
  | boot => cases hb
  | write on =>
    cases htodo
    cases on with
    | true =>
      have hrun : exec s (.setEnabled true) = (s, switch true) := by rw [exec, hen]; rfl
      rw [hrun]
      exact .opening htimer (.save true _)
    | false =>
      have hrun : exec s (.setEnabled false) = (s, []) := by rw [exec, hen]; rfl
      rw [hrun]
      exact .dark htimer hpin hen (.save false _)
  | save on v =>
    cases htodo
    subst hb
    exact .dark htimer hpin hen (.settled false)

/-- The first step of either pattern. -/
theorem first_step (p : LedPattern) : p.steps.getD 0 (false, 0) = (true, 3) := by
  cases p <;> rfl

/-- The next statement of a start; the last of them sets the pattern going. -/
theorem starting_exec {p : LedPattern} {k : Nat} (hk : k < 6)
    (h : Assigned s p (if p = .boot then 3 else 0) k) (how : Owes rest true s.setting)
    {todo : List Stmt} (htodo : (start p (if p = .boot then 3 else 0)).drop k = c :: todo) :
    Phase (exec s c).1 ((exec s c).2 ++ (todo ++ rest)) := by
  generalize hperiods : (if p = .boot then 3 else 0) = periods at h htodo
  have hnext : ∀ {s' : Lamp}, k + 1 < 6 → Assigned s' p periods (k + 1) →
      s'.setting = s.setting → Phase s' ((start p periods).drop (k + 1) ++ rest) := by
    intro s' hk' hs' hset
    subst hperiods
    exact .starting p (k + 1) hk' hs' (by rw [hset]; exact how)
  obtain ⟨htimer, hen, hpattern, hlen, hleft, hidx, hpin⟩ := h
  rcases s with ⟨⟨p', i, b, en, pin, t⟩, len, v, shown, age⟩
  dsimp only at htimer hen hpattern hlen hleft hidx hpin how hnext
  interval_cases k
  · cases htodo
    exact hnext (by decide) ⟨htimer, hen, fun _ => rfl, by omega, by omega, by omega, by omega⟩ rfl
  · cases htodo
    exact hnext (by decide) ⟨htimer, hen, fun _ => hpattern (by decide), fun _ => rfl, by omega,
      by omega, by omega⟩ rfl
  · cases htodo
    exact hnext (by decide) ⟨htimer, hen, fun _ => hpattern (by decide), fun _ => hlen (by decide),
      fun _ => rfl, by omega, by omega⟩ rfl
  · cases htodo
    exact hnext (by decide) ⟨htimer, hen, fun _ => hpattern (by decide), fun _ => hlen (by decide),
      fun _ => hleft (by decide), fun _ => rfl, by omega⟩ rfl
  · cases htodo
    refine hnext (by decide) ⟨htimer, hen, fun _ => hpattern (by decide), fun _ => hlen (by decide),
      fun _ => hleft (by decide), fun _ => hidx (by decide), fun _ => ?_⟩ rfl
    exact congrArg Prod.fst (first_step p')
  · cases htodo
    obtain rfl := hpattern (by decide)
    obtain rfl := hlen (by decide)
    obtain rfl := hleft (by decide)
    obtain rfl := hidx (by decide)
    obtain rfl := hpin (by decide)
    have hplay := Playing.first ⟨⟨p', 0, b, en, true, t⟩, p'.steps.length, v, p', 0⟩ (n := 0) p' b rfl
      (fun hp => ⟨hp, by decide, by rw [← hperiods, if_pos hp]⟩)
      (fun hp => ⟨by rw [← hperiods, if_neg (by rw [hp]; decide)], fun hs => by
        dsimp only at hs
        rw [hp] at hs
        cases hs⟩)
    have hrun : exec ⟨⟨p', 0, b, en, true, t⟩, p'.steps.length, v, shown, age⟩ .timerStart =
        (⟨⟨p', 0, b, en, true, some 3⟩, p'.steps.length, v, p', 0⟩, []) := by
      cases p' <;> rfl
    rw [hrun]
    exact .lit ⟨0, 3, (true, 3), hplay⟩ hen how

/-- **Step lemma of a thread.** -/
theorem exec_phase (h : Phase s (c :: rest)) : Phase (exec s c).1 ((exec s c).2 ++ rest) := by
  generalize htodo : c :: rest = todo at h
  cases h with
  | lit hplay hen how => exact lit_exec hplay hen (by rw [htodo]; exact how)
  | dark htimer hpin hen how => exact dark_exec htimer hpin hen (by rw [htodo]; exact how)
  | opening htimer how =>
    cases htodo
    exact .starting .run 0 (by decide)
      ⟨htimer, rfl, by omega, by omega, by omega, by omega, by omega⟩ how
  | starting p k hk hassigned how =>
    obtain ⟨c', todo, hdrop⟩ := List.exists_cons_of_length_pos
      (l := (start p (if p = .boot then 3 else 0)).drop k) (by
        rw [List.length_drop]
        show 0 < 6 - k
        omega)
    rw [hdrop, List.cons_append] at htodo
    obtain ⟨rfl, rfl⟩ := List.cons_eq_cons.mp htodo
    exact starting_exec hk hassigned how hdrop
  | closing hplay how =>
    cases htodo
    exact .stopping (hplay.set false s.setting) rfl how
  | stopping hplay hen how =>
    cases htodo
    exact .stopped rfl hen how
  | stopped htimer hen how =>
    cases htodo
    exact .dark htimer rfl hen how

end Calls

/-! ## Runs -/

/-- What every step keeps: one thread is in a call at a time. -/
structure Sound (s : System) : Prop where
  alone : s.main ≠ [] → s.bt = []
  phase : Phase s.lamp (s.main ++ s.bt)

/-- What the timer's interrupt and the clock may do to the lamp. -/
theorem Phase.map {s s' : Lamp} {todo : List Stmt} (h : Phase s todo)
    (hplay : Plays s → Plays s') (hidle : s.led.timer = none → s'.led = s.led ∧ s'.patternLen = s.patternLen)
    (hen : s'.led.ledEnabled = s.led.ledEnabled) (hset : s'.setting = s.setting) : Phase s' todo := by
  cases h with
  | lit hp he how => exact .lit (hplay hp) (hen.trans he) (by rw [hset]; exact how)
  | dark ht hpin he how =>
    obtain ⟨hled, -⟩ := hidle ht
    exact .dark (by rw [hled]; exact ht) (by rw [hled]; exact hpin) (hen.trans he)
      (by rw [hset]; exact how)
  | opening ht how =>
    obtain ⟨hled, -⟩ := hidle ht
    exact .opening (by rw [hled]; exact ht) (by rw [hset]; exact how)
  | starting p k hk ha how =>
    obtain ⟨hled, hlen⟩ := hidle ha.timer
    refine .starting p k hk ?_ (by rw [hset]; exact how)
    constructor
    · rw [hled]
      exact ha.timer
    · rw [hled]
      exact ha.enabled
    · rw [hled]
      exact ha.pattern
    · rw [hlen]
      exact ha.len
    · rw [hled]
      exact ha.periods
    · rw [hled]
      exact ha.stepIdx
    · rw [hled]
      exact ha.pin
  | closing hp how => exact .closing (hplay hp) (by rw [hset]; exact how)
  | stopping hp he how => exact .stopping (hplay hp) (hen.trans he) (by rw [hset]; exact how)
  | stopped ht he how =>
    obtain ⟨hled, -⟩ := hidle ht
    exact .stopped (by rw [hled]; exact ht) (hen.trans he) (by rw [hset]; exact how)

/-- The timer is stopped or the pattern plays. -/
theorem Phase.timer {s : Lamp} {todo : List Stmt} (h : Phase s todo) :
    s.led.timer = none ∨ Plays s := by
  cases h with
  | lit hp => exact Or.inr hp
  | dark ht => exact Or.inl ht
  | opening ht => exact Or.inl ht
  | starting p k hk ha => exact Or.inl ha.timer
  | closing hp => exact Or.inr hp
  | stopping hp => exact Or.inr hp
  | stopped ht => exact Or.inl ht

/-- What a finished call leaves: setting and driver agree. -/
theorem Owes.done {enable v : Bool} (h : Owes [] enable v) : v = enable := by
  cases h
  rfl

/-- Between calls the pattern plays or the pin is dark, as the setting asks. -/
theorem Phase.idle {s : Lamp} (h : Phase s []) :
    (Plays s ∧ s.led.ledEnabled = true ∧ s.setting = true) ∨
      (s.led.timer = none ∧ s.led.pin = false ∧ s.led.ledEnabled = false ∧ s.setting = false) := by
  generalize htodo : ([] : List Stmt) = todo at h
  cases h with
  | lit hplay hen how =>
    subst htodo
    exact Or.inl ⟨hplay, hen, how.done⟩
  | dark htimer hpin hen how =>
    subst htodo
    exact Or.inr ⟨htimer, hpin, hen, how.done⟩
  | opening => cases htodo
  | starting p k hk =>
    have hlen := congrArg List.length htodo
    rw [List.length_append, List.length_drop] at hlen
    exact absurd hlen (by
      show ¬ 0 = 6 - k + _
      omega)
  | closing => cases htodo
  | stopping => cases htodo
  | stopped => cases htodo

/-- A call may be entered when none is under way. -/
theorem Phase.write {s : Lamp} (h : Phase s []) (on : Bool) :
    Phase s [.setEnabled on, .save on] := by
  rcases h.idle with ⟨hplay, hen, hset⟩ | ⟨htimer, hpin, hen, hset⟩
  · exact .lit hplay hen (by rw [hset]; exact .write on true)
  · exact .dark htimer hpin hen (by rw [hset]; exact .write on false)

/-- A timer that expires belongs to a pattern at the end of a step. -/
theorem Plays.due {s : Lamp} (h : Plays s) (hdue : s.led.timer = some 0) :
    ∃ s', blinkTimerFn s = some s' ∧ Plays s' ∧ s'.led.ledEnabled = s.led.ledEnabled ∧
      s'.setting = s.setting := by
  obtain ⟨n, left, now, hplay⟩ := h
  obtain rfl : left = 0 := Option.some.inj (hplay.timer.symm.trans hdue)
  exact hplay.expire

/-- **Step lemma.** -/
theorem step_sound {s s' : System} {e : Event} (h : Sound s) (hG : afterBoot s e = true)
    (hst : Step s e s') : Sound s' := by
  rcases s with ⟨lamp, main, bt⟩
  obtain ⟨halone, hphase⟩ := h
  dsimp only at halone hphase
  unfold Step step at hst
  cases e with
  | main =>
    cases main with
    | nil => cases hst
    | cons c rest =>
      obtain rfl := halone (List.cons_ne_nil c rest)
      obtain rfl := Option.some.inj hst
      refine ⟨fun _ => rfl, ?_⟩
      rw [List.append_nil] at hphase ⊢
      exact exec_phase hphase
  | bt =>
    cases bt with
    | nil => cases hst
    | cons c rest =>
      obtain rfl : main = [] := by
        by_contra hmain
        exact List.cons_ne_nil c rest (halone hmain)
      obtain rfl := Option.some.inj hst
      exact ⟨fun hne => absurd rfl hne, exec_phase hphase⟩
  | write on =>
    obtain rfl : main = [] := List.isEmpty_iff.mp hG
    dsimp only at hst
    split at hst
    · rename_i hbt
      obtain rfl := Option.some.inj hst
      obtain rfl : bt = [] := hbt
      refine ⟨fun hne => absurd rfl hne, ?_⟩
      exact Phase.write hphase on
    · cases hst
  | expire =>
    dsimp only at hst
    split at hst
    · rename_i hdue
      obtain ⟨l, hrun, rfl⟩ := Option.map_eq_some_iff.mp hst
      refine ⟨halone, hphase.map (fun hp => ?_) (fun hnone => ?_) ?_ ?_⟩
      · obtain ⟨s', hrun', hp', -⟩ := hp.due hdue
        rw [hrun] at hrun'
        obtain rfl := Option.some.inj hrun'
        exact hp'
      · rw [hnone] at hdue
        cases hdue
      · rcases hphase.timer with hnone | hp
        · rw [hnone] at hdue
          cases hdue
        · obtain ⟨s', hrun', -, hen, -⟩ := hp.due hdue
          rw [hrun] at hrun'
          obtain rfl := Option.some.inj hrun'
          exact hen
      · rcases hphase.timer with hnone | hp
        · rw [hnone] at hdue
          cases hdue
        · obtain ⟨s', hrun', -, -, hset⟩ := hp.due hdue
          rw [hrun] at hrun'
          obtain rfl := Option.some.inj hrun'
          exact hset
    · cases hst
  | tick =>
    dsimp only at hst
    split at hst
    · cases hst
    · rename_i hdue
      obtain rfl := Option.some.inj hst
      refine ⟨halone, hphase.map (fun hp => ?_) (fun hnone => ⟨?_, rfl⟩) rfl rfl⟩
      · obtain ⟨n, left, now, hplay⟩ := hp
        have hleft : left ≠ 0 := by
          rintro rfl
          exact hdue hplay.timer
        exact ⟨n, left - 1, now, hplay.elapse hleft⟩
      · rcases lamp with ⟨⟨p, i, b, en, pin, t⟩, len, v, shown, age⟩
        dsimp only at hnone
        rw [hnone]
        rfl

theorem start_sound {s : System} (h : Start s) : Sound s := by
  obtain ⟨hled, hlen, hmain, hbt⟩ := h
  refine ⟨fun _ => hbt, ?_⟩
  rw [hmain, hbt, List.append_nil]
  refine .starting .boot 0 (by decide) ?_ (.test _)
  exact ⟨by rw [hled], by rw [hled], by omega, by omega, by omega, by omega, by omega⟩

/-- **The heartbeat is shown.**  In every interleaving of the timer with the statements of `app_init`
    and of any number of writes to 0xFFED, all of them after `app_init` is through: a timer that
    expires finds a step in its table; and between calls the driver is enabled as the setting asks,
    the pin shows the heartbeat of its age if it is, and is dark with the timer stopped if it is
    not. -/
theorem heartbeat_shown {s : System}
    (h : Reach Start (guarded (fun s e => afterBoot s e = true) Step) s) :
    (s.lamp.led.timer = some 0 → (blinkTimerFn s.lamp).isSome = true) ∧
      (s.main = [] → s.bt = [] → s.lamp.led.timer ≠ some 0 →
        s.lamp.led.ledEnabled = s.lamp.setting ∧
          s.lamp.led.pin = (s.lamp.setting && heartbeat s.lamp.shown s.lamp.age) ∧
          (s.lamp.led.timer.isSome = s.lamp.setting)) := by
  have hsound : Sound s := by
    refine Reach.invariant (I := Sound) (fun _ => start_sound) ?_ h
    rintro s e s' - hs ⟨hG, hst⟩
    exact step_sound hs hG hst
  obtain ⟨-, hphase⟩ := hsound
  constructor
  · intro hdue
    rcases hphase.timer with hnone | hplay
    · rw [hnone] at hdue
      cases hdue
    · obtain ⟨s', hrun, -⟩ := hplay.due hdue
      rw [hrun]
      rfl
  · intro hmain hbt hdue
    rw [hmain, hbt] at hphase
    rcases hphase.idle with ⟨⟨n, left, now, hplay⟩, hen, hset⟩ | ⟨htimer, hpin, hen, hset⟩
    · have hleft : left ≠ 0 := by
        rintro rfl
        exact hdue hplay.timer
      rw [hen, hset, hplay.timer, hplay.shows hleft]
      exact ⟨rfl, rfl, rfl⟩
    · rw [hen, hset, htimer, hpin]
      exact ⟨rfl, rfl, rfl⟩

/-- A boot with the heartbeat enabled or disabled. -/
def booting (setting : Bool) : System :=
  ⟨⟨⟨.boot, 0, 0, true, true, none⟩, 6, setting, .boot, 0⟩, blinkStart ++ [.testSetting], []⟩

theorem booting_start (setting : Bool) : Start (booting setting) := ⟨rfl, rfl, rfl, rfl⟩

/-- Seven statements of `app_init`, three milliseconds of light, a write that disables. -/
def disabled : List Event :=
  List.replicate 7 .main ++ List.replicate 3 .tick ++ [.expire, .write false] ++
    List.replicate 5 .bt

/-- The heartbeat disabled after the first flash. -/
theorem heartbeat_shown_disabled : ∃ s,
    Reach Start (guarded (fun s e => afterBoot s e = true) Step) s ∧
      s.lamp.setting = false ∧ s.lamp.led.pin = false ∧ s.lamp.led.timer.isSome = false := by
  have hrun : (disabled.foldlM (fun s e => if afterBoot s e then step s e else none)
      (booting true)).any (fun s => decide (s.main = [] ∧ s.bt = [] ∧
        s.lamp.led.timer ≠ some 0 ∧ s.lamp.setting = false)) = true := by
    decide
  obtain ⟨s, hs, hend⟩ := (Option.any_eq_true ..).mp hrun
  obtain ⟨hmain, hbt, hdue, hset⟩ := decide_eq_true_eq.mp hend
  have hreach : Reach Start (guarded (fun s e => afterBoot s e = true) Step) s :=
    Reach.runGuarded (.start (booting_start true)) hs
  obtain ⟨-, hpin, htimer⟩ := (heartbeat_shown hreach).2 hmain hbt hdue
  rw [hset] at hpin htimer
  exact ⟨s, hreach, hset, hpin, htimer⟩

/-- A write that disables the heartbeat before `app_init` starts it. -/
def early : List Event := .write false :: List.replicate 5 .bt ++ List.replicate 8 .main

/-- **A write before `app_init` starts the heartbeat** is undone by the start: the timer runs on with
    the driver disabled and the setting off. -/
theorem early_write_blinks : ∃ s, Reach Start Step s ∧ s.main = [] ∧ s.bt = [] ∧
    s.lamp.led.ledEnabled = false ∧ s.lamp.setting = false ∧ s.lamp.led.timer.isSome = true := by
  have hrun : (early.foldlM step (booting true)).any (fun s => decide (s.main = [] ∧ s.bt = [] ∧
      s.lamp.led.ledEnabled = false ∧ s.lamp.setting = false ∧
      s.lamp.led.timer.isSome = true)) = true := by
    decide
  obtain ⟨s, hs, hend⟩ := (Option.any_eq_true ..).mp hrun
  exact ⟨s, Reach.run (f := step) (fun _ _ _ hst => hst) (.start (booting_start true)) hs,
    decide_eq_true_eq.mp hend⟩

/-- A write that enables it again, with the timer running on between its statements. -/
def overread : List Event :=
  early ++ List.replicate 3 .tick ++ [.expire] ++ List.replicate 100 .tick ++
    [.write true, .bt, .bt, .bt]

/-- **Enabling it again** then swaps the table under the running timer, whose handler reads past the
    end of the shorter one. -/
theorem early_write_overreads : ∃ s, Reach Start Step s ∧ s.lamp.led.timer = some 0 ∧
    blinkTimerFn s.lamp = none := by
  have hrun : (overread.foldlM step (booting true)).any (fun s => decide
      (s.lamp.led.timer = some 0 ∧ blinkTimerFn s.lamp = none)) = true := by
    decide +kernel
  obtain ⟨s, hs, hend⟩ := (Option.any_eq_true ..).mp hrun
  exact ⟨s, Reach.run (f := step) (fun _ _ _ hst => hst) (.start (booting_start true)) hs,
    decide_eq_true_eq.mp hend⟩

end Caterpillar.Drivers.Heartbeat
