/-
  The digital potentiometer behind the motor's voltage (src/drivers/max5419.c), from boot on.

  A large step of the voltage under motor load can reset the MCU, so a new voltage is approached one
  tap at a time.  The ramp counts from the position it remembers; the chip cannot be read.

  1. `Rig` — the peripheral, the chip's wiper, and where the thread is that talks to the chip:
     `app_init` first, the command thread then.  A tap is one I²C transfer and at most one retry; a
     transfer that fails leaves the wiper where it is.
  2. `Gentle` — a step moves the wiper by one tap at most while rail and driver are on.
  3. `Tracks` — a remembered position is the chip's, and the next tap is beside it.
  4. `gentle_iff` — every step of every run is gentle, unless it is a first write made blindly
     (`Blind`): after a boot that could not reach the chip, with the motor already on.

  The voltage a tap stands for is computed in single precision; the development holds for any such
  computation (`tapFor`), and `exactTap` is the one without rounding errors.
-/
import Caterpillar.Ble.Writes

namespace Caterpillar.Drivers.Max5419

open Caterpillar.Runs Caterpillar.Settings Caterpillar.App
open Caterpillar.Ble.Writes (Peripheral Characteristic)

/-! ## The chip and the thread that talks to it -/

/-- `TAP_MAX`. -/
def tapMax : UInt8 := 253

/-- Who asked for a voltage. -/
inductive Job where
  /-- `app_init`. -/
  | boot
  /-- A queued command. -/
  | command (voltMv : UInt16)

/-- Where the thread is. -/
inductive Pc where
  /-- In `max5419_init`, before the probe `attempt`. -/
  | probe (attempt : Nat)
  /-- In `max5419_set_tap` on the way to `tap`: the transfer of `next` is due, as a retry or not. -/
  | write (job : Job) (tap next : UInt8) (retry : Bool)
  /-- In `k_msgq_get`, booted. -/
  | idle

/-- The peripheral and the chip. -/
structure Rig where
  periph : Peripheral
  /-- The chip's wiper. -/
  wiper : UInt8
  /-- `cur_tap`; `none` is -1. -/
  curTap : Option UInt8
  pc : Pc

/-- The board of the peripheral replaced. -/
def Rig.withBoard (s : Rig) (b : Board) : Rig := { s with periph := { s.periph with board := b } }

/-- `max5419_set_voltage` returns; a command that succeeded stores its voltage. -/
def finish (s : Rig) (job : Job) (ok : Bool) : Rig :=
  match job with
  | .boot => { s with pc := .idle }
  | .command mv =>
      { s.withBoard (execute s.periph.board (.setVoltMv mv) (if ok then 0 else -5)) with pc := .idle }

/-- `max5419_set_tap` up to its first transfer. -/
def setTap (s : Rig) (job : Job) (tap next : UInt8) : Rig :=
  if next > tapMax then finish s job false else { s with pc := .write job tap next false }

/-- `next` of `ramp_to_tap`. -/
def towards (cur tap : UInt8) : UInt8 := if tap > cur then cur + 1 else cur - 1

/-- `ramp_to_tap` up to its next transfer. -/
def rampToTap (s : Rig) (job : Job) (tap : UInt8) : Rig :=
  match s.curTap with
  | none => setTap s job tap tap
  | some cur => if cur = tap then finish s job true else setTap s job tap (towards cur tap)

variable (tapFor : UInt16 → Option UInt8)

/-- `max5419_set_voltage` up to its first transfer; `tapFor` is `none` where the voltage is
    refused. -/
def setVoltage (s : Rig) (job : Job) (mv : UInt16) : Rig :=
  match tapFor mv with
  | none => finish s job false
  | some tap => rampToTap s job tap

/-- What can happen. -/
inductive Event where
  /-- The chip acknowledges the transfer that is due, or not. -/
  | i2c (ack : Bool)
  /-- The command thread fetches its next command; `ret` is what the log's entry write returns. -/
  | fetch (ret : Int)
  /-- A GATT write. -/
  | write (c : Characteristic) (buf : List UInt8) (offset : Nat) (r : PwmRet)

/-- The end of a transfer. -/
def i2cStep (s : Rig) (ack : Bool) : Option Rig :=
  match s.pc with
  | .probe attempt =>
      if ack then some (setVoltage tapFor s .boot (s.periph.board.setting settingMotorVdcMv))
      else if attempt < 2 then some { s with pc := .probe (attempt + 1) }
      else some { s with pc := .idle }
  | .write job tap next retry =>
      if ack then some (rampToTap { s with wiper := next, curTap := some next } job tap)
      else if retry then some (finish s job false)
      else some { s with pc := .write job tap next true }
  | .idle => none

/-- The command thread takes a command. -/
def fetchStep (s : Rig) (ret : Int) : Option Rig :=
  match s.pc, s.periph.board.cmdMsgq with
  | .idle, .setVoltMv mv :: rest =>
      some (setVoltage tapFor (s.withBoard { s.periph.board with cmdMsgq := rest }) (.command mv) mv)
  | .idle, .log op :: rest =>
      some (s.withBoard (execute { s.periph.board with cmdMsgq := rest } (.log op) ret))
  | _, _ => none

/-- `app_init` is still about to start Bluetooth. -/
def Pc.booting : Pc → Bool
  | .probe _ => true
  | .write .boot _ _ _ => true
  | _ => false

/-- One step; `none` where it cannot happen. -/
def step (s : Rig) : Event → Option Rig
  | .i2c ack => i2cStep tapFor s ack
  | .fetch ret => fetchStep tapFor s ret
  | .write c buf offset r =>
      if s.pc.booting then none
      else some { s with periph := (Ble.Writes.write s.periph c buf offset r).1 }

/-- The step relation. -/
def Step (s : Rig) (e : Event) (s' : Rig) : Prop := step tapFor s e = some s'

/-- Power-on: motor off, no position remembered, the wiper anywhere; the I²C controller may not be
    ready, in which case `max5419_init` gives up at once. -/
def Start (s : Rig) : Prop :=
  s.curTap = none ∧ (s.pc = .probe 0 ∨ s.pc = .idle) ∧ s.periph.motor.railOn = false ∧
    s.periph.motor.drvAwake = false

/-- Rail and driver are on. -/
def Rig.loaded (s : Rig) : Prop := s.periph.motor.railOn = true ∧ s.periph.motor.drvAwake = true

/-- Two positions are one tap apart at most. -/
def Near (x y : UInt8) : Prop := x.toNat ≤ y.toNat + 1 ∧ y.toNat ≤ x.toNat + 1

/-- The wiper moves by one tap at most, if the motor is on. -/
def Gentle (s s' : Rig) : Prop := s.loaded → Near s.wiper s'.wiper

/-- The first tap after a boot that did not reach the chip is about to be written, with the motor on,
    to a tap that is not beside the position the chip powered up at. -/
def Blind (s : Rig) : Event → Prop
  | .i2c true => s.curTap = none ∧ s.loaded ∧
      ∃ job tap next retry, s.pc = .write job tap next retry ∧ ¬ Near s.wiper next
  | _ => False

/-! ## What is remembered -/

/-- A remembered position is the chip's, and the transfer that is due is of a tap beside it. -/
structure Tracks (s : Rig) : Prop where
  wiper : ∀ cur, s.curTap = some cur → s.wiper = cur
  next : ∀ job tap next retry cur, s.pc = .write job tap next retry → s.curTap = some cur →
    Near cur next

theorem near_refl (x : UInt8) : Near x x := by
  unfold Near
  omega

/-- One step of the ramp goes to a neighbour. -/
theorem near_towards {cur tap : UInt8} (h : cur ≠ tap) : Near cur (towards cur tap) := by
  have hne : cur.toNat ≠ tap.toNat := fun he => h (UInt8.toNat_inj.mp he)
  have hcur := cur.toNat_lt
  have htap := tap.toNat_lt
  unfold towards
  split
  · rename_i hgt
    have hlt : cur.toNat < tap.toNat := UInt8.lt_iff_toNat_lt.mp hgt
    have hsucc : (cur + 1).toNat = cur.toNat + 1 := by
      rw [UInt8.toNat_add]
      exact Nat.mod_eq_of_lt (by simp; omega)
    unfold Near
    omega
  · rename_i hle
    have hlt : ¬ cur.toNat < tap.toNat := fun h' => hle (UInt8.lt_iff_toNat_lt.mpr h')
    have hpred : (cur - 1).toNat = cur.toNat - 1 := by
      rw [UInt8.toNat_sub_of_le]
      · rfl
      · exact UInt8.le_iff_toNat_le.mpr (by simp; omega)
    unfold Near
    omega

theorem finish_frame (s : Rig) (job : Job) (ok : Bool) :
    (finish s job ok).wiper = s.wiper ∧ (finish s job ok).curTap = s.curTap ∧
      (finish s job ok).pc = .idle := by
  cases job with
  | boot => exact ⟨rfl, rfl, rfl⟩
  | command mv => exact ⟨rfl, rfl, rfl⟩

/-- With nothing due, a remembered position is all there is to keep. -/
theorem Tracks.rest {s s' : Rig} (h : ∀ cur, s.curTap = some cur → s.wiper = cur)
    (hw : s'.wiper = s.wiper) (hc : s'.curTap = s.curTap)
    (hpc : ∀ job tap next retry, s'.pc ≠ .write job tap next retry) : Tracks s' := by
  constructor
  · rw [hw, hc]
    exact h
  · intro job tap next retry cur hw'
    exact absurd hw' (hpc job tap next retry)

theorem tracks_finish {s : Rig} (h : ∀ cur, s.curTap = some cur → s.wiper = cur) (job : Job)
    (ok : Bool) : Tracks (finish s job ok) := by
  obtain ⟨hw, hc, hpc⟩ := finish_frame s job ok
  refine .rest h hw hc fun job tap next retry he => ?_
  rw [hpc] at he
  exact absurd he (by simp)

/-- `max5419_set_tap` of a neighbour, or of any tap while nothing is remembered. -/
theorem tracks_setTap {s : Rig} (h : ∀ cur, s.curTap = some cur → s.wiper = cur) (job : Job)
    {tap next : UInt8} (hnext : ∀ cur, s.curTap = some cur → Near cur next) :
    (setTap s job tap next).wiper = s.wiper ∧ Tracks (setTap s job tap next) := by
  unfold setTap
  split
  · exact ⟨(finish_frame s job false).1, tracks_finish h job false⟩
  · refine ⟨rfl, h, ?_⟩
    rintro job' tap' next' retry cur he hc
    obtain ⟨-, -, rfl, -⟩ : job = job' ∧ tap = tap' ∧ next = next' ∧ false = retry := by
      simpa using he
    exact hnext cur hc

/-- The ramp leaves the wiper to the transfers. -/
theorem tracks_rampToTap {s : Rig} (h : ∀ cur, s.curTap = some cur → s.wiper = cur) (job : Job)
    (tap : UInt8) : (rampToTap s job tap).wiper = s.wiper ∧ Tracks (rampToTap s job tap) := by
  unfold rampToTap
  cases hc : s.curTap with
  | none => exact tracks_setTap h job fun cur hcur => absurd (hc.symm.trans hcur) (by simp)
  | some cur =>
    dsimp only
    split
    · exact ⟨(finish_frame s job true).1, tracks_finish h job true⟩
    · rename_i hne
      refine tracks_setTap h job fun cur' hcur' => ?_
      obtain rfl : cur = cur' := Option.some.inj (hc.symm.trans hcur')
      exact near_towards hne

theorem tracks_setVoltage {s : Rig} (h : ∀ cur, s.curTap = some cur → s.wiper = cur) (job : Job)
    (mv : UInt16) :
    (setVoltage tapFor s job mv).wiper = s.wiper ∧ Tracks (setVoltage tapFor s job mv) := by
  unfold setVoltage
  cases tapFor mv with
  | none => exact ⟨(finish_frame s job false).1, tracks_finish h job false⟩
  | some tap => exact tracks_rampToTap h job tap

/-! ## One step -/

/-- **What one step does to the wiper**: nothing, or the transfer that was due. -/
theorem step_cases {s s' : Rig} {e : Event} (h : Tracks s) (hst : Step tapFor s e s') :
    Tracks s' ∧ (s'.wiper = s.wiper ∧ (∀ job tap next retry, e = .i2c true →
        s.pc ≠ .write job tap next retry) ∨
      ∃ job tap next retry, e = .i2c true ∧ s.pc = .write job tap next retry ∧ s'.wiper = next) := by
  cases e with
  | i2c ack =>
    have hi2c : i2cStep tapFor s ack = some s' := hst
    unfold i2cStep at hi2c
    cases hpc : s.pc with
    | idle => simp [hpc] at hi2c
    -- the probe moves nothing; when it is through, the ramp to the stored voltage begins
    | probe attempt =>
      simp only [hpc] at hi2c
      split at hi2c
      · obtain rfl := Option.some.inj hi2c
        obtain ⟨hw, ht⟩ := tracks_setVoltage tapFor h.wiper .boot
          (s.periph.board.setting settingMotorVdcMv)
        exact ⟨ht, Or.inl ⟨hw, fun _ _ _ _ _ => by simp⟩⟩
      · split at hi2c
        · obtain rfl := Option.some.inj hi2c
          exact ⟨.rest h.wiper rfl rfl fun _ _ _ _ => by simp, Or.inl ⟨rfl, fun _ _ _ _ _ => by simp⟩⟩
        · obtain rfl := Option.some.inj hi2c
          exact ⟨.rest h.wiper rfl rfl fun _ _ _ _ => by simp, Or.inl ⟨rfl, fun _ _ _ _ _ => by simp⟩⟩
    | write job tap next retry =>
      simp only [hpc] at hi2c
      cases ack with
      | true =>
        obtain rfl := Option.some.inj hi2c
        obtain ⟨hw, ht⟩ := tracks_rampToTap (s := { s with wiper := next, curTap := some next })
          (fun cur hcur => Option.some.inj hcur) job tap
        exact ⟨ht, Or.inr ⟨job, tap, next, retry, rfl, rfl, hw⟩⟩
      | false =>
        -- a transfer that is not acknowledged moves nothing
        have hack : ∀ {P : Prop}, Event.i2c false = .i2c true → P := fun h => by simp at h
        rw [if_neg (by decide)] at hi2c
        split at hi2c
        · obtain rfl := Option.some.inj hi2c
          exact ⟨tracks_finish h.wiper job false,
            Or.inl ⟨(finish_frame s job false).1, fun _ _ _ _ => hack⟩⟩
        · obtain rfl := Option.some.inj hi2c
          refine ⟨⟨h.wiper, ?_⟩, Or.inl ⟨rfl, fun _ _ _ _ => hack⟩⟩
          rintro job' tap' next' retry' cur he hc
          obtain ⟨-, -, rfl, -⟩ : job = job' ∧ tap = tap' ∧ next = next' ∧ true = retry' := by
            simpa using he
          exact h.next job tap next retry cur hpc hc
  | fetch ret =>
    have hfetch : fetchStep tapFor s ret = some s' := hst
    unfold fetchStep at hfetch
    split at hfetch
    · rename_i mv rest hpc hq
      obtain rfl := Option.some.inj hfetch
      obtain ⟨hw, ht⟩ := tracks_setVoltage tapFor
        (s := s.withBoard { s.periph.board with cmdMsgq := rest }) h.wiper (.command mv) mv
      exact ⟨ht, Or.inl ⟨hw, fun _ _ _ _ he => by simp at he⟩⟩
    · rename_i op rest hpc hq
      obtain rfl := Option.some.inj hfetch
      refine ⟨.rest h.wiper rfl rfl fun _ _ _ _ he => ?_, Or.inl ⟨rfl, fun _ _ _ _ he => by simp at he⟩⟩
      exact absurd (hpc.symm.trans he) (by simp)
    · exact absurd hfetch (by simp)
  | write c buf offset r =>
    obtain ⟨-, hst⟩ := Option.ite_none_left_eq_some.mp hst
    obtain rfl := Option.some.inj hst
    exact ⟨⟨h.wiper, h.next⟩, Or.inl ⟨rfl, fun _ _ _ _ he => by simp at he⟩⟩

/-- **Step lemma.** -/
theorem step_gentle_iff {s s' : Rig} {e : Event} (h : Tracks s) (hst : Step tapFor s e s') :
    Gentle s s' ↔ ¬ Blind s e := by
  obtain ⟨-, ⟨hw, hno⟩ | ⟨job, tap, next, retry, rfl, hpc, hw⟩⟩ := step_cases tapFor h hst
  · refine iff_of_true (fun _ => ?_) ?_
    · rw [hw]
      exact near_refl s.wiper
    · cases e with
      | i2c ack =>
        cases ack with
        | true =>
          rintro ⟨-, -, job, tap, next, retry, hpc, -⟩
          exact hno job tap next retry rfl hpc
        | false => exact id
      | fetch ret => exact id
      | write c buf offset r => exact id
  · constructor
    · rintro hg ⟨-, hload, job', tap', next', retry', hpc', hfar⟩
      obtain ⟨-, -, rfl, -⟩ : job = job' ∧ tap = tap' ∧ next = next' ∧ retry = retry' := by
        simpa using hpc.symm.trans hpc'
      refine hfar ?_
      rw [← hw]
      exact hg hload
    · intro hb hload
      rw [hw]
      by_contra hfar
      cases hc : s.curTap with
      | none => exact hb ⟨hc, hload, job, tap, next, retry, hpc, hfar⟩
      | some cur =>
        -- the ramp is at the position it remembers
        rw [h.wiper cur hc] at hfar
        exact hfar (h.next job tap next retry cur hpc hc)

/-! ## Over runs -/

theorem start_tracks {s : Rig} (h : Start s) : Tracks s := by
  obtain ⟨hc, hpc, -, -⟩ := h
  refine .rest (s := s) (fun cur hcur => ?_) rfl rfl fun job tap next retry he => ?_
  · exact absurd (hc.symm.trans hcur) (by simp)
  · rcases hpc with hp | hp
    · exact absurd (hp.symm.trans he) (by simp)
    · exact absurd (hp.symm.trans he) (by simp)

/-- **No large step under load**: in every run from power-on, a step of the machine moves the wiper by
    one tap at most while rail and driver are on, if and only if it is not the first tap since boot
    written blindly. -/
theorem gentle_iff {s s' : Rig} {e : Event} (h : Reach Start (Step tapFor) s)
    (hst : Step tapFor s e s') : Gentle s s' ↔ ¬ Blind s e := by
  have hkeep : ∀ s e s', Reach Start (Step tapFor) s → Tracks s → Step tapFor s e s' → Tracks s' := by
    intro s e s' _ hs hst
    exact (step_cases tapFor hs hst).1
  have htracks : Tracks s := Reach.invariant (I := Tracks) (fun _ => start_tracks) hkeep h
  exact step_gentle_iff tapFor htracks hst

/-- The tap of a voltage, to the nearest: 255 less the resistance below the feedback node, in taps of
    200/255 kΩ. -/
def exactTap (mv : UInt16) : Option UInt8 :=
  let den := 2 * mv.toNat - 1000
  if den = 0 ∨ mv > 4200 then none
  else some (UInt8.ofNat (min 253 ((2709275 * den - 1275000000) / (10000 * den))))

/-- The ends of the range a host may ask for. -/
example : exactTap 750 = some 15 ∧ exactTap 4200 = some 253 := by decide

/-- A device with default settings at power-on, its wiper at midscale. -/
def Rig.cold : Rig := ⟨Peripheral.fresh, 128, none, .probe 0⟩

theorem cold_start : Start Rig.cold := ⟨rfl, Or.inl rfl, by decide +kernel, by decide +kernel⟩

/-- The motor is switched on and a voltage of 3 V is written and fetched. -/
def drive : List Event :=
  [.write .rail [1] 0 ⟨0, 0⟩, .write .drv [1] 0 ⟨0, 0⟩, .write .volt [0xB8, 0x0B] 0 ⟨0, 0⟩, .fetch 0]

/-- After a boot that reached the chip the voltage is approached tap by tap. -/
theorem gentle_iff_ramp : ∃ s s', Reach Start (Step exactTap) s ∧ Step exactTap s (.i2c true) s' ∧
    s.loaded ∧ s.wiper = 246 ∧ s'.wiper = 245 ∧ (Gentle s s' ↔ ¬ Blind s (.i2c true)) := by
  have hrun : (([Event.i2c true, Event.i2c true] ++ drive).foldlM (step exactTap) Rig.cold).any
      (fun s : Rig => decide (s.periph.motor.railOn = true ∧ s.periph.motor.drvAwake = true ∧
        s.wiper = 246 ∧ ((step exactTap s (.i2c true)).map Rig.wiper) = some 245)) = true := by
    decide +kernel
  obtain ⟨s, hs, hend⟩ := (Option.any_eq_true ..).mp hrun
  obtain ⟨hrail, hdrv, hw, hnext⟩ := decide_eq_true_eq.mp hend
  obtain ⟨s', hst, hw'⟩ := Option.map_eq_some_iff.mp hnext
  have hreach : Reach Start (Step exactTap) s :=
    Reach.run (f := step exactTap) (fun _ _ _ hst => hst) (.start cold_start) hs
  exact ⟨s, s', hreach, hst, ⟨hrail, hdrv⟩, hw, hw', gentle_iff exactTap hreach hst⟩

/-- **A boot that did not reach the chip** leaves the ramp without a position: with the motor on, the
    first voltage command moves the wiper by 117 taps at once. -/
theorem blind_jump : ∃ s s', Reach Start (Step exactTap) s ∧ Step exactTap s (.i2c true) s' ∧
    ¬ Gentle s s' := by
  have hrun : ((List.replicate 3 (Event.i2c false) ++ drive).foldlM (step exactTap) Rig.cold).any
      (fun s : Rig => decide (s.periph.motor.railOn = true ∧ s.periph.motor.drvAwake = true ∧
        s.wiper = 128 ∧ ((step exactTap s (.i2c true)).map Rig.wiper) = some 245)) = true := by
    decide +kernel
  obtain ⟨s, hs, hend⟩ := (Option.any_eq_true ..).mp hrun
  obtain ⟨hrail, hdrv, hw, hnext⟩ := decide_eq_true_eq.mp hend
  obtain ⟨s', hst, hw'⟩ := Option.map_eq_some_iff.mp hnext
  refine ⟨s, s', ?_, hst, fun hg => ?_⟩
  · exact Reach.run (f := step exactTap) (fun _ _ _ hst => hst) (.start cold_start) hs
  · have hnear : Near s.wiper s'.wiper := hg ⟨hrail, hdrv⟩
    rw [hw, hw'] at hnear
    exact absurd hnear.2 (by decide)

end Caterpillar.Drivers.Max5419
