/-
  One voltage request to the potentiometer (src/drivers/max5419.c), from the volts to the last tap.

  Program: `max5419_set_voltage` turns the voltage into a tap, clamped and rounded, and `ramp_to_tap`
  walks there one tap at a time.  Every tap is one I²C transfer and, if that fails, one retry; a tap
  that fails twice ends the walk.

  1. `max5419SetTap`, `rampToTap`, `max5419SetVoltage` — the functions, with the floats read as
     rationals.  `bus n` is what the `n`th `i2c_write` returns; the driver keeps what it has sent.  The
     loop takes fuel, and `rampLoop_spec` says how much of it is enough.
  2. `Ramped` — what a walk has done when it ends, wherever it ends.
  3. `output` and `realTap` — the feedback network and its inverse, over any field.
  4. `voltage_request` — the request; `exactTap_eq` and `rig_request` tie it to the interleaved machine.
-/
import Mathlib
import Caterpillar.Drivers.Max5419

namespace Caterpillar.Drivers.Voltage

open Caterpillar.Drivers.Max5419 (tapMax exactTap)

/-! ## The driver -/

/-- The static of the driver, and the transfers so far with what `i2c_write` returned. -/
structure Driver where
  /-- `cur_tap`. -/
  curTap : Int
  sent : List (UInt8 × Int)

variable (bus : Nat → Int)

/-- `i2c_write` of a tap. -/
def i2cWrite (d : Driver) (tap : UInt8) : Int × Driver :=
  (bus d.sent.length, { d with sent := d.sent ++ [(tap, bus d.sent.length)] })

/-- `max5419_set_tap`. -/
def max5419SetTap (d : Driver) (tap : UInt8) : Int × Driver :=
  if tap > tapMax then (-22, d)
  else
    let first := i2cWrite bus d tap
    let last := if first.1 < 0 then i2cWrite bus first.2 tap else first
    if last.1 < 0 then last else (0, { last.2 with curTap := tap.toNat })

/-- `next` of `ramp_to_tap`. -/
def nextTap (cur : Int) (tap : UInt8) : UInt8 :=
  UInt8.ofInt (cur + if (tap.toNat : Int) > cur then 1 else -1)

/-- The loop of `ramp_to_tap`; `none` when the fuel is used up. -/
def rampLoop (tap : UInt8) : Nat → Driver → Option (Int × Driver)
  | 0, _ => none
  | fuel + 1, d =>
      if d.curTap = tap.toNat then some (0, d)
      else
        let r := max5419SetTap bus d (nextTap d.curTap tap)
        if r.1 < 0 then some r else rampLoop tap fuel r.2

/-- `ramp_to_tap`. -/
def rampToTap (fuel : Nat) (d : Driver) (tap : UInt8) : Option (Int × Driver) :=
  if d.curTap < 0 then some (max5419SetTap bus d tap) else rampLoop bus tap fuel d

/-- `VOUT_MAX_V`. -/
def voutMaxV : ℚ := 4200 / 1000

/-- `tap_f`. -/
def tapF (voltage : ℚ) : ℚ :=
  let bottomK := 100 / (2 * voltage - 1)
  let rhwK := bottomK - 121 / 10
  255 - rhwK * (255 / 200)

/-- `tap_f` clamped to the valid wiper range. -/
def clampTapF (voltage : ℚ) : ℚ :=
  if tapF voltage < 0 then 0
  else if tapF voltage > tapMax.toNat then tapMax.toNat else tapF voltage

/-- `tap`: `tap_f` rounded. -/
def targetTap (voltage : ℚ) : UInt8 := UInt8.ofInt ⌊clampTapF voltage + 1 / 2⌋

/-- `max5419_set_voltage`. -/
def max5419SetVoltage (fuel : Nat) (d : Driver) (voltage : ℚ) : Option (Int × Driver) :=
  if 2 * voltage - 1 ≤ 0 then some (-22, d)
  else if voltage > voutMaxV then some (-22, d)
  else rampToTap bus fuel d (targetTap voltage)

/-- The range a host may ask for, from the ends of it. -/
example : targetTap (75 / 100) = 15 ∧ targetTap voutMaxV = 253 := by decide +kernel

/-! ## A walk -/

/-- The taps acknowledged. -/
def acked (ws : List (UInt8 × Int)) : List Int :=
  (ws.filter fun w => 0 ≤ w.2).map fun w => (w.1.toNat : Int)

@[simp] theorem acked_nil : acked [] = [] := rfl

theorem acked_append (ws ws' : List (UInt8 × Int)) : acked (ws ++ ws') = acked ws ++ acked ws' := by
  unfold acked
  rw [List.filter_append, List.map_append]

/-- One tap from `a` to `b`, towards `tap`. -/
def OneCloser (tap a b : Int) : Prop :=
  (b - a).natAbs = 1 ∧ (tap - b).natAbs + 1 = (tap - a).natAbs

/-- What a walk from `cur` to `tap` has done when it ends, at `cur'` and with the transfers `ws`. -/
structure Ramped (cur tap : Int) (ret cur' : Int) (ws : List (UInt8 × Int)) : Prop where
  bounded : ∀ w ∈ ws, w.1 ≤ tapMax
  gentle : 0 ≤ cur → (cur :: acked ws).IsChain (OneCloser tap)
  last : cur' = (acked ws).getLast?.getD cur
  between : min cur tap ≤ cur' ∧ cur' ≤ max cur tap
  arrived : ret = 0 → cur' = tap
  failed : ret ≤ 0

/-- **`max5419_set_tap`** transfers the tap once or twice; it remembers it if a transfer was
    acknowledged. -/
theorem setTap_spec (d : Driver) {tap : UInt8} (htap : tap ≤ tapMax) :
    ∃ ws, (max5419SetTap bus d tap).2.sent = d.sent ++ ws ∧ (∀ w ∈ ws, w.1 = tap) ∧
      ((max5419SetTap bus d tap).1 = 0 ∧ (max5419SetTap bus d tap).2.curTap = tap.toNat ∧
          acked ws = [(tap.toNat : Int)] ∨
        (max5419SetTap bus d tap).1 < 0 ∧ (max5419SetTap bus d tap).2.curTap = d.curTap ∧
          acked ws = []) := by
  have hgt : ¬ tap > tapMax := UInt8.not_lt.mpr htap
  unfold max5419SetTap i2cWrite acked
  rw [if_neg hgt]
  by_cases hfirst : bus d.sent.length < 0
  · by_cases hlast : bus (d.sent.length + 1) < 0
    · refine ⟨[(tap, bus d.sent.length), (tap, bus (d.sent.length + 1))], ?_, ?_, Or.inr ?_⟩
      · simp [hfirst, hlast]
      · simp
      · simp [hfirst, hlast]
    · refine ⟨[(tap, bus d.sent.length), (tap, bus (d.sent.length + 1))], ?_, ?_, Or.inl ?_⟩
      · simp [hfirst, hlast]
      · simp
      · simp [hfirst, hlast, not_lt.mp hlast]
  · refine ⟨[(tap, bus d.sent.length)], ?_, ?_, Or.inl ?_⟩
    · simp [hfirst]
    · simp
    · simp [hfirst, not_lt.mp hfirst]

/-- The next tap of the walk is one closer, and in range. -/
theorem nextTap_spec {cur : Int} {tap : UInt8} (hcur : 0 ≤ cur ∧ cur ≤ 253) (htap : tap ≤ tapMax)
    (hne : cur ≠ tap.toNat) :
    OneCloser tap.toNat cur (nextTap cur tap).toNat ∧ nextTap cur tap ≤ tapMax := by
  have hle : tap.toNat ≤ 253 := UInt8.le_iff_toNat_le.mp htap
  have hnext : ((nextTap cur tap).toNat : Int) = cur + if (tap.toNat : Int) > cur then 1 else -1 := by
    unfold nextTap UInt8.ofInt
    rw [UInt8.toNat_ofNat']
    split <;> omega
  constructor
  · unfold OneCloser
    split at hnext <;> omega
  · rw [UInt8.le_iff_toNat_le]
    show (nextTap cur tap).toNat ≤ 253
    split at hnext <;> omega

/-- A walk that ends where it is. -/
theorem Ramped.stay {cur tap ret : Int} {ws : List (UInt8 × Int)} (hws : ∀ w ∈ ws, w.1 ≤ tapMax)
    (hno : acked ws = []) (hret : ret < 0 ∨ ret = 0 ∧ cur = tap) : Ramped cur tap ret cur ws := by
  constructor
  · exact hws
  · rw [hno]
    exact fun _ => List.isChain_singleton cur
  · rw [hno]
    rfl
  · exact ⟨min_le_left cur tap, le_max_left cur tap⟩
  · intro h
    rcases hret with hneg | ⟨-, heq⟩
    · omega
    · exact heq
  · omega

/-- A tap acknowledged, and the walk from there. -/
theorem Ramped.step {cur next tap ret cur' : Int} {ws₁ ws₂ : List (UInt8 × Int)}
    (hclose : OneCloser tap cur next) (hws : ∀ w ∈ ws₁, w.1 ≤ tapMax) (hack : acked ws₁ = [next])
    (hnext : 0 ≤ next) (h : Ramped next tap ret cur' ws₂) : Ramped cur tap ret cur' (ws₁ ++ ws₂) := by
  constructor
  · intro w hw
    rcases List.mem_append.mp hw with h₁ | h₂
    · exact hws w h₁
    · exact h.bounded w h₂
  · intro _
    rw [acked_append, hack]
    exact List.isChain_cons_cons.mpr ⟨hclose, h.gentle hnext⟩
  · rw [acked_append, hack, h.last]
    rcases List.eq_nil_or_concat (acked ws₂) with hnil | ⟨front, lastTap, hcons⟩
    · rw [hnil]
      rfl
    · rw [hcons, List.concat_eq_append, ← List.append_assoc, List.getLast?_concat,
        List.getLast?_concat]
      rfl
  · obtain ⟨hlo, hhi⟩ := h.between
    unfold OneCloser at hclose
    omega
  · exact h.arrived
  · exact h.failed

/-- **The loop of `ramp_to_tap`**, by induction on the taps between here and there: the walk ends, one
    round more than there are taps is fuel enough, and no round goes past the target. -/
theorem rampLoop_spec {tap : UInt8} (htap : tap ≤ tapMax) (n : Nat) {d : Driver}
    (hcur : 0 ≤ d.curTap ∧ d.curTap ≤ 253) (hn : ((tap.toNat : Int) - d.curTap).natAbs ≤ n) :
    ∃ r ws, (∀ fuel, n < fuel → rampLoop bus tap fuel d = some r) ∧ r.2.sent = d.sent ++ ws ∧
      Ramped d.curTap tap.toNat r.1 r.2.curTap ws := by
  induction n generalizing d with
  | zero =>
    have heq : d.curTap = tap.toNat := by omega
    refine ⟨(0, d), [], fun fuel hfuel => ?_, (List.append_nil d.sent).symm, ?_⟩
    · obtain ⟨fuel, rfl⟩ : ∃ k, fuel = k + 1 := ⟨fuel - 1, by omega⟩
      exact if_pos heq
    · exact .stay (by simp) rfl (Or.inr ⟨rfl, heq⟩)
  | succ n ih =>
    by_cases heq : d.curTap = tap.toNat
    · refine ⟨(0, d), [], fun fuel hfuel => ?_, (List.append_nil d.sent).symm, ?_⟩
      · obtain ⟨fuel, rfl⟩ : ∃ k, fuel = k + 1 := ⟨fuel - 1, by omega⟩
        exact if_pos heq
      · exact .stay (by simp) rfl (Or.inr ⟨rfl, heq⟩)
    · obtain ⟨hclose, hrange⟩ := nextTap_spec hcur htap heq
      obtain ⟨ws₁, hsent, htaps, hout⟩ := setTap_spec bus d hrange
      have hbounded : ∀ w ∈ ws₁, w.1 ≤ tapMax := by
        intro w hw
        rw [htaps w hw]
        exact hrange
      rcases hout with ⟨hret, hto, hack⟩ | ⟨hret, hto, hack⟩
      · -- acknowledged: one tap closer, and on from there
        have hle : (nextTap d.curTap tap).toNat ≤ 253 := UInt8.le_iff_toNat_le.mp hrange
        have hnear : ((tap.toNat : Int) - (nextTap d.curTap tap).toNat).natAbs ≤ n := by
          unfold OneCloser at hclose
          omega
        rw [← hto] at hnear
        obtain ⟨r, ws₂, hrun, hsent₂, hramp⟩ := ih (by omega) hnear
        refine ⟨r, ws₁ ++ ws₂, fun fuel hfuel => ?_, ?_, ?_⟩
        · obtain ⟨fuel, rfl⟩ : ∃ k, fuel = k + 1 := ⟨fuel - 1, by omega⟩
          rw [rampLoop, if_neg heq]
          dsimp only
          rw [if_neg (by omega)]
          exact hrun fuel (by omega)
        · rw [hsent₂, hsent, List.append_assoc]
        · rw [hto] at hramp
          exact .step hclose hbounded hack (by omega) hramp
      · -- failed twice: the walk ends where it is
        refine ⟨max5419SetTap bus d (nextTap d.curTap tap), ws₁, fun fuel hfuel => ?_, hsent, ?_⟩
        · obtain ⟨fuel, rfl⟩ : ∃ k, fuel = k + 1 := ⟨fuel - 1, by omega⟩
          rw [rampLoop, if_neg heq]
          exact if_pos hret
        · rw [hto]
          exact .stay hbounded hack (Or.inl hret)

/-- **`ramp_to_tap`**: from a known tap the walk, from none one write. -/
theorem rampToTap_spec {tap : UInt8} (htap : tap ≤ tapMax) {d : Driver}
    (hcur : -1 ≤ d.curTap ∧ d.curTap ≤ 253) :
    ∃ r ws, (∀ fuel, 254 ≤ fuel → rampToTap bus fuel d tap = some r) ∧ r.2.sent = d.sent ++ ws ∧
      Ramped d.curTap tap.toNat r.1 r.2.curTap ws := by
  have hle : tap.toNat ≤ 253 := UInt8.le_iff_toNat_le.mp htap
  by_cases hneg : d.curTap < 0
  · obtain ⟨ws, hsent, htaps, hout⟩ := setTap_spec bus d htap
    have hbounded : ∀ w ∈ ws, w.1 ≤ tapMax := by
      intro w hw
      rw [htaps w hw]
      exact htap
    refine ⟨max5419SetTap bus d tap, ws, fun fuel _ => if_pos hneg, hsent, ?_⟩
    rcases hout with ⟨hret, hto, hack⟩ | ⟨hret, hto, hack⟩
    · constructor
      · exact hbounded
      · intro h
        omega
      · rw [hto, hack]
        rfl
      · rw [hto]
        exact ⟨min_le_right _ _, le_max_right _ _⟩
      · exact fun _ => hto
      · omega
    · rw [hto]
      exact .stay hbounded hack (Or.inl hret)
  · obtain ⟨r, ws, hrun, hsent, hramp⟩ := rampLoop_spec bus htap 253 (d := d) (by omega) (by omega)
    refine ⟨r, ws, fun fuel hfuel => ?_, hsent, hramp⟩
    unfold rampToTap
    rw [if_neg hneg]
    exact hrun fuel hfuel

/-! ## The feedback network -/

section Network

variable {K : Type*} [Field K]

/-- The output of the converter with the wiper at `tap`: `Vout` of the header. -/
def output (tap : K) : K := 1 / 2 * (1 + 100 / (121 / 10 + 200 * (255 - tap) / 255))

/-- The position of the wiper that gives `v`. -/
def realTap (v : K) : K := 255 - 255 / 200 * (100 / (2 * v - 1) - 121 / 10)

variable [LinearOrder K] [IsStrictOrderedRing K]

/-- There is one such position for each voltage above the half volt of the reference. -/
theorem output_eq_iff {v : K} (hv : 1 / 2 < v) (tap : K) : output tap = v ↔ tap = realTap v := by
  have hden : (2 * v - 1) ≠ 0 := by linarith
  unfold output realTap
  generalize hbottom : 121 / 10 + 200 * (255 - tap) / 255 = bottom
  have htap : tap = 255 - 255 / 200 * (bottom - 121 / 10) := by
    rw [← hbottom]
    ring
  constructor
  · intro h
    have hquot : 100 / bottom = 2 * v - 1 := by linarith
    have hne : bottom ≠ 0 := by
      rintro rfl
      rw [div_zero] at hquot
      exact hden hquot.symm
    have hb : bottom = 100 / (2 * v - 1) := by
      rw [div_eq_iff hne] at hquot
      rw [eq_div_iff hden]
      linarith
    rw [htap, hb]
  · intro h
    have hb : bottom = 100 / (2 * v - 1) := by linarith
    rw [hb, div_div_cancel₀ (by norm_num)]
    ring

/-- The output rises with the tap, up to the last one. -/
theorem output_mono {tap tap' : K} (h : tap ≤ tap') (h' : tap' ≤ 255) : output tap ≤ output tap' := by
  unfold output
  have hpos : 0 < 121 / 10 + 200 * (255 - tap') / 255 := by
    have hle : 0 ≤ 200 * (255 - tap') / 255 := by
      apply div_nonneg
      · linarith
      · norm_num
    linarith
  have hle : 121 / 10 + 200 * (255 - tap') / 255 ≤ 121 / 10 + 200 * (255 - tap) / 255 := by
    gcongr
  gcongr

/-- The position rises with the voltage. -/
theorem realTap_mono {v v' : K} (hv : 1 / 2 < v) (h : v ≤ v') : realTap v ≤ realTap v' := by
  unfold realTap
  have hpos : 0 < 2 * v - 1 := by linarith
  have hle : 2 * v - 1 ≤ 2 * v' - 1 := by linarith
  gcongr

end Network

/-! ## The target -/

theorem tapF_eq (v : ℚ) : tapF v = realTap v := by
  unfold tapF realTap
  ring

/-- **The target** is the real position rounded to the nearest tap, within the wiper's range. -/
theorem targetTap_eq (v : ℚ) : ((targetTap v).toNat : Int) = max 0 (min 253 (round (realTap v))) := by
  have hfloor : ⌊clampTapF v + 1 / 2⌋ = max 0 (min 253 (round (realTap v))) := by
    rw [round_eq]
    unfold clampTapF
    rw [tapF_eq]
    show ⌊(if realTap v < 0 then (0 : ℚ) else if realTap v > 253 then 253 else realTap v) + 1 / 2⌋ = _
    split
    · rename_i hneg
      have h0 : ⌊realTap v + 1 / 2⌋ ≤ 0 := by
        rw [← Int.lt_add_one_iff, Int.floor_lt]
        push_cast
        linarith
      have hhalf : ⌊(0 : ℚ) + 1 / 2⌋ = 0 := by norm_num
      rw [hhalf]
      omega
    · rename_i hpos
      have h0 : 0 ≤ ⌊realTap v + 1 / 2⌋ := by
        rw [Int.floor_nonneg]
        linarith
      split
      · rename_i hbig
        have hhalf : ⌊(253 : ℚ) + 1 / 2⌋ = 253 := by norm_num
        have h253 : 253 ≤ ⌊realTap v + 1 / 2⌋ := by
          rw [Int.le_floor]
          push_cast
          linarith
        rw [hhalf]
        omega
      · rename_i hsmall
        have h253 : ⌊realTap v + 1 / 2⌋ ≤ 253 := by
          rw [← Int.lt_add_one_iff, Int.floor_lt]
          push_cast
          linarith
        omega
  unfold targetTap UInt8.ofInt
  rw [hfloor, UInt8.toNat_ofNat']
  omega

theorem targetTap_le (v : ℚ) : targetTap v ≤ tapMax := by
  have heq := targetTap_eq v
  rw [UInt8.le_iff_toNat_le]
  show (targetTap v).toNat ≤ 253
  omega

/-- A higher voltage never means a lower tap. -/
theorem targetTap_mono {v v' : ℚ} (hv : 1 / 2 < v) (h : v ≤ v') : targetTap v ≤ targetTap v' := by
  have hround : round (realTap v) ≤ round (realTap v') := by
    rw [round_eq, round_eq]
    have hle := realTap_mono hv h
    apply Int.floor_le_floor
    linarith
  have heq := targetTap_eq v
  have heq' := targetTap_eq v'
  rw [UInt8.le_iff_toNat_le]
  omega

/-- No tap of the range puts the output above the limit. -/
theorem output_le_limit {tap : UInt8} (h : tap ≤ tapMax) : output (tap.toNat : ℚ) ≤ voutMaxV := by
  have hle : tap.toNat ≤ 253 := UInt8.le_iff_toNat_le.mp h
  have hcast : (tap.toNat : ℚ) ≤ 253 := by exact_mod_cast hle
  calc output (tap.toNat : ℚ) ≤ output 253 := output_mono hcast (by norm_num)
    _ ≤ voutMaxV := by
      unfold output voutMaxV
      norm_num

/-! ## A request -/

theorem realTap_cast (v : ℚ) : ((realTap v : ℚ) : ℝ) = realTap (v : ℝ) := by
  unfold realTap
  push_cast
  rfl

/-- **Every request ramps to the right tap and stays below the limit**, whatever the bus does: the call
    returns; each tap written keeps the output within the limit; the taps acknowledged go to the target
    one by one; where the call succeeds the wiper ends at the position that gives `v`, rounded; where it
    fails the driver remembers the last tap acknowledged; and the target is monotone. -/
theorem voltage_request {d : Driver} {v : ℚ} (hlo : 1 / 2 < v) (hhi : v ≤ 42 / 10)
    (hcur : -1 ≤ d.curTap ∧ d.curTap ≤ 253) :
    (∃ ret d' ws, (∀ fuel, 254 ≤ fuel → max5419SetVoltage bus fuel d v = some (ret, d')) ∧
      d'.sent = d.sent ++ ws ∧
      (∀ w ∈ ws, w.1 ≤ 253 ∧ output (w.1.toNat : ℚ) ≤ 42 / 10) ∧
      (0 ≤ d.curTap → (d.curTap :: acked ws).IsChain (OneCloser (targetTap v).toNat)) ∧
      (ret = 0 → d'.curTap = max 0 (min 253 (round (realTap v)))) ∧
      (ret ≠ 0 → ret < 0 ∧ d'.curTap = (acked ws).getLast?.getD d.curTap ∧
        min d.curTap (targetTap v).toNat ≤ d'.curTap ∧
        d'.curTap ≤ max d.curTap (targetTap v).toNat)) ∧
    (∀ x : ℝ, output x = (v : ℝ) ↔ x = ((realTap v : ℚ) : ℝ)) ∧
    ∀ v', v ≤ v' → targetTap v ≤ targetTap v' := by
  have hlimit : voutMaxV = 42 / 10 := by
    unfold voutMaxV
    norm_num
  refine ⟨?_, ?_, fun v' hle => targetTap_mono hlo hle⟩
  · obtain ⟨r, ws, hrun, hsent, hramp⟩ := rampToTap_spec bus (targetTap_le v) hcur
    refine ⟨r.1, r.2, ws, fun fuel hfuel => ?_, hsent, ?_, hramp.gentle, ?_, ?_⟩
    · have haccept : ¬ v > voutMaxV := by
        rw [hlimit]
        exact not_lt.mpr hhi
      unfold max5419SetVoltage
      rw [if_neg (by linarith), if_neg haccept]
      exact hrun fuel hfuel
    · intro w hw
      have hout := output_le_limit (hramp.bounded w hw)
      rw [hlimit] at hout
      exact ⟨hramp.bounded w hw, hout⟩
    · intro hret
      rw [hramp.arrived hret, targetTap_eq]
    · intro hret
      exact ⟨lt_of_le_of_ne hramp.failed hret, hramp.last, hramp.between⟩
  · intro x
    have hreal : (1 : ℝ) / 2 < (v : ℝ) := by
      have hcast := (Rat.cast_lt (K := ℝ)).mpr hlo
      push_cast at hcast
      exact hcast
    rw [realTap_cast]
    exact output_eq_iff hreal x

/-- From tap 250 to 4.2 V over a bus that fails four times: one transfer is repeated, the next tap is
    given up, and the driver remembers tap 251. -/
theorem voltage_request_fails :
    let bus := fun n => if n = 1 then 0 else -5
    ∃ ret d' ws, max5419SetVoltage bus 254 ⟨250, []⟩ (42 / 10) = some (ret, d') ∧ d'.sent = ws ∧
      ws = [(251, -5), (251, 0), (252, -5), (252, -5)] ∧ ret < 0 ∧ d'.curTap = 251 ∧
      (∀ w ∈ ws, w.1 ≤ 253 ∧ output (w.1.toNat : ℚ) ≤ 42 / 10) ∧
      (250 :: acked ws).IsChain (OneCloser (targetTap (42 / 10)).toNat) := by
  intro bus
  obtain ⟨⟨ret, d', ws, hrun, hsent, hbound, hgentle, -, -⟩, -, -⟩ :=
    voltage_request bus (d := ⟨250, []⟩) (v := 42 / 10) (by norm_num) (by norm_num) (by decide)
  have hcall := hrun 254 (by decide)
  have heval : (max5419SetVoltage bus 254 ⟨250, []⟩ (42 / 10)).map (fun r => (r.1, r.2.curTap, r.2.sent))
      = some (-5, 251, [(251, -5), (251, 0), (252, -5), (252, -5)]) := by
    decide +kernel
  rw [hcall] at heval
  simp only [Option.map_some, Option.some.injEq, Prod.mk.injEq] at heval
  obtain ⟨hret, htap, hws⟩ := heval
  refine ⟨ret, d', d'.sent, hcall, rfl, hws, by omega, htap, ?_, ?_⟩
  · rw [hsent]
    exact hbound
  · rw [hsent]
    exact hgentle (by decide)

/-! ## The interleaved machine -/

/-- A quotient of naturals is the one of integers, cut off at zero. -/
theorem truncated_quotient (a b c : Nat) :
    (((a - b) / c : Nat) : Int) = max 0 (((a : Int) - b) / c) := by
  rw [Int.natCast_ediv]
  rcases Nat.eq_zero_or_pos c with rfl | hc
  · simp
  · rcases Nat.le_total b a with hle | hle
    · rw [Int.ofNat_sub hle, max_eq_right]
      exact Int.ediv_nonneg (by omega) (by omega)
    · rw [Nat.sub_eq_zero_of_le hle, max_eq_left]
      · exact Int.zero_ediv _
      · exact Int.ediv_nonpos_of_nonpos_of_neg (by omega) (by omega)

/-- The target of a voltage that rounds to a quotient, in whole numbers. -/
theorem targetTap_of_quotient {v : ℚ} {a b c : Nat}
    (h : round (realTap v) = ((a : Int) - b) / c) :
    UInt8.ofNat (min 253 ((a - b) / c)) = targetTap v := by
  have htap := targetTap_eq v
  have hquot := truncated_quotient a b c
  rw [h] at htap
  refine UInt8.toNat_inj.mp ?_
  rw [UInt8.toNat_ofNat']
  omega

/-- The tap of a command in millivolts, computed in whole numbers, is the target. -/
theorem exactTap_eq (mv : UInt16) :
    exactTap mv = if 500 < mv.toNat ∧ mv ≤ 4200 then some (targetTap (mv.toNat / 1000)) else none := by
  unfold exactTap
  dsimp only
  by_cases haccept : 500 < mv.toNat ∧ mv ≤ 4200
  · obtain ⟨hlow, hhigh⟩ := haccept
    obtain ⟨den, hden⟩ : ∃ den, 2 * mv.toNat - 1000 = den := ⟨_, rfl⟩
    have hpass : ¬ (den = 0 ∨ mv > 4200) := by
      rintro (h | h)
      · omega
      · exact UInt16.not_lt.mpr hhigh h
    rw [hden, if_neg hpass, if_pos ⟨hlow, hhigh⟩]
    have hmv : (mv.toNat : ℚ) = (den + 1000) / 2 := by
      have hnat : 2 * mv.toNat = den + 1000 := by omega
      have hcast : (2 * mv.toNat : ℚ) = den + 1000 := by exact_mod_cast hnat
      linarith
    have hd0 : (den : ℚ) ≠ 0 := by
      intro h
      have hzero : den = 0 := by exact_mod_cast h
      omega
    have hround : round (realTap ((mv.toNat : ℚ) / 1000)) =
        (((2709275 * den : Nat) : Int) - (1275000000 : Nat)) / (10000 * den : Nat) := by
      rw [round_eq, ← Rat.floor_intCast_div_natCast]
      refine congrArg Int.floor ?_
      have hdenV : 2 * ((mv.toNat : ℚ) / 1000) - 1 = den / 1000 := by
        rw [hmv]
        ring
      unfold realTap
      rw [hdenV]
      push_cast
      field_simp
      ring
    rw [← targetTap_of_quotient hround]
  · have hrefuse : 2 * mv.toNat - 1000 = 0 ∨ mv > 4200 := by
      by_contra h
      rw [not_or] at h
      exact haccept ⟨by omega, UInt16.not_lt.mp h.2⟩
    rw [if_neg haccept, if_pos hrefuse]

section Machine

variable (tapFor : UInt16 → Option UInt8)

/-- The machine remembers the position the driver does. -/
def Remembers (remembered : Option UInt8) (cur : Int) : Prop :=
  match remembered with
  | none => cur = -1
  | some tap => cur = tap.toNat

/-- A step of the ramp in the machine's bytes. -/
theorem nextTap_eq {cur tap : UInt8} (h : tap ≤ tapMax) (hcur : cur ≤ tapMax) :
    nextTap cur.toNat tap = Max5419.towards cur tap := by
  have hle : tap.toNat ≤ 253 := UInt8.le_iff_toNat_le.mp h
  have hle' : cur.toNat ≤ 253 := UInt8.le_iff_toNat_le.mp hcur
  refine UInt8.toNat_inj.mp ?_
  unfold nextTap Max5419.towards UInt8.ofInt
  rw [UInt8.toNat_ofNat']
  by_cases hgt : tap > cur
  · have hlt : cur.toNat < tap.toNat := UInt8.lt_iff_toNat_lt.mp hgt
    have hcast : (tap.toNat : Int) > cur.toNat := by omega
    rw [if_pos hgt, if_pos hcast, UInt8.toNat_add]
    show _ = (cur.toNat + 1) % 256
    omega
  · have hlt : ¬ cur.toNat < tap.toNat := fun h' => hgt (UInt8.lt_iff_toNat_lt.mpr h')
    have hcast : ¬ (tap.toNat : Int) > cur.toNat := by omega
    rw [if_neg hgt, if_neg hcast, UInt8.toNat_sub]
    show _ = (256 - 1 + cur.toNat) % 256
    omega

/-- What a call leaves of the machine: the wiper where it is, the position remembered. -/
def Rests (s : Max5419.Rig) (job : Max5419.Job) (ret cur : Int) (s' : Max5419.Rig) : Prop :=
  ∃ wiper remembered, Remembers remembered cur ∧
    s' = Max5419.finish { s with wiper := wiper, curTap := remembered } job (decide (ret = 0))

/-- Where the thread was does not matter to what it does next. -/
theorem finish_pc (s : Max5419.Rig) (pc : Max5419.Pc) (job : Max5419.Job) (ok : Bool) :
    Max5419.finish { s with pc := pc } job ok = Max5419.finish s job ok := by
  cases job with
  | boot => rfl
  | command mv => rfl

theorem setTap_pc (s : Max5419.Rig) (pc : Max5419.Pc) (job : Max5419.Job) (tap next : UInt8) :
    Max5419.setTap { s with pc := pc } job tap next = Max5419.setTap s job tap next := by
  unfold Max5419.setTap
  rw [finish_pc]

theorem rampToTap_pc (s : Max5419.Rig) (pc : Max5419.Pc) (job : Max5419.Job) (tap : UInt8) :
    Max5419.rampToTap { s with pc := pc } job tap = Max5419.rampToTap s job tap := by
  obtain ⟨periph, wiper, curTap, before⟩ := s
  cases curTap with
  | none => exact setTap_pc ⟨periph, wiper, none, before⟩ pc job tap tap
  | some cur =>
    unfold Max5419.rampToTap
    dsimp only
    rw [finish_pc ⟨periph, wiper, some cur, before⟩ pc,
      setTap_pc ⟨periph, wiper, some cur, before⟩ pc]

/-- **A transfer and its retry**, in the machine: it goes on as the driver does. -/
theorem rig_setTap (d : Driver) {next : UInt8} (hnext : next ≤ tapMax) (s : Max5419.Rig)
    (job : Max5419.Job) (tap : UInt8) :
    ∃ acks : List Bool, ((max5419SetTap bus d next).1 = 0 ∧
        acks.foldlM (Max5419.i2cStep tapFor) (Max5419.setTap s job tap next) =
          some (Max5419.rampToTap { s with wiper := next, curTap := some next } job tap) ∨
      (max5419SetTap bus d next).1 < 0 ∧
        acks.foldlM (Max5419.i2cStep tapFor) (Max5419.setTap s job tap next) =
          some (Max5419.finish s job false)) := by
  have hgt : ¬ next > tapMax := UInt8.not_lt.mpr hnext
  have hset : Max5419.setTap s job tap next = { s with pc := .write job tap next false } := if_neg hgt
  have hack : ∀ retry, Max5419.i2cStep tapFor { s with pc := .write job tap next retry } true =
      some (Max5419.rampToTap { s with wiper := next, curTap := some next } job tap) := by
    intro retry
    exact congrArg some (rampToTap_pc { s with wiper := next, curTap := some next } _ job tap)
  have hretry : Max5419.i2cStep tapFor { s with pc := .write job tap next false } false =
      some { s with pc := .write job tap next true } := rfl
  have hfail : Max5419.i2cStep tapFor { s with pc := .write job tap next true } false =
      some (Max5419.finish s job false) := congrArg some (finish_pc s _ job false)
  unfold max5419SetTap i2cWrite
  rw [if_neg hgt, hset]
  by_cases hfirst : bus d.sent.length < 0
  · by_cases hlast : bus (d.sent.length + 1) < 0
    · refine ⟨[false, false], Or.inr ⟨?_, ?_⟩⟩
      · simp [hfirst, hlast]
      · simp only [List.foldlM_cons, hretry, hfail, Option.bind_eq_bind, Option.bind_some]
        rfl
    · refine ⟨[false, true], Or.inl ⟨?_, ?_⟩⟩
      · simp [hfirst, hlast]
      · simp only [List.foldlM_cons, hretry, hack, Option.bind_eq_bind, Option.bind_some]
        rfl
  · refine ⟨[true], Or.inl ⟨?_, ?_⟩⟩
    · simp [hfirst]
    · simp only [List.foldlM_cons, hack, Option.bind_eq_bind, Option.bind_some]
      rfl

/-- **The loop of `ramp_to_tap`**, in the machine, by induction on the fuel. -/
theorem rig_rampLoop {tap : UInt8} (htap : tap ≤ tapMax) (fuel : Nat) {d : Driver} {r : Int × Driver}
    (hrun : rampLoop bus tap fuel d = some r) {s : Max5419.Rig} {cur : UInt8}
    (hs : s.curTap = some cur) (hcur : cur ≤ tapMax) (hd : d.curTap = cur.toNat)
    (job : Max5419.Job) :
    ∃ (acks : List Bool) (s' : Max5419.Rig),
      acks.foldlM (Max5419.i2cStep tapFor) (Max5419.rampToTap s job tap) = some s' ∧
      Rests s job r.1 r.2.curTap s' := by
  have hramp : Max5419.rampToTap s job tap = if cur = tap then Max5419.finish s job true
      else Max5419.setTap s job tap (Max5419.towards cur tap) := by
    unfold Max5419.rampToTap
    rw [hs]
  -- the fuel is the driver's; the machine has as many rounds as it takes
  induction fuel generalizing d s cur with
  | zero => exact absurd hrun (by simp [rampLoop])
  | succ fuel ih =>
    rw [rampLoop] at hrun
    by_cases heq : cur = tap
    · subst heq
      rw [if_pos hd] at hrun
      obtain rfl := Option.some.inj hrun
      rw [hramp, if_pos rfl]
      refine ⟨[], _, rfl, s.wiper, s.curTap, ?_, rfl⟩
      rw [hs]
      exact hd
    · have hne : d.curTap ≠ tap.toNat := by
        rw [hd]
        exact fun h => heq (UInt8.toNat_inj.mp (Int.ofNat.inj h))
      have hnext := nextTap_eq htap hcur
      have hrange : Max5419.towards cur tap ≤ tapMax := by
        have hle : cur.toNat ≤ 253 := UInt8.le_iff_toNat_le.mp hcur
        rw [← hnext, ← hd]
        exact (nextTap_spec (by omega) htap hne).2
      rw [if_neg hne] at hrun
      rw [hramp, if_neg heq]
      rw [hd, hnext] at hrun
      dsimp only at hrun
      obtain ⟨acks, ⟨hret, hacks⟩ | ⟨hret, hacks⟩⟩ := rig_setTap bus tapFor d hrange s job tap
      · -- acknowledged: both go on from the next tap
        rw [if_neg (by omega)] at hrun
        obtain ⟨-, -, -, ⟨-, hto, -⟩ | ⟨hneg, -⟩⟩ := setTap_spec bus d hrange
        · obtain ⟨acks', s', hrest, wiper, remembered, hrem, hs'⟩ := ih hrun
            (s := { s with wiper := Max5419.towards cur tap, curTap := some (Max5419.towards cur tap) })
            rfl hrange hto rfl
          refine ⟨acks ++ acks', s', ?_, wiper, remembered, hrem, hs'⟩
          rw [List.foldlM_append, hacks]
          exact hrest
        · omega
      · -- given up: both stay
        rw [if_pos hret] at hrun
        obtain rfl := Option.some.inj hrun
        obtain ⟨-, -, -, ⟨hzero, -⟩ | ⟨-, hto, -⟩⟩ := setTap_spec bus d hrange
        · omega
        · refine ⟨acks, _, hacks, s.wiper, s.curTap, ?_, ?_⟩
          · rw [hs, hto]
            exact hd
          · have hne0 : (max5419SetTap bus d (Max5419.towards cur tap)).1 ≠ 0 := by omega
            rw [decide_eq_false hne0]

/-- The first move, from an unknown position: the target is written at once. -/
theorem rig_first {tap : UInt8} (htap : tap ≤ tapMax) {d : Driver} {s : Max5419.Rig}
    (hc : s.curTap = none) (hs : Remembers none d.curTap) (job : Max5419.Job) :
    ∃ (acks : List Bool) (s' : Max5419.Rig),
      acks.foldlM (Max5419.i2cStep tapFor) (Max5419.rampToTap s job tap) = some s' ∧
      Rests s job (max5419SetTap bus d tap).1 (max5419SetTap bus d tap).2.curTap s' := by
  have hramp : Max5419.rampToTap s job tap = Max5419.setTap s job tap tap := by
    unfold Max5419.rampToTap
    rw [hc]
  rw [hramp]
  obtain ⟨acks, ⟨hret, hacks⟩ | ⟨hret, hacks⟩⟩ := rig_setTap bus tapFor d htap s job tap
  · refine ⟨acks, _, hacks, tap, some tap, ?_, ?_⟩
    · obtain ⟨-, -, -, ⟨-, hto, -⟩ | ⟨hlt, -⟩⟩ := setTap_spec bus d htap
      · exact hto
      · omega
    · -- the machine looks at its target again, and is there
      rw [decide_eq_true hret]
      exact if_pos rfl
  · refine ⟨acks, _, hacks, s.wiper, s.curTap, ?_, ?_⟩
    · obtain ⟨-, -, -, ⟨hzero, -⟩ | ⟨-, hto, -⟩⟩ := setTap_spec bus d htap
      · omega
      · rw [hc, hto]
        exact hs
    · have hne0 : (max5419SetTap bus d tap).1 ≠ 0 := by omega
      rw [decide_eq_false hne0]

/-- **The machine does what the function does**: a command in millivolts, with the transfers answered
    as `bus` answers them, leaves the machine with the position and the verdict of the call. -/
theorem rig_request {mv : UInt16} (hmv : 500 < mv.toNat ∧ mv ≤ 4200) {d : Driver} {s : Max5419.Rig}
    (hs : Remembers s.curTap d.curTap) (hcur : ∀ cur, s.curTap = some cur → cur ≤ tapMax)
    (job : Max5419.Job) :
    ∃ (r : Int × Driver) (acks : List Bool) (s' : Max5419.Rig),
      max5419SetVoltage bus 254 d (mv.toNat / 1000) = some r ∧
      acks.foldlM (Max5419.i2cStep exactTap) (Max5419.setVoltage exactTap s job mv) = some s' ∧
      Rests s job r.1 r.2.curTap s' := by
  have hlow : (500 : ℚ) < mv.toNat := by exact_mod_cast hmv.1
  have hhigh : (mv.toNat : ℚ) ≤ 4200 := by exact_mod_cast UInt16.le_iff_toNat_le.mp hmv.2
  have htap := targetTap_le ((mv.toNat : ℚ) / 1000)
  have hcall : max5419SetVoltage bus 254 d (mv.toNat / 1000) =
      rampToTap bus 254 d (targetTap (mv.toNat / 1000)) := by
    unfold max5419SetVoltage voutMaxV
    rw [if_neg (by linarith), if_neg (by linarith)]
  have hmachine : Max5419.setVoltage exactTap s job mv =
      Max5419.rampToTap s job (targetTap (mv.toNat / 1000)) := by
    unfold Max5419.setVoltage
    rw [exactTap_eq, if_pos hmv]
  rw [hcall, hmachine]
  generalize targetTap (mv.toNat / 1000) = tap at htap
  cases hc : s.curTap with
  | none =>
    rw [hc] at hs
    have hneg : d.curTap < 0 := by
      unfold Remembers at hs
      omega
    obtain ⟨acks, s', hacks, hrest⟩ := rig_first bus exactTap htap hc hs job
    exact ⟨_, acks, s', if_pos hneg, hacks, hrest⟩
  | some cur =>
    rw [hc] at hs
    have hle := hcur cur hc
    have hle' : cur.toNat ≤ 253 := UInt8.le_iff_toNat_le.mp hle
    have htap' : tap.toNat ≤ 253 := UInt8.le_iff_toNat_le.mp htap
    have hd : d.curTap = cur.toNat := hs
    have hpos : ¬ d.curTap < 0 := by omega
    obtain ⟨r, -, hloop, -, -⟩ := rampLoop_spec bus htap 253 (d := d) (by omega) (by omega)
    obtain ⟨acks, s', hacks, hrest⟩ :=
      rig_rampLoop bus exactTap htap 254 (hloop 254 (by decide)) hc hle hd job
    refine ⟨r, acks, s', ?_, hacks, hrest⟩
    unfold rampToTap
    rw [if_neg hpos]
    exact hloop 254 (by decide)

end Machine

end Caterpillar.Drivers.Voltage
