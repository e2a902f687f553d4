/-
  The preview's rate and its back-off (src/ble/ble_transport.c).

  1. `honoured_iff` — when the decimation in use keeps to the target rate and doubles with each shift:
     up to `rateMargin` times the target rate.
  2. `Ticked` — what an elapsed `stream_adapt_tick` does, by its four branches.
  3. `Adaptation` — ticks and configuration resets in any order, with the ticks since; `calm_sustained`.
  4. `Tracked` — the FIFO's machine with the samples dropped since the last tick or enable;
     `raised_dropped`, and the second subscription that breaks it.
-/
import Caterpillar.Ble.StreamFifo
import Mathlib.Algebra.GroupWithZero.Nat

namespace Caterpillar.Ble.Sfifo

open Caterpillar.Word Caterpillar.Runs Caterpillar.Imu

/-! ## The rate -/

theorem streamTarget_pos (previewHz : UInt16) (logActive : Bool) :
    0 < streamTarget previewHz logActive := by
  have hpos : previewHz ≠ 0 → 0 < previewHz.toNat := fun hne =>
    Nat.pos_of_ne_zero fun h0 => hne (UInt16.toNat.inj h0)
  have hcapped : ∀ budget : Nat, 0 < budget →
      0 < if previewHz ≠ 0 ∧ previewHz.toNat < budget then previewHz.toNat else budget := by
    intro budget hbudget
    split
    · rename_i hcap
      exact hpos hcap.1
    · exact hbudget
  exact hcapped _ (by cases logActive <;> decide)

/-- `(hz + target - 1) / target` is the least factor that brings `target` up to `hz`. -/
theorem ceilDiv_le {hz target k : Nat} (ht : 0 < target) :
    (hz + target - 1) / target ≤ k ↔ hz ≤ k * target := by
  rw [← Nat.lt_succ_iff, Nat.div_lt_iff_lt_mul ht, Nat.succ_mul]
  omega

theorem decimFor_toNat (odrCode : UInt8) (previewHz : UInt16) (logActive : Bool) :
    (decimFor odrCode previewHz logActive).toNat =
      max 1 (min ((bleOdrHz odrCode + streamTarget previewHz logActive - 1) /
        streamTarget previewHz logActive) 255) := by
  rw [decimFor, UInt8.toNat_ofNat', Nat.mod_eq_of_lt]
  omega

theorem streamDecimEff_toNat (t : Stream) :
    (streamDecimEff t).toNat = min (t.streamDecim.toNat * 2 ^ t.streamAdapt.toNat) 255 := by
  rw [streamDecimEff, UInt8.toNat_ofNat', Nat.shiftLeft_eq, Nat.mod_eq_of_lt]
  omega

/-- The decimation in use keeps to the target rate, and one more shift at least doubles it. -/
def Honoured (t : Stream) (odrCode : UInt8) (logActive : Bool) : Prop :=
  bleOdrHz odrCode ≤ (streamDecimEff t).toNat * streamTarget t.streamPreviewHz logActive ∧
    (t.streamAdapt < 4 → 2 * (streamDecimEff t).toNat ≤
      (streamDecimEff { t with streamAdapt := t.streamAdapt + 1 }).toNat)

/-- The largest decimation whose next shift still fits a byte; at the last shift, the largest at
    all. -/
def rateMargin (adapt : UInt8) : Nat := if adapt < 4 then 255 / 2 ^ (adapt.toNat + 1) else 255

/-- The clamped decimation covers a factor `c` exactly if `c` fits the byte. -/
theorem shifted_covers {c a : Nat} :
    c ≤ min (max 1 (min c 255) * 2 ^ a) 255 ↔ c ≤ 255 := by
  have hpow : 0 < 2 ^ a := Nat.two_pow_pos a
  have hmul : max 1 (min c 255) ≤ max 1 (min c 255) * 2 ^ a := Nat.le_mul_of_pos_right _ hpow
  omega

/-- And one more shift doubles it exactly if the doubled value fits the byte. -/
theorem shifted_doubles {c a : Nat} (ha : a < 4) :
    2 * min (max 1 (min c 255) * 2 ^ a) 255 ≤ min (max 1 (min c 255) * 2 ^ (a + 1)) 255 ↔
      c ≤ 255 / 2 ^ (a + 1) := by
  have hcases : a = 0 ∨ a = 1 ∨ a = 2 ∨ a = 3 := by omega
  rcases hcases with rfl | rfl | rfl | rfl
  all_goals omega

/-- **The rate is honoured up to `rateMargin` times the target**, after
    `ble_transport_stream_update_decim` and at every shift. -/
theorem honoured_iff (t : Stream) (odrCode : UInt8) (logActive : Bool) (uptime : Int) (adapt : UInt8)
    (ha : adapt ≤ 4) :
    Honoured { streamUpdateDecim t odrCode logActive uptime with streamAdapt := adapt } odrCode
        logActive ↔
      bleOdrHz odrCode ≤ rateMargin adapt * streamTarget t.streamPreviewHz logActive := by
  have hle : adapt.toNat ≤ 4 := UInt8.le_iff_toNat_le.mp ha
  have hlt : adapt < 4 ↔ adapt.toNat < 4 := UInt8.lt_iff_toNat_lt
  have hsucc : (adapt + 1).toNat = adapt.toNat + 1 := by
    rw [UInt8.toNat_add, Nat.mod_eq_of_lt]
    · rfl
    · show adapt.toNat + 1 < 256
      omega
  have hpos := streamTarget_pos t.streamPreviewHz logActive
  simp only [Honoured, streamDecimEff_toNat, streamUpdateDecim_decim, streamUpdateDecim_preview,
    decimFor_toNat, rateMargin, hsucc, hlt]
  generalize streamTarget t.streamPreviewHz logActive = target at hpos ⊢
  generalize bleOdrHz odrCode = hz
  rw [← ceilDiv_le hpos, ← ceilDiv_le hpos, shifted_covers]
  generalize (hz + target - 1) / target = c
  by_cases h4 : adapt.toNat < 4
  · rw [if_pos h4, shifted_doubles h4]
    have hmargin : 255 / 2 ^ (adapt.toNat + 1) ≤ 255 := Nat.div_le_self _ _
    constructor
    · intro h
      exact h.2 h4
    · intro h
      exact ⟨Nat.le_trans h hmargin, fun _ => h⟩
  · rw [if_neg h4]
    constructor
    · intro h
      exact h.1
    · intro h
      exact ⟨h, fun hlt => absurd hlt h4⟩

/-- 833 Hz on an idle link, unshifted. -/
theorem honoured_iff_default :
    Honoured { streamUpdateDecim Stream.cold 7 false 0 with streamAdapt := 0 } 7 false :=
  (honoured_iff Stream.cold 7 false 0 0 (by decide)).mpr (by decide)

/-- **6660 Hz under a 13 Hz cap**: 255 is not enough. -/
theorem preview_uncapped :
    ¬ ∀ (t : Stream) (odrCode : UInt8) (logActive : Bool) (uptime : Int) (adapt : UInt8),
      1 ≤ odrCode → odrCode ≤ 10 → adapt ≤ 4 →
        Honoured { streamUpdateDecim t odrCode logActive uptime with streamAdapt := adapt } odrCode
          logActive := by
  intro hall
  have hrate := (hall { Stream.cold with streamPreviewHz := 13 } 10 false 0 0 (by decide) (by decide)
    (by decide)).1
  exact absurd hrate (by decide)

/-! ## One tick -/

/-- The window of the tick is over. -/
def Elapsed (s : Fifo) (now : Int) : Prop := 1000 ≤ now - s.stream.adaptWinStart

instance (s : Fifo) (now : Int) : Decidable (Elapsed s now) :=
  inferInstanceAs (Decidable (_ ≤ _))

/-- The drops the tick sees. -/
def tickDrops (s : Fifo) : Nat := u32Sub s.stream.streamDropped s.adaptLastDropped

/-- What an elapsed tick makes of the shift, the calm and the need, by its branches. -/
inductive Ticked (drops : Nat) (t t' : Stream) : Prop
  /-- Drops: one shift more, and more patience where the last probe was recent. -/
  | backedOff : 10 < drops →
      t'.streamAdapt = (if t.streamAdapt < 4 then t.streamAdapt + 1 else t.streamAdapt) →
      t'.adaptCalm = 0 →
      (t'.adaptCalmNeed = t.adaptCalmNeed ∨
        t.adaptCalmNeed < 30 ∧ t'.adaptCalmNeed = t.adaptCalmNeed + 5) → Ticked drops t t'
  /-- Calm for long enough: one shift less. -/
  | probed : drops = 0 → t.adaptCalmNeed ≤ t.adaptCalm + 1 → 0 < t.streamAdapt →
      t'.streamAdapt = t.streamAdapt - 1 → t'.adaptCalm = 0 →
      t'.adaptCalmNeed = t.adaptCalmNeed → Ticked drops t t'
  | calm : drops = 0 → t'.streamAdapt = t.streamAdapt → t'.adaptCalm = t.adaptCalm + 1 →
      t'.adaptCalmNeed = t.adaptCalmNeed → Ticked drops t t'
  | restless : 0 < drops → t'.streamAdapt = t.streamAdapt → t'.adaptCalm = 0 →
      t'.adaptCalmNeed = t.adaptCalmNeed → Ticked drops t t'

theorem tick_early {s : Fifo} {now : Int} (h : ¬ Elapsed s now) : streamAdaptTick s now = s := by
  rw [streamAdaptTick]
  exact if_pos (by unfold Elapsed at h; omega)

/-- **An elapsed tick.** -/
theorem tick_elapsed {s : Fifo} {now : Int} (h : Elapsed s now) :
    Ticked (tickDrops s) s.stream (streamAdaptTick s now).stream := by
  have hnot : ¬ now - s.stream.adaptWinStart < 1000 := by
    unfold Elapsed at h
    omega
  rw [streamAdaptTick]
  dsimp only
  rw [if_neg hnot]
  unfold tickDrops
  generalize u32Sub s.stream.streamDropped s.adaptLastDropped = drops
  by_cases hmany : drops > 10
  · rw [if_pos hmany]
    refine .backedOff hmany rfl rfl ?_
    dsimp only
    split
    · rename_i hrecent
      exact .inr ⟨hrecent.2, rfl⟩
    · exact .inl rfl
  · rw [if_neg hmany]
    by_cases hzero : drops = 0
    · rw [if_pos hzero]
      split
      · rename_i hprobe
        exact .probed hzero hprobe.1 hprobe.2 rfl rfl rfl
      · exact .calm hzero rfl rfl rfl
    · rw [if_neg hzero]
      exact .restless (Nat.pos_of_ne_zero hzero) rfl rfl rfl

theorem UInt8.toNat_succ (a : UInt8) : (a + 1).toNat = (a.toNat + 1) % 256 := UInt8.toNat_add a 1

section Branches

variable {drops : Nat} {t t' : Stream} (h : Ticked drops t t')
include h

/-- The shift goes up only on drops, and to 4 at most. -/
theorem Ticked.raised (hup : t.streamAdapt < t'.streamAdapt) : 10 < drops ∧ t.streamAdapt < 4 := by
  rcases h with ⟨hmany, hadapt, -⟩ | ⟨-, -, hpos, hadapt, -⟩ | ⟨-, hadapt, -⟩ | ⟨-, hadapt, -⟩
  · refine ⟨hmany, ?_⟩
    by_contra h4
    rw [hadapt, if_neg h4] at hup
    exact UInt8.lt_irrefl _ hup
  · rw [hadapt, UInt8.lt_iff_toNat_lt, UInt8.toNat_sub_of_le t.streamAdapt 1
      (UInt8.le_iff_toNat_le.mpr (UInt8.lt_iff_toNat_lt.mp hpos))] at hup
    omega
  all_goals
    rw [hadapt] at hup
    exact absurd hup (UInt8.lt_irrefl _)

/-- And down only after the need is met. -/
theorem Ticked.lowered (hdown : t'.streamAdapt < t.streamAdapt) :
    drops = 0 ∧ t.adaptCalmNeed.toNat ≤ (t.adaptCalm.toNat + 1) % 256 ∧
      t'.streamAdapt.toNat + 1 = t.streamAdapt.toNat := by
  rcases h with ⟨-, hadapt, -⟩ | ⟨hzero, hcalm, hpos, hadapt, -⟩ | ⟨-, hadapt, -⟩ | ⟨-, hadapt, -⟩
  · rw [hadapt] at hdown
    split at hdown
    · rename_i h4
      have hlt : t.streamAdapt.toNat < 4 := UInt8.lt_iff_toNat_lt.mp h4
      rw [UInt8.lt_iff_toNat_lt, UInt8.toNat_succ] at hdown
      omega
    · exact absurd hdown (UInt8.lt_irrefl _)
  · refine ⟨hzero, ?_, ?_⟩
    · rw [← UInt8.toNat_succ]
      exact UInt8.le_iff_toNat_le.mp hcalm
    · have hpos' : 0 < t.streamAdapt.toNat := UInt8.lt_iff_toNat_lt.mp hpos
      rw [hadapt, UInt8.toNat_sub_of_le t.streamAdapt 1 (UInt8.le_iff_toNat_le.mpr hpos')]
      exact Nat.sub_add_cancel hpos'
  all_goals
    rw [hadapt] at hdown
    exact absurd hdown (UInt8.lt_irrefl _)

theorem Ticked.adapt_le (hle : t.streamAdapt.toNat ≤ 4) : t'.streamAdapt.toNat ≤ 4 := by
  rcases h with ⟨-, hadapt, -⟩ | ⟨-, -, hpos, hadapt, -⟩ | ⟨-, hadapt, -⟩ | ⟨-, hadapt, -⟩
  · rw [hadapt]
    split
    · rename_i h4
      have hlt : t.streamAdapt.toNat < 4 := UInt8.lt_iff_toNat_lt.mp h4
      rw [UInt8.toNat_succ]
      omega
    · exact hle
  · have hpos' : 0 < t.streamAdapt.toNat := UInt8.lt_iff_toNat_lt.mp hpos
    rw [hadapt, UInt8.toNat_sub_of_le t.streamAdapt 1 (UInt8.le_iff_toNat_le.mpr hpos')]
    exact Nat.le_trans (Nat.sub_le _ _) hle
  all_goals
    rw [hadapt]
    exact hle

/-- The need goes up by fives, below 30. -/
theorem Ticked.need : t'.adaptCalmNeed = t.adaptCalmNeed ∨
    t.adaptCalmNeed.toNat < 30 ∧ t'.adaptCalmNeed.toNat = t.adaptCalmNeed.toNat + 5 := by
  rcases h with ⟨-, -, -, hneed⟩ | ⟨-, -, -, -, -, hneed⟩ | ⟨-, -, -, hneed⟩ | ⟨-, -, -, hneed⟩
  · rcases hneed with hneed | ⟨h30, hneed⟩
    · exact .inl hneed
    · have hlt : t.adaptCalmNeed.toNat < 30 := UInt8.lt_iff_toNat_lt.mp h30
      refine .inr ⟨hlt, ?_⟩
      rw [hneed, UInt8.toNat_add]
      show (t.adaptCalmNeed.toNat + 5) % 256 = _
      omega
  all_goals exact .inl hneed

end Branches

/-- An elapsed tick remembers the counter. -/
theorem tick_last {s : Fifo} {now : Int} (h : Elapsed s now) :
    (streamAdaptTick s now).adaptLastDropped = s.stream.streamDropped := by
  have hnot : ¬ now - s.stream.adaptWinStart < 1000 := by
    unfold Elapsed at h
    omega
  rw [streamAdaptTick]
  dsimp only
  rw [if_neg hnot]

/-- And no tick changes it. -/
theorem tick_dropped (s : Fifo) (now : Int) :
    (streamAdaptTick s now).stream.streamDropped = s.stream.streamDropped := by
  obtain ⟨t, l, heq, -, -, hdropped, -⟩ := streamAdaptTick_frame s now
  rw [heq]
  exact hdropped

/-! ## Ticks and resets, in any order -/

/-- What the adaptation goes through. -/
inductive AdaptEvent where
  /-- `stream_adapt_tick` at `now`, with the counter at `dropped`. -/
  | tick (dropped : Nat) (now : Int)
  /-- `ble_stream_set_preview`, or with the cap as it is `ble_transport_stream_update_decim`. -/
  | reset (previewHz : UInt16) (odrCode : UInt8) (logActive : Bool) (uptime : Int)

/-- What is recorded of it. -/
inductive Mark where
  | reset
  /-- An elapsed tick: the drops it saw, and whether it lowered the shift. -/
  | tick (drops : Nat) (lowered : Bool)

/-- The calm ticks since the last drops, the last lowering or the last reset; the newest mark is the
    first. -/
def calmTicks : List Mark → Nat
  | .tick 0 false :: marks => calmTicks marks + 1
  | _ => 0

/-- The FIFO's statics and the marks. -/
structure Adaptation where
  fifo : Fifo
  marks : List Mark

/-- The counter is at `dropped`. -/
def Fifo.withDropped (s : Fifo) (dropped : Nat) : Fifo :=
  { s with stream := { s.stream with streamDropped := u32 dropped } }

/-- One event. -/
def adaptStep (x : Adaptation) : AdaptEvent → Adaptation
  | .tick dropped now =>
      let s := x.fifo.withDropped dropped
      let s' := streamAdaptTick s now
      if Elapsed s now then
        ⟨s', .tick (tickDrops s) (decide (s'.stream.streamAdapt < s.stream.streamAdapt)) :: x.marks⟩
      else ⟨s', x.marks⟩
  | .reset previewHz odrCode logActive uptime =>
      ⟨{ x.fifo with stream := streamSetPreview x.fifo.stream previewHz odrCode logActive uptime },
        .reset :: x.marks⟩

/-- The statics at reset. -/
def Adaptation.cold : Adaptation := ⟨Fifo.cold, []⟩

/-- The event is a tick. -/
def AdaptEvent.isTick : AdaptEvent → Bool
  | .tick _ _ => true
  | .reset _ _ _ _ => false

/-- 5, 10, ... 30. -/
def CalmNeed (need : UInt8) : Prop := need.toNat % 5 = 0 ∧ 5 ≤ need.toNat ∧ need.toNat ≤ 30

theorem calmNeed_five : CalmNeed 5 := ⟨rfl, Nat.le_refl 5, by decide⟩

/-- **The invariant.** -/
structure Adapting (x : Adaptation) : Prop where
  adapt : x.fifo.stream.streamAdapt.toNat ≤ 4
  need : CalmNeed x.fifo.stream.adaptCalmNeed
  /-- The calm is what the marks say, as far as a byte goes. -/
  calm : x.fifo.stream.adaptCalm.toNat = calmTicks x.marks % 256

/-- Drops end the calm. -/
theorem calmTicks_drops {drops : Nat} (lowered : Bool) (marks : List Mark) (h : 0 < drops) :
    calmTicks (.tick drops lowered :: marks) = 0 := by
  obtain ⟨n, rfl⟩ := Nat.exists_eq_succ_of_ne_zero (Nat.pos_iff_ne_zero.mp h)
  rfl

/-- The calm counts the marks. -/
theorem Ticked.calm_counts {drops : Nat} {t t' : Stream} {marks : List Mark} (h : Ticked drops t t')
    (hcalm : t.adaptCalm.toNat = calmTicks marks % 256) :
    t'.adaptCalm.toNat =
      calmTicks (.tick drops (decide (t'.streamAdapt < t.streamAdapt)) :: marks) % 256 := by
  rcases h with ⟨hmany, -, hzero, -⟩ | ⟨rfl, hmet, hpos, hadapt, hzero, -⟩ | ⟨rfl, hadapt, hnext, -⟩ |
    ⟨hsome, -, hzero, -⟩
  · rw [calmTicks_drops _ _ (by omega), hzero]
    rfl
  · have hpos' : 0 < t.streamAdapt.toNat := UInt8.lt_iff_toNat_lt.mp hpos
    have hdown : t'.streamAdapt < t.streamAdapt := by
      rw [hadapt, UInt8.lt_iff_toNat_lt,
        UInt8.toNat_sub_of_le t.streamAdapt 1 (UInt8.le_iff_toNat_le.mpr hpos')]
      exact Nat.sub_lt hpos' Nat.one_pos
    rw [decide_eq_true hdown, hzero]
    rfl
  · rw [hadapt, decide_eq_false (UInt8.lt_irrefl _), hnext, UInt8.toNat_succ, hcalm]
    exact Nat.mod_add_mod _ _ _
  · rw [calmTicks_drops _ _ hsome, hzero]
    rfl

theorem Ticked.calmNeed {drops : Nat} {t t' : Stream} (h : Ticked drops t t')
    (hneed : CalmNeed t.adaptCalmNeed) : CalmNeed t'.adaptCalmNeed := by
  obtain ⟨hfive, hlo, hhi⟩ := hneed
  rcases h.need with hsame | ⟨hlt, hmore⟩
  · rw [hsame]
    exact ⟨hfive, hlo, hhi⟩
  · unfold CalmNeed
    rw [hmore]
    omega

theorem Ticked.need_le {drops : Nat} {t t' : Stream} (h : Ticked drops t t') :
    t.adaptCalmNeed.toNat ≤ t'.adaptCalmNeed.toNat := by
  rcases h.need with hsame | ⟨-, hmore⟩
  · exact Nat.le_of_eq (congrArg UInt8.toNat hsame.symm)
  · omega

theorem adaptStep_elapsed {x : Adaptation} {dropped : Nat} {now : Int}
    (h : Elapsed (x.fifo.withDropped dropped) now) :
    adaptStep x (.tick dropped now) =
      ⟨streamAdaptTick (x.fifo.withDropped dropped) now,
        .tick (tickDrops (x.fifo.withDropped dropped))
          (decide ((streamAdaptTick (x.fifo.withDropped dropped) now).stream.streamAdapt <
            (x.fifo.withDropped dropped).stream.streamAdapt)) :: x.marks⟩ := if_pos h

theorem adaptStep_early {x : Adaptation} {dropped : Nat} {now : Int}
    (h : ¬ Elapsed (x.fifo.withDropped dropped) now) :
    adaptStep x (.tick dropped now) = ⟨x.fifo.withDropped dropped, x.marks⟩ := by
  rw [adaptStep, if_neg h, tick_early h]

/-- **Every event keeps the invariant.** -/
theorem adaptStep_adapting (x : Adaptation) (e : AdaptEvent) (h : Adapting x) :
    Adapting (adaptStep x e) := by
  cases e with
  | reset previewHz odrCode logActive uptime =>
    constructor
    · exact Nat.zero_le 4
    · exact calmNeed_five
    · rfl
  | tick dropped now =>
    by_cases hend : Elapsed (x.fifo.withDropped dropped) now
    · have ht := tick_elapsed hend
      rw [adaptStep_elapsed hend]
      constructor
      · exact ht.adapt_le h.adapt
      · exact ht.calmNeed h.need
      · exact ht.calm_counts h.calm
    · rw [adaptStep_early hend]
      exact ⟨h.adapt, h.need, h.calm⟩

/-- A tick takes nothing off the need. -/
theorem adaptStep_need_le (x : Adaptation) {e : AdaptEvent} (he : e.isTick = true) :
    x.fifo.stream.adaptCalmNeed.toNat ≤ (adaptStep x e).fifo.stream.adaptCalmNeed.toNat := by
  cases e with
  | reset previewHz odrCode logActive uptime => exact absurd he Bool.false_ne_true
  | tick dropped now =>
    by_cases hend : Elapsed (x.fifo.withDropped dropped) now
    · rw [adaptStep_elapsed hend]
      exact (tick_elapsed hend).need_le
    · rw [adaptStep_early hend]
      exact Nat.le_refl _

theorem adaptRun_need_le (es : List AdaptEvent) (hes : ∀ e ∈ es, e.isTick = true) (x : Adaptation) :
    x.fifo.stream.adaptCalmNeed.toNat ≤ (es.foldl adaptStep x).fifo.stream.adaptCalmNeed.toNat := by
  induction es generalizing x with
  | nil => exact Nat.le_refl _
  | cons e es ih =>
    obtain ⟨he, hrest⟩ := List.forall_mem_cons.mp hes
    exact Nat.le_trans (adaptStep_need_le x he) (ih hrest _)

/-- A tick that lowers the shift lowers it by one, at the end of a calm as long as the need. -/
theorem Adapting.lowered {x : Adaptation} (h : Adapting x) {dropped : Nat} {now : Int}
    (hdown : (adaptStep x (.tick dropped now)).fifo.stream.streamAdapt < x.fifo.stream.streamAdapt) :
    (adaptStep x (.tick dropped now)).marks = .tick 0 true :: x.marks ∧
      (adaptStep x (.tick dropped now)).fifo.stream.streamAdapt.toNat + 1 =
        x.fifo.stream.streamAdapt.toNat ∧
      x.fifo.stream.adaptCalmNeed.toNat ≤ calmTicks x.marks + 1 := by
  by_cases hend : Elapsed (x.fifo.withDropped dropped) now
  · have ht := tick_elapsed hend
    rw [adaptStep_elapsed hend] at hdown ⊢
    obtain ⟨hzero, hmet, hone⟩ := ht.lowered hdown
    refine ⟨?_, hone, ?_⟩
    · rw [hzero]
      exact congrArg (fun b => Mark.tick 0 b :: x.marks) (decide_eq_true hdown)
    · have hcalm := h.calm
      have hmet' : x.fifo.stream.adaptCalmNeed.toNat ≤ (x.fifo.stream.adaptCalm.toNat + 1) % 256 :=
        hmet
      omega
  · rw [adaptStep_early hend] at hdown
    exact absurd hdown (UInt8.lt_irrefl _)

/-- **The preview recovers only after sustained calm**, over every sequence of ticks and resets. -/
theorem calm_sustained (es : List AdaptEvent) :
    let x := es.foldl adaptStep Adaptation.cold
    x.fifo.stream.streamAdapt.toNat ≤ 4 ∧ CalmNeed x.fifo.stream.adaptCalmNeed ∧
      (∀ ts : List AdaptEvent, (∀ e ∈ ts, e.isTick = true) →
        x.fifo.stream.adaptCalmNeed.toNat ≤ (ts.foldl adaptStep x).fifo.stream.adaptCalmNeed.toNat) ∧
      ∀ dropped now,
        (adaptStep x (.tick dropped now)).fifo.stream.streamAdapt < x.fifo.stream.streamAdapt →
          (adaptStep x (.tick dropped now)).marks = .tick 0 true :: x.marks ∧
            (adaptStep x (.tick dropped now)).fifo.stream.streamAdapt.toNat + 1 =
              x.fifo.stream.streamAdapt.toNat ∧
            x.fifo.stream.adaptCalmNeed.toNat ≤ calmTicks x.marks + 1 := by
  intro x
  have hcold : Adapting Adaptation.cold := ⟨Nat.zero_le 4, calmNeed_five, rfl⟩
  have h : Adapting x := foldl_keeps adaptStep_adapting es hcold
  exact ⟨h.adapt, h.need, fun ts hts => adaptRun_need_le ts hts x, fun dropped now => h.lowered⟩

/-- A back-off and five calm ticks: the fifth lowers the shift. -/
def recoverNow : List AdaptEvent :=
  .tick 11 1000 :: (List.range 5).map fun (i : Nat) => .tick 11 (2000 + 1000 * i)

example : (recoverNow.foldl adaptStep Adaptation.cold).fifo.stream.streamAdapt = 0 ∧
    ((recoverNow.take 5).foldl adaptStep Adaptation.cold).fifo.stream.streamAdapt = 1 := by
  decide +kernel

/-! ## Drops over any number of subscriptions -/

/-- The samples one step drops: one that finds the FIFO full, or the packet that was not taken. -/
def dropsIn (s : Fifo) : Event → Nat
  | .pump _ =>
      match s.pump with
      | .picked _ _ _ => if u32Sub s.stream.sfifoHead s.stream.sfifoTail ≥ sfifoN then 1 else 0
      | _ => 0
  | .notify false =>
      match s.tx with
      | .packed n => n
      | _ => 0
  | _ => 0

/-- The step is an elapsed tick. -/
def tickNow (s : Fifo) : Event → Bool
  | .pump now =>
      match s.pump with
      | .sinking _ [] => decide (Elapsed s now)
      | _ => false
  | _ => false

/-- The step sets the counters of a new subscription. -/
def enableNowAt (s : Fifo) : Event → Bool
  | .app _ _ _ =>
      match s.app with
      | .tailSet => true
      | _ => false
  | _ => false

/-- The FIFO, with what was really dropped. -/
structure Tracked where
  fifo : Fifo
  /-- Samples dropped since the later of the last elapsed tick and the last enable. -/
  real : Nat
  /-- What `real` was at each increment of the shift. -/
  raised : List Nat

/-- One step. -/
def trackedStep (x : Tracked) (e : Event) : Option Tracked :=
  (step x.fifo e).map fun s' =>
    { fifo := s'
      real := if tickNow x.fifo e || enableNowAt x.fifo e then 0 else x.real + dropsIn x.fifo e
      raised := if x.fifo.stream.streamAdapt < s'.stream.streamAdapt then x.raised ++ [x.real]
        else x.raised }

/-- The step relation. -/
def TrackedStep (x : Tracked) (e : Event) (y : Tracked) : Prop := trackedStep x e = some y

/-- The device at reset. -/
def TrackedStart (x : Tracked) : Prop := x = ⟨Fifo.cold, 0, []⟩

/-- What a step does to the counter, its remembered value and the shift. -/
inductive Counts (s : Fifo) (e : Event) (s' : Fifo) : Prop
  | dropping : tickNow s e = false → enableNowAt s e = false →
      s'.adaptLastDropped = s.adaptLastDropped →
      s'.stream.streamDropped = u32 (s.stream.streamDropped + dropsIn s e) →
      s'.stream.streamAdapt = s.stream.streamAdapt → Counts s e s'
  | enabling : tickNow s e = false → enableNowAt s e = true →
      s'.adaptLastDropped = s.adaptLastDropped → s'.stream.streamDropped = 0 →
      s'.stream.streamAdapt = 0 → Counts s e s'
  | ticking : tickNow s e = true → enableNowAt s e = false →
      s'.adaptLastDropped = s.stream.streamDropped →
      s'.stream.streamDropped = s.stream.streamDropped →
      Ticked (tickDrops s) s.stream s'.stream → Counts s e s'

/-- A step that touches neither. -/
theorem Counts.still {s s' : Fifo} {e : Event} (hlt : s.stream.streamDropped < 4294967296)
    (ht : tickNow s e = false) (he : enableNowAt s e = false) (hd : dropsIn s e = 0)
    (hl : s'.adaptLastDropped = s.adaptLastDropped)
    (hc : s'.stream.streamDropped = s.stream.streamDropped)
    (ha : s'.stream.streamAdapt = s.stream.streamAdapt) : Counts s e s' :=
  .dropping ht he hl (by rw [hd, hc, Nat.add_zero, u32_of_lt hlt]) ha

/-- **Every step**, the pump's first. -/
theorem pumpStep_counts {s s' : Fifo} {now : Int} (hlt : s.stream.streamDropped < 4294967296)
    (hs : pumpStep s now = some s') : Counts s (.pump now) s' := by
  unfold pumpStep at hs
  split at hs
  · exact absurd hs (by simp)
  · rename_i decim hpc
    obtain rfl := Option.some.inj hs
    by_cases hend : Elapsed s now
    · refine .ticking ?_ rfl (tick_last hend) (tick_dropped s now) (tick_elapsed hend)
      simp only [tickNow, hpc]
      exact decide_eq_true hend
    · rw [tick_early hend]
      refine .still hlt ?_ rfl ?_ rfl rfl rfl
      · simp only [tickNow, hpc]
        exact decide_eq_false hend
      · simp only [dropsIn, hpc]
  · rename_i decim x xs hpc
    obtain rfl := Option.some.inj hs
    refine .still hlt ?_ rfl ?_ rfl rfl rfl
    · simp only [tickNow, hpc]
    · simp only [dropsIn, hpc]
  · rename_i decim x xs hpc
    split at hs
    · rename_i hfull
      obtain rfl := Option.some.inj hs
      refine .dropping ?_ rfl rfl ?_ rfl
      · simp only [tickNow, hpc]
      · simp only [dropsIn, hpc]
        rw [if_pos hfull]
    · rename_i hroom
      obtain rfl := Option.some.inj hs
      refine .still hlt ?_ rfl ?_ rfl rfl rfl
      · simp only [tickNow, hpc]
      · simp only [dropsIn, hpc]
        exact if_neg hroom
  · rename_i decim x xs hpc
    obtain rfl := Option.some.inj hs
    refine .still hlt ?_ rfl ?_ rfl rfl rfl
    · simp only [tickNow, hpc]
    · simp only [dropsIn, hpc]
  · rename_i decim x xs hpc
    obtain rfl := Option.some.inj hs
    refine .still hlt ?_ rfl ?_ rfl rfl rfl
    · simp only [tickNow, hpc]
    · simp only [dropsIn, hpc]

theorem notifyStep_counts {s s' : Fifo} {ok : Bool} (hlt : s.stream.streamDropped < 4294967296)
    (hs : notifyStep s ok = some s') : Counts s (.notify ok) s' := by
  unfold notifyStep at hs
  split at hs
  · rename_i hpc
    obtain rfl := Option.some.inj hs
    refine .still hlt rfl rfl ?_ rfl rfl rfl
    cases ok with
    | true => rfl
    | false => simp only [dropsIn, hpc]
  · rename_i n hpc
    cases ok with
    | true =>
      obtain rfl := Option.some.inj hs
      exact .still hlt rfl rfl rfl rfl rfl rfl
    | false =>
      obtain rfl := Option.some.inj hs
      refine .dropping rfl rfl rfl ?_ rfl
      simp only [dropsIn, hpc]
  · exact absurd hs (by simp)

theorem txStep_counts {s s' : Fifo} {now : Int} (hlt : s.stream.streamDropped < 4294967296)
    (hs : txStep s now = some s') : Counts s (.tx now) s' := by
  have hstill : s'.adaptLastDropped = s.adaptLastDropped ∧
      s'.stream.streamDropped = s.stream.streamDropped ∧
      s'.stream.streamAdapt = s.stream.streamAdapt := by
    unfold txStep at hs
    split at hs
    case h_3 => exact absurd hs (by simp)
    case h_8 => exact absurd hs (by simp)
    case h_6 =>
      split at hs
      · obtain rfl := Option.some.inj hs
        exact ⟨rfl, rfl, rfl⟩
      · split at hs
        all_goals
          obtain rfl := Option.some.inj hs
          exact ⟨rfl, rfl, rfl⟩
    case h_7 =>
      split at hs
      all_goals
        obtain rfl := Option.some.inj hs
        exact ⟨rfl, rfl, rfl⟩
    all_goals
      obtain rfl := Option.some.inj hs
      exact ⟨rfl, rfl, rfl⟩
  exact .still hlt rfl rfl rfl hstill.1 hstill.2.1 hstill.2.2

theorem appStep_counts {s s' : Fifo} {odrCode : UInt8} {logActive : Bool} {uptime : Int}
    (hlt : s.stream.streamDropped < 4294967296)
    (hs : appStep s odrCode logActive uptime = some s') :
    Counts s (.app odrCode logActive uptime) s' := by
  unfold appStep at hs
  split at hs
  · exact absurd hs (by simp)
  case h_4 hpc =>
    obtain rfl := Option.some.inj hs
    refine .enabling rfl ?_ rfl rfl rfl
    simp only [enableNowAt, hpc]
  all_goals
    rename_i hpc
    obtain rfl := Option.some.inj hs
    refine .still hlt rfl ?_ rfl rfl rfl rfl
    simp only [enableNowAt, hpc]

theorem step_counts {s s' : Fifo} {e : Event} (hlt : s.stream.streamDropped < 4294967296)
    (hs : Step s e s') : Counts s e s' := by
  cases e with
  | pump now => exact pumpStep_counts hlt hs
  | tx now => exact txStep_counts hlt hs
  | notify ok => exact notifyStep_counts hlt hs
  | app odrCode logActive uptime => exact appStep_counts hlt hs
  | sink xs =>
    simp only [Step, step] at hs
    split at hs
    · obtain ⟨-, hs⟩ := Option.ite_none_right_eq_some.mp hs
      obtain rfl := Option.some.inj hs
      exact .still hlt rfl rfl rfl rfl rfl rfl
    · exact absurd hs (by simp)
  | msg =>
    simp only [Step, step] at hs
    split at hs
    all_goals
      obtain rfl := Option.some.inj hs
      exact .still hlt rfl rfl rfl rfl rfl rfl
  | enable | disable =>
    simp only [Step, step] at hs
    split at hs
    · obtain rfl := Option.some.inj hs
      exact .still hlt rfl rfl rfl rfl rfl rfl
    · exact absurd hs (by simp)

/-- **The invariant**: the counter is what was dropped since the last enable, or since the last tick
    on top of what that remembered. -/
structure Counted (x : Tracked) : Prop where
  counter : x.fifo.stream.streamDropped = u32 x.real ∨
    x.fifo.stream.streamDropped = u32 (x.fifo.adaptLastDropped + x.real)
  last_lt : x.fifo.adaptLastDropped < 4294967296
  raised : ∀ d ∈ x.raised, 10 < d

theorem Counted.counter_lt {x : Tracked} (h : Counted x) :
    x.fifo.stream.streamDropped < 4294967296 := by
  rcases h.counter with hc | hc
  all_goals
    rw [hc]
    exact u32_lt _

/-- The counter has caught up with what the last tick remembered, or is over the limit by itself, or
    the tick does not raise the shift. -/
def caughtUp (x : Tracked) (e : Event) : Bool :=
  !tickNow x.fifo e || decide (x.fifo.adaptLastDropped ≤ x.fifo.stream.streamDropped ∨
    10 < x.fifo.stream.streamDropped ∨ ¬ x.fifo.stream.streamAdapt < 4 ∨ tickDrops x.fifo ≤ 10)

/-- What such a tick sees beyond the limit was dropped. -/
theorem Counted.dropped {x : Tracked} (h : Counted x) (hmany : 10 < tickDrops x.fifo)
    (hcaught : x.fifo.adaptLastDropped ≤ x.fifo.stream.streamDropped ∨
      10 < x.fifo.stream.streamDropped) : 10 < x.real := by
  have hlt := h.last_lt
  rcases h.counter with hc | hc
  · -- a subscription without a tick so far
    have hreal : x.fifo.stream.streamDropped ≤ x.real := hc ▸ Nat.mod_le _ _
    rcases hcaught with hle | hover
    · have hsub : tickDrops x.fifo = x.fifo.stream.streamDropped - x.fifo.adaptLastDropped :=
        u32Sub_of_le hle (hc ▸ u32_lt _)
      omega
    · omega
  · unfold tickDrops at hmany
    rw [hc] at hmany
    unfold u32Sub u32 at hmany
    omega

/-- A step of the tracked machine, by its parts. -/
theorem trackedStep_parts {x y : Tracked} {e : Event} (hs : TrackedStep x e y) :
    Step x.fifo e y.fifo ∧
      y.real = (if tickNow x.fifo e || enableNowAt x.fifo e then 0 else x.real + dropsIn x.fifo e) ∧
      y.raised = if x.fifo.stream.streamAdapt < y.fifo.stream.streamAdapt then x.raised ++ [x.real]
        else x.raised := by
  obtain ⟨s', hstep, rfl⟩ := Option.map_eq_some_iff.mp hs
  exact ⟨hstep, rfl, rfl⟩

/-- **Every step that has caught up keeps the invariant.** -/
theorem trackedStep_counted {x y : Tracked} {e : Event} (h : Counted x)
    (hcaught : caughtUp x e = true) (hs : TrackedStep x e y) : Counted y := by
  obtain ⟨hstep, hreal, hraised⟩ := trackedStep_parts hs
  rcases step_counts h.counter_lt hstep with
    ⟨ht, he, hlast, hdrop, hadapt⟩ | ⟨ht, he, hlast, hdrop, hadapt⟩ | ⟨ht, he, hlast, hdrop, hticked⟩
  · have hmore : y.real = x.real + dropsIn x.fifo e := by
      rw [hreal, ht, he]
      rfl
    constructor
    · rw [hmore, hdrop, hlast]
      rcases h.counter with hc | hc
      · rw [hc]
        exact .inl (u32_u32_add _ _)
      · rw [hc]
        exact .inr ((u32_u32_add _ _).trans (congrArg u32 (Nat.add_assoc _ _ _)))
    · exact hlast ▸ h.last_lt
    · rw [hraised, hadapt, if_neg (UInt8.lt_irrefl _)]
      exact h.raised
  · constructor
    · refine .inl ?_
      rw [hreal, he, Bool.or_true, hdrop]
      rfl
    · exact hlast ▸ h.last_lt
    · rw [hraised, hadapt, if_neg UInt8.not_lt_zero]
      exact h.raised
  · constructor
    · refine .inr ?_
      rw [hreal, ht, Bool.true_or, hdrop, hlast]
      exact (u32_of_lt h.counter_lt).symm
    · exact hlast ▸ h.counter_lt
    · rw [hraised]
      split
      · rename_i hup
        obtain ⟨hmany, h4⟩ := hticked.raised hup
        have hok : x.fifo.adaptLastDropped ≤ x.fifo.stream.streamDropped ∨
            10 < x.fifo.stream.streamDropped := by
          simp only [caughtUp, ht, Bool.not_true, Bool.false_or, decide_eq_true_eq] at hcaught
          rcases hcaught with hle | hover | hno | hfew
          · exact .inl hle
          · exact .inr hover
          · exact absurd h4 hno
          · exact absurd hfew (by omega)
        intro d hmem
        rcases List.mem_append.mp hmem with hold | hnew
        · exact h.raised d hold
        · obtain rfl := List.mem_singleton.mp hnew
          exact h.dropped hmany hok
      · exact h.raised

/-- **The preview backs off only on real drops**, where every tick finds the counter caught up. -/
theorem raised_dropped {x : Tracked}
    (h : Reach TrackedStart (guarded (fun x e => caughtUp x e = true) TrackedStep) x) :
    ∀ d ∈ x.raised, 10 < d := by
  have hinv : Counted x := by
    refine h.invariant ?_ ?_
    · rintro x rfl
      exact ⟨.inl rfl, by decide, fun d hmem => absurd hmem List.not_mem_nil⟩
    · rintro x e y - hinv ⟨hcaught, hst⟩
      exact trackedStep_counted hinv hcaught hst
  exact hinv.raised

/-- A packet of 14 that is not taken. -/
def dropNow : List Event := enableNow ++ stageNow 14 ++ packNow ++ [.notify false, .tx 0, .tx 0]

/-- An empty batch, with its tick at `now`. -/
def tickOnly (now : Int) : List Event := [.sink [], .pump now]

/-- One back-off, on 14 dropped samples. -/
theorem raised_dropped_once : ∃ x : Tracked, (∀ d ∈ x.raised, 10 < d) ∧ x.raised = [14] := by
  have hrun : ((dropNow ++ tickOnly 1000).foldlM
      (fun x e => if caughtUp x e then trackedStep x e else none) ⟨Fifo.cold, 0, []⟩).any
        (fun x => decide (x.raised = [14])) = true := by decide +kernel
  obtain ⟨x, hx, hout⟩ := (Option.any_eq_true _ _).mp hrun
  exact ⟨x, raised_dropped (Reach.runGuarded (.start rfl) hx), of_decide_eq_true hout⟩

/-- **The second subscription**: the tick after it takes the first one's drops off its own. -/
theorem resubscribed_backs_off :
    ¬ ∀ x, Reach TrackedStart TrackedStep x → ∀ d ∈ x.raised, 10 < d := by
  intro hall
  have hrun : ((dropNow ++ tickOnly 1000 ++ enableNow ++ tickOnly 2000).foldlM trackedStep
      ⟨Fifo.cold, 0, []⟩).any (fun x => decide (0 ∈ x.raised)) = true := by decide +kernel
  obtain ⟨x, hx, hout⟩ := (Option.any_eq_true _ _).mp hrun
  have hzero := hall x (Reach.run (fun _ _ _ hst => hst) (.start rfl) hx) 0 (of_decide_eq_true hout)
  exact absurd hzero (by decide)

end Caterpillar.Ble.Sfifo
