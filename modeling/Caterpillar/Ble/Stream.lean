/-
  The live stream's rate (src/ble/ble_transport.c).

  1. `bleOdrHz` — the sample rate of an ODR code.
  2. `decimFor` — what `ble_transport_stream_update_decim` computes: the sample rate over what the link
     carries, or over the preview cap where that is lower.
  3. `Stream` — the statics of the stream, and the functions that set them up.
-/
import Mathlib.Tactic.Common

namespace Caterpillar.Ble

/-- `odr_hz_tab`: actual rates for each `IMU_ODR_*` code (Hz, rounded up). -/
def odrHzTab : List Nat := [0, 13, 26, 52, 104, 208, 416, 833, 1660, 3330, 6660]

/-- `ble_odr_hz`. -/
def bleOdrHz (odrCode : UInt8) : Nat := odrHzTab.getD odrCode.toNat 0

/-- `STREAM_BUDGET_SPS`. -/
def streamBudgetSps : Nat := 1300

/-- `STREAM_BUDGET_LOG_SPS`. -/
def streamBudgetLogSps : Nat := 500

/-- The rate the decimation aims at. -/
def streamTarget (previewHz : UInt16) (logActive : Bool) : Nat :=
  let target := if logActive then streamBudgetLogSps else streamBudgetSps
  if previewHz ≠ 0 ∧ previewHz.toNat < target then previewHz.toNat else target

/-- The decimation `ble_transport_stream_update_decim` computes. -/
def decimFor (odrCode : UInt8) (previewHz : UInt16) (logActive : Bool) : UInt8 :=
  let target := streamTarget previewHz logActive
  UInt8.ofNat (max 1 (min ((bleOdrHz odrCode + target - 1) / target) 255))

/-- The statics of the stream. -/
structure Stream where
  streamDecim : UInt8
  streamPreviewHz : UInt16
  streamAdapt : UInt8
  adaptCalm : UInt8
  adaptCalmNeed : UInt8
  adaptLastProbe : Int
  adaptWinStart : Int
  sfifoHead : Nat
  sfifoTail : Nat
  streamSampleCtr : Nat
  streamDropped : Nat
  streamMax : UInt8
  /-- The pump has the stream's sink. -/
  sink : Bool

/-- The statics at reset. -/
def Stream.cold : Stream where
  streamDecim := 1
  streamPreviewHz := 0
  streamAdapt := 0
  adaptCalm := 0
  adaptCalmNeed := 5
  adaptLastProbe := -4611686018427387904
  adaptWinStart := 0
  sfifoHead := 0
  sfifoTail := 0
  streamSampleCtr := 0
  streamDropped := 0
  streamMax := 14
  sink := false

/-- `ble_transport_stream_update_decim`; the ODR code is the shared block's, `uptime` is
    `k_uptime_get()`. -/
def streamUpdateDecim (t : Stream) (odrCode : UInt8) (logActive : Bool) (uptime : Int) : Stream :=
  { t with
    streamDecim := decimFor odrCode t.streamPreviewHz logActive
    streamAdapt := 0
    adaptCalm := 0
    adaptCalmNeed := 5
    adaptLastProbe := -4611686018427387904
    adaptWinStart := uptime }

/-- `ble_stream_set_preview`. -/
def streamSetPreview (t : Stream) (hz : UInt16) (odrCode : UInt8) (logActive : Bool)
    (uptime : Int) : Stream :=
  streamUpdateDecim { t with streamPreviewHz := hz } odrCode logActive uptime

/-- `ble_transport_stream_enable`. -/
def streamEnable (t : Stream) (on : Bool) (odrCode : UInt8) (logActive : Bool) (uptime : Int) :
    Stream :=
  if on then
    { streamUpdateDecim
        { t with
          sfifoTail := t.sfifoHead
          streamSampleCtr := 0
          streamDropped := 0
          streamMax := 14 }
        odrCode logActive uptime with sink := true }
  else { t with sink := false }

@[simp] theorem streamUpdateDecim_decim (t : Stream) (odrCode : UInt8) (logActive : Bool)
    (uptime : Int) : (streamUpdateDecim t odrCode logActive uptime).streamDecim =
      decimFor odrCode t.streamPreviewHz logActive := rfl

@[simp] theorem streamUpdateDecim_preview (t : Stream) (odrCode : UInt8) (logActive : Bool)
    (uptime : Int) :
    (streamUpdateDecim t odrCode logActive uptime).streamPreviewHz = t.streamPreviewHz := rfl

@[simp] theorem streamEnable_preview (t : Stream) (on : Bool) (odrCode : UInt8) (logActive : Bool)
    (uptime : Int) :
    (streamEnable t on odrCode logActive uptime).streamPreviewHz = t.streamPreviewHz := by
  cases on <;> rfl

end Caterpillar.Ble
