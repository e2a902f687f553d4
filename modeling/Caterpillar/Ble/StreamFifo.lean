/-
  The stream FIFO (src/ble/ble_transport.c): the pump's `stream_sink`, the sending thread `tx_thread`
  and `ble_transport_stream_enable`, interleaved.

  1. `PumpPc`, `TxPc`, `AppPc`, `Fifo` — where each of the three is, down to the single index it reads
     or writes.  Beside the code's state there are the records staged (`staged`), how many of them are
     behind the tail (`released`), how many there were when the stream was last enabled (`since`), and
     the packets handed to the stack (`sent`).
  2. `Inv` — **the invariant**: the slots hold the last records staged, and no fewer than are between
     the indices; what the sending thread has in hand is not released yet; nothing from before `since`
     is sent.
  3. `pumpStep_inv`, `txStep_inv`, `appStep_inv` — each keeps it, the last one only where it does not
     move the tail under the sending thread (`enableClear`).
  4. `index_le` and `reenable_breaks`.

  `tx_notify` is a step that may take any time and answers either way; messages share the thread and
  touch no index of the FIFO.
-/
import Caterpillar.Lib.Ring
import Caterpillar.Lib.Runs
import Caterpillar.Lib.Word
import Caterpillar.Imu.Sample
import Caterpillar.Ble.Stream

namespace Caterpillar.Ble.Sfifo

open Caterpillar.Word Caterpillar.Ring Caterpillar.Runs Caterpillar.Imu

/-! ## The three parties -/

/-- `SFIFO_N`. -/
def sfifoN : Nat := 256

/-- `MSGQ_N`. -/
def msgqN : Nat := 4

/-- `counter & (SFIFO_N - 1)`. -/
def sfifoSlot (counter : Nat) : Nat := counter &&& (sfifoN - 1)

theorem sfifoSlot_eq (counter : Nat) : sfifoSlot counter = counter % 256 :=
  Nat.and_two_pow_sub_one_eq_mod counter 8

/-- The slot does not see the counter wrap. -/
theorem sfifoSlot_u32 (counter : Nat) : sfifoSlot (u32 counter) = counter % 256 := by
  rw [sfifoSlot_eq, u32_mod_of_dvd (by decide)]

/-- Where the pump is in `stream_sink`. -/
inductive PumpPc where
  | idle
  /-- At the next record of the loop. -/
  | sinking (decim : UInt8) (xs : List ImuSample)
  /-- `x` is picked by the decimation. -/
  | picked (decim : UInt8) (x : ImuSample) (xs : List ImuSample)
  /-- The FIFO was found not full. -/
  | checked (decim : UInt8) (x : ImuSample) (xs : List ImuSample)
  /-- The slot is written. -/
  | stored (decim : UInt8) (x : ImuSample) (xs : List ImuSample)

/-- Where `tx_thread` is. -/
inductive TxPc where
  /-- In `k_sem_take(&tx_wake, K_MSEC(50))`. -/
  | waiting
  /-- At the message loop. -/
  | messages
  /-- In `tx_notify` with a message line. -/
  | message
  /-- At the stream loop. -/
  | check
  /-- `sfifo_head` is read. -/
  | haveHead (head : Nat)
  /-- `avail` is computed. -/
  | avail (a : Nat)
  /-- `i` of `n` records are copied. -/
  | copying (n i : Nat)
  /-- In `tx_notify` with the packet. -/
  | packed (n : Nat)
  /-- `tx_notify` has returned. -/
  | notified (n : Nat)
  /-- `sfifo_tail` is read to be advanced. -/
  | tailRead (n tail : Nat)

/-- Where the Bluetooth context is in `ble_transport_stream_enable(true)`. -/
inductive AppPc where
  | idle
  | entered
  /-- `sfifo_head` is read, when `pos` records were staged. -/
  | haveHead (head pos : Nat)
  /-- `sfifo_tail` is written. -/
  | tailSet
  /-- The counters and the decimation are set. -/
  | tuned

/-- A stream packet: its header fields and its records. -/
structure Packet where
  decim : UInt8
  dropped : Nat
  records : List ImuSample

/-- The stream's statics, the three parties, and what is recorded of the run. -/
structure Fifo where
  stream : Stream
  sfifo : Nat → ImuSample
  sfifoTs : Int
  adaptLastDropped : Nat
  msgqHead : Nat
  msgqTail : Nat
  streamPkt : Nat → ImuSample
  pump : PumpPc
  tx : TxPc
  app : AppPc
  staged : List ImuSample
  released : Nat
  since : Nat
  /-- Each packet, and what `since` was when it was handed over. -/
  sent : List (Nat × Packet)

/-- `stream_decim_eff`. -/
def streamDecimEff (t : Stream) : UInt8 :=
  UInt8.ofNat (min (t.streamDecim.toNat <<< t.streamAdapt.toNat) 255)

/-- `stream_adapt_tick`. -/
def streamAdaptTick (s : Fifo) (now : Int) : Fifo :=
  let t := s.stream
  if now - t.adaptWinStart < 1000 then s
  else
    let drops := u32Sub t.streamDropped s.adaptLastDropped
    let t := { t with adaptWinStart := now }
    let t :=
      if drops > 10 then
        { t with
          streamAdapt := if t.streamAdapt < 4 then t.streamAdapt + 1 else t.streamAdapt
          adaptCalmNeed := if now - t.adaptLastProbe < 10000 ∧ t.adaptCalmNeed < 30
            then t.adaptCalmNeed + 5 else t.adaptCalmNeed
          adaptCalm := 0 }
      else if drops = 0 then
        if t.adaptCalm + 1 ≥ t.adaptCalmNeed ∧ 0 < t.streamAdapt then
          { t with streamAdapt := t.streamAdapt - 1, adaptLastProbe := now, adaptCalm := 0 }
        else { t with adaptCalm := t.adaptCalm + 1 }
      else { t with adaptCalm := 0 }
    { s with stream := t, adaptLastDropped := s.stream.streamDropped }

/-- One step of `stream_sink`. -/
def pumpStep (s : Fifo) (now : Int) : Option Fifo :=
  match s.pump with
  | .idle => none
  | .sinking _ [] => some { streamAdaptTick s now with pump := .idle }
  | .sinking decim (x :: xs) =>
      let ctr := s.stream.streamSampleCtr
      some { s with
        stream := { s.stream with streamSampleCtr := u32 (ctr + 1) }
        pump := if ctr % decim.toNat ≠ 0 then .sinking decim xs else .picked decim x xs }
  | .picked decim x xs =>
      if u32Sub s.stream.sfifoHead s.stream.sfifoTail ≥ sfifoN then
        some { s with
          stream := { s.stream with streamDropped := u32 (s.stream.streamDropped + 1) }
          pump := .sinking decim xs }
      else some { s with pump := .checked decim x xs }
  | .checked decim x xs =>
      some { s with
        sfifoTs := if s.stream.sfifoHead = s.stream.sfifoTail then now else s.sfifoTs
        sfifo := Function.update s.sfifo (sfifoSlot s.stream.sfifoHead) x
        pump := .stored decim x xs }
  | .stored decim x xs =>
      some { s with
        stream := { s.stream with sfifoHead := u32 (s.stream.sfifoHead + 1) }
        staged := s.staged ++ [x]
        pump := .sinking decim xs }

/-- One step of `tx_thread` outside `tx_notify`. -/
def txStep (s : Fifo) (now : Int) : Option Fifo :=
  match s.tx with
  | .waiting => some { s with tx := .messages }
  | .messages => some { s with tx := if s.msgqTail ≠ s.msgqHead then .message else .check }
  | .message => none
  | .check => some { s with tx := .haveHead s.stream.sfifoHead }
  | .haveHead head => some { s with tx := .avail (u32Sub head s.stream.sfifoTail) }
  | .avail a =>
      if a = 0 then some { s with tx := .waiting }
      else if a < s.stream.streamMax.toNat ∧ now - s.sfifoTs < 100 then some { s with tx := .waiting }
      else some { s with tx := .copying (min a s.stream.streamMax.toNat) 0 }
  | .copying n i =>
      if i < n then
        some { s with
          streamPkt := Function.update s.streamPkt i
            (s.sfifo (sfifoSlot (u32 (s.stream.sfifoTail + i))))
          tx := .copying n (i + 1) }
      else some { s with tx := .packed n }
  | .packed _ => none
  | .notified n => some { s with tx := .tailRead n s.stream.sfifoTail }
  | .tailRead n tail =>
      some { s with
        stream := { s.stream with sfifoTail := u32 (tail + n) }
        released := s.released + n
        sfifoTs := now
        tx := .check }

/-- `tx_notify` returns. -/
def notifyStep (s : Fifo) (ok : Bool) : Option Fifo :=
  match s.tx with
  | .message => some { s with msgqTail := u32 (s.msgqTail + 1), tx := .messages }
  | .packed n =>
      if ok then
        some { s with
          sent := s.sent ++ [(s.since, ⟨streamDecimEff s.stream, s.stream.streamDropped,
            (List.range n).map s.streamPkt⟩)]
          tx := .notified n }
      else
        some { s with
          stream := { s.stream with streamDropped := u32 (s.stream.streamDropped + n) }
          tx := .notified n }
  | _ => none

/-- One step of `ble_transport_stream_enable(true)`; the arguments are what
    `ble_transport_stream_update_decim` reads. -/
def appStep (s : Fifo) (odrCode : UInt8) (logActive : Bool) (uptime : Int) : Option Fifo :=
  match s.app with
  | .idle => none
  | .entered => some { s with app := .haveHead s.stream.sfifoHead s.staged.length }
  | .haveHead head pos =>
      some { s with
        stream := { s.stream with sfifoTail := head }
        released := s.staged.length - u32Sub s.stream.sfifoHead head
        since := pos
        app := .tailSet }
  | .tailSet =>
      some { s with
        stream := streamUpdateDecim
          { s.stream with streamSampleCtr := 0, streamDropped := 0, streamMax := 14 }
          odrCode logActive uptime
        app := .tuned }
  | .tuned => some { s with stream := { s.stream with sink := true }, app := .idle }

/-- What can happen. -/
inductive Event where
  /-- The pump finds the sink set and calls it. -/
  | sink (xs : List ImuSample)
  | pump (now : Int)
  | tx (now : Int)
  | notify (ok : Bool)
  /-- `ble_msg` queues a line. -/
  | msg
  /-- `ble_transport_stream_enable(true)` is called. -/
  | enable
  | app (odrCode : UInt8) (logActive : Bool) (uptime : Int)
  /-- `ble_transport_stream_enable(false)`. -/
  | disable

/-- One step; `none` where it cannot happen. -/
def step (s : Fifo) : Event → Option Fifo
  | .sink xs =>
      match s.pump with
      | .idle =>
          if s.stream.sink then some { s with pump := .sinking (streamDecimEff s.stream) xs }
          else none
      | _ => none
  | .pump now => pumpStep s now
  | .tx now => txStep s now
  | .notify ok => notifyStep s ok
  | .msg =>
      if u32Sub s.msgqHead s.msgqTail < msgqN then some { s with msgqHead := u32 (s.msgqHead + 1) }
      else some s
  | .enable =>
      match s.app with
      | .idle => some { s with app := .entered }
      | _ => none
  | .app odrCode logActive uptime => appStep s odrCode logActive uptime
  | .disable =>
      match s.app with
      | .idle => some { s with stream := { s.stream with sink := false } }
      | _ => none

/-- The step relation. -/
def Step (s : Fifo) (e : Event) (s' : Fifo) : Prop := step s e = some s'

/-- The statics at reset. -/
def Fifo.cold : Fifo where
  stream := Stream.cold
  sfifo := fun _ => default
  sfifoTs := 0
  adaptLastDropped := 0
  msgqHead := 0
  msgqTail := 0
  streamPkt := fun _ => default
  pump := .idle
  tx := .waiting
  app := .idle
  staged := []
  released := 0
  since := 0
  sent := []

/-- The device at reset. -/
def Start (s : Fifo) : Prop := s = Fifo.cold

/-! ## The invariant -/

/-- The pump has found room for a record that is not staged yet. -/
def PumpPc.committed : PumpPc → Nat
  | .checked _ _ _ | .stored _ _ _ => 1
  | _ => 0

/-- The sending thread goes by indices it has read. -/
def TxPc.busy : TxPc → Bool
  | .waiting | .messages | .message | .check => false
  | _ => true

/-- What the pump relies on. -/
def PumpSound (s : Fifo) : PumpPc → Prop
  | .stored _ x _ => s.sfifo (s.staged.length % 256) = x
  | _ => True

/-- The first `m` records in hand are the next ones to be released. -/
def InHand (s : Fifo) (m : Nat) : Prop :=
  ∀ k, k < m → s.streamPkt k = s.staged.getD (s.released + k) default

/-- What the sending thread relies on. -/
def TxSound (s : Fifo) : TxPc → Prop
  | .waiting | .messages | .message | .check => True
  | .haveHead head => ∃ q, s.released ≤ q ∧ q ≤ s.staged.length ∧ head = u32 q
  | .avail a => s.released + a ≤ s.staged.length
  | .copying n i => s.released + n ≤ s.staged.length ∧ i ≤ n ∧ InHand s i
  | .packed n | .notified n => s.released + n ≤ s.staged.length ∧ InHand s n
  | .tailRead n tail => s.released + n ≤ s.staged.length ∧ tail = s.stream.sfifoTail

/-- What the Bluetooth context relies on. -/
def AppSound (s : Fifo) : AppPc → Prop
  | .haveHead head pos => head = u32 pos ∧ pos ≤ s.staged.length
  | _ => True

/-- A packet of records staged since position `since`. -/
def StagedSince (s : Fifo) (since : Nat) (p : Packet) : Prop :=
  ∃ k, since ≤ k ∧ k + p.records.length ≤ s.staged.length ∧
    p.records = (s.staged.drop k).take p.records.length

/-- The invariant of the FIFO. -/
structure Inv (s : Fifo) : Prop where
  head : s.stream.sfifoHead = u32 s.staged.length
  tail : s.stream.sfifoTail = u32 s.released
  le : s.released ≤ s.staged.length
  room : s.staged.length + s.pump.committed ≤ s.released + 256
  since_le : s.since ≤ s.released
  holds : Holds 256 s.sfifo (s.staged.length + s.pump.committed - 256) s.staged.length
    fun r => s.staged.getD r default
  pump : PumpSound s s.pump
  tx : TxSound s s.tx
  app : AppSound s s.app
  sent : ∀ p ∈ s.sent, StagedSince s p.1 p.2

/-- The distance of the indices is the number of records in the FIFO. -/
theorem Inv.distance {s : Fifo} (h : Inv s) :
    u32Sub s.stream.sfifoHead s.stream.sfifoTail = s.staged.length - s.released := by
  have hle := h.le
  have hroom := h.room
  rw [h.head, h.tail, u32Sub_u32 hle (by omega)]

/-! ## Frames -/

/-- The sending thread relies on nothing a growing list takes away. -/
theorem TxSound.grow {s s' : Fifo} {pc : TxPc} (h : TxSound s pc) (hr : s'.released = s.released)
    (ht : s'.stream.sfifoTail = s.stream.sfifoTail) (hp : s'.streamPkt = s.streamPkt)
    (hg : s.staged <+: s'.staged) : TxSound s' pc := by
  have hlen := hg.length_le
  obtain ⟨l, hl⟩ := hg
  have hhand : ∀ {m}, s.released + m ≤ s.staged.length → InHand s m → InHand s' m := by
    intro m hm hin k hk
    rw [hp, hr, hin k hk, ← hl, List.getD_eq_getElem?_getD, List.getD_eq_getElem?_getD,
      List.getElem?_append_left (by omega)]
  cases pc with
  | waiting | messages | message | check => trivial
  | haveHead head =>
    obtain ⟨q, h1, h2, h3⟩ := h
    exact ⟨q, by omega, by omega, h3⟩
  | avail a =>
    show s'.released + a ≤ s'.staged.length
    have hle : s.released + a ≤ s.staged.length := h
    omega
  | copying n i =>
    obtain ⟨h1, h2, h3⟩ := h
    exact ⟨by omega, h2, hhand (by omega) h3⟩
  | packed n | notified n =>
    obtain ⟨h1, h2⟩ := h
    exact ⟨by omega, hhand h1 h2⟩
  | tailRead n tail =>
    obtain ⟨h1, h2⟩ := h
    exact ⟨by omega, h2.trans ht.symm⟩

theorem AppSound.grow {s s' : Fifo} {pc : AppPc} (h : AppSound s pc)
    (hlen : s.staged.length ≤ s'.staged.length) : AppSound s' pc := by
  cases pc with
  | haveHead head pos => exact ⟨h.1, Nat.le_trans h.2 hlen⟩
  | idle | entered | tailSet | tuned => trivial

/-- What was sent stays what was staged. -/
theorem StagedSince.grow {s s' : Fifo} {since : Nat} {p : Packet} (h : StagedSince s since p)
    (hg : s.staged <+: s'.staged) : StagedSince s' since p := by
  obtain ⟨k, h1, h2, h3⟩ := h
  obtain ⟨l, hl⟩ := hg
  refine ⟨k, h1, ?_, ?_⟩
  · rw [← hl, List.length_append]
    omega
  · rw [← hl, List.drop_append_of_le_length (by omega), List.take_append_of_le_length
      (by rw [List.length_drop]; omega)]
    exact h3

/-- A step that leaves the indices, the slots, the packet and the record of the run alone. -/
theorem Inv.frame {s s' : Fifo} (h : Inv s) (hh : s'.stream.sfifoHead = s.stream.sfifoHead)
    (ht : s'.stream.sfifoTail = s.stream.sfifoTail) (hf : s'.sfifo = s.sfifo)
    (hp : s'.streamPkt = s.streamPkt) (hst : s'.staged = s.staged) (hr : s'.released = s.released)
    (hsi : s'.since = s.since) (hse : s'.sent = s.sent)
    (hcom : s'.pump.committed = s.pump.committed)
    (hpump : PumpSound s s'.pump) (htx : TxSound s s'.tx) (happ : AppSound s s'.app) : Inv s' where
  head := by rw [hh, hst, h.head]
  tail := by rw [ht, hr, h.tail]
  le := by rw [hr, hst]; exact h.le
  room := by rw [hr, hst, hcom]; exact h.room
  since_le := by rw [hsi, hr]; exact h.since_le
  holds := by
    rw [hf, hst, hcom]
    exact h.holds
  pump := by
    cases hpc : s'.pump with
    | stored decim x xs =>
      rw [hpc] at hpump
      show s'.sfifo (s'.staged.length % 256) = x
      rw [hf, hst]
      exact hpump
    | idle | sinking | picked | checked => trivial
  tx := htx.grow hr ht hp (by rewrite [hst]; exact List.prefix_refl _)
  app := happ.grow (Nat.le_of_eq (by rw [hst]))
  sent := by
    intro p hmem
    rw [hse] at hmem
    exact (h.sent p hmem).grow (by rewrite [hst]; exact List.prefix_refl _)

/-! ## The pump -/

/-- The adaptation window touches no index and no counter of the FIFO. -/
theorem streamAdaptTick_frame (s : Fifo) (now : Int) :
    ∃ t l, streamAdaptTick s now = { s with stream := t, adaptLastDropped := l } ∧
      t.sfifoHead = s.stream.sfifoHead ∧ t.sfifoTail = s.stream.sfifoTail ∧
      t.streamDropped = s.stream.streamDropped ∧ t.streamMax = s.stream.streamMax := by
  unfold streamAdaptTick
  dsimp only
  split
  · exact ⟨s.stream, s.adaptLastDropped, rfl, rfl, rfl, rfl, rfl⟩
  · refine ⟨_, _, rfl, ?_, ?_, ?_, ?_⟩
    all_goals
      split
      · rfl
      · split
        · split
          all_goals rfl
        · rfl

/-- **One step of the pump.** -/
theorem pumpStep_inv {s s' : Fifo} {now : Int} (h : Inv s) (hs : pumpStep s now = some s') :
    Inv s' := by
  unfold pumpStep at hs
  split at hs
  · exact absurd hs (by simp)
  · -- the call returns
    rename_i decim hpc
    obtain rfl := Option.some.inj hs
    obtain ⟨t, l, heq, hh, ht, -, -⟩ := streamAdaptTick_frame s now
    rw [heq]
    exact h.frame hh ht rfl rfl rfl rfl rfl rfl (by rw [hpc]; rfl) trivial h.tx h.app
  · -- the decimation
    rename_i decim x xs hpc
    obtain rfl := Option.some.inj hs
    have hpump : ∀ p : Prop, [Decidable p] →
        (if p then PumpPc.sinking decim xs else PumpPc.picked decim x xs).committed = 0 ∧
          PumpSound s (if p then PumpPc.sinking decim xs else PumpPc.picked decim x xs) := by
      intro p _
      split
      · exact ⟨rfl, trivial⟩
      · exact ⟨rfl, trivial⟩
    obtain ⟨hzero, hsound⟩ := hpump (s.stream.streamSampleCtr % decim.toNat ≠ 0)
    exact h.frame rfl rfl rfl rfl rfl rfl rfl rfl (by rw [hzero, hpc]; rfl) hsound h.tx h.app
  · -- the fullness test
    rename_i decim x xs hpc
    split at hs
    · obtain rfl := Option.some.inj hs
      exact h.frame rfl rfl rfl rfl rfl rfl rfl rfl (by rw [hpc]; rfl) trivial h.tx h.app
    · rename_i hfree
      obtain rfl := Option.some.inj hs
      rw [h.distance] at hfree
      have hle := h.le
      refine { h with room := ?_, holds := ?_, pump := trivial }
      · show s.staged.length + 1 ≤ s.released + 256
        unfold sfifoN at hfree
        omega
      · refine h.holds.shrink ?_ (Nat.le_refl _)
        rw [hpc]
        show s.staged.length + 0 - 256 ≤ s.staged.length + 1 - 256
        omega
  · -- the slot is written; nothing of it is held
    rename_i decim x xs hpc
    obtain rfl := Option.some.inj hs
    have hroom := h.room
    rw [hpc] at hroom
    have hone : (PumpPc.checked decim x xs).committed = 1 := rfl
    rw [hone] at hroom
    have hslot : sfifoSlot s.stream.sfifoHead = s.staged.length % 256 := by
      rw [h.head, sfifoSlot_u32]
    have hholds := h.holds
    rw [hpc, hone] at hholds
    refine { h with room := hroom, holds := ?_, pump := ?_, tx := ?_, app := ?_, sent := ?_ }
    · show Holds 256 (Function.update s.sfifo (sfifoSlot s.stream.sfifoHead) x) _ _ _
      rw [hslot]
      exact hholds.write (by omega) x
    · show Function.update s.sfifo (sfifoSlot s.stream.sfifoHead) x (s.staged.length % 256) = x
      rw [hslot, Function.update_self]
    · exact h.tx.grow rfl rfl rfl (List.prefix_refl _)
    · exact h.app.grow (Nat.le_refl _)
    · intro p hmem
      exact (h.sent p hmem).grow (List.prefix_refl _)
  · -- and published
    rename_i decim x xs hpc
    obtain rfl := Option.some.inj hs
    have hroom := h.room
    have hle := h.le
    have hpump := h.pump
    rw [hpc] at hroom hpump
    have hone : (PumpPc.stored decim x xs).committed = 1 := rfl
    have hholds := h.holds
    rw [hpc] at hholds
    rw [hone] at hroom hholds
    have hgrown : s.staged <+: s.staged ++ [x] := List.prefix_append _ _
    have hlen : (s.staged ++ [x]).length = s.staged.length + 1 := by simp
    constructor
    · show u32 (s.stream.sfifoHead + 1) = u32 (s.staged ++ [x]).length
      rw [hlen, h.head, u32_u32_add]
    · exact h.tail
    · show s.released ≤ (s.staged ++ [x]).length
      omega
    · show (s.staged ++ [x]).length + 0 ≤ s.released + 256
      omega
    · exact h.since_le
    · show Holds 256 s.sfifo ((s.staged ++ [x]).length + 0 - 256) (s.staged ++ [x]).length
        fun r => (s.staged ++ [x]).getD r default
      rw [hlen]
      have hold : Holds 256 s.sfifo (s.staged.length + 1 - 256) s.staged.length
          fun r => (s.staged ++ [x]).getD r default := by
        refine hholds.congr ?_
        intro r _ hr
        rw [List.getD_eq_getElem?_getD, List.getD_eq_getElem?_getD, List.getElem?_append_left hr]
      refine hold.extend ?_
      rw [List.getD_eq_getElem?_getD, List.getElem?_append_right (Nat.le_refl _), Nat.sub_self]
      exact hpump
    · trivial
    · exact h.tx.grow rfl rfl rfl hgrown
    · exact h.app.grow (by rw [hlen]; exact Nat.le_succ _)
    · intro p hmem
      exact (h.sent p hmem).grow hgrown

/-! ## The sending thread -/

/-- A step that only moves the sending thread. -/
theorem Inv.moveTx {s : Fifo} (h : Inv s) {pc : TxPc} (hpc : TxSound s pc) :
    Inv { s with tx := pc } :=
  h.frame rfl rfl rfl rfl rfl rfl rfl rfl rfl h.pump hpc h.app

/-- One more record is copied. -/
theorem Inv.copyOne {s : Fifo} (h : Inv s) {n i : Nat} (hpc : s.tx = .copying n i) (hi : i < n) :
    Inv { s with
      streamPkt := Function.update s.streamPkt i (s.sfifo (sfifoSlot (u32 (s.stream.sfifoTail + i))))
      tx := .copying n (i + 1) } := by
  have htx := h.tx
  rw [hpc] at htx
  obtain ⟨hn, -, hin⟩ := htx
  have hread : s.sfifo (sfifoSlot (u32 (s.stream.sfifoTail + i))) =
      s.staged.getD (s.released + i) default := by
    rw [h.tail, u32_u32_add, sfifoSlot_u32]
    have hroom := h.room
    exact h.holds (s.released + i) (by omega) (by omega)
  refine { h with pump := ?_, tx := ⟨hn, hi, ?_⟩, app := ?_, sent := ?_ }
  · exact (h.frame rfl rfl rfl rfl rfl rfl rfl rfl rfl h.pump h.tx h.app).pump
  · intro k hk
    show Function.update s.streamPkt i _ k = s.staged.getD (s.released + k) default
    rcases Nat.lt_or_ge k i with hlt | hge
    · rw [Function.update_of_ne (by omega)]
      exact hin k hlt
    · obtain rfl : k = i := by omega
      rw [Function.update_self, hread]
  · exact h.app.grow (Nat.le_refl _)
  · intro p hmem
    exact (h.sent p hmem).grow (List.prefix_refl _)

/-- The records in hand are released. -/
theorem Inv.advance {s : Fifo} (h : Inv s) {n tail : Nat} (now : Int) (hpc : s.tx = .tailRead n tail) :
    Inv { s with
      stream := { s.stream with sfifoTail := u32 (tail + n) }
      released := s.released + n, sfifoTs := now, tx := .check } := by
  have htx := h.tx
  rw [hpc] at htx
  obtain ⟨hn, htail⟩ := htx
  have hroom := h.room
  have hsince := h.since_le
  constructor
  · exact h.head
  · show u32 (tail + n) = u32 (s.released + n)
    rw [htail, h.tail, u32_u32_add]
  · exact hn
  · show s.staged.length + s.pump.committed ≤ s.released + n + 256
    omega
  · show s.since ≤ s.released + n
    omega
  · exact h.holds
  · cases hpump : s.pump with
    | stored decim x xs =>
      have hold := h.pump
      rw [hpump] at hold
      exact hold
    | idle | sinking | picked | checked => trivial
  · trivial
  · exact h.app.grow (Nat.le_refl _)
  · intro p hmem
    exact (h.sent p hmem).grow (List.prefix_refl _)

/-- **One step of the sending thread**, by cases on where it is. -/
theorem txStep_inv {s s' : Fifo} {now : Int} (h : Inv s) (hs : txStep s now = some s') : Inv s' := by
  have htx := h.tx
  unfold txStep at hs
  cases hpc : s.tx with
  | waiting | check =>
    rw [hpc] at hs
    obtain rfl := Option.some.inj hs
    first
      | exact h.moveTx trivial
      | exact h.moveTx ⟨s.staged.length, h.le, Nat.le_refl _, h.head⟩
  | messages =>
    rw [hpc] at hs
    obtain rfl := Option.some.inj hs
    split
    all_goals exact h.moveTx trivial
  | message | packed =>
    rw [hpc] at hs
    exact absurd hs (by simp)
  | haveHead head =>
    rw [hpc] at hs htx
    obtain rfl := Option.some.inj hs
    obtain ⟨q, hlo, hhi, rfl⟩ := htx
    refine h.moveTx ?_
    have hroom := h.room
    show s.released + u32Sub (u32 q) s.stream.sfifoTail ≤ s.staged.length
    rw [h.tail, u32Sub_u32 hlo (by omega)]
    omega
  | avail a =>
    rw [hpc] at hs htx
    have ha : s.released + a ≤ s.staged.length := htx
    dsimp only at hs
    split at hs
    · obtain rfl := Option.some.inj hs
      exact h.moveTx trivial
    · split at hs
      · obtain rfl := Option.some.inj hs
        exact h.moveTx trivial
      · obtain rfl := Option.some.inj hs
        refine h.moveTx ⟨by omega, Nat.zero_le _, ?_⟩
        intro k hk
        omega
  | copying n i =>
    rw [hpc] at hs htx
    dsimp only at hs
    split at hs
    · rename_i hi
      obtain rfl := Option.some.inj hs
      exact h.copyOne hpc hi
    · rename_i hi
      obtain rfl := Option.some.inj hs
      obtain ⟨hn, hin, hhand⟩ := htx
      obtain rfl : i = n := by omega
      exact h.moveTx ⟨hn, hhand⟩
  | notified n =>
    rw [hpc] at hs htx
    obtain rfl := Option.some.inj hs
    exact h.moveTx ⟨htx.1, rfl⟩
  | tailRead n tail =>
    rw [hpc] at hs
    obtain rfl := Option.some.inj hs
    exact h.advance now hpc

/-- The records in hand are a piece of what was staged. -/
theorem InHand.slice {s : Fifo} {n : Nat} (h : InHand s n) (hn : s.released + n ≤ s.staged.length) :
    (List.range n).map s.streamPkt = (s.staged.drop s.released).take n := by
  apply List.ext_getElem
  · rw [List.length_map, List.length_range, List.length_take, List.length_drop]
    omega
  · intro k hk _
    rw [List.length_map, List.length_range] at hk
    rw [List.getElem_map, List.getElem_range, List.getElem_take, List.getElem_drop, h k hk,
      List.getD_eq_getElem?_getD, List.getElem?_eq_getElem (by omega)]
    rfl

theorem notifyStep_inv {s s' : Fifo} {ok : Bool} (h : Inv s) (hs : notifyStep s ok = some s') :
    Inv s' := by
  have htx := h.tx
  unfold notifyStep at hs
  split at hs
  · obtain rfl := Option.some.inj hs
    exact h.frame rfl rfl rfl rfl rfl rfl rfl rfl rfl h.pump trivial h.app
  · rename_i n hpc
    rw [hpc] at htx
    cases ok with
    | true =>
      obtain rfl := Option.some.inj hs
      obtain ⟨hn, hin⟩ := htx
      have hbase : Inv { s with tx := .notified n } := h.moveTx ⟨hn, hin⟩
      refine { hbase with sent := ?_, pump := ?_, tx := ⟨hn, hin⟩, app := hbase.app.grow (Nat.le_refl _) }
      · exact (hbase.frame rfl rfl rfl rfl rfl rfl rfl rfl rfl hbase.pump hbase.tx
          hbase.app).pump
      · intro p hmem
        rcases List.mem_append.mp hmem with hold | hnew
        · exact (h.sent p hold).grow (List.prefix_refl _)
        · -- the packet just handed over
          obtain rfl := List.mem_singleton.mp hnew
          refine ⟨s.released, h.since_le, ?_, ?_⟩
          · show s.released + ((List.range n).map s.streamPkt).length ≤ s.staged.length
            rw [List.length_map, List.length_range]
            exact hn
          · show (List.range n).map s.streamPkt = _
            rw [List.length_map, List.length_range]
            exact hin.slice hn
    | false =>
      obtain rfl := Option.some.inj hs
      exact h.frame rfl rfl rfl rfl rfl rfl rfl rfl rfl h.pump htx h.app
  · exact absurd hs (by simp)

/-! ## The Bluetooth context -/

/-- An enable moves the tail only while the sending thread goes by no index it has read before, and to
    a position that leaves room for what is staged or about to be. -/
def enableClear (s : Fifo) : Event → Bool
  | .app _ _ _ =>
      match s.app with
      | .haveHead head _ =>
          !s.tx.busy && decide (u32Sub s.stream.sfifoHead head + s.pump.committed ≤ sfifoN)
      | _ => true
  | _ => true

/-- A step that only moves the Bluetooth context. -/
theorem Inv.moveApp {s : Fifo} (h : Inv s) {pc : AppPc} (hpc : AppSound s pc) :
    Inv { s with app := pc } :=
  h.frame rfl rfl rfl rfl rfl rfl rfl rfl rfl h.pump h.tx hpc

/-- **The tail is moved up.** -/
theorem Inv.moveTail {s : Fifo} (h : Inv s) {head pos : Nat} (hpc : s.app = .haveHead head pos)
    (hidle : s.tx.busy = false)
    (hroom : u32Sub s.stream.sfifoHead head + s.pump.committed ≤ sfifoN) :
    Inv { s with
      stream := { s.stream with sfifoTail := head }
      released := s.staged.length - u32Sub s.stream.sfifoHead head
      since := pos, app := .tailSet } := by
  have happ := h.app
  rw [hpc] at happ
  obtain ⟨rfl, hpos⟩ := happ
  rw [h.head] at hroom ⊢
  -- the distance as a machine word is the true one up to whole words
  have hd : ∃ w, s.staged.length - pos = u32Sub (u32 s.staged.length) (u32 pos) + 4294967296 * w := by
    refine ⟨(s.staged.length - pos) / 4294967296, ?_⟩
    unfold u32Sub u32
    omega
  obtain ⟨w, hw⟩ := hd
  generalize hdist : u32Sub (u32 s.staged.length) (u32 pos) = d at hroom hw ⊢
  unfold sfifoN at hroom
  constructor
  · exact h.head
  · show u32 pos = u32 (s.staged.length - d)
    unfold u32
    omega
  · exact Nat.sub_le _ _
  · show s.staged.length + s.pump.committed ≤ s.staged.length - d + 256
    omega
  · show pos ≤ s.staged.length - d
    omega
  · exact h.holds
  · cases hpump : s.pump with
    | stored decim x xs =>
      have hold := h.pump
      rw [hpump] at hold
      exact hold
    | idle | sinking | picked | checked => trivial
  · cases htx : s.tx with
    | waiting | messages | message | check => trivial
    | haveHead | avail | copying | packed | notified | tailRead =>
      rw [htx] at hidle
      exact absurd hidle Bool.noConfusion
  · trivial
  · intro p hmem
    exact (h.sent p hmem).grow (List.prefix_refl _)

/-- **One step of an enable**, where it is clear. -/
theorem appStep_inv {s s' : Fifo} {odrCode : UInt8} {logActive : Bool} {uptime : Int} (h : Inv s)
    (hclear : enableClear s (.app odrCode logActive uptime) = true)
    (hs : appStep s odrCode logActive uptime = some s') : Inv s' := by
  unfold appStep at hs
  split at hs
  · exact absurd hs (by simp)
  · obtain rfl := Option.some.inj hs
    exact h.moveApp ⟨h.head, Nat.le_refl _⟩
  · rename_i head pos hpc
    obtain rfl := Option.some.inj hs
    simp only [enableClear, hpc, Bool.and_eq_true, Bool.not_eq_true', decide_eq_true_eq] at hclear
    exact h.moveTail hpc hclear.1 hclear.2
  · obtain rfl := Option.some.inj hs
    exact h.frame rfl rfl rfl rfl rfl rfl rfl rfl rfl h.pump h.tx trivial
  · obtain rfl := Option.some.inj hs
    exact h.frame rfl rfl rfl rfl rfl rfl rfl rfl rfl h.pump h.tx trivial

/-! ## Over any interleaving -/

/-- **Every step keeps the invariant**, an enable under the sending thread apart. -/
theorem step_inv {s s' : Fifo} {e : Event} (h : Inv s) (hclear : enableClear s e = true)
    (hs : Step s e s') : Inv s' := by
  cases e with
  | sink xs =>
    simp only [Step, step] at hs
    split at hs
    · rename_i hpc
      obtain ⟨-, hs⟩ := Option.ite_none_right_eq_some.mp hs
      obtain rfl := Option.some.inj hs
      exact h.frame rfl rfl rfl rfl rfl rfl rfl rfl (by rw [hpc]; rfl) trivial h.tx h.app
    · exact absurd hs (by simp)
  | pump now => exact pumpStep_inv h hs
  | tx now => exact txStep_inv h hs
  | notify ok => exact notifyStep_inv h hs
  | msg =>
    simp only [Step, step] at hs
    split at hs
    all_goals
      obtain rfl := Option.some.inj hs
      exact h.frame rfl rfl rfl rfl rfl rfl rfl rfl rfl h.pump h.tx h.app
  | enable =>
    simp only [Step, step] at hs
    split at hs
    · obtain rfl := Option.some.inj hs
      exact h.moveApp trivial
    · exact absurd hs (by simp)
  | app odrCode logActive uptime => exact appStep_inv h hclear hs
  | disable =>
    simp only [Step, step] at hs
    split at hs
    · obtain rfl := Option.some.inj hs
      exact h.frame rfl rfl rfl rfl rfl rfl rfl rfl rfl h.pump h.tx h.app
    · exact absurd hs (by simp)

theorem start_inv : Inv Fifo.cold where
  head := rfl
  tail := rfl
  le := Nat.le_refl _
  room := by decide
  since_le := Nat.le_refl _
  holds := by
    intro r _ hr
    exact absurd hr (Nat.not_lt_zero r)
  pump := trivial
  tx := trivial
  app := trivial
  sent := by
    intro p hmem
    exact absurd hmem (by simp [Fifo.cold])

/-- **The FIFO never holds more than `SFIFO_N` records, and only records staged since the last enable
    are sent**, over any interleaving whose enables do not move the tail under the sending thread. -/
theorem index_le {s : Fifo} (h : Reach Start (guarded (fun s e => enableClear s e = true) Step) s) :
    u32Sub s.stream.sfifoHead s.stream.sfifoTail ≤ sfifoN ∧ ∀ p ∈ s.sent, StagedSince s p.1 p.2 := by
  have hinv : Inv s := by
    refine h.invariant ?_ ?_
    · rintro s rfl
      exact start_inv
    · rintro s e s' - hinv ⟨hclear, hst⟩
      exact step_inv hinv hclear hst
  constructor
  · have hroom := hinv.room
    rw [hinv.distance]
    unfold sfifoN
    omega
  · exact hinv.sent

/-- An enable, uninterrupted: 833 Hz, no session. -/
def enableNow : List Event := .enable :: List.replicate 4 (.app 7 false 0)

/-- The sink stages `n` records. -/
def stageNow (n : Nat) : List Event :=
  .sink (List.replicate n default) :: List.replicate (4 * n + 1) (.pump 0)

/-- The sending thread picks a full packet up: from `tx_wake` into `tx_notify`. -/
def packNow : List Event := List.replicate 20 (.tx 0)

/-- And comes out of it, with the packet handed over. -/
def sendNow : List Event := [.notify true, .tx 0, .tx 0]

/-- One packet of 14 records, sent between two enables. -/
theorem index_le_one : ∃ s : Fifo,
    (u32Sub s.stream.sfifoHead s.stream.sfifoTail ≤ sfifoN ∧ ∀ p ∈ s.sent, StagedSince s p.1 p.2) ∧
      s.sent.length = 1 ∧ s.since = 14 := by
  have hrun : ((enableNow ++ stageNow 14 ++ packNow ++ sendNow ++
      enableNow).foldlM (fun s e => if enableClear s e then step s e else none) Fifo.cold).any
        (fun s => decide (s.sent.length = 1 ∧ s.since = 14)) = true := by decide +kernel
  obtain ⟨s, hs, hout⟩ := (Option.any_eq_true _ _).mp hrun
  have hboth := of_decide_eq_true hout
  exact ⟨s, index_le (Reach.runGuarded (.start rfl) hs), hboth.1, hboth.2⟩

/-- **A second enable while the sending thread is in `tx_notify`** makes the tail overtake the head. -/
theorem reenable_breaks :
    ¬ ∀ s, Reach Start Step s → u32Sub s.stream.sfifoHead s.stream.sfifoTail ≤ sfifoN := by
  intro hall
  have hrun : ((enableNow ++ stageNow 14 ++ packNow ++ enableNow ++
      sendNow).foldlM step Fifo.cold).any
        (fun s => decide (u32Sub s.stream.sfifoHead s.stream.sfifoTail = 4294967282)) = true := by
    decide +kernel
  obtain ⟨s, hs, hout⟩ := (Option.any_eq_true _ _).mp hrun
  have hle := hall s (Reach.run (fun _ _ _ hst => hst) (.start rfl) hs)
  have hover := of_decide_eq_true hout
  unfold sfifoN at hle
  omega

end Caterpillar.Ble.Sfifo
