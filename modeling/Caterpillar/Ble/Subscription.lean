/-
  The samples of one subscription, and the credits of the sending thread (src/ble/ble_transport.c).

  1. **The machine** (`Preview`): the FIFO's machine, with `tx_notify` taken apart — it takes a credit
     or gives up, tries the stack up to 100 times, and leaves the credit with the notification or gives
     it back — and with the callbacks that bring the credits of sent notifications back.
  2. **What is recorded beside it**: the samples the decimation selects, and the fate of each, from
     the last `ble_transport_stream_enable(true)` on; `clean` says whether that enable found the
     sending thread without a packet.
  3. **Credits** (`Preview.Paid`): in flight, available and held make 2, in every run.
  4. **The ledger** (`Ledger`): the queued samples are what the FIFO holds, the sent ones are the
     records of the packets, the dropped ones are what `stream_dropped` counts.  An enable that is
     clean opens one whatever went before (`Grounded`), and every step keeps it: `preview_accounted`.
-/
import Caterpillar.Ble.StreamFifo
import Caterpillar.Lib.Fates
import Caterpillar.Lib.Sem

namespace Caterpillar.Ble.Subscription

open Caterpillar.Word Caterpillar.Ring Caterpillar.Runs Caterpillar.Sem Caterpillar.Fates
open Caterpillar.Imu Caterpillar.Ble.Sfifo

/-! ## The machine -/

/-- The sample the pump has selected and not yet dealt with. -/
def hand : PumpPc → List ImuSample
  | .picked _ x _ | .checked _ x _ | .stored _ x _ => [x]
  | _ => []

/-- How many records the packet has whose fate is known, and which are still in the FIFO. -/
def settled : TxPc → Nat
  | .notified n | .tailRead n _ => n
  | _ => 0

/-- `tx_notify` is running. -/
def calling : TxPc → Bool
  | .message | .packed _ => true
  | _ => false

/-- What `bt_gatt_notify_cb` returns. -/
inductive NotifyRet where
  | accepted
  /-- `-ENOMEM`, `-EAGAIN` or `-ENOBUFS`. -/
  | busy
  | error

/-- The stream's machine, the credits, and what is recorded of the subscription. -/
structure Preview where
  fifo : Fifo
  txCredits : KSem 2
  /-- Notifications the stack has accepted and not called back for. -/
  inFlight : Nat
  /-- The running `tx_notify` holds a credit, and has tried so often. -/
  holding : Option Nat
  /-- The last enable found the sending thread without a packet. -/
  clean : Bool
  selected : List ImuSample
  fates : List (ImuSample × Fate)

/-- The credit a running `tx_notify` holds. -/
def Preview.held (x : Preview) : Nat := if x.holding.isSome then 1 else 0

/-- What the pump's next step selects. -/
def selects (s : Fifo) : List ImuSample :=
  match s.pump with
  | .sinking decim (x :: _) => if s.stream.streamSampleCtr % decim.toNat ≠ 0 then [] else [x]
  | _ => []

/-- The fate the pump's next step decides. -/
def decides (s : Fifo) : List (ImuSample × Fate) :=
  match s.pump with
  | .picked _ x _ =>
      if u32Sub s.stream.sfifoHead s.stream.sfifoTail ≥ sfifoN then [(x, .dropped)] else []
  | .stored _ x _ => [(x, .queued)]
  | _ => []

/-- The fates once `tx_notify` has answered. -/
def answered (pc : TxPc) (ok : Bool) (fates : List (ImuSample × Fate)) : List (ImuSample × Fate) :=
  match pc with
  | .packed n => settle (if ok then .sent else .dropped) n fates
  | _ => fates

/-- `tx_notify` returns. -/
def Preview.back (x : Preview) (ok : Bool) : Option Preview :=
  (notifyStep x.fifo ok).map fun f =>
    { x with fifo := f, holding := none, fates := answered x.fifo.tx ok x.fates }

/-- `ble_transport_stream_enable(true)` on the FIFO, as one step. -/
def enabled (s : Fifo) (odrCode : UInt8) (logActive : Bool) (uptime : Int) : Fifo :=
  { s with
    stream := streamEnable s.stream true odrCode logActive uptime
    released := s.staged.length
    since := s.staged.length
    sent := [] }

/-- What can happen. -/
inductive Act where
  /-- The pump finds the sink set and calls it. -/
  | sink (xs : List ImuSample)
  | pump (now : Int)
  | tx (now : Int)
  | msg
  | disable
  | enable (odrCode : UInt8) (logActive : Bool) (uptime : Int)
  | updateDecim (odrCode : UInt8) (logActive : Bool) (uptime : Int)
  | setPreview (hz : UInt16) (odrCode : UInt8) (logActive : Bool) (uptime : Int)
  /-- `k_sem_take(&tx_credits, ..)` succeeds. -/
  | take
  /-- It times out. -/
  | jam
  | attempt (ret : NotifyRet)
  /-- `tx_sent_cb`. -/
  | sentCb

/-- One step; `none` where it cannot happen. -/
def next (x : Preview) : Act → Option Preview
  | .sink xs => (step x.fifo (.sink xs)).map fun f => { x with fifo := f }
  | .pump now =>
      (pumpStep x.fifo now).map fun f =>
        { x with
          fifo := f
          selected := x.selected ++ selects x.fifo
          fates := x.fates ++ decides x.fifo }
  | .tx now => (txStep x.fifo now).map fun f => { x with fifo := f }
  | .msg => (step x.fifo .msg).map fun f => { x with fifo := f }
  | .disable => (step x.fifo .disable).map fun f => { x with fifo := f }
  | .enable odrCode logActive uptime =>
      some { x with
        fifo := enabled x.fifo odrCode logActive uptime
        clean := !x.fifo.tx.busy
        selected := hand x.fifo.pump
        fates := [] }
  | .updateDecim odrCode logActive uptime =>
      some { x with
        fifo := { x.fifo with
          stream := streamUpdateDecim x.fifo.stream odrCode logActive uptime } }
  | .setPreview hz odrCode logActive uptime =>
      some { x with
        fifo := { x.fifo with
          stream := streamSetPreview x.fifo.stream hz odrCode logActive uptime } }
  | .take =>
      if calling x.fifo.tx ∧ x.holding = none then
        x.txCredits.take.map fun c => { x with txCredits := c, holding := some 0 }
      else none
  | .jam =>
      if calling x.fifo.tx ∧ x.holding = none ∧ x.txCredits.count = 0 then x.back false else none
  | .attempt ret =>
      match x.holding with
      | none => none
      | some tries =>
          match ret with
          | .accepted => { x with inFlight := x.inFlight + 1 }.back true
          | .busy =>
              if tries + 1 < 100 then some { x with holding := some (tries + 1) }
              else { x with txCredits := x.txCredits.give }.back false
          | .error => { x with txCredits := x.txCredits.give }.back false
  | .sentCb =>
      if 0 < x.inFlight then
        some { x with inFlight := x.inFlight - 1, txCredits := x.txCredits.give }
      else none

/-- The step relation. -/
def Next (x : Preview) (e : Act) (y : Preview) : Prop := next x e = some y

/-- The device at reset. -/
def Preview.cold : Preview where
  fifo := Fifo.cold
  txCredits := KSem.full
  inFlight := 0
  holding := none
  clean := true
  selected := []
  fates := []

/-- Runs start at reset. -/
def Start (x : Preview) : Prop := x = Preview.cold

/-! ## What the steps of the FIFO's machine leave alone -/

/-- The sending thread moves its own place, its packet and the tail. -/
theorem txStep_ram {s f : Fifo} {now : Int} (h : txStep s now = some f) :
    ∃ pc pkt tail rel ts, f = { s with
      tx := pc, streamPkt := pkt, stream := { s.stream with sfifoTail := tail }
      released := rel, sfifoTs := ts } := by
  unfold txStep at h
  split at h
  · exact ⟨_, _, _, _, _, (Option.some.inj h).symm⟩
  · exact ⟨_, _, _, _, _, (Option.some.inj h).symm⟩
  · exact absurd h (by simp)
  · exact ⟨_, _, _, _, _, (Option.some.inj h).symm⟩
  · exact ⟨_, _, _, _, _, (Option.some.inj h).symm⟩
  · split at h
    · exact ⟨_, _, _, _, _, (Option.some.inj h).symm⟩
    · split at h
      · exact ⟨_, _, _, _, _, (Option.some.inj h).symm⟩
      · exact ⟨_, _, _, _, _, (Option.some.inj h).symm⟩
  · split at h
    · exact ⟨_, _, _, _, _, (Option.some.inj h).symm⟩
    · exact ⟨_, _, _, _, _, (Option.some.inj h).symm⟩
  · exact absurd h (by simp)
  · exact ⟨_, _, _, _, _, (Option.some.inj h).symm⟩
  · exact ⟨_, _, _, _, _, (Option.some.inj h).symm⟩

/-- An answer moves the thread on, and counts or records the packet. -/
theorem notifyStep_ram {s f : Fifo} {ok : Bool} (h : notifyStep s ok = some f) :
    calling s.tx = true ∧ calling f.tx = false ∧ ∃ pc tail d l, f = { s with
      tx := pc, msgqTail := tail, stream := { s.stream with streamDropped := d }, sent := l } := by
  unfold notifyStep at h
  split at h
  · rename_i hpc
    obtain rfl := Option.some.inj h
    exact ⟨by rw [hpc]; rfl, rfl, _, _, _, _, rfl⟩
  · rename_i n hpc
    split at h
    · obtain rfl := Option.some.inj h
      exact ⟨by rw [hpc]; rfl, rfl, _, _, _, _, rfl⟩
    · obtain rfl := Option.some.inj h
      exact ⟨by rw [hpc]; rfl, rfl, _, _, _, _, rfl⟩
  · exact absurd h (by simp)

/-- The pump moves nothing of the sending thread. -/
theorem pumpStep_tx {s f : Fifo} {now : Int} (h : pumpStep s now = some f) :
    f.tx = s.tx ∧ f.released = s.released ∧ f.sent = s.sent ∧ f.app = s.app ∧
      f.stream.streamMax = s.stream.streamMax := by
  unfold pumpStep at h
  split at h
  · exact absurd h (by simp)
  · obtain rfl := Option.some.inj h
    obtain ⟨t, l, heq, -, -, -, hmax⟩ := streamAdaptTick_frame s now
    rw [heq]
    exact ⟨rfl, rfl, rfl, rfl, hmax⟩
  · obtain rfl := Option.some.inj h
    exact ⟨rfl, rfl, rfl, rfl, rfl⟩
  · split at h
    · obtain rfl := Option.some.inj h
      exact ⟨rfl, rfl, rfl, rfl, rfl⟩
    · obtain rfl := Option.some.inj h
      exact ⟨rfl, rfl, rfl, rfl, rfl⟩
  · obtain rfl := Option.some.inj h
    exact ⟨rfl, rfl, rfl, rfl, rfl⟩
  · obtain rfl := Option.some.inj h
    exact ⟨rfl, rfl, rfl, rfl, rfl⟩

/-- A step that leaves the FIFO to itself: a call of the sink begins, a line is queued, the stream is
    switched off or tuned. -/
structure Aside (s f : Fifo) : Prop where
  head : f.stream.sfifoHead = s.stream.sfifoHead
  tail : f.stream.sfifoTail = s.stream.sfifoTail
  dropped : f.stream.streamDropped = s.stream.streamDropped
  max : f.stream.streamMax = s.stream.streamMax
  sfifo : f.sfifo = s.sfifo
  pkt : f.streamPkt = s.streamPkt
  staged : f.staged = s.staged
  released : f.released = s.released
  since : f.since = s.since
  sent : f.sent = s.sent
  tx : f.tx = s.tx
  app : f.app = s.app
  pump : f.pump = s.pump ∨ s.pump = .idle ∧ ∃ decim xs, f.pump = .sinking decim xs

/-- Of what the pump has in hand such a step changes nothing. -/
theorem Aside.hand {s f : Fifo} (h : Aside s f) :
    f.pump.committed = s.pump.committed ∧ Subscription.hand f.pump = Subscription.hand s.pump ∧
      (PumpSound s s.pump → PumpSound s f.pump) := by
  rcases h.pump with hsame | ⟨hidle, decim, xs, hnew⟩
  · rw [hsame]
    exact ⟨rfl, rfl, id⟩
  · rw [hidle, hnew]
    exact ⟨rfl, rfl, id⟩

/-! ## What a step can do -/

/-- The steps, inverted: one constructor for each way through. -/
inductive Turn (x : Preview) : Preview → Prop
  | pumped {now : Int} {f : Fifo} (h : pumpStep x.fifo now = some f) :
      Turn x { x with
        fifo := f, selected := x.selected ++ selects x.fifo, fates := x.fates ++ decides x.fifo }
  | moved {now : Int} {f : Fifo} (h : txStep x.fifo now = some f) : Turn x { x with fifo := f }
  | aside {f : Fifo} (h : Aside x.fifo f) : Turn x { x with fifo := f }
  | enabled (odrCode : UInt8) (logActive : Bool) (uptime : Int) :
      Turn x { x with
        fifo := enabled x.fifo odrCode logActive uptime, clean := !x.fifo.tx.busy
        selected := hand x.fifo.pump, fates := [] }
  | took {c : KSem 2} (hcall : calling x.fifo.tx = true) (hnone : x.holding = none)
      (hc : x.txCredits.take = some c) : Turn x { x with txCredits := c, holding := some 0 }
  | retried {tries : Nat} (hh : x.holding.isSome = true) : Turn x { x with holding := some tries }
  /-- `tx_notify` returns; the credit it held is in flight or given back. -/
  | returned {ok : Bool} {n : Nat} {c : KSem 2} {f : Fifo} (h : notifyStep x.fifo ok = some f)
      (hc : n = x.inFlight + x.held ∧ c = x.txCredits ∨
        n = x.inFlight ∧ c = if x.holding.isSome then x.txCredits.give else x.txCredits) :
      Turn x { x with
        inFlight := n, txCredits := c, fifo := f, holding := none
        fates := answered x.fifo.tx ok x.fates }
  | called (h : 0 < x.inFlight) :
      Turn x { x with inFlight := x.inFlight - 1, txCredits := x.txCredits.give }

theorem held_none {x : Preview} (h : x.holding = none) : x.held = 0 := by
  unfold Preview.held
  rw [h]
  rfl

theorem held_some {x : Preview} (h : x.holding.isSome = true) : x.held = 1 := if_pos h

/-- Every step is one of them. -/
theorem next_turn {x y : Preview} {e : Act} (hst : Next x e y) : Turn x y := by
  cases e with
  | sink xs =>
    obtain ⟨f, hf, rfl⟩ := Option.map_eq_some_iff.mp hst
    simp only [step] at hf
    split at hf
    · rename_i hpc
      obtain ⟨-, hf⟩ := Option.ite_none_right_eq_some.mp hf
      obtain rfl := Option.some.inj hf
      exact .aside ⟨rfl, rfl, rfl, rfl, rfl, rfl, rfl, rfl, rfl, rfl, rfl, rfl, .inr ⟨hpc, _, _, rfl⟩⟩
    · exact absurd hf (by simp)
  | pump now =>
    obtain ⟨f, hf, rfl⟩ := Option.map_eq_some_iff.mp hst
    exact .pumped hf
  | tx now =>
    obtain ⟨f, hf, rfl⟩ := Option.map_eq_some_iff.mp hst
    exact .moved hf
  | msg =>
    obtain ⟨f, hf, rfl⟩ := Option.map_eq_some_iff.mp hst
    simp only [step] at hf
    split at hf
    all_goals
      obtain rfl := Option.some.inj hf
      exact .aside ⟨rfl, rfl, rfl, rfl, rfl, rfl, rfl, rfl, rfl, rfl, rfl, rfl, .inl rfl⟩
  | disable =>
    obtain ⟨f, hf, rfl⟩ := Option.map_eq_some_iff.mp hst
    simp only [step] at hf
    split at hf
    · obtain rfl := Option.some.inj hf
      exact .aside ⟨rfl, rfl, rfl, rfl, rfl, rfl, rfl, rfl, rfl, rfl, rfl, rfl, .inl rfl⟩
    · exact absurd hf (by simp)
  | enable odrCode logActive uptime =>
    obtain rfl := Option.some.inj hst
    exact .enabled odrCode logActive uptime
  | updateDecim odrCode logActive uptime =>
    obtain rfl := Option.some.inj hst
    exact .aside ⟨rfl, rfl, rfl, rfl, rfl, rfl, rfl, rfl, rfl, rfl, rfl, rfl, .inl rfl⟩
  | setPreview hz odrCode logActive uptime =>
    obtain rfl := Option.some.inj hst
    exact .aside ⟨rfl, rfl, rfl, rfl, rfl, rfl, rfl, rfl, rfl, rfl, rfl, rfl, .inl rfl⟩
  | take =>
    obtain ⟨⟨hcall, hnone⟩, hst⟩ := Option.ite_none_right_eq_some.mp hst
    obtain ⟨c, hc, rfl⟩ := Option.map_eq_some_iff.mp hst
    exact .took hcall hnone hc
  -- the wait for a credit timed out: nothing is taken and nothing is handed over
  | jam =>
    obtain ⟨⟨-, hnone, -⟩, hst⟩ := Option.ite_none_right_eq_some.mp hst
    obtain ⟨f, hf, rfl⟩ := Option.map_eq_some_iff.mp hst
    exact .returned hf (.inl ⟨by rw [held_none hnone]; rfl, rfl⟩)
  | attempt ret =>
    cases hh : x.holding with
    | none =>
      simp only [Next, next, hh] at hst
      exact absurd hst (by simp)
    | some tries =>
      have hsome : x.holding.isSome = true := by rw [hh]; rfl
      simp only [Next, next, hh] at hst
      cases ret with
      | accepted =>
        obtain ⟨f, hf, rfl⟩ := Option.map_eq_some_iff.mp hst
        exact .returned hf (.inl ⟨by rw [held_some hsome], rfl⟩)
      -- `-ENOMEM` is tried again until the tries are used up
      | busy =>
        dsimp only at hst
        split at hst
        · obtain rfl := Option.some.inj hst
          exact .retried hsome
        · obtain ⟨f, hf, rfl⟩ := Option.map_eq_some_iff.mp hst
          exact .returned hf (.inr ⟨rfl, (if_pos hsome).symm⟩)
      | error =>
        obtain ⟨f, hf, rfl⟩ := Option.map_eq_some_iff.mp hst
        exact .returned hf (.inr ⟨rfl, (if_pos hsome).symm⟩)
  | sentCb =>
    obtain ⟨hpos, hst⟩ := Option.ite_none_right_eq_some.mp hst
    obtain rfl := Option.some.inj hst
    exact .called hpos

/-! ## Credits -/

/-- Credits in flight, available and held make 2; only a running `tx_notify` holds one. -/
structure Preview.Paid (x : Preview) : Prop where
  two : x.inFlight + x.txCredits.count + x.held = 2
  calling : x.holding.isSome = true → calling x.fifo.tx = true

/-- A step of the FIFO's machine that is none of `tx_notify`'s. -/
theorem Preview.Paid.frame {x : Preview} (h : x.Paid) {f : Fifo} {clean : Bool}
    {selected : List ImuSample} {fates : List (ImuSample × Fate)}
    (hcall : Subscription.calling x.fifo.tx = true → Subscription.calling f.tx = true) :
    Preview.Paid { x with fifo := f, clean := clean, selected := selected, fates := fates } :=
  ⟨h.two, fun hsome => hcall (h.calling hsome)⟩

/-- The sending thread itself never moves inside `tx_notify`. -/
theorem txStep_calling {s f : Fifo} {now : Int} (h : txStep s now = some f) :
    calling s.tx = false := by
  cases hpc : s.tx with
  | message | packed =>
    simp only [txStep, hpc] at h
    exact absurd h (by simp)
  | waiting | messages | check | haveHead | avail | copying | notified | tailRead => rfl

/-- **Step lemma**, for the credits. -/
theorem Turn.paid {x y : Preview} (h : x.Paid) (ht : Turn x y) : y.Paid := by
  have htwo := h.two
  cases ht with
  | pumped hf =>
    refine h.frame ?_
    rw [(pumpStep_tx hf).1]
    exact id
  | moved hf =>
    refine h.frame ?_
    rw [txStep_calling hf]
    exact fun hno => by cases hno
  | aside hf =>
    refine h.frame ?_
    rw [hf.tx]
    exact id
  | enabled odrCode logActive uptime => exact h.frame id
  | @took c hcall hnone hc =>
    obtain ⟨hpos, hcount⟩ := KSem.take_some hc
    rw [held_none hnone] at htwo
    constructor
    · show x.inFlight + c.count + 1 = 2
      omega
    · exact fun _ => hcall
  | retried hh =>
    rw [held_some hh] at htwo
    exact ⟨htwo, fun _ => h.calling hh⟩
  | @returned ok n c f hf hc =>
    refine ⟨?_, fun hsome => by cases hsome⟩
    show n + c.count + 0 = 2
    rcases hc with ⟨rfl, rfl⟩ | ⟨rfl, rfl⟩
    · omega
    · split
      · -- the credit given back makes 2 again, so the semaphore has room for it
        rename_i hsome
        rw [held_some hsome] at htwo
        rw [KSem.give_count]
        omega
      · rename_i hnone
        have hheld : x.held = 0 := if_neg hnone
        omega
  | called hpos =>
    constructor
    · show x.inFlight - 1 + x.txCredits.give.count + x.held = 2
      rw [KSem.give_count]
      omega
    · exact h.calling

/-! ## What an enable finds -/

/-- What the pump keeps whatever the tail is. -/
structure Grounded (s : Fifo) : Prop where
  head : s.stream.sfifoHead = u32 s.staged.length
  holds : Holds 256 s.sfifo (s.staged.length + s.pump.committed - 256) s.staged.length
    fun r => s.staged.getD r default
  pump : PumpSound s s.pump
  max : s.stream.streamMax = 14
  app : s.app = .idle

/-- A step that leaves the pump, its slots and the head alone. -/
theorem Grounded.frame {s f : Fifo} (h : Grounded s)
    (hh : f.stream.sfifoHead = s.stream.sfifoHead) (hf : f.sfifo = s.sfifo)
    (hs : f.staged = s.staged) (hm : f.stream.streamMax = s.stream.streamMax)
    (ha : f.app = s.app) (hc : f.pump.committed = s.pump.committed)
    (hp : PumpSound s f.pump) : Grounded f := by
  constructor
  · rw [hh, hs]
    exact h.head
  · rw [hf, hs, hc]
    exact h.holds
  · cases hpc : f.pump with
    | stored decim x xs =>
      rw [hpc] at hp
      show f.sfifo (f.staged.length % 256) = x
      rw [hf, hs]
      exact hp
    | idle | sinking | picked | checked => trivial
  · rw [hm]
    exact h.max
  · rw [ha]
    exact h.app

/-- The pump, whether it finds the FIFO full or not. -/
theorem Grounded.pumped {s f : Fifo} {now : Int} (h : Grounded s) (hs : pumpStep s now = some f) :
    Grounded f := by
  unfold pumpStep at hs
  split at hs
  · exact absurd hs (by simp)
  · rename_i decim hpc
    obtain rfl := Option.some.inj hs
    obtain ⟨t, l, heq, hh, -, -, hm⟩ := streamAdaptTick_frame s now
    rw [heq]
    exact h.frame hh rfl rfl hm rfl (by rw [hpc]; rfl) trivial
  · rename_i decim x xs hpc
    obtain rfl := Option.some.inj hs
    by_cases hskip : s.stream.streamSampleCtr % decim.toNat ≠ 0
    · rw [if_pos hskip]
      exact h.frame rfl rfl rfl rfl rfl (by rw [hpc]; rfl) trivial
    · rw [if_neg hskip]
      exact h.frame rfl rfl rfl rfl rfl (by rw [hpc]; rfl) trivial
  · rename_i decim x xs hpc
    split at hs
    · obtain rfl := Option.some.inj hs
      exact h.frame rfl rfl rfl rfl rfl (by rw [hpc]; rfl) trivial
    · obtain rfl := Option.some.inj hs
      refine ⟨h.head, h.holds.shrink ?_ (Nat.le_refl _), trivial, h.max, h.app⟩
      rw [hpc]
      show s.staged.length + 0 - 256 ≤ s.staged.length + 1 - 256
      omega
  · rename_i decim x xs hpc
    obtain rfl := Option.some.inj hs
    -- the slot at the head holds nothing that is still wanted
    have hslot : sfifoSlot s.stream.sfifoHead = s.staged.length % 256 := by
      rw [h.head, sfifoSlot_u32]
    have hholds := h.holds
    rw [hpc] at hholds
    have hone : (PumpPc.checked decim x xs).committed = 1 := rfl
    rw [hone] at hholds
    refine ⟨h.head, ?_, ?_, h.max, h.app⟩
    · show Holds 256 (Function.update s.sfifo (sfifoSlot s.stream.sfifoHead) x)
        (s.staged.length + 1 - 256) s.staged.length _
      rw [hslot]
      exact hholds.write (by omega) x
    · show Function.update s.sfifo (sfifoSlot s.stream.sfifoHead) x (s.staged.length % 256) = x
      rw [hslot, Function.update_self]
  · rename_i decim x xs hpc
    obtain rfl := Option.some.inj hs
    have hpump := h.pump
    have hholds := h.holds
    rw [hpc] at hpump hholds
    have hone : (PumpPc.stored decim x xs).committed = 1 := rfl
    rw [hone] at hholds
    have hlen : (s.staged ++ [x]).length = s.staged.length + 1 := by simp
    refine ⟨?_, ?_, trivial, h.max, h.app⟩
    · show u32 (s.stream.sfifoHead + 1) = u32 (s.staged ++ [x]).length
      rw [hlen, h.head, u32_u32_add]
    · show Holds 256 s.sfifo ((s.staged ++ [x]).length + 0 - 256) (s.staged ++ [x]).length
        fun r => (s.staged ++ [x]).getD r default
      rw [hlen]
      refine Holds.extend (hholds.congr ?_) ?_
      · intro r _ hr
        rw [List.getD_eq_getElem?_getD, List.getD_eq_getElem?_getD, List.getElem?_append_left hr]
      · rw [List.getD_eq_getElem?_getD, List.getElem?_concat_length]
        exact hpump

/-- **An enable that finds the sending thread without a packet** empties the FIFO, whatever state it
    was in. -/
theorem Grounded.enabled {s : Fifo} (h : Grounded s) (hidle : s.tx.busy = false) (odrCode : UInt8)
    (logActive : Bool) (uptime : Int) : Inv (enabled s odrCode logActive uptime) := by
  have hcom : s.pump.committed ≤ 1 := by
    cases s.pump with
    | idle | sinking | picked => exact Nat.zero_le 1
    | checked | stored => exact Nat.le_refl 1
  constructor
  · exact h.head
  · exact h.head
  · exact Nat.le_refl _
  · show s.staged.length + s.pump.committed ≤ s.staged.length + 256
    omega
  · exact Nat.le_refl _
  · exact h.holds
  · exact (h.frame (f := Subscription.enabled s odrCode logActive uptime) rfl rfl rfl
      h.max.symm rfl rfl h.pump).pump
  · show TxSound _ s.tx
    cases htx : s.tx with
    | waiting | messages | message | check => trivial
    | haveHead | avail | copying | packed | notified | tailRead =>
      rw [htx] at hidle
      exact absurd hidle Bool.noConfusion
  · show AppSound _ s.app
    rw [h.app]
    trivial
  · intro p hp
    exact absurd hp (by simp [Subscription.enabled])

/-- **Step lemma**, for what an enable finds. -/
theorem Turn.grounded {x y : Preview} (h : Grounded x.fifo) (ht : Turn x y) : Grounded y.fifo := by
  cases ht with
  | pumped hf => exact h.pumped hf
  | moved hf =>
    obtain ⟨pc, pkt, tail, rel, ts, rfl⟩ := txStep_ram hf
    exact h.frame rfl rfl rfl rfl rfl rfl h.pump
  | aside hf =>
    obtain ⟨hcom, -, hsound⟩ := hf.hand
    exact h.frame hf.head hf.sfifo hf.staged hf.max hf.app hcom (hsound h.pump)
  | enabled odrCode logActive uptime => exact h.frame rfl rfl rfl h.max.symm rfl rfl h.pump
  | took _ _ _ => exact h
  | retried _ => exact h
  | returned hf _ =>
    obtain ⟨-, -, pc, tail, d, l, rfl⟩ := notifyStep_ram hf
    exact h.frame rfl rfl rfl rfl rfl rfl h.pump
  | called _ => exact h

/-! ## The ledger -/

/-- How many records the packet in the making has. -/
def packetOf : TxPc → Option Nat
  | .copying n _ | .packed n | .notified n | .tailRead n _ => some n
  | _ => none

/-- The fates of the samples selected, against the FIFO, the packets and the counter. -/
structure Ledger (x : Preview) : Prop where
  inv : Inv x.fifo
  selected : x.selected = x.fates.map Prod.fst ++ hand x.fifo.pump
  order : InOrder x.fates
  queued : only .queued x.fates = x.fifo.staged.drop (x.fifo.released + settled x.fifo.tx)
  sent : only .sent x.fates = x.fifo.sent.flatMap fun p => p.2.records
  dropped : x.fifo.stream.streamDropped = u32 (only .dropped x.fates).length
  packet : ∀ n, packetOf x.fifo.tx = some n → 1 ≤ n ∧ n ≤ 14
  packets : ∀ p ∈ x.fifo.sent, 1 ≤ p.2.records.length ∧ p.2.records.length ≤ 14

/-- A packet whose fate is known is still in the FIFO. -/
theorem settled_le {s : Fifo} (h : Inv s) : s.released + settled s.tx ≤ s.staged.length := by
  have htx := h.tx
  cases hpc : s.tx with
  | notified n =>
    rw [hpc] at htx
    exact htx.1
  | tailRead n tail =>
    rw [hpc] at htx
    exact htx.1
  | waiting | messages | message | check | haveHead | avail | copying | packed => exact h.le

/-- **The pump's side**: a sample is selected, or the fate of the one in hand is decided. -/
theorem Ledger.offer {x : Preview} (h : Ledger x) {f : Fifo} (hinv : Inv f)
    {new : List ImuSample} {fate : List (ImuSample × Fate)}
    (hhand : hand x.fifo.pump ++ new = fate.map Prod.fst ++ hand f.pump)
    (horder : InOrder (x.fates ++ fate))
    (hstaged : f.staged = x.fifo.staged ++ only .queued fate) (hsent : only .sent fate = [])
    (hdropped : ∀ k, x.fifo.stream.streamDropped = u32 k →
      f.stream.streamDropped = u32 (k + (only .dropped fate).length))
    (htx : f.tx = x.fifo.tx) (hrel : f.released = x.fifo.released) (hpk : f.sent = x.fifo.sent) :
    Ledger { x with fifo := f, selected := x.selected ++ new, fates := x.fates ++ fate } := by
  constructor
  · exact hinv
  · show x.selected ++ new = (x.fates ++ fate).map Prod.fst ++ hand f.pump
    rw [h.selected, List.append_assoc, hhand, List.map_append, List.append_assoc]
  · exact horder
  · show only .queued (x.fates ++ fate) = f.staged.drop (f.released + settled f.tx)
    rw [only_append, h.queued, hstaged, hrel, htx, List.drop_append_of_le_length (settled_le h.inv)]
  · show only .sent (x.fates ++ fate) = f.sent.flatMap fun p => p.2.records
    rw [only_append, hsent, List.append_nil, h.sent, hpk]
  · show f.stream.streamDropped = u32 (only .dropped (x.fates ++ fate)).length
    rw [only_append, List.length_append]
    exact hdropped _ h.dropped
  · show ∀ n, packetOf f.tx = some n → 1 ≤ n ∧ n ≤ 14
    rw [htx]
    exact h.packet
  · show ∀ p ∈ f.sent, _
    rw [hpk]
    exact h.packets

/-- **Step lemma**, the pump. -/
theorem Ledger.pumped {x : Preview} (h : Ledger x) {now : Int} {f : Fifo}
    (hs : pumpStep x.fifo now = some f) :
    Ledger { x with
      fifo := f, selected := x.selected ++ selects x.fifo, fates := x.fates ++ decides x.fifo } := by
  have hinv := pumpStep_inv h.inv hs
  have hdist := h.inv.distance
  obtain ⟨htx, hrel, hpk, -, -⟩ := pumpStep_tx hs
  -- nothing decided: the fates stay
  have hnone : ∀ {new : List ImuSample}, hand x.fifo.pump ++ new = hand f.pump →
      f.staged = x.fifo.staged → f.stream.streamDropped = x.fifo.stream.streamDropped →
      Ledger { x with fifo := f, selected := x.selected ++ new, fates := x.fates ++ [] } := by
    intro new hhand hstaged hdropped
    refine h.offer hinv hhand ?_ ?_ rfl ?_ htx hrel hpk
    · rw [List.append_nil]
      exact h.order
    · rw [hstaged]
      exact (List.append_nil _).symm
    · intro k hk
      rw [hdropped]
      exact hk
  unfold selects decides
  unfold pumpStep at hs
  cases hpc : x.fifo.pump with
  | idle =>
    rw [hpc] at hs
    exact absurd hs (by simp)
  | sinking decim xs =>
    rw [hpc] at hs
    cases xs with
    | nil =>
      obtain rfl := Option.some.inj hs
      obtain ⟨t, l, heq, -, -, hdropped, -⟩ := streamAdaptTick_frame x.fifo now
      refine hnone ?_ ?_ ?_
      · rw [hpc]
        rfl
      · rw [heq]
      · rw [heq]
        exact hdropped
    | cons y ys =>
      obtain rfl := Option.some.inj hs
      dsimp only
      refine hnone ?_ rfl rfl
      rw [hpc]
      by_cases hskip : x.fifo.stream.streamSampleCtr % decim.toNat ≠ 0
      · rw [if_pos hskip]
        show [] = hand (if _ then PumpPc.sinking decim ys else PumpPc.picked decim y ys)
        rw [if_pos hskip]
        rfl
      · rw [if_neg hskip]
        show [y] = hand (if _ then PumpPc.sinking decim ys else PumpPc.picked decim y ys)
        rw [if_neg hskip]
        rfl
  | picked decim y ys =>
    rw [hpc] at hs
    dsimp only at hs ⊢
    by_cases hfull : u32Sub x.fifo.stream.sfifoHead x.fifo.stream.sfifoTail ≥ sfifoN
    · rw [if_pos hfull] at hs ⊢
      obtain rfl := Option.some.inj hs
      refine h.offer hinv ?_ (h.order.offer (by decide) y) ?_ rfl ?_ htx hrel hpk
      · rw [hpc]
        rfl
      · exact (List.append_nil _).symm
      · intro k hk
        show u32 (x.fifo.stream.streamDropped + 1) = u32 (k + 1)
        rw [hk, u32_u32_add]
    · rw [if_neg hfull] at hs ⊢
      obtain rfl := Option.some.inj hs
      refine hnone ?_ rfl rfl
      rw [hpc]
      rfl
  | checked decim y ys =>
    rw [hpc] at hs
    obtain rfl := Option.some.inj hs
    refine hnone ?_ rfl rfl
    rw [hpc]
    rfl
  | stored decim y ys =>
    rw [hpc] at hs
    obtain rfl := Option.some.inj hs
    refine h.offer hinv ?_ (h.order.offer (by decide) y) rfl rfl ?_ htx hrel hpk
    · rw [hpc]
      rfl
    · intro k hk
      exact hk

/-- A step that decides no fate. -/
theorem Ledger.keep {x : Preview} (h : Ledger x) {f : Fifo} (hinv : Inv f)
    (hhand : hand f.pump = hand x.fifo.pump) (hstaged : f.staged = x.fifo.staged)
    (hplace : f.released + settled f.tx = x.fifo.released + settled x.fifo.tx)
    (hpk : f.sent = x.fifo.sent)
    (hdropped : f.stream.streamDropped = x.fifo.stream.streamDropped)
    (hpacket : ∀ n, packetOf f.tx = some n → 1 ≤ n ∧ n ≤ 14) : Ledger { x with fifo := f } := by
  constructor
  · exact hinv
  · show x.selected = x.fates.map Prod.fst ++ hand f.pump
    rw [hhand]
    exact h.selected
  · exact h.order
  · show only .queued x.fates = f.staged.drop (f.released + settled f.tx)
    rw [hplace, hstaged]
    exact h.queued
  · show only .sent x.fates = f.sent.flatMap fun p => p.2.records
    rw [hpk]
    exact h.sent
  · exact hdropped.trans h.dropped
  · exact hpacket
  · show ∀ p ∈ f.sent, _
    rw [hpk]
    exact h.packets

/-- **Step lemma**, the sending thread outside `tx_notify`. -/
theorem Ledger.moved {x : Preview} (h : Ledger x) (hmax : x.fifo.stream.streamMax = 14) {now : Int}
    {f : Fifo} (hs : txStep x.fifo now = some f) : Ledger { x with fifo := f } := by
  have hinv := txStep_inv h.inv hs
  obtain ⟨pc, pkt, tail, rel, ts, hram⟩ := txStep_ram hs
  have hfifo : hand f.pump = hand x.fifo.pump ∧ f.staged = x.fifo.staged ∧ f.sent = x.fifo.sent ∧
      f.stream.streamDropped = x.fifo.stream.streamDropped := by
    rw [hram]
    exact ⟨rfl, rfl, rfl, rfl⟩
  obtain ⟨hhand, hstaged, hpk, hdropped⟩ := hfifo
  have hmove : f.released + settled f.tx = x.fifo.released + settled x.fifo.tx ∧
      ∀ n, packetOf f.tx = some n → 1 ≤ n ∧ n ≤ 14 := by
    have hpacket := h.packet
    unfold txStep at hs
    cases hpc : x.fifo.tx with
    | waiting | check | haveHead =>
      rw [hpc] at hs
      obtain rfl := Option.some.inj hs
      exact ⟨rfl, fun n hn => by cases hn⟩
    | messages =>
      rw [hpc] at hs
      obtain rfl := Option.some.inj hs
      dsimp only
      split
      · exact ⟨rfl, fun n hn => by cases hn⟩
      · exact ⟨rfl, fun n hn => by cases hn⟩
    | message | packed =>
      rw [hpc] at hs
      exact absurd hs (by simp)
    | avail a =>
      rw [hpc] at hs
      dsimp only at hs
      split at hs
      · obtain rfl := Option.some.inj hs
        exact ⟨rfl, fun n hn => by cases hn⟩
      · rename_i hsome
        split at hs
        · obtain rfl := Option.some.inj hs
          exact ⟨rfl, fun n hn => by cases hn⟩
        · -- a packet is begun: its size is at least 1 and at most `stream_max`
          obtain rfl := Option.some.inj hs
          refine ⟨rfl, fun n hn => ?_⟩
          have hsize : min a x.fifo.stream.streamMax.toNat = n := Option.some.inj hn
          have hfourteen : x.fifo.stream.streamMax.toNat = 14 := by
            rw [hmax]
            rfl
          omega
    | copying n i =>
      rw [hpc] at hs hpacket
      dsimp only at hs
      split at hs
      · obtain rfl := Option.some.inj hs
        exact ⟨rfl, hpacket⟩
      · obtain rfl := Option.some.inj hs
        exact ⟨rfl, hpacket⟩
    | notified n =>
      rw [hpc] at hs hpacket
      obtain rfl := Option.some.inj hs
      exact ⟨rfl, hpacket⟩
    | tailRead n tail =>
      rw [hpc] at hs
      obtain rfl := Option.some.inj hs
      exact ⟨rfl, fun n hn => by cases hn⟩
  exact h.keep hinv hhand hstaged hmove.1 hpk hdropped hmove.2

/-- **Step lemma**, an answer: the packet's records are sent, or they are counted as dropped. -/
theorem Ledger.answered {x : Preview} (h : Ledger x) {ok : Bool} {f : Fifo}
    (hs : notifyStep x.fifo ok = some f) {y : Preview} (hf : y.fifo = f)
    (hsel : y.selected = x.selected)
    (hfates : y.fates = Subscription.answered x.fifo.tx ok x.fates) : Ledger y := by
  obtain ⟨fifo, credits, inFlight, holding, clean, selected, fates⟩ := y
  obtain rfl : fifo = f := hf
  obtain rfl : selected = x.selected := hsel
  obtain rfl : fates = _ := hfates
  have hinv := notifyStep_inv h.inv hs
  have hpacket := h.packet
  unfold notifyStep at hs
  cases hpc : x.fifo.tx with
  -- a message line carries no records
  | message =>
    rw [hpc] at hs
    obtain rfl := Option.some.inj hs
    have hplace : x.fifo.released + settled TxPc.messages = x.fifo.released + settled x.fifo.tx := by
      rw [hpc]
      rfl
    have hkeep := h.keep hinv rfl rfl hplace rfl rfl fun n hn => by cases hn
    exact ⟨hkeep.inv, hkeep.selected, hkeep.order, hkeep.queued, hkeep.sent, hkeep.dropped,
      hkeep.packet, hkeep.packets⟩
  | packed n =>
    have htx := h.inv.tx
    have hqueued := h.queued
    rw [hpc] at hs hpacket htx hqueued
    obtain ⟨hn, hin⟩ := htx
    have hpending : only .queued x.fates = x.fifo.staged.drop x.fifo.released := hqueued
    have hsize := hpacket n rfl
    cases ok with
    | true =>
      obtain rfl := Option.some.inj hs
      -- the copies in the packet are the oldest queued records
      have hrecords := hin.slice hn
      constructor
      · exact hinv
      · show x.selected = (settle .sent n x.fates).map Prod.fst ++ hand x.fifo.pump
        rw [settle_fst]
        exact h.selected
      · exact h.order.settle (by decide)
      · show only .queued (settle .sent n x.fates) = x.fifo.staged.drop (x.fifo.released + n)
        rw [settle_queued (by decide), hpending, List.drop_drop]
      · show only .sent (settle .sent n x.fates) =
          (x.fifo.sent ++ [(x.fifo.since, Packet.mk _ _ ((List.range n).map x.fifo.streamPkt))]).flatMap
            fun p => p.2.records
        rw [settle_sent h.order, h.sent, hpending, ← hrecords, List.flatMap_append,
          List.flatMap_singleton]
      · show x.fifo.stream.streamDropped = u32 (only .dropped (settle .sent n x.fates)).length
        rw [settle_other (by decide) (by decide)]
        exact h.dropped
      · exact fun m hm => hpacket m hm
      · intro p hp
        rcases List.mem_append.mp hp with hold | hnew
        · exact h.packets p hold
        · obtain rfl := List.mem_singleton.mp hnew
          show 1 ≤ ((List.range n).map x.fifo.streamPkt).length ∧ _
          rw [List.length_map, List.length_range]
          exact hsize
    | false =>
      obtain rfl := Option.some.inj hs
      constructor
      · exact hinv
      · show x.selected = (settle .dropped n x.fates).map Prod.fst ++ hand x.fifo.pump
        rw [settle_fst]
        exact h.selected
      · exact h.order.settle (by decide)
      · show only .queued (settle .dropped n x.fates) = x.fifo.staged.drop (x.fifo.released + n)
        rw [settle_queued (by decide), hpending, List.drop_drop]
      · show only .sent (settle .dropped n x.fates) = x.fifo.sent.flatMap fun p => p.2.records
        rw [settle_other (by decide) (by decide)]
        exact h.sent
      · show u32 (x.fifo.stream.streamDropped + n) =
          u32 (only .dropped (settle .dropped n x.fates)).length
        -- `n` records are there to be counted, so the counter grows by `n`
        have hmin : min n (x.fifo.staged.drop x.fifo.released).length = n := by
          rw [List.length_drop]
          omega
        rw [settle_dropped, hpending, hmin, h.dropped, u32_u32_add]
      · exact fun m hm => hpacket m hm
      · exact h.packets
  | waiting | messages | check | haveHead | avail | copying | notified | tailRead =>
    rw [hpc] at hs
    exact absurd hs (by simp)

/-- The credits and the account of calls are none of the ledger's. -/
theorem Ledger.congr {x y : Preview} (h : Ledger x) (hf : y.fifo = x.fifo)
    (hs : y.selected = x.selected) (hl : y.fates = x.fates) : Ledger y := by
  constructor
  · rw [hf]
    exact h.inv
  · rw [hf, hs, hl]
    exact h.selected
  · rw [hl]
    exact h.order
  · rw [hf, hl]
    exact h.queued
  · rw [hf, hl]
    exact h.sent
  · rw [hf, hl]
    exact h.dropped
  · rw [hf]
    exact h.packet
  · rw [hf]
    exact h.packets

/-- A step that leaves the FIFO to itself. -/
theorem Ledger.aside {x : Preview} (h : Ledger x) {f : Fifo} (hf : Aside x.fifo f) :
    Ledger { x with fifo := f } := by
  obtain ⟨hcom, hhand, hsound⟩ := hf.hand
  have htx : TxSound x.fifo f.tx := by
    rw [hf.tx]
    exact h.inv.tx
  have happ : AppSound x.fifo f.app := by
    rw [hf.app]
    exact h.inv.app
  have hinv := h.inv.frame hf.head hf.tail hf.sfifo hf.pkt hf.staged hf.released hf.since hf.sent
    hcom (hsound h.inv.pump) htx happ
  refine h.keep hinv hhand hf.staged ?_ hf.sent hf.dropped ?_
  · rw [hf.released, hf.tx]
  · rw [hf.tx]
    exact h.packet

/-- **A clean enable opens a ledger**, whatever state the FIFO was in. -/
theorem Ledger.opened {x : Preview} (hg : Grounded x.fifo) (hidle : x.fifo.tx.busy = false)
    (odrCode : UInt8) (logActive : Bool) (uptime : Int) :
    Ledger { x with
      fifo := enabled x.fifo odrCode logActive uptime, clean := true
      selected := hand x.fifo.pump, fates := [] } := by
  have hnone : settled x.fifo.tx = 0 ∧ packetOf x.fifo.tx = none := by
    cases htx : x.fifo.tx with
    | waiting | messages | message | check | haveHead | avail => exact ⟨rfl, rfl⟩
    | copying | packed | notified | tailRead =>
      rw [htx] at hidle
      exact absurd hidle Bool.noConfusion
  constructor
  · exact hg.enabled hidle odrCode logActive uptime
  · rfl
  · trivial
  · show [] = x.fifo.staged.drop (x.fifo.staged.length + settled x.fifo.tx)
    rw [hnone.1, Nat.add_zero, List.drop_length]
  · rfl
  · rfl
  · intro n hn
    have hpacket : packetOf x.fifo.tx = some n := hn
    rw [hnone.2] at hpacket
    exact absurd hpacket (by simp)
  · intro p hp
    exact absurd hp (by simp [enabled])

/-- **Step lemma.** -/
theorem Turn.ledger {x y : Preview} (hg : Grounded x.fifo) (h : x.clean = true → Ledger x)
    (ht : Turn x y) (hclean : y.clean = true) : Ledger y := by
  cases ht with
  | pumped hf => exact ((h hclean).pumped hf).congr rfl rfl rfl
  | moved hf => exact (h hclean).moved hg.max hf
  | aside hf => exact (h hclean).aside hf
  | enabled odrCode logActive uptime =>
    have hidle : x.fifo.tx.busy = false := by simpa using hclean
    exact (Ledger.opened hg hidle odrCode logActive uptime).congr rfl rfl rfl
  | took _ _ _ => exact (h hclean).congr rfl rfl rfl
  | retried _ => exact (h hclean).congr rfl rfl rfl
  | returned hf _ => exact (h hclean).answered hf rfl rfl rfl
  | called _ => exact (h hclean).congr rfl rfl rfl

/-- **Run lemma.** -/
theorem reach_ledger {x : Preview} (h : Reach Start Next x) :
    x.Paid ∧ Grounded x.fifo ∧ (x.clean = true → Ledger x) := by
  refine Reach.invariant (I := fun x : Preview => x.Paid ∧ Grounded x.fifo ∧
    (x.clean = true → Ledger x)) ?_ ?_ h
  · rintro x rfl
    refine ⟨⟨rfl, fun hsome => by cases hsome⟩, ⟨rfl, start_inv.holds, trivial, rfl, rfl⟩, fun _ => ?_⟩
    exact ⟨start_inv, rfl, trivial, rfl, rfl, rfl,
      fun _ hn => absurd hn (by simp [Preview.cold, Fifo.cold, packetOf]),
      fun _ hp => absurd hp (by simp [Preview.cold, Fifo.cold])⟩
  · rintro x e y - ⟨hpaid, hg, hledger⟩ hst
    have ht := next_turn hst
    exact ⟨ht.paid hpaid, ht.grounded hg, ht.ledger hg hledger⟩

/-! ## The account of a subscription -/

/-- What is in the FIFO, oldest first. -/
def inFifo (s : Fifo) : List ImuSample :=
  (List.range (u32Sub s.stream.sfifoHead s.stream.sfifoTail)).map fun i =>
    s.sfifo (sfifoSlot (u32 (s.stream.sfifoTail + i)))

/-- **The slots between the indices** hold what was staged and not released. -/
theorem inFifo_eq {s : Fifo} (h : Inv s) : inFifo s = s.staged.drop s.released := by
  have hroom := h.room
  unfold inFifo
  rw [h.distance]
  refine List.ext_getElem (by simp) fun k hk _ => ?_
  rw [List.length_map, List.length_range] at hk
  have hslot : sfifoSlot (u32 (s.stream.sfifoTail + k)) = (s.released + k) % 256 := by
    rw [h.tail, u32_u32_add, sfifoSlot_u32]
  rw [List.getElem_map, List.getElem_range, hslot, h.holds _ (by omega) (by omega),
    List.getElem_drop]
  show s.staged.getD (s.released + k) default = _
  rw [List.getD_eq_getElem?_getD, List.getElem?_eq_getElem (by omega)]
  rfl

/-- The account of a subscription. -/
structure Accounted (x : Preview) : Prop where
  /-- Every sample selected has one fate, in order, the one in the pump's hand apart. -/
  selected : x.selected = x.fates.map Prod.fst ++ hand x.fifo.pump
  /-- The sent ones are the records of the packets, in order. -/
  sent : only .sent x.fates = x.fifo.sent.flatMap fun p => p.2.records
  /-- The dropped ones are counted. -/
  dropped : x.selected.length < 4294967296 →
    x.fifo.stream.streamDropped = (only .dropped x.fates).length
  /-- The queued ones are in the FIFO, in order; a packet whose fate is known leaves it a step
      later. -/
  queued : settled x.fifo.tx = 0 → only .queued x.fates = inFifo x.fifo
  /-- Each packet has 1 to 14 records that went through the FIFO one after the other. -/
  packets : ∀ p ∈ x.fifo.sent,
    1 ≤ p.2.records.length ∧ p.2.records.length ≤ 14 ∧ p.2.records <:+: x.fifo.staged

theorem Ledger.accounted {x : Preview} (h : Ledger x) : Accounted x := by
  constructor
  · exact h.selected
  · exact h.sent
  · intro hfew
    have hall : (only .dropped x.fates).length ≤ x.selected.length := by
      unfold only
      rw [h.selected, List.length_append, List.length_map, List.length_map]
      have hle := List.length_filter_le (fun p : ImuSample × Fate => p.2 = .dropped) x.fates
      omega
    rw [h.dropped]
    exact u32_of_lt (by omega)
  · intro hnone
    rw [inFifo_eq h.inv, h.queued, hnone]
    rfl
  · intro p hp
    obtain ⟨hpos, hmost⟩ := h.packets p hp
    obtain ⟨k, -, -, hpiece⟩ := h.inv.sent p hp
    refine ⟨hpos, hmost, ?_⟩
    rw [hpiece]
    exact (List.take_prefix _ _).isInfix.trans (List.drop_suffix _ _).isInfix

/-- **Every previewed sample is accounted for**, in every subscription that starts with the sending
    thread without a packet; and in every run the credits add up. -/
theorem preview_accounted {x : Preview} (h : Reach Start Next x) :
    x.inFlight + x.txCredits.count + x.held = 2 ∧ (x.clean = true → Accounted x) := by
  obtain ⟨hpaid, -, hledger⟩ := reach_ledger h
  exact ⟨hpaid.two, fun hclean => (hledger hclean).accounted⟩

/-- The sink selects and stages `n` samples. -/
def stage (n : Nat) : List Act :=
  .sink (List.replicate n default) :: List.replicate (4 * n + 1) (.pump 0)

/-- The sending thread makes a full packet and takes a credit for it. -/
def pack : List Act := List.replicate 20 (.tx 0) ++ [.take]

/-- Two full packets, one sent and one refused, and one sample left in the FIFO. -/
def twoPackets : List Act :=
  [.enable 7 false 0] ++ stage 29 ++ pack ++ [.attempt .busy, .attempt .accepted, .tx 0, .tx 0] ++
    pack.drop 2 ++ [.attempt .error, .tx 0, .tx 0, .sentCb]

/-- 29 samples: 14 sent, 14 dropped, 1 queued. -/
theorem preview_accounted_two : ∃ x : Preview, (x.inFlight + x.txCredits.count + x.held = 2 ∧
    (x.clean = true → Accounted x)) ∧ x.clean = true ∧ x.selected.length = 29 ∧
    x.fates.map Prod.snd = List.replicate 14 .sent ++ List.replicate 14 .dropped ++ [.queued] := by
  have hrun : (twoPackets.foldlM next Preview.cold).any (fun x => decide (x.clean = true ∧
      x.selected.length = 29 ∧ x.fates.map Prod.snd =
        List.replicate 14 .sent ++ List.replicate 14 .dropped ++ [.queued])) = true := by
    decide +kernel
  obtain ⟨x, hx, hout⟩ := (Option.any_eq_true _ _).mp hrun
  exact ⟨x, preview_accounted (Reach.run (fun _ _ _ hst => hst) (.start rfl) hx),
    of_decide_eq_true hout⟩

end Caterpillar.Ble.Subscription
