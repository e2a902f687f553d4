/-
  Message lines (src/ble/ble_transport.c): `ble_msg`, its two rings, and the message loop of
  `tx_thread`, interleaved.

  1. **Programs.**  `lineOf` is what `vsnprintf` leaves in `line`; `stamped` what `t2_store` makes of
     it.  The critical section of `ble_msg` is stepped through down to the single byte that `strncpy`
     writes (`ProdPc`); the sending thread, which does not take `msgq_lock`, holds a pointer into the
     queue for as long as `tx_notify` takes (`TxPc`).
  2. **What is recorded beside them**: the calls in the order they took the lock, the lines enqueued
     and left out, the lines handed to `tx_notify`, and what each attempt to send read.
  3. **Invariant** (`Inv`): the slots from the tail to the head hold the enqueued lines that are not
     done, the slot being filled is none of them, and the history ring holds the last 2048 bytes.
  4. `messages_delivered`.

  Callers that wait for the lock touch nothing, so the holder stands for any number of them.  The
  history ring is touched under the lock only, by `t2_store` and by the snapshot, and `t2_store` is
  one step.
-/
import Caterpillar.Lib.Ring
import Caterpillar.Lib.Runs
import Caterpillar.Lib.Word
import Caterpillar.Ble.StreamFifo
import Mathlib.Data.List.TakeWhile

namespace Caterpillar.Ble.Messages

open Caterpillar.Word Caterpillar.Ring Caterpillar.Runs
open Caterpillar.Ble.Sfifo (msgqN)

/-! ## Lines -/

/-- `MSG_LEN`. -/
def msgLen : Nat := 120

/-- `T2_RING_SIZE`. -/
def t2RingSize : Nat := 2048

/-- The C string `vsnprintf` leaves in `char line[MSG_LEN]`. -/
def lineOf (text : List UInt8) : List UInt8 := (text.take (msgLen - 1)).takeWhile (· ≠ 0)

/-- What a buffer of `MSG_LEN` characters holds as a C string. -/
structure Plain (line : List UInt8) : Prop where
  fits : line.length ≤ 119
  noNul : ∀ c ∈ line, c ≠ 0

theorem lineOf_plain (text : List UInt8) : Plain (lineOf text) := by
  constructor
  · have hle := (List.takeWhile_prefix (p := (· ≠ (0 : UInt8))) (l := text.take (msgLen - 1))).length_le
    rw [List.length_take] at hle
    have hlen : msgLen - 1 = 119 := rfl
    unfold lineOf
    omega
  · intro c hc
    have hne := List.mem_takeWhile_imp hc
    simpa using hne

/-- The C string at the front of a slot. -/
def cstr (slot : Nat → UInt8) : List UInt8 :=
  ((List.range msgLen).map slot).takeWhile (· ≠ 0)

/-- A decimal number, `%lld`. -/
def decimal (n : Nat) : List UInt8 := (Nat.toDigits 10 n).map fun c => UInt8.ofNat c.toNat

/-- What `t2_store` leaves in `char stamped[MSG_LEN + 16]`: `"[%5lld.%03lld] %s\n"`. -/
def stamped (up : Nat) (line : List UInt8) : List UInt8 :=
  ([0x5B] ++ (decimal (up / 1000)).leftpad 5 0x20 ++ [0x2E] ++
    (decimal (up % 1000)).leftpad 3 0x30 ++ [0x5D, 0x20] ++ line ++ [0x0A]).take (msgLen + 16 - 1)

/-! ## The programs -/

/-- Where the caller of `ble_msg` is that holds `msgq_lock`. -/
inductive ProdPc where
  | entered (line : List UInt8) (up : Nat)
  /-- `t2_store` has returned. -/
  | stored (line : List UInt8)
  /-- The queue was found not full; `k` bytes of the slot are written. -/
  | copying (line : List UInt8) (k : Nat)
  /-- The slot is complete. -/
  | copied (line : List UInt8)
  | leaving

/-- Where `tx_thread` is in its message loop. -/
inductive TxPc where
  | idle
  /-- In `tx_notify` with the slot at the tail and `len` of its bytes. -/
  | sending (len tries : Nat)
  deriving DecidableEq

/-- The statics, the two programs, and what is recorded of the run. -/
structure Msgs where
  msgq : Nat → Nat → UInt8
  msgqHead : Nat
  msgqTail : Nat
  t2Ring : Nat → UInt8
  t2Head : Nat
  holder : Option ProdPc
  tx : TxPc
  /-- The lines given to `t2_store`, with the uptime stamped on them. -/
  called : List (Nat × List UInt8)
  enqueued : List (List UInt8)
  /-- The lines left out of the queue, with the number of lines pending then. -/
  leftOut : List (List UInt8 × Nat)
  /-- How many lines are behind the tail. -/
  done : Nat
  handed : List (List UInt8)
  /-- What each attempt to send read, and the number of the line. -/
  attempts : List (Nat × List UInt8)

/-- All stamped lines ever stored. -/
def Msgs.history (s : Msgs) : List UInt8 := s.called.flatMap fun c => stamped c.1 c.2

/-- The slot at the head. -/
def Msgs.headSlot (s : Msgs) : Nat := s.msgqHead % msgqN

/-- The slot at the tail. -/
def Msgs.tailSlot (s : Msgs) : Nat := s.msgqTail % msgqN

/-- One turn of the loop of `t2_store`. -/
def t2Put (s : Msgs) (c : UInt8) : Msgs :=
  { s with
    t2Ring := Function.update s.t2Ring (s.t2Head % t2RingSize) c
    t2Head := u32 (s.t2Head + 1) }

/-- `t2_store`. -/
def t2Store (s : Msgs) (up : Nat) (line : List UInt8) : Msgs := (stamped up line).foldl t2Put s

/-- `ble_transport_t2_snapshot`. -/
def t2Snapshot (s : Msgs) (max : Nat) : List UInt8 :=
  let used := min (min s.t2Head t2RingSize) max
  let start := u32Sub s.t2Head used
  (List.range used).map fun i => s.t2Ring (u32 (start + i) % t2RingSize)

/-- Store one byte in the slot at the head. -/
def Msgs.poke (s : Msgs) (k : Nat) (c : UInt8) : Msgs :=
  { s with msgq := Function.update s.msgq s.headSlot (Function.update (s.msgq s.headSlot) k c) }

/-- One step of `ble_msg` under the lock. -/
def prodStep (s : Msgs) : Option Msgs :=
  match s.holder with
  | none => none
  | some (.entered line up) =>
      some { t2Store s up line with
        called := s.called ++ [(up, line)], holder := some (.stored line) }
  | some (.stored line) =>
      if u32Sub s.msgqHead s.msgqTail < msgqN then some { s with holder := some (.copying line 0) }
      else
        some { s with
          leftOut := s.leftOut ++ [(line, s.enqueued.length - s.done)], holder := some .leaving }
  | some (.copying line k) =>
      -- `strncpy` pads with zeros up to `MSG_LEN - 1`, and the last byte is set on its own
      if k < msgLen - 1 then
        some { s.poke k (line.getD k 0) with holder := some (.copying line (k + 1)) }
      else some { s.poke (msgLen - 1) 0 with holder := some (.copied line) }
  | some (.copied line) =>
      some { s with
        msgqHead := u32 (s.msgqHead + 1), enqueued := s.enqueued ++ [line], holder := some .leaving }
  | some .leaving => some { s with holder := none }

/-- What can happen. -/
inductive Act where
  /-- `ble_msg` has formatted a text and takes the lock. -/
  | msg (text : List UInt8) (up : Nat)
  | prod
  /-- The sending thread takes the line at the tail. -/
  | tx
  /-- `bt_gatt_notify_cb` reads it. -/
  | attempt
  /-- `tx_notify` returns. -/
  | returned

/-- One step; `none` where it cannot happen. -/
def step (s : Msgs) : Act → Option Msgs
  | .msg text up =>
      if s.holder.isNone ∧ text ≠ [] then some { s with holder := some (.entered (lineOf text) up) }
      else none
  | .prod => prodStep s
  | .tx =>
      match s.tx with
      | .idle =>
          if s.msgqTail ≠ s.msgqHead then
            let line := cstr (s.msgq s.tailSlot)
            some { s with tx := .sending line.length 0, handed := s.handed ++ [line] }
          else none
      | _ => none
  | .attempt =>
      match s.tx with
      | .sending len tries =>
          if tries < 100 then
            some { s with
              attempts := s.attempts ++ [(s.done, (List.range len).map (s.msgq s.tailSlot))]
              tx := .sending len (tries + 1) }
          else none
      | _ => none
  | .returned =>
      match s.tx with
      | .sending _ _ =>
          some { s with msgqTail := u32 (s.msgqTail + 1), done := s.done + 1, tx := .idle }
      | _ => none

/-- The step relation. -/
def Step (s : Msgs) (e : Act) (s' : Msgs) : Prop := step s e = some s'

/-- Both rings empty, the queue's counters at any value. -/
def Start (base : Nat) (s : Msgs) : Prop :=
  ∃ msgq t2Ring, s = ⟨msgq, u32 base, u32 base, t2Ring, 0, none, .idle, [], [], [], 0, [], []⟩

/-! ## Slots -/

/-- A slot filled by `strncpy` holds the line. -/
theorem cstr_filled {slot : Nat → UInt8} {line : List UInt8} (h : Plain line)
    (hslot : ∀ b, b < msgLen → slot b = line.getD b 0) : cstr slot = line := by
  have hlen : msgLen = 120 := rfl
  have hfits := h.fits
  have hbytes : (List.range msgLen).map slot = line ++ List.replicate (msgLen - line.length) 0 := by
    refine List.ext_getElem (by simp; omega) fun b hb _ => ?_
    rw [List.length_map, List.length_range] at hb
    rw [List.getElem_map, List.getElem_range, hslot b hb, List.getD_eq_getElem?_getD]
    rcases Nat.lt_or_ge b line.length with hin | hout
    · rw [List.getElem_append_left hin, List.getElem?_eq_getElem hin]
      rfl
    · rw [List.getElem_append_right hout, List.getElem?_eq_none hout, List.getElem_replicate]
      rfl
  unfold cstr
  rw [hbytes, List.takeWhile_append_of_pos (fun c hc => by simpa using h.noNul c hc),
    List.takeWhile_replicate]
  simp

/-- As many bytes as `strlen` counts are the string. -/
theorem cstr_read (slot : Nat → UInt8) : (List.range (cstr slot).length).map slot = cstr slot := by
  have hpre : cstr slot <+: (List.range msgLen).map slot := List.takeWhile_prefix _
  have hle := hpre.length_le
  rw [List.length_map, List.length_range] at hle
  have htake := List.prefix_iff_eq_take.mp hpre
  rw [← List.map_take, List.take_range, Nat.min_eq_left hle] at htake
  exact htake.symm

/-! ## The history ring -/

/-- The ring holds the last bytes of the history. -/
structure Remembers (s : Msgs) (history : List UInt8) : Prop where
  head : s.t2Head = u32 history.length
  holds : Holds t2RingSize s.t2Ring (history.length - t2RingSize) history.length
    fun r => history.getD r 0

/-- One byte more. -/
theorem Remembers.put {s : Msgs} {history : List UInt8} (h : Remembers s history) (c : UInt8) :
    Remembers (t2Put s c) (history ++ [c]) := by
  constructor
  · show u32 (s.t2Head + 1) = u32 (history ++ [c]).length
    rw [h.head, u32_u32_add, List.length_append, List.length_singleton]
  · have hslot : s.t2Head % t2RingSize = history.length % t2RingSize := by
      rw [h.head]
      exact u32_mod_of_dvd (by decide) _
    show Holds t2RingSize (Function.update s.t2Ring (s.t2Head % t2RingSize) c) _ _ _
    rw [hslot]
    exact h.holds.push c

/-- One line more. -/
theorem Remembers.store {s : Msgs} {history : List UInt8} (h : Remembers s history)
    (l : List UInt8) : Remembers (l.foldl t2Put s) (history ++ l) := by
  induction l generalizing s history with
  | nil =>
    rw [List.append_nil]
    exact h
  | cons c l ih =>
    rw [List.append_cons]
    exact ih (h.put c)

/-- `t2_store` touches the history ring only. -/
theorem t2Fold_ram (l : List UInt8) (s : Msgs) :
    ∃ r n, l.foldl t2Put s = { s with t2Ring := r, t2Head := n } := by
  induction l generalizing s with
  | nil => exact ⟨s.t2Ring, s.t2Head, rfl⟩
  | cons c l ih =>
    obtain ⟨r, n, hram⟩ := ih (t2Put s c)
    exact ⟨r, n, hram⟩

/-- **The snapshot** is the end of the history, as much of it as the ring and the caller's buffer
    hold and `t2_head` counts. -/
theorem Remembers.snapshot_any {s : Msgs} {history : List UInt8} (h : Remembers s history)
    (max : Nat) : t2Snapshot s max =
      history.drop (history.length - min (min (u32 history.length) t2RingSize) max) := by
  unfold t2Snapshot
  dsimp only
  rw [h.head]
  have hword := u32_lt history.length
  have hcounted : u32 history.length ≤ history.length := Nat.mod_le _ _
  generalize hused : min (min (u32 history.length) t2RingSize) max = used
  have hle : used ≤ u32 history.length ∧ used ≤ t2RingSize := by omega
  rw [u32Sub_of_le hle.1 hword]
  refine List.ext_getElem (by simp; omega) fun k hk _ => ?_
  rw [List.length_map, List.length_range] at hk
  have hin : history.length - used + k < history.length := by omega
  -- a turn of the counter is a whole number of turns of the ring
  have hslot : u32 (u32 history.length - used + k) % t2RingSize =
      (history.length - used + k) % t2RingSize := by
    have hturn : u32 history.length % t2RingSize = history.length % t2RingSize :=
      u32_mod_of_dvd (by decide) _
    rw [u32_of_lt (by omega)]
    unfold t2RingSize at hturn ⊢
    omega
  rw [List.getElem_map, List.getElem_range, List.getElem_drop, hslot, h.holds _ (by omega) hin]
  show history.getD _ 0 = _
  rw [List.getD_eq_getElem?_getD, List.getElem?_eq_getElem hin]
  rfl

/-- The same before the counter wraps. -/
theorem Remembers.snapshot {s : Msgs} {history : List UInt8} (h : Remembers s history)
    (hlen : history.length < 4294967296) (max : Nat) :
    t2Snapshot s max =
      history.drop (history.length - min (min history.length t2RingSize) max) := by
  have hany := h.snapshot_any max
  rwa [u32_of_lt hlen] at hany

/-! ## The invariant -/

/-- A slot is being filled. -/
def claimed : Option ProdPc → Nat
  | some (.copying _ _) | some (.copied _) => 1
  | _ => 0

/-- The line is in the caller's hands: stored in the history, neither enqueued nor left out. -/
def inHand : Option ProdPc → List (List UInt8)
  | some (.stored line) | some (.copying line _) | some (.copied line) => [line]
  | _ => []

/-- A line is being sent. -/
def TxPc.busy : TxPc → Nat
  | .idle => 0
  | .sending _ _ => 1

/-- What the caller under the lock relies on. -/
def ProdSound (s : Msgs) : Option ProdPc → Prop
  | some (.entered line _) | some (.stored line) => Plain line
  | some (.copying line k) => Plain line ∧ k < msgLen ∧ ∀ b, b < k → s.msgq s.headSlot b = line.getD b 0
  | some (.copied line) => Plain line ∧ ∀ b, b < msgLen → s.msgq s.headSlot b = line.getD b 0
  | _ => True

/-- What the sending thread relies on. -/
def TxSound (s : Msgs) : TxPc → Prop
  | .idle => True
  | .sending len _ => s.done < s.enqueued.length ∧ len = (s.enqueued.getD s.done []).length

/-- The invariant, for counters that started at `base`. -/
structure Inv (base : Nat) (s : Msgs) : Prop where
  head : s.msgqHead = u32 (base + s.enqueued.length)
  tail : s.msgqTail = u32 (base + s.done)
  le : s.done ≤ s.enqueued.length
  room : s.enqueued.length + claimed s.holder ≤ s.done + 4
  holds : Holds 4 (cstr ∘ s.msgq) (base + s.done) (base + s.enqueued.length)
    fun r => s.enqueued.getD (r - base) []
  prod : ProdSound s s.holder
  tx : TxSound s s.tx
  handed : s.handed = s.enqueued.take (s.done + s.tx.busy)
  attempts : ∀ p ∈ s.attempts, s.handed[p.1]? = some p.2
  leftOut : ∀ p ∈ s.leftOut, p.2 = msgqN
  order : (s.enqueued ++ inHand s.holder).Sublist (s.called.map Prod.snd)
  split : (s.called.map Prod.snd).Perm (s.enqueued ++ s.leftOut.map Prod.fst ++ inHand s.holder)
  remembers : Remembers s s.history

/-- The distance of the counters is the number of lines pending. -/
theorem Inv.distance {base : Nat} {s : Msgs} (h : Inv base s) :
    u32Sub s.msgqHead s.msgqTail = s.enqueued.length - s.done := by
  have hle := h.le
  have hroom := h.room
  rw [h.head, h.tail, u32Sub_u32 (by omega) (by omega)]
  omega

theorem Inv.headSlot {base : Nat} {s : Msgs} (h : Inv base s) :
    s.headSlot = (base + s.enqueued.length) % 4 := by
  unfold Msgs.headSlot
  rw [h.head]
  exact u32_mod_of_dvd (by decide) _

theorem Inv.tailSlot {base : Nat} {s : Msgs} (h : Inv base s) :
    s.tailSlot = (base + s.done) % 4 := by
  unfold Msgs.tailSlot
  rw [h.tail]
  exact u32_mod_of_dvd (by decide) _

/-- The slot being filled is not the one at the tail, unless nothing is pending. -/
theorem Inv.slots_ne {base : Nat} {s : Msgs} (h : Inv base s) (hc : claimed s.holder = 1)
    (hp : s.done < s.enqueued.length) : s.tailSlot ≠ s.headSlot := by
  have hroom := h.room
  rw [h.tailSlot, h.headSlot]
  exact slot_ne (by omega) (by omega)

/-- The line at the tail is the next one. -/
theorem Inv.at_tail {base : Nat} {s : Msgs} (h : Inv base s) (hp : s.done < s.enqueued.length) :
    cstr (s.msgq s.tailSlot) = s.enqueued.getD s.done [] := by
  have hat := h.holds (base + s.done) (Nat.le_refl _) (by omega)
  rw [← h.tailSlot] at hat
  have hidx : base + s.done - base = s.done := by omega
  have hline : cstr (s.msgq s.tailSlot) = s.enqueued.getD (base + s.done - base) [] := hat
  rwa [hidx] at hline

/-! ## The caller under the lock -/

/-- What the sending thread relies on survives a line more. -/
theorem TxSound.grow {s s' : Msgs} {pc : TxPc} (h : TxSound s pc) (hd : s'.done = s.done)
    (hg : s.enqueued <+: s'.enqueued) : TxSound s' pc := by
  cases pc with
  | idle => trivial
  | sending len tries =>
    obtain ⟨hlt, hlen⟩ := h
    obtain ⟨l, hl⟩ := hg
    constructor
    · rw [hd, ← hl, List.length_append]
      omega
    · rw [hd, ← hl, hlen, List.getD_eq_getElem?_getD, List.getD_eq_getElem?_getD,
        List.getElem?_append_left hlt]

/-- The line is stored in the history. -/
theorem Inv.store {base : Nat} {s : Msgs} (h : Inv base s) {line : List UInt8} {up : Nat}
    (hpc : s.holder = some (.entered line up)) :
    Inv base { t2Store s up line with
      called := s.called ++ [(up, line)], holder := some (.stored line) } := by
  have hprod := h.prod
  have horder := h.order
  have hsplit := h.split
  have hroom := h.room
  rw [hpc] at hprod horder hsplit hroom
  have hremembers := h.remembers.store (stamped up line)
  unfold t2Store
  obtain ⟨r, n, hram⟩ := t2Fold_ram (stamped up line) s
  rw [hram] at hremembers ⊢
  have hmap : (s.called ++ [(up, line)]).map Prod.snd = s.called.map Prod.snd ++ [line] := by
    rw [List.map_append]
    rfl
  have hhist : Msgs.history { s with
      t2Ring := r, t2Head := n, called := s.called ++ [(up, line)],
      holder := some (.stored line) } = s.history ++ stamped up line := by
    unfold Msgs.history
    rw [List.flatMap_append, List.flatMap_singleton]
  refine ⟨h.head, h.tail, h.le, hroom, h.holds, hprod, h.tx, h.handed, h.attempts, h.leftOut,
    ?_, ?_, ?_⟩
  · show (s.enqueued ++ [line]).Sublist ((s.called ++ [(up, line)]).map Prod.snd)
    have hlast : (s.enqueued ++ []).Sublist (s.called.map Prod.snd) := horder
    rw [List.append_nil] at hlast
    rw [hmap]
    exact hlast.append (List.Sublist.refl _)
  · show ((s.called ++ [(up, line)]).map Prod.snd).Perm
      (s.enqueued ++ s.leftOut.map Prod.fst ++ [line])
    have hlast : (s.called.map Prod.snd).Perm (s.enqueued ++ s.leftOut.map Prod.fst ++ []) := hsplit
    rw [List.append_nil] at hlast
    rw [hmap]
    exact hlast.append_right [line]
  · rw [hhist]
    exact ⟨hremembers.head, hremembers.holds⟩

/-- The queue has room. -/
theorem Inv.claim {base : Nat} {s : Msgs} (h : Inv base s) {line : List UInt8}
    (hpc : s.holder = some (.stored line)) (hroom : u32Sub s.msgqHead s.msgqTail < msgqN) :
    Inv base { s with holder := some (.copying line 0) } := by
  have hprod := h.prod
  have horder := h.order
  have hsplit := h.split
  rw [hpc] at hprod horder hsplit
  rw [h.distance] at hroom
  have hn : msgqN = 4 := rfl
  have hle := h.le
  refine ⟨h.head, h.tail, h.le, ?_, h.holds, ⟨hprod, by decide, ?_⟩, h.tx, h.handed, h.attempts,
    h.leftOut, horder, hsplit, ⟨h.remembers.head, h.remembers.holds⟩⟩
  · show s.enqueued.length + 1 ≤ s.done + 4
    omega
  · intro b hb
    exact absurd hb (Nat.not_lt_zero b)

/-- The queue is full. -/
theorem Inv.leave {base : Nat} {s : Msgs} (h : Inv base s) {line : List UInt8}
    (hpc : s.holder = some (.stored line)) (hfull : ¬ u32Sub s.msgqHead s.msgqTail < msgqN) :
    Inv base { s with
      leftOut := s.leftOut ++ [(line, s.enqueued.length - s.done)], holder := some .leaving } := by
  have horder := h.order
  have hsplit := h.split
  have hroom := h.room
  rw [hpc] at horder hsplit hroom
  rw [h.distance] at hfull
  have hn : msgqN = 4 := rfl
  have hlevel : s.enqueued.length + 0 ≤ s.done + 4 := hroom
  refine ⟨h.head, h.tail, h.le, hroom, h.holds, trivial, h.tx, h.handed, h.attempts, ?_, ?_, ?_,
    ⟨h.remembers.head, h.remembers.holds⟩⟩
  · intro p hp
    rcases List.mem_append.mp hp with hold | hnew
    · exact h.leftOut p hold
    · rw [List.mem_singleton] at hnew
      rw [hnew]
      show s.enqueued.length - s.done = msgqN
      omega
  · show (s.enqueued ++ []).Sublist (s.called.map Prod.snd)
    rw [List.append_nil]
    exact (List.sublist_append_left _ _).trans horder
  · show (s.called.map Prod.snd).Perm
      (s.enqueued ++ (s.leftOut ++ [(line, _)]).map Prod.fst ++ [])
    rw [List.map_append, List.append_nil, ← List.append_assoc]
    exact hsplit

/-- **Filling the slot** at the head changes nothing that is pending. -/
theorem Inv.poke {base : Nat} {s : Msgs} (h : Inv base s) (hc : claimed s.holder = 1) (k : Nat)
    (c : UInt8) {pc : Option ProdPc} (hc' : claimed pc = 1) (hin : inHand pc = inHand s.holder)
    (hprod : ProdSound (s.poke k c) pc) : Inv base { s.poke k c with holder := pc } := by
  have hroom := h.room
  have horder := h.order
  have hsplit := h.split
  rw [hc] at hroom
  rw [← hin] at horder hsplit
  refine ⟨h.head, h.tail, h.le, ?_, ?_, hprod, h.tx, h.handed, h.attempts, h.leftOut, horder,
    hsplit, ⟨h.remembers.head, h.remembers.holds⟩⟩
  · rw [← hc'] at hroom
    exact hroom
  · show Holds 4 (cstr ∘ Function.update s.msgq s.headSlot _) _ _ _
    rw [Function.comp_update, h.headSlot]
    exact h.holds.write (by omega) _

/-- **Publishing the slot.** -/
theorem Inv.publish {base : Nat} {s : Msgs} (h : Inv base s) {line : List UInt8}
    (hpc : s.holder = some (.copied line)) :
    Inv base { s with
      msgqHead := u32 (s.msgqHead + 1), enqueued := s.enqueued ++ [line],
      holder := some .leaving } := by
  have hprod := h.prod
  have horder := h.order
  have hsplit := h.split
  have hroom := h.room
  have hle := h.le
  rw [hpc] at hprod horder hsplit hroom
  obtain ⟨hplain, hslot⟩ := hprod
  have hlevel : s.enqueued.length + 1 ≤ s.done + 4 := hroom
  have hlen : (s.enqueued ++ [line]).length = s.enqueued.length + 1 := by simp
  have hbusy : s.done + s.tx.busy ≤ s.enqueued.length := by
    have htx := h.tx
    cases hb : s.tx with
    | idle => exact hle
    | sending len tries =>
      rw [hb] at htx
      exact htx.1
  refine ⟨?_, h.tail, ?_, ?_, ?_, trivial, h.tx.grow rfl (List.prefix_append _ _), ?_, h.attempts,
    h.leftOut, ?_, ?_, ⟨h.remembers.head, h.remembers.holds⟩⟩
  · show u32 (s.msgqHead + 1) = u32 (base + (s.enqueued ++ [line]).length)
    rw [h.head, u32_u32_add, hlen, Nat.add_assoc]
  · show s.done ≤ (s.enqueued ++ [line]).length
    omega
  · show (s.enqueued ++ [line]).length + 0 ≤ s.done + 4
    omega
  · show Holds 4 (cstr ∘ s.msgq) (base + s.done) (base + (s.enqueued ++ [line]).length) _
    rw [hlen, ← Nat.add_assoc]
    refine Holds.extend (h.holds.congr fun r h1 h2 => ?_) ?_
    · show s.enqueued.getD (r - base) [] = (s.enqueued ++ [line]).getD (r - base) []
      rw [List.getD_eq_getElem?_getD, List.getD_eq_getElem?_getD,
        List.getElem?_append_left (by omega)]
    · have hidx : base + s.enqueued.length - base = s.enqueued.length := by omega
      show cstr (s.msgq ((base + s.enqueued.length) % 4)) = (s.enqueued ++ [line]).getD _ []
      rw [← h.headSlot, cstr_filled hplain hslot, hidx, List.getD_eq_getElem?_getD,
        List.getElem?_concat_length]
      rfl
  · show s.handed = (s.enqueued ++ [line]).take (s.done + s.tx.busy)
    rw [List.take_append_of_le_length hbusy]
    exact h.handed
  · show (s.enqueued ++ [line] ++ []).Sublist (s.called.map Prod.snd)
    rw [List.append_nil]
    exact horder
  · show (s.called.map Prod.snd).Perm
      (s.enqueued ++ [line] ++ s.leftOut.map Prod.fst ++ [])
    rw [List.append_nil, List.append_assoc]
    refine hsplit.trans ?_
    show (s.enqueued ++ s.leftOut.map Prod.fst ++ [line]).Perm _
    rw [List.append_assoc]
    exact List.Perm.append_left _ List.perm_append_comm

/-- What a byte more of the slot is. -/
theorem poke_byte (s : Msgs) (k : Nat) (c : UInt8) (b : Nat) :
    (s.poke k c).msgq s.headSlot b = if b = k then c else s.msgq s.headSlot b := by
  show Function.update s.msgq s.headSlot (Function.update (s.msgq s.headSlot) k c) s.headSlot b = _
  rw [Function.update_self, Function.update_apply]

/-- **Step lemma**, `ble_msg`. -/
theorem prodStep_inv {base : Nat} {s s' : Msgs} (h : Inv base s) (hst : prodStep s = some s') :
    Inv base s' := by
  unfold prodStep at hst
  have hprod := h.prod
  split at hst
  · exact absurd hst (by simp)
  · rename_i line up hpc
    obtain rfl := Option.some.inj hst
    exact h.store hpc
  · rename_i line hpc
    split at hst
    · rename_i hroom
      obtain rfl := Option.some.inj hst
      exact h.claim hpc hroom
    · rename_i hfull
      obtain rfl := Option.some.inj hst
      exact h.leave hpc hfull
  · rename_i line k hpc
    have hc : claimed s.holder = 1 := by rw [hpc]; rfl
    have hin : inHand s.holder = [line] := by rw [hpc]; rfl
    rw [hpc] at hprod
    obtain ⟨hplain, hk, hslot⟩ := hprod
    have hlen : msgLen = 120 := rfl
    split at hst
    · rename_i hmore
      obtain rfl := Option.some.inj hst
      refine h.poke hc k _ rfl hin.symm ⟨hplain, by omega, ?_⟩
      intro b hb
      refine (poke_byte s k _ b).trans ?_
      split
      · rename_i heq
        rw [heq]
      · rename_i hne
        exact hslot b (by omega)
    · rename_i hend
      obtain rfl := Option.some.inj hst
      refine h.poke hc _ 0 rfl hin.symm ⟨hplain, ?_⟩
      intro b hb
      refine (poke_byte s _ 0 b).trans ?_
      split
      · -- the line is shorter than the slot, so its last byte is a zero anyway
        have hfits := hplain.fits
        rw [List.getD_eq_getElem?_getD, List.getElem?_eq_none (by omega)]
        rfl
      · rename_i hne
        exact hslot b (by omega)
  · rename_i line hpc
    obtain rfl := Option.some.inj hst
    exact h.publish hpc
  · rename_i hpc
    obtain rfl := Option.some.inj hst
    have horder := h.order
    have hsplit := h.split
    have hroom := h.room
    rw [hpc] at horder hsplit hroom
    exact ⟨h.head, h.tail, h.le, hroom, h.holds, trivial, h.tx, h.handed, h.attempts, h.leftOut,
      horder, hsplit, ⟨h.remembers.head, h.remembers.holds⟩⟩

/-- Entering `ble_msg`. -/
theorem Inv.enter {base : Nat} {s : Msgs} (h : Inv base s) (hfree : s.holder = none)
    (text : List UInt8) (up : Nat) :
    Inv base { s with holder := some (.entered (lineOf text) up) } := by
  have horder := h.order
  have hsplit := h.split
  have hroom := h.room
  rw [hfree] at horder hsplit hroom
  exact ⟨h.head, h.tail, h.le, hroom, h.holds, lineOf_plain text, h.tx, h.handed, h.attempts,
    h.leftOut, horder, hsplit, ⟨h.remembers.head, h.remembers.holds⟩⟩

/-! ## The sending thread -/

/-- **The line is handed over**: it is the oldest one pending. -/
theorem Inv.hand {base : Nat} {s : Msgs} (h : Inv base s) (hpc : s.tx = .idle)
    (hne : s.msgqTail ≠ s.msgqHead) :
    Inv base { s with
      tx := .sending (cstr (s.msgq s.tailSlot)).length 0
      handed := s.handed ++ [cstr (s.msgq s.tailSlot)] } := by
  have hhanded := h.handed
  rw [hpc] at hhanded
  have hpend : s.done < s.enqueued.length := by
    refine Nat.lt_of_le_of_ne h.le fun heq => hne ?_
    rw [h.head, h.tail, heq]
  have hline := h.at_tail hpend
  have hlen : s.handed.length = s.done := by
    rw [hhanded, List.length_take]
    exact Nat.min_eq_left h.le
  rw [hline]
  refine ⟨h.head, h.tail, h.le, h.room, h.holds, h.prod, ⟨hpend, rfl⟩, ?_, ?_, h.leftOut, h.order,
    h.split, ⟨h.remembers.head, h.remembers.holds⟩⟩
  · show s.handed ++ [s.enqueued.getD s.done []] = s.enqueued.take (s.done + 1)
    have hprev : s.handed = s.enqueued.take s.done := hhanded
    rw [hprev, List.take_add_one, List.getD_eq_getElem?_getD, List.getElem?_eq_getElem hpend]
    rfl
  · intro p hp
    have hold := h.attempts p hp
    have hin : p.1 < s.handed.length := (List.getElem?_eq_some_iff.mp hold).1
    show (s.handed ++ [_])[p.1]? = some p.2
    rw [List.getElem?_append_left hin]
    exact hold

/-- **Every attempt reads the line** that was handed over. -/
theorem Inv.read {base : Nat} {s : Msgs} (h : Inv base s) {len tries : Nat}
    (hpc : s.tx = .sending len tries) :
    s.handed[s.done]? = some ((List.range len).map (s.msgq s.tailSlot)) := by
  have htx := h.tx
  have hhanded := h.handed
  rw [hpc] at htx hhanded
  obtain ⟨hpend, hlen⟩ := htx
  have hline := h.at_tail hpend
  rw [hlen, ← hline, cstr_read, hline, hhanded]
  show (s.enqueued.take (s.done + 1))[s.done]? = _
  rw [List.getElem?_take_of_lt (Nat.lt_succ_self _), List.getElem?_eq_getElem hpend,
    List.getD_eq_getElem?_getD, List.getElem?_eq_getElem hpend]
  rfl

/-- **The line is done with.** -/
theorem Inv.advance {base : Nat} {s : Msgs} (h : Inv base s) {len tries : Nat}
    (hpc : s.tx = .sending len tries) :
    Inv base { s with msgqTail := u32 (s.msgqTail + 1), done := s.done + 1, tx := .idle } := by
  have htx := h.tx
  have hhanded := h.handed
  have hroom := h.room
  rw [hpc] at htx hhanded
  refine ⟨h.head, ?_, htx.1, ?_, h.holds.shrink (Nat.le_succ _) (Nat.le_refl _), h.prod, trivial,
    hhanded, h.attempts, h.leftOut, h.order, h.split, ⟨h.remembers.head, h.remembers.holds⟩⟩
  · show u32 (s.msgqTail + 1) = u32 (base + (s.done + 1))
    rw [h.tail, u32_u32_add, Nat.add_assoc]
  · show s.enqueued.length + claimed s.holder ≤ s.done + 1 + 4
    omega

/-! ## Runs -/

/-- **Step lemma.** -/
theorem step_inv {base : Nat} {s s' : Msgs} {e : Act} (h : Inv base s) (hst : Step s e s') :
    Inv base s' := by
  cases e with
  | msg text up =>
    obtain ⟨⟨hfree, -⟩, hst⟩ := Option.ite_none_right_eq_some.mp hst
    obtain rfl := Option.some.inj hst
    exact h.enter (Option.isNone_iff_eq_none.mp hfree) text up
  | prod => exact prodStep_inv h hst
  | tx =>
    cases hpc : s.tx with
    | idle =>
      simp only [Step, step, hpc] at hst
      obtain ⟨hne, hst⟩ := Option.ite_none_right_eq_some.mp hst
      obtain rfl := Option.some.inj hst
      exact h.hand hpc hne
    | sending len tries => simp [Step, step, hpc] at hst
  | attempt =>
    cases hpc : s.tx with
    | idle => simp [Step, step, hpc] at hst
    | sending len tries =>
      simp only [Step, step, hpc] at hst
      obtain ⟨-, hst⟩ := Option.ite_none_right_eq_some.mp hst
      obtain rfl := Option.some.inj hst
      have hread := h.read hpc
      have htx := h.tx
      have hhanded := h.handed
      rw [hpc] at htx hhanded
      refine ⟨h.head, h.tail, h.le, h.room, h.holds, h.prod, htx, hhanded, ?_, h.leftOut, h.order,
        h.split, ⟨h.remembers.head, h.remembers.holds⟩⟩
      intro p hp
      rcases List.mem_append.mp hp with hold | hnew
      · exact h.attempts p hold
      · rw [List.mem_singleton] at hnew
        rw [hnew]
        exact hread
  | returned =>
    cases hpc : s.tx with
    | idle => simp [Step, step, hpc] at hst
    | sending len tries =>
      simp only [Step, step, hpc] at hst
      obtain rfl := Option.some.inj hst
      exact h.advance hpc

/-- **Run lemma.** -/
theorem reach_inv {base : Nat} {s : Msgs} (h : Reach (Start base) Step s) : Inv base s := by
  refine Reach.invariant (I := Inv base) ?_ (fun _ _ _ _ hi hst => step_inv hi hst) h
  rintro s ⟨msgq, t2Ring, rfl⟩
  refine ⟨rfl, rfl, Nat.le_refl _, Nat.zero_le _, ?_, trivial, trivial, rfl, ?_, ?_,
    List.Sublist.refl _, List.Perm.refl _, ⟨rfl, ?_⟩⟩
  · intro r h1 h2
    exact absurd h2 (Nat.not_lt.mpr h1)
  · intro p hp
    exact absurd hp (by simp)
  · intro p hp
    exact absurd hp (by simp)
  · intro r h1 h2
    exact absurd h2 (Nat.not_lt_zero r)

/-! ## The result -/

/-- What a caller of `ble_msg` and a reader of the history may rely on. -/
structure Delivered (s : Msgs) : Prop where
  /-- What is handed to `tx_notify` is a beginning of what was enqueued. -/
  handed : s.handed <+: s.enqueued
  /-- It is all of it when the queue is empty. -/
  all : s.msgqTail = s.msgqHead → s.tx = .idle → s.handed = s.enqueued
  /-- Every attempt to send a line reads the whole of it. -/
  whole : ∀ p ∈ s.attempts, s.handed[p.1]? = some p.2
  /-- The enqueued lines stand in the order of the calls. -/
  order : s.enqueued.Sublist (s.called.map Prod.snd)
  /-- Every line called is enqueued, left out, or still in its caller's hands. -/
  split : (s.called.map Prod.snd).Perm (s.enqueued ++ s.leftOut.map Prod.fst ++ inHand s.holder)
  /-- A line is left out only when the queue is full. -/
  leftOut : ∀ p ∈ s.leftOut, p.2 = msgqN
  /-- The snapshot is the end of the history, whatever became of the lines. -/
  snapshot : s.history.length < 4294967296 → ∀ max, t2Snapshot s max =
    s.history.drop (s.history.length - min (min s.history.length t2RingSize) max)

/-- **Nothing is written where a line is being sent from.** -/
theorem Inv.undisturbed {base : Nat} {s s' : Msgs} (h : Inv base s) {e : Act} (hst : Step s e s')
    (hbusy : s.tx ≠ .idle) : s'.msgq s.tailSlot = s.msgq s.tailSlot := by
  have hpend : s.done < s.enqueued.length := by
    have htx := h.tx
    cases hpc : s.tx with
    | idle => exact absurd hpc hbusy
    | sending len tries =>
      rw [hpc] at htx
      exact htx.1
  cases e with
  | msg text up =>
    obtain ⟨-, hst⟩ := Option.ite_none_right_eq_some.mp hst
    obtain rfl := Option.some.inj hst
    rfl
  | prod =>
    simp only [Step, step, prodStep] at hst
    split at hst
    · exact absurd hst (by simp)
    · obtain rfl := Option.some.inj hst
      unfold t2Store
      obtain ⟨r, n, hram⟩ := t2Fold_ram (stamped _ _) s
      rw [hram]
    · split at hst
      · obtain rfl := Option.some.inj hst
        rfl
      · obtain rfl := Option.some.inj hst
        rfl
    · rename_i line k hpc
      have hne := h.slots_ne (by rw [hpc]; rfl) hpend
      split at hst
      · obtain rfl := Option.some.inj hst
        exact Function.update_of_ne hne _ _
      · obtain rfl := Option.some.inj hst
        exact Function.update_of_ne hne _ _
    · obtain rfl := Option.some.inj hst
      rfl
    · obtain rfl := Option.some.inj hst
      rfl
  | tx =>
    cases hpc : s.tx with
    | idle => exact absurd hpc hbusy
    | sending len tries => simp [Step, step, hpc] at hst
  | attempt =>
    cases hpc : s.tx with
    | idle => exact absurd hpc hbusy
    | sending len tries =>
      simp only [Step, step, hpc] at hst
      obtain ⟨-, hst⟩ := Option.ite_none_right_eq_some.mp hst
      obtain rfl := Option.some.inj hst
      rfl
  | returned =>
    cases hpc : s.tx with
    | idle => exact absurd hpc hbusy
    | sending len tries =>
      simp only [Step, step, hpc] at hst
      obtain rfl := Option.some.inj hst
      rfl

/-- **Messages are delivered**, from any value of the counters on: whole, in order, from slots that
    nobody writes to; and the history has them all. -/
theorem messages_delivered {base : Nat} {s : Msgs} (h : Reach (Start base) Step s) :
    Delivered s ∧
      ∀ e s', Step s e s' → s.tx ≠ .idle → s'.msgq s.tailSlot = s.msgq s.tailSlot := by
  have hinv := reach_inv h
  refine ⟨⟨?_, ?_, hinv.attempts, ?_, hinv.split, hinv.leftOut, ?_⟩, ?_⟩
  · rw [hinv.handed]
    exact List.take_prefix _ _
  · intro hempty hidle
    have hdist := hinv.distance
    have hle := hinv.le
    rw [hempty, u32Sub_self] at hdist
    have hhanded := hinv.handed
    rw [hidle] at hhanded
    rw [hhanded]
    exact List.take_of_length_le (by show _ ≤ s.done + 0; omega)
  · exact (List.sublist_append_left _ _).trans hinv.order
  · exact hinv.remembers.snapshot
  · intro e s' hst hbusy
    exact hinv.undisturbed hst hbusy

/-- "hi" is enqueued while the counters wrap, and delivered. -/
theorem messages_delivered_wrap : ∃ s : Msgs, Delivered s ∧ s.msgqTail = 0 ∧
    s.handed = [[0x68, 0x69]] ∧ t2Snapshot s 4 = [0x20, 0x68, 0x69, 0x0A] := by
  have hrun : ((Act.msg [0x68, 0x69] 1234 :: List.replicate 124 .prod).foldlM step
      ⟨fun _ _ => 0, u32 4294967295, u32 4294967295, fun _ => 0, 0, none, .idle, [], [], [], 0, [],
        []⟩).any (fun s => decide (((s.msgqHead, s.msgqTail, s.tx) = (0, 4294967295, .idle) ∧
          s.enqueued = [[0x68, 0x69]]) ∧ t2Snapshot s 4 = [0x20, 0x68, 0x69, 0x0A])) = true := by
    decide +kernel
  obtain ⟨s, hs, hout⟩ := (Option.any_eq_true _ _).mp hrun
  obtain ⟨⟨hplace, henq⟩, hsnap⟩ := of_decide_eq_true hout
  obtain ⟨hhead, htail, htx⟩ : s.msgqHead = 0 ∧ s.msgqTail = 4294967295 ∧ s.tx = .idle := by
    simpa only [Prod.mk.injEq] using hplace
  have hreach : Reach (Start 4294967295) Step s :=
    Reach.run (fun _ _ _ hst => hst) (.start ⟨_, _, rfl⟩) hs
  -- the sending thread takes the line, and `tx_notify` returns
  have htaken : Step s .tx { s with
      tx := .sending (cstr (s.msgq s.tailSlot)).length 0
      handed := s.handed ++ [cstr (s.msgq s.tailSlot)] } := by
    simp only [Step, step, htx]
    exact if_pos (by rw [hhead, htail]; decide)
  have hdone : Reach (Start 4294967295) Step { s with
      msgqTail := u32 (s.msgqTail + 1), done := s.done + 1, tx := .idle
      handed := s.handed ++ [cstr (s.msgq s.tailSlot)] } :=
    (hreach.next htaken).next (a := .returned) rfl
  have hzero : u32 (s.msgqTail + 1) = 0 := by
    rw [htail]
    rfl
  have hdelivered := (messages_delivered hdone).1
  exact ⟨_, hdelivered, hzero, (hdelivered.all (hzero.trans hhead.symm) rfl).trans henq, hsnap⟩

end Caterpillar.Ble.Messages
