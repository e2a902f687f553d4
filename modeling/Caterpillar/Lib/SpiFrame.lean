/-
  Byte registers behind a serial port: one frame is an address byte and the data bytes behind it.

  The device goes on living while it is read: something may happen to it before every byte, and a read
  may itself change it.

  1. **The device** (`Device`): what a register reads and takes, and whether the address steps on.
  2. **A frame** (`frame`): the first byte says whether it reads or writes, and where.
  3. **Rules.**  `frame_write`: a frame of two bytes writes one register.  `frame_read`: a frame of
     `n + 1` bytes reads `n` registers, each of the device as it is by then (`sweep`).  `frame_keeps`:
     what nothing but a write changes, a frame that reads keeps, however many bytes get through.
-/
import Mathlib.Tactic.Common

namespace Caterpillar.SpiFrame

variable {σ : Type}

/-! ## Frames -/

/-- A device of byte registers. -/
structure Device (σ : Type) where
  read : σ → Nat → UInt8 × σ
  write : σ → Nat → UInt8 → σ
  /-- The next data byte goes to the next address. -/
  increments : σ → Bool

/-- What a frame is for: bit 7 of its first byte. -/
inductive Way where
  | read
  | write
  deriving DecidableEq

/-- The way of a frame. -/
def wayOf (b : UInt8) : Way := if b &&& 0x80 ≠ 0 then .read else .write

/-- Its address: bits 6 to 0. -/
def addrOf (b : UInt8) : Nat := (b &&& 0x7F).toNat

variable (D : Device σ) (tick : Nat → σ → σ) (float : Nat → UInt8)

/-- Where the next data byte goes. -/
def next (s : σ) (a : Nat) : Nat := if D.increments s then a + 1 else a

/-- The data bytes of a frame from its `k`-th byte on: what comes back, and the device behind them.
    While it is written, the device shows nothing. -/
def shift (w : Way) : Nat → Nat → List UInt8 → σ → List UInt8 × σ
  | _, _, [], s => ([], s)
  | k, a, b :: bs, s =>
      let t := tick k s
      match w with
      | .read =>
          let r := D.read t a
          let rest := shift w (k + 1) (next D r.2 a) bs r.2
          (r.1 :: rest.1, rest.2)
      | .write =>
          let t' := D.write t a b
          let rest := shift w (k + 1) (next D t' a) bs t'
          (float k :: rest.1, rest.2)

/-- A frame. -/
def frame : List UInt8 → σ → List UInt8 × σ
  | [], s => ([], s)
  | b :: bs, s =>
      let rest := shift D tick float (wayOf b) 1 (addrOf b) bs (tick 0 s)
      (float 0 :: rest.1, rest.2)

/-- Registers read one after the other, from address `a` at the `k`-th byte on. -/
def sweep : Nat → Nat → Nat → σ → List UInt8 × σ
  | _, _, 0, s => ([], s)
  | k, a, n + 1, s =>
      let r := D.read (tick k s) a
      let rest := sweep (k + 1) (a + 1) n r.2
      (r.1 :: rest.1, rest.2)

/-! ## Rules -/

/-- **One register written.** -/
theorem frame_write {b : UInt8} (hway : wayOf b = .write) (v : UInt8) (s : σ) :
    (frame D tick float [b, v] s).2 = D.write (tick 1 (tick 0 s)) (addrOf b) v := by
  rw [frame, hway]
  rfl

section Kept

variable {I : σ → Prop} (htick : ∀ k s, I s → I (tick k s)) (hread : ∀ s a, I s → I (D.read s a).2)
include htick hread

/-- While it is read, the device keeps what reading keeps. -/
theorem shift_keeps (k a : Nat) (bs : List UInt8) {s : σ} (h : I s) :
    I (shift D tick float .read k a bs s).2 := by
  induction bs generalizing k a s with
  | nil => exact h
  | cons b bs ih => exact ih (k + 1) _ (hread _ a (htick k s h))

/-- **A frame that reads keeps** what nothing but a write changes. -/
theorem frame_keeps {b : UInt8} (hway : wayOf b = .read) (bs : List UInt8) (n : Nat) {s : σ}
    (h : I s) : I (frame D tick float ((b :: bs).take n) s).2 := by
  cases n with
  | zero => exact h
  | succ n =>
    rw [List.take_succ_cons, frame, hway]
    exact shift_keeps D tick float htick hread 1 _ _ (htick 0 s h)

variable (hinc : ∀ s, I s → D.increments s = true)
include hinc

theorem shift_read (k a : Nat) (bs : List UInt8) {s : σ} (h : I s) :
    shift D tick float .read k a bs s = sweep D tick k a bs.length s := by
  induction bs generalizing k a s with
  | nil => rfl
  | cons b bs ih =>
    have hafter : I (D.read (tick k s) a).2 := hread _ a (htick k s h)
    have hnext : next D (D.read (tick k s) a).2 a = a + 1 := if_pos (hinc _ hafter)
    simp only [shift, List.length_cons, sweep]
    rw [hnext, ih (k + 1) (a + 1) hafter]

/-- **A burst**, of a device whose address steps on as long as it is read. -/
theorem frame_read {b : UInt8} (hway : wayOf b = .read) (bs : List UInt8) {s : σ} (h : I s) :
    frame D tick float (b :: bs) s =
      (float 0 :: (sweep D tick 1 (addrOf b) bs.length (tick 0 s)).1,
        (sweep D tick 1 (addrOf b) bs.length (tick 0 s)).2) := by
  rw [frame, hway, shift_read D tick float htick hread hinc 1 _ bs (htick 0 s h)]

end Kept

end Caterpillar.SpiFrame
