/-
  Fields of a byte string, by offset.

  `u8At`, `u16At` and `u32At` read a little-endian field where it stands, as C code does through a
  pointer and `struct.unpack_from` through an offset.  The rules are those of a layout: a field is
  read behind whatever stands in front of it (`…_skip`), from the bytes it was written as
  (`…_here`), and does not see what follows it (`…_front`).
-/
import Mathlib.Data.List.GetD
import Caterpillar.Lib.Bytes

namespace Caterpillar.Bytes

/-- The byte at offset `k`. -/
def u8At (bs : List UInt8) (k : Nat) : UInt8 := bs.getD k 0

/-- The 16-bit field at offset `k`. -/
def u16At (bs : List UInt8) (k : Nat) : UInt16 := sysGetLe16 (u8At bs k) (u8At bs (k + 1))

/-- The 32-bit field at offset `k`. -/
def u32At (bs : List UInt8) (k : Nat) : UInt32 :=
  sysGetLe32 (u8At bs k) (u8At bs (k + 1)) (u8At bs (k + 2)) (u8At bs (k + 3))

/-! ## What stands in front -/

theorem u8At_skip {pre : List UInt8} (bs : List UInt8) {n : Nat} (h : pre.length = n) (k : Nat) :
    u8At (pre ++ bs) (n + k) = u8At bs k := by
  rw [u8At, List.getD_append_right _ _ _ _ (by omega)]
  congr 1
  omega

theorem u16At_skip {pre : List UInt8} (bs : List UInt8) {n : Nat} (h : pre.length = n) (k : Nat) :
    u16At (pre ++ bs) (n + k) = u16At bs k := by
  rw [u16At, Nat.add_assoc, u8At_skip bs h, u8At_skip bs h]
  rfl

theorem u32At_skip {pre : List UInt8} (bs : List UInt8) {n : Nat} (h : pre.length = n) (k : Nat) :
    u32At (pre ++ bs) (n + k) = u32At bs k := by
  rw [u32At, Nat.add_assoc, Nat.add_assoc, Nat.add_assoc, u8At_skip bs h, u8At_skip bs h,
    u8At_skip bs h, u8At_skip bs h]
  rfl

/-! ## The field itself -/

theorem u16At_here (x : UInt16) (post : List UInt8) : u16At (le16 x ++ post) 0 = x :=
  sysGetLe16_le16 x

theorem u32At_here (x : UInt32) (post : List UInt8) : u32At (le32 x ++ post) 0 = x :=
  sysGetLe32_le32 x

/-! ## Runs of equal fields -/

/-- The 16-bit fields of an array, one by one. -/
theorem u16At_array (xs : List UInt16) (post : List UInt8) {i : Nat} (h : i < xs.length) :
    u16At (xs.flatMap le16 ++ post) (2 * i) = xs.getD i 0 := by
  induction xs generalizing i with
  | nil => exact absurd h (Nat.not_lt_zero i)
  | cons x xs ih =>
    rw [List.flatMap_cons, List.append_assoc]
    cases i with
    | zero => exact u16At_here x _
    | succ i =>
      rw [show 2 * (i + 1) = 2 + 2 * i by omega, u16At_skip _ (le16_length x),
        ih (Nat.lt_of_succ_lt_succ h)]
      rfl

/-- In a run of equal bytes every field is the same. -/
theorem u8At_replicate {n k : Nat} (x : UInt8) (h : k < n) : u8At (List.replicate n x) k = x := by
  exact List.getD_replicate x h

theorem u32At_replicate {n k : Nat} (x : UInt8) (h : k + 4 ≤ n) :
    u32At (List.replicate n x) k = sysGetLe32 x x x x := by
  rw [u32At, u8At_replicate x (by omega), u8At_replicate x (by omega), u8At_replicate x (by omega),
    u8At_replicate x (by omega)]

end Caterpillar.Bytes
