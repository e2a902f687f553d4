/-
  32-bit words as `Nat` with explicit wrap-around, and free-running counters over them.

  The firmware keeps its positions in `uint32_t` counters that are only ever ADDED to and compared
  by DIFFERENCE ("u32 counters wrap naturally").  Two facts carry every argument about them:

  1. `u32Sub_u32` — the machine difference of two wrapped counters is the true difference as long
     as the true difference itself fits a word;
  2. `u32_mod_of_dvd` — a ring whose size divides `2^32` may be indexed by the wrapped counter:
     the wrap does not move the slot.  (A ring whose size does NOT divide `2^32` loses this, and a
     development about such a ring has to say how far its counter has run.)

  Everything is stated over `Nat`, so that `omega` closes the arithmetic once the two operators are
  unfolded.
-/
import Mathlib.Tactic.Common

namespace Caterpillar.Word

/-- Reduction of a true value to the 32-bit word that stores it. -/
def u32 (n : Nat) : Nat := n % 4294967296

/-- Machine subtraction of two 32-bit words. -/
def u32Sub (a b : Nat) : Nat := (a + 4294967296 - b) % 4294967296

theorem u32_lt (n : Nat) : u32 n < 4294967296 := Nat.mod_lt _ (by decide)

theorem u32_of_lt {n : Nat} (h : n < 4294967296) : u32 n = n := Nat.mod_eq_of_lt h

theorem u32Sub_lt (a b : Nat) : u32Sub a b < 4294967296 := Nat.mod_lt _ (by decide)

/-- Without a borrow the machine difference is the plain one. -/
theorem u32Sub_of_le {a b : Nat} (hle : b ≤ a) (ha : a < 4294967296) : u32Sub a b = a - b := by
  unfold u32Sub; omega

@[simp] theorem u32Sub_self (a : Nat) : u32Sub a a = 0 := by
  unfold u32Sub; omega

/-- **Counter difference.**  Two wrapped counters less than a word apart differ, as machine words,
    by their true distance — wherever the wrap falls. -/
theorem u32Sub_u32 {a b : Nat} (hle : b ≤ a) (hd : a - b < 4294967296) :
    u32Sub (u32 a) (u32 b) = a - b := by
  unfold u32Sub u32; omega

/-- Incrementing a wrapped counter wraps the incremented counter. -/
theorem u32_u32_add (a k : Nat) : u32 (u32 a + k) = u32 (a + k) := by
  unfold u32; omega

/-- Advancing the lower of two counters by at most their distance takes that much off it. -/
theorem u32Sub_advance {a b k : Nat} (ha : a < 4294967296) (hb : b < 4294967296)
    (hk : k ≤ u32Sub a b) : u32Sub a (u32 (b + k)) = u32Sub a b - k := by
  unfold u32Sub u32 at *; omega

/-- Advancing the upper counter adds to the distance, up to the word size. -/
theorem u32Sub_extend {a b k : Nat} (ha : a < 4294967296) (hb : b < 4294967296)
    (hk : u32Sub a b + k < 4294967296) : u32Sub (u32 (a + k)) b = u32Sub a b + k := by
  unfold u32Sub u32 at *; omega

/-- **Slot stability.**  If the ring size divides the word size, wrapping the counter does not
    change the slot it points at. -/
theorem u32_mod_of_dvd {cap : Nat} (hcap : cap ∣ 4294967296) (n : Nat) : u32 n % cap = n % cap :=
  Nat.mod_mod_of_dvd n hcap

end Caterpillar.Word
