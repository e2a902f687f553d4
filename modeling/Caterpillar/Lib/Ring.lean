/-
  Circular stores addressed by an ABSOLUTE counter.

  A ring of `cap` slots is used as the window of an unbounded sequence: absolute index `r` lives in
  slot `r % cap`.  `Holds cap slots lo hi f` says that the window `[lo, hi)` of the sequence `f` is
  stored faithfully; the rules a program needs are

  * `Holds.put` — a block written at the counter's slot, not crossing the physical end, extends the
    window by its length, provided the window stays within one ring length;
  * `Holds.write` / `Holds.extend` — the same for a producer that fills the counter's slot piece by
    piece and publishes it afterwards;
  * `Holds.push` — one element stored over the oldest one;
  * `Holds.append` — so a list stored up to the counter grows by the block;
  * `Holds.put_behind` — a window that ended before the counter loses what the write reaches; and
  * `Holds.shrink` — any sub-window is held too (this is all that happens on the reader's side).

  The block write `put` is the one operation: one `memcpy` into the ring, or one flash write.
  `wrapped_slot_eq_iff` is about rings addressed by a counter that wraps.
-/
import Mathlib.Data.Nat.ModEq
import Mathlib.Logic.Function.Basic
import Mathlib.Tactic.Common

namespace Caterpillar.Ring

variable {α : Type}

/-- The absolute indices `[lo, hi)` of the sequence `f` are stored in the ring. -/
def Holds (cap : Nat) (slots : Nat → α) (lo hi : Nat) (f : Nat → α) : Prop :=
  ∀ r, lo ≤ r → r < hi → slots (r % cap) = f r

/-- Store the block `xs` in the physical slots from `pos` on. -/
def put (slots : Nat → α) (pos : Nat) (xs : List α) : Nat → α := fun i =>
  if h : pos ≤ i ∧ i < pos + xs.length then xs.get ⟨i - pos, by omega⟩ else slots i

theorem put_inside (slots : Nat → α) (pos : Nat) (xs : List α) {j : Nat} (hj : j < xs.length) :
    put slots pos xs (pos + j) = xs[j] := by
  have h : pos ≤ pos + j ∧ pos + j < pos + xs.length := by omega
  simp only [put, dif_pos h, Nat.add_sub_cancel_left, List.get_eq_getElem]

theorem put_outside (slots : Nat → α) (pos : Nat) (xs : List α) {i : Nat}
    (hi : i < pos ∨ pos + xs.length ≤ i) : put slots pos xs i = slots i := by
  have h : ¬ (pos ≤ i ∧ i < pos + xs.length) := by omega
  simp only [put, dif_neg h]

@[simp] theorem put_nil (slots : Nat → α) (pos : Nat) : put slots pos [] = slots := by
  funext i
  exact put_outside slots pos [] (by simp; omega)

/-- Moving the counter by less than the distance to the physical end moves the slot by as much. -/
theorem slot_add {cap t j : Nat} (h : t % cap + j < cap) : (t + j) % cap = t % cap + j := by
  rw [Nat.add_mod, Nat.mod_eq_of_lt (by omega : j < cap), Nat.mod_eq_of_lt h]

/-- Two indices less than a ring length apart never share a slot. -/
theorem slot_ne {cap r t : Nat} (hlt : r < t) (hd : t < r + cap) : r % cap ≠ t % cap := by
  intro heq
  have hdvd : cap ∣ t - r := Nat.dvd_of_mod_eq_zero (Nat.sub_mod_eq_zero_of_mod_eq heq.symm)
  have hle : cap ≤ t - r := Nat.le_of_dvd (by omega) hdvd
  omega

/-- What the block write leaves in the slot of one of its own indices. -/
theorem put_at {cap t : Nat} (slots : Nat → α) (xs : List α) (hfit : t % cap + xs.length ≤ cap)
    {j : Nat} (hj : j < xs.length) : put slots (t % cap) xs ((t + j) % cap) = xs[j] := by
  rw [slot_add (by omega)]
  exact put_inside slots (t % cap) xs hj

/-- The block write leaves alone every index that is less than a ring length behind its end. -/
theorem put_keeps {cap t r : Nat} (slots : Nat → α) (xs : List α)
    (hfit : t % cap + xs.length ≤ cap) (hlt : r < t) (hd : t + xs.length ≤ r + cap) :
    put slots (t % cap) xs (r % cap) = slots (r % cap) := by
  apply put_outside
  by_contra hin
  have hj : r % cap - t % cap < xs.length := by omega
  have hslot : (t + (r % cap - t % cap)) % cap = t % cap + (r % cap - t % cap) :=
    slot_add (by omega)
  have hne : r % cap ≠ (t + (r % cap - t % cap)) % cap := slot_ne (by omega) (by omega)
  omega

/-- A sub-window of a held window is held. -/
theorem Holds.shrink {cap lo hi lo' hi' : Nat} {slots : Nat → α} {f : Nat → α}
    (h : Holds cap slots lo hi f) (hlo : lo ≤ lo') (hhi : hi' ≤ hi) :
    Holds cap slots lo' hi' f :=
  fun r h1 h2 => h r (by omega) (by omega)

/-- Two sequences that agree on the window are held alike. -/
theorem Holds.congr {cap lo hi : Nat} {slots : Nat → α} {f g : Nat → α}
    (h : Holds cap slots lo hi f) (hfg : ∀ r, lo ≤ r → r < hi → f r = g r) :
    Holds cap slots lo hi g :=
  fun r h1 h2 => (h r h1 h2).trans (hfg r h1 h2)

/-- **The writer's rule.**  Storing the next `xs.length` elements of the sequence at the counter
    `hi` extends the window, as long as the window still fits one ring. -/
theorem Holds.put {cap lo hi : Nat} {slots : Nat → α} {f : Nat → α} {xs : List α}
    (h : Holds cap slots lo hi f) (hfit : hi % cap + xs.length ≤ cap)
    (hwin : hi + xs.length ≤ lo + cap) (hxs : ∀ j (hj : j < xs.length), xs[j] = f (hi + j)) :
    Holds cap (put slots (hi % cap) xs) lo (hi + xs.length) f := by
  intro r hlo hr
  rcases Nat.lt_or_ge r hi with hold | hnew
  · rw [put_keeps slots xs hfit hold (by omega)]
    exact h r hlo hold
  · obtain ⟨j, rfl⟩ := Nat.exists_eq_add_of_le hnew
    have hj : j < xs.length := by omega
    rw [put_at slots xs hfit hj, hxs j hj]

/-- **The producer's rule.**  Whatever is stored in the counter's slot, the window does not see it as
    long as it is not full. -/
theorem Holds.write {cap lo hi : Nat} {slots : Nat → α} {f : Nat → α} (h : Holds cap slots lo hi f)
    (hwin : hi < lo + cap) (x : α) : Holds cap (Function.update slots (hi % cap) x) lo hi f := by
  intro r hlo hr
  rw [Function.update_of_ne (slot_ne hr (by omega))]
  exact h r hlo hr

/-- Publishing the counter's slot once it holds the next element. -/
theorem Holds.extend {cap lo hi : Nat} {slots : Nat → α} {f : Nat → α}
    (h : Holds cap slots lo hi f) (hx : slots (hi % cap) = f hi) :
    Holds cap slots lo (hi + 1) f := by
  intro r hlo hr
  rcases Nat.lt_or_ge r hi with hold | hnew
  · exact h r hlo hold
  · obtain rfl : r = hi := by omega
    exact hx

/-- **The overwriting rule.**  A ring that keeps the last `cap` elements of a list goes on doing so
    when the list grows by one. -/
theorem Holds.push {cap : Nat} {slots : Nat → α} {l : List α} {d : α}
    (h : Holds cap slots (l.length - cap) l.length fun r => l.getD r d) (x : α) :
    Holds cap (Function.update slots (l.length % cap) x) ((l ++ [x]).length - cap)
      (l ++ [x]).length fun r => (l ++ [x]).getD r d := by
  rw [List.length_append, List.length_singleton]
  have hkept : Holds cap slots (l.length + 1 - cap) l.length fun r => (l ++ [x]).getD r d := by
    refine (h.shrink (by omega) (Nat.le_refl _)).congr fun r _ hr => ?_
    show l.getD r d = (l ++ [x]).getD r d
    rw [List.getD_eq_getElem?_getD, List.getD_eq_getElem?_getD, List.getElem?_append_left hr]
  refine (hkept.write (by omega) x).extend ?_
  show _ = (l ++ [x]).getD l.length d
  rw [Function.update_self, List.getD_eq_getElem?_getD, List.getElem?_concat_length]
  rfl

/-- **The bystander's rule.**  A window that ends at or before the counter survives the write where
    it is still within one ring length of the counter's new position. -/
theorem Holds.put_behind {cap lo hi lo' t : Nat} {slots : Nat → α} {f : Nat → α} {xs : List α}
    (h : Holds cap slots lo hi f) (hhi : hi ≤ t) (hlo : lo ≤ lo') (hfit : t % cap + xs.length ≤ cap)
    (hwin : t + xs.length ≤ lo' + cap) : Holds cap (Ring.put slots (t % cap) xs) lo' hi f := by
  intro r h1 h2
  rw [put_keeps slots xs hfit (by omega) (by omega)]
  exact h r (by omega) h2

/-- **The log rule.**  A list stored from absolute index `base` on, up to the counter, grows by the
    block written there; what the block reaches of its own beginning is lost. -/
theorem Holds.append {cap lo lo' base : Nat} {slots : Nat → α} {l xs : List α} {d : α}
    (h : Holds cap slots lo (base + l.length) fun r => l.getD (r - base) d)
    (hlo : lo ≤ lo') (hbase : base ≤ lo') (hfit : (base + l.length) % cap + xs.length ≤ cap)
    (hwin : base + l.length + xs.length ≤ lo' + cap) :
    Holds cap (Ring.put slots ((base + l.length) % cap) xs) lo' (base + (l ++ xs).length)
      fun r => (l ++ xs).getD (r - base) d := by
  rw [List.length_append, ← Nat.add_assoc]
  have hold : Holds cap slots lo' (base + l.length) fun r => (l ++ xs).getD (r - base) d := by
    refine (h.shrink hlo (Nat.le_refl _)).congr fun r h1 h2 => ?_
    have hin : r - base < l.length := by omega
    show l.getD (r - base) d = (l ++ xs).getD (r - base) d
    rw [List.getD_eq_getElem?_getD, List.getD_eq_getElem?_getD, List.getElem?_append_left hin]
  refine hold.put hfit hwin fun k hk => ?_
  have hidx : base + l.length + k - base = l.length + k := by omega
  show xs[k] = (l ++ xs).getD (base + l.length + k - base) d
  rw [List.getD_eq_getElem?_getD, hidx, List.getElem?_append_right (by omega),
    Nat.add_sub_cancel_left, List.getElem?_eq_getElem hk]
  rfl

/-! ## A counter that wraps

The counter is a word and starts again at 0 behind `W`.  Where `cap` does not divide `W` the slots
jump there. -/

/-- **Where the slots of a wrapping counter meet**: within one ring length, two indices share a slot
    exactly if the wrap is between them and they are `W % cap` apart. -/
theorem wrapped_slot_eq_iff {cap W a b : Nat} (hlt : a < b) (hd : b < a + cap)
    (hb : b < 2 * W) : b % W % cap = a % W % cap ↔ a < W ∧ W ≤ b ∧ b - a = W % cap := by
  rcases Nat.lt_or_ge b W with hbefore | hwrapped
  · -- both in front of the wrap
    rw [Nat.mod_eq_of_lt hbefore, Nat.mod_eq_of_lt (by omega : a < W)]
    have hne := slot_ne hlt hd
    constructor
    · intro heq
      exact absurd heq.symm hne
    · rintro ⟨-, hle, -⟩
      omega
  · have hbmod : b % W = b - W := by
      rw [Nat.mod_eq_sub_mod hwrapped, Nat.mod_eq_of_lt (by omega)]
    rcases Nat.lt_or_ge a W with hfront | hbehind
    · -- the wrap is between them
      rw [hbmod, Nat.mod_eq_of_lt hfront]
      have hmod : (b - W) % cap = a % cap ↔ (b - a) % cap = W % cap := by
        constructor
        · intro heq
          have hsum : (b - W + W) % cap = (a + W) % cap := Nat.ModEq.add_right W heq
          have hsplit : (a + (b - a)) % cap = (a + W) % cap := by
            rw [← hsum]
            congr 1
            omega
          exact Nat.ModEq.add_left_cancel' a hsplit
        · intro heq
          have hsum : (a + (b - a)) % cap = (a + W) % cap := Nat.ModEq.add_left a heq
          have hsplit : (b - W + W) % cap = (a + W) % cap := by
            rw [← hsum]
            congr 1
            omega
          exact Nat.ModEq.add_right_cancel' W hsplit
      have hsmall : (b - a) % cap = b - a := Nat.mod_eq_of_lt (by omega)
      rw [hmod, hsmall]
      constructor
      · intro heq
        exact ⟨hfront, hwrapped, heq⟩
      · rintro ⟨-, -, heq⟩
        exact heq
    · -- both behind it
      have hamod : a % W = a - W := by
        rw [Nat.mod_eq_sub_mod hbehind, Nat.mod_eq_of_lt (by omega)]
      rw [hbmod, hamod]
      have hne : (a - W) % cap ≠ (b - W) % cap := slot_ne (by omega) (by omega)
      constructor
      · intro heq
        exact absurd heq.symm hne
      · rintro ⟨hlt', -, -⟩
        omega

end Caterpillar.Ring
