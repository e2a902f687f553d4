/-
  Slices of a growable array, read and assigned the way Python does (`xs[:k]`, `buf[lo:hi] = xs`).

  A slice clamps its bounds, a negative upper bound counts from the end, and assigning a slice replaces
  it by a sequence of any length.  Where the sequence is a piece of a reference sequence `S` of the
  buffer's length and lands at its own position, the assignment is an overlay: `overlay_getElem?`.

  An array of a fixed size is sliced within its bounds only, and assigned sequences of the slice's
  length (`view`, `assign`).  The last `k` elements of a sequence are `rtake k` of it; its rules say
  what of them an append leaves.
-/
import Mathlib.Data.List.DropRight
import Mathlib.Tactic.Common

namespace Caterpillar.Slice

variable {α : Type}

/-- `xs[:k]`. -/
def takeUpTo (xs : List α) (k : Int) : List α :=
  if k < 0 then xs.take (xs.length - k.natAbs) else xs.take k.toNat

/-- `buf[lo:hi] = xs`. -/
def setSlice (buf : List α) (lo hi : Nat) (xs : List α) : List α :=
  buf.take lo ++ xs ++ buf.drop (max lo hi)

/-- A bound at the end takes everything. -/
theorem takeUpTo_length (xs : List α) : takeUpTo xs xs.length = xs := by
  unfold takeUpTo
  rw [if_neg (by omega), Int.toNat_natCast, List.take_length]

@[simp] theorem takeUpTo_nil (k : Int) : takeUpTo ([] : List α) k = [] := by
  unfold takeUpTo
  split
  · exact List.take_nil
  · exact List.take_nil

/-- Assigning nothing to an empty slice changes nothing. -/
theorem setSlice_nil (buf : List α) {lo hi : Nat} (h : hi ≤ lo) : setSlice buf lo hi [] = buf := by
  unfold setSlice
  rw [Nat.max_eq_left h, List.append_nil, List.take_append_drop]

/-- Overwriting in place keeps the length. -/
theorem setSlice_length {buf xs : List α} {lo : Nat} (h : lo + xs.length ≤ buf.length) :
    (setSlice buf lo (lo + xs.length) xs).length = buf.length := by
  unfold setSlice
  rw [Nat.max_eq_right (Nat.le_add_right _ _), List.length_append, List.length_append,
    List.length_take, List.length_drop]
  omega

/-- Overwriting in place, read back at any position. -/
theorem setSlice_getElem? {buf xs : List α} {lo : Nat} (h : lo + xs.length ≤ buf.length) (i : Nat) :
    (setSlice buf lo (lo + xs.length) xs)[i]? =
      if lo ≤ i ∧ i < lo + xs.length then xs[i - lo]? else buf[i]? := by
  have hlo : (buf.take lo).length = lo := by
    rw [List.length_take]
    omega
  unfold setSlice
  rw [Nat.max_eq_right (Nat.le_add_right _ _), List.append_assoc]
  rcases Nat.lt_or_ge i lo with hbefore | hfrom
  · rw [List.getElem?_append_left (by omega), List.getElem?_take_of_lt hbefore, if_neg (by omega)]
  · rw [List.getElem?_append_right (by omega), hlo]
    rcases Nat.lt_or_ge i (lo + xs.length) with hin | hafter
    · rw [List.getElem?_append_left (by omega), if_pos ⟨hfrom, hin⟩]
    · rw [List.getElem?_append_right (by omega), List.getElem?_drop, if_neg (by omega)]
      congr 1
      omega

/-- **An overlay.**  A piece of `S` written at its own position shows `S` there and the buffer
    elsewhere. -/
theorem overlay_getElem? {S buf : List α} (hlen : buf.length = S.length) {o w : Nat}
    (ho : o ≤ S.length) (i : Nat) :
    (setSlice buf o (o + ((S.drop o).take w).length) ((S.drop o).take w))[i]? =
      if o ≤ i ∧ i < o + ((S.drop o).take w).length then S[i]? else buf[i]? := by
  have hfit : o + ((S.drop o).take w).length ≤ buf.length := by
    rw [List.length_take, List.length_drop]
    omega
  rw [setSlice_getElem? hfit]
  split
  · rename_i hin
    rw [List.length_take, List.length_drop] at hin
    rw [List.getElem?_take_of_lt (by omega), List.getElem?_drop]
    congr 1
    omega
  · rfl

/-! ## Arrays of a fixed size -/

/-- `a[lo:hi]`, if that is within the array. -/
def view (a : List α) (lo hi : Int) : Option (List α) :=
  if 0 ≤ lo ∧ lo ≤ hi ∧ hi ≤ a.length then some ((a.take hi.toNat).drop lo.toNat) else none

/-- `a[lo:hi] = xs`, if the slice is within the array and as long as `xs`. -/
def assign (a : List α) (lo hi : Int) (xs : List α) : Option (List α) :=
  if 0 ≤ lo ∧ lo ≤ hi ∧ hi ≤ a.length ∧ (xs.length : Int) = hi - lo then
    some (setSlice a lo.toNat hi.toNat xs)
  else none

/-- An assignment that fits shows the sequence behind what stood in front of the slice. -/
theorem assign_fits {a xs : List α} {n : Nat} (h : n + xs.length ≤ a.length) :
    ∃ a', assign a n (n + xs.length : Nat) xs = some a' ∧ a'.length = a.length ∧
      a'.take (n + xs.length) = a.take n ++ xs := by
  refine ⟨setSlice a n (n + xs.length) xs, if_pos (by omega), setSlice_length h, ?_⟩
  have hfront : (a.take n ++ xs).length = n + xs.length := by
    rw [List.length_append, List.length_take]
    omega
  unfold setSlice
  rw [Nat.max_eq_right (Nat.le_add_right _ _)]
  exact List.take_left' hfront

/-- The last `k` elements before `n`, if there are so many. -/
theorem view_last {a : List α} {n k : Nat} (hn : n ≤ a.length) (hk : k ≤ n) :
    view a ((n : Int) - k) n = some ((a.take n).rtake k) := by
  have hlen : (a.take n).length = n := by
    rw [List.length_take]
    omega
  unfold view List.rtake
  rw [if_pos (by omega), hlen]
  congr 2
  omega

/-! ## The last elements -/

theorem rtake_length (k : Nat) (xs : List α) : (xs.rtake k).length = min k xs.length := by
  unfold List.rtake
  rw [List.length_drop]
  omega

theorem rtake_suffix (k : Nat) (xs : List α) : xs.rtake k <:+ xs := List.drop_suffix _ _

/-- A suffix of at most `k` elements is one of the last `k`. -/
theorem suffix_rtake {s xs : List α} {k : Nat} (h : s <:+ xs) (hk : s.length ≤ k) :
    s <:+ xs.rtake k := by
  refine List.suffix_of_suffix_length_le h (rtake_suffix k xs) ?_
  have hle := h.length_le
  rw [rtake_length]
  omega

/-- What an append leaves of the last `k`. -/
theorem rtake_append_suffix (k : Nat) (xs ys : List α) :
    (xs ++ ys).rtake k <:+ xs.rtake k ++ ys := by
  refine List.suffix_of_suffix_length_le (rtake_suffix k _) ?_ ?_
  · obtain ⟨front, hfront⟩ := rtake_suffix k xs
    exact ⟨front, by rw [← List.append_assoc, hfront]⟩
  · rw [rtake_length, List.length_append, List.length_append, rtake_length]
    omega

/-- An append of `k` elements or more leaves nothing else. -/
theorem rtake_append {k : Nat} (xs : List α) {ys : List α} (h : k ≤ ys.length) :
    (xs ++ ys).rtake k = ys.rtake k := by
  refine (List.suffix_of_suffix_length_le (rtake_suffix k _)
    ((rtake_suffix k ys).trans (List.suffix_append xs ys)) ?_).eq_of_length ?_
  · rw [rtake_length, rtake_length]
    omega
  · rw [rtake_length, rtake_length, List.length_append]
    omega

/-- The last elements are the last of any longer end. -/
theorem rtake_eq_of_suffix {s xs : List α} (h : s <:+ xs) : xs.rtake s.length = s := by
  obtain ⟨front, rfl⟩ := h
  rw [rtake_append front (Nat.le_refl _)]
  unfold List.rtake
  rw [Nat.sub_self]
  rfl

end Caterpillar.Slice
