/-
  Disjoint half-open intervals of naturals fit side by side into whatever contains them.

  The intervals `[a i, b i)` of a list of indices may come in any order; `Apart` says that one of two
  ends before the other begins.  `sum_length_le` counts their points.
-/
import Mathlib.Algebra.GroupWithZero.Nat
import Mathlib.Order.Interval.Finset.Nat

namespace Caterpillar.Interval

variable {ι : Type}

/-- Two intervals without a common point. -/
def Apart (a b : ι → Nat) (i k : ι) : Prop := b i ≤ a k ∨ b k ≤ a i

/-- The points of pairwise disjoint intervals, counted. -/
theorem exists_union (a b : ι → Nat) (l : List ι) (h : l.Pairwise (Apart a b)) :
    ∃ U : Finset Nat, U.card = (l.map fun i => b i - a i).sum ∧
      ∀ x, x ∈ U ↔ ∃ i ∈ l, a i ≤ x ∧ x < b i := by
  induction l with
  | nil => exact ⟨∅, rfl, by simp⟩
  | cons i l ih =>
    obtain ⟨hi, hl⟩ := List.pairwise_cons.mp h
    obtain ⟨U, hcard, hmem⟩ := ih hl
    have hdisj : Disjoint (Finset.Ico (a i) (b i)) U := by
      rw [Finset.disjoint_left]
      intro x hx hU
      obtain ⟨k, hk, hlo, hhi⟩ := (hmem x).mp hU
      rw [Finset.mem_Ico] at hx
      rcases hi k hk with hle | hle
      · omega
      · omega
    refine ⟨Finset.Ico (a i) (b i) ∪ U, ?_, ?_⟩
    · rw [Finset.card_union_of_disjoint hdisj, Nat.card_Ico, hcard, List.map_cons, List.sum_cons]
    · intro x
      rw [Finset.mem_union, Finset.mem_Ico, hmem x]
      constructor
      · rintro (hx | ⟨k, hk, hx⟩)
        · exact ⟨i, List.mem_cons_self, hx⟩
        · exact ⟨k, List.mem_cons_of_mem _ hk, hx⟩
      · rintro ⟨k, hk, hx⟩
        rcases List.mem_cons.mp hk with rfl | hk
        · exact Or.inl hx
        · exact Or.inr ⟨k, hk, hx⟩

/-- **Their lengths add up to at most the length of what contains them.** -/
theorem sum_length_le {a b : ι → Nat} {l : List ι} {lo hi : Nat} (h : l.Pairwise (Apart a b))
    (hin : ∀ i ∈ l, lo ≤ a i ∧ b i ≤ hi) : (l.map fun i => b i - a i).sum ≤ hi - lo := by
  obtain ⟨U, hcard, hmem⟩ := exists_union a b l h
  have hsub : U ⊆ Finset.Ico lo hi := by
    intro x hx
    obtain ⟨i, hi, hlo, hhi⟩ := (hmem x).mp hx
    have hi' := hin i hi
    rw [Finset.mem_Ico]
    omega
  calc (l.map fun i => b i - a i).sum = U.card := hcard.symm
    _ ≤ (Finset.Ico lo hi).card := Finset.card_le_card hsub
    _ = hi - lo := Nat.card_Ico lo hi

end Caterpillar.Interval
