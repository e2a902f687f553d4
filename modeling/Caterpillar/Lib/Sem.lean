/-
  Counting semaphores with a limit (`struct k_sem`).

  A `KSem limit` carries its bound: no state above the limit can be built.  `give` SATURATES — a
  token given to a full semaphore is lost — and `reset` throws the tokens away, so tokens are not
  conserved by themselves.  What a program relies on is a budget: tokens and tokens in use together
  stay within `b` (`Within`).  The rules are

  * `Within.take` / `Within.release` — taking a token into use and giving one back keep the budget;
  * `Within.give` — a token out of nowhere keeps it exactly where there is room for it, or where
    nothing is in use and the semaphore saturates.
-/
import Mathlib.Tactic.Common

namespace Caterpillar.Sem

/-- A semaphore and its limit. -/
structure KSem (limit : Nat) where
  count : Nat
  count_le : count ≤ limit

variable {limit : Nat}

@[ext] theorem KSem.ext {s t : KSem limit} (h : s.count = t.count) : s = t := by
  cases s
  cases t
  cases h
  rfl

/-- `K_SEM_DEFINE(s, n, limit)`. -/
def KSem.init (n : Nat) (h : n ≤ limit) : KSem limit := ⟨n, h⟩

/-- Defined without a token. -/
def KSem.empty : KSem limit := KSem.init 0 (Nat.zero_le limit)

/-- Defined with as many as it takes. -/
def KSem.full : KSem limit := KSem.init limit (Nat.le_refl limit)

/-- `k_sem_give`. -/
def KSem.give (s : KSem limit) : KSem limit := ⟨min (s.count + 1) limit, Nat.min_le_right _ _⟩

/-- `k_sem_take` where it succeeds at once. -/
def KSem.take (s : KSem limit) : Option (KSem limit) :=
  if s.count = 0 then none else some ⟨s.count - 1, Nat.le_trans (Nat.sub_le _ _) s.count_le⟩

/-- `k_sem_reset`. -/
def KSem.reset (_ : KSem limit) : KSem limit := ⟨0, Nat.zero_le _⟩

@[simp] theorem KSem.init_count (n : Nat) (h : n ≤ limit) : (KSem.init n h).count = n := rfl

@[simp] theorem KSem.reset_count (s : KSem limit) : s.reset.count = 0 := rfl

theorem KSem.give_count (s : KSem limit) : s.give.count = min (s.count + 1) limit := rfl

/-- A semaphore with a limit of at least one holds a token after a give. -/
theorem KSem.give_pos (s : KSem limit) (h : 0 < limit) : 0 < s.give.count := by
  rw [s.give_count]
  omega

theorem KSem.take_some {s t : KSem limit} (h : s.take = some t) :
    0 < s.count ∧ t.count = s.count - 1 := by
  unfold KSem.take at h
  split at h
  · exact absurd h (by simp)
  · rename_i hpos
    obtain rfl := Option.some.inj h
    exact ⟨Nat.pos_of_ne_zero hpos, rfl⟩

theorem KSem.take_none {s : KSem limit} (h : s.take = none) : s.count = 0 := by
  unfold KSem.take at h
  split at h
  · assumption
  · exact absurd h (by simp)

/-! ## Budgets -/

/-- Tokens and tokens in use together are at most `b`. -/
def Within (b : Nat) (s : KSem limit) (used : Nat) : Prop := s.count + used ≤ b

/-- A token goes from the semaphore into use. -/
theorem Within.take {b used : Nat} {s t : KSem limit} (h : Within b s used)
    (ht : s.take = some t) : Within b t (used + 1) := by
  obtain ⟨hpos, hcount⟩ := KSem.take_some ht
  unfold Within at *
  omega

/-- A token in use is given back. -/
theorem Within.release {b used : Nat} {s : KSem limit} (h : Within b s (used + 1)) :
    Within b s.give used := by
  unfold Within at *
  rw [s.give_count]
  omega

/-- A token is taken and thrown away. -/
theorem Within.discard {b used : Nat} {s t : KSem limit} (h : Within b s used)
    (ht : s.take = some t) : Within b t used := by
  obtain ⟨-, hcount⟩ := KSem.take_some ht
  unfold Within at *
  omega

/-- **A token out of nowhere** needs room in the budget, or nothing in use and a semaphore that
    saturates at the budget. -/
theorem Within.give {b used : Nat} {s : KSem limit}
    (h : s.count + used < b ∨ used = 0 ∧ limit ≤ b) : Within b s.give used := by
  unfold Within
  rw [s.give_count]
  omega

end Caterpillar.Sem
