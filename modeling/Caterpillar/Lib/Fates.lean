/-
  What became of the elements offered to a FIFO.

  Every element offered gets a fate, in the order of the offers: it is `queued`, or it is `dropped` at
  the door, and of the queued ones the oldest become `sent` or `dropped` later, several at a time
  (`settle`).  So nothing is lost or counted twice by construction, and what has to be proved is what
  the fates have to do with the program:

  * `only f l` — the elements with one fate, in order; `settle_queued`, `settle_sent` and
    `settle_dropped` say what a settlement moves from one to the other;
  * `InOrder` — nothing is sent that was offered after something still queued; kept by both moves.
-/
import Mathlib.Tactic.Common

namespace Caterpillar.Fates

variable {α : Type}

/-- What became of an element. -/
inductive Fate where
  | queued
  | sent
  | dropped
  deriving DecidableEq

/-- The elements with the fate `f`, in order. -/
def only (f : Fate) (l : List (α × Fate)) : List α := (l.filter fun p => p.2 = f).map Prod.fst

/-- The first `n` queued elements get the fate `f`. -/
def settle (f : Fate) : Nat → List (α × Fate) → List (α × Fate)
  | 0, l => l
  | _ + 1, [] => []
  | n + 1, (x, .queued) :: l => (x, f) :: settle f n l
  | n + 1, p :: l => p :: settle f (n + 1) l

/-- Nothing is sent that was offered after something still queued. -/
def InOrder : List (α × Fate) → Prop
  | [] => True
  | (_, .queued) :: l => only .sent l = [] ∧ InOrder l
  | _ :: l => InOrder l

@[simp] theorem only_nil (f : Fate) : only f ([] : List (α × Fate)) = [] := rfl

@[simp] theorem only_append (f : Fate) (l m : List (α × Fate)) :
    only f (l ++ m) = only f l ++ only f m := by
  unfold only
  rw [List.filter_append, List.map_append]

@[simp] theorem only_cons_self (f : Fate) (x : α) (l : List (α × Fate)) :
    only f ((x, f) :: l) = x :: only f l := by
  simp [only]

theorem only_cons_ne {f g : Fate} (h : g ≠ f) (x : α) (l : List (α × Fate)) :
    only f ((x, g) :: l) = only f l := by
  simp [only, h]

/-! ## Settling -/

/-- Every element keeps its place. -/
theorem settle_fst (f : Fate) (n : Nat) (l : List (α × Fate)) :
    (settle f n l).map Prod.fst = l.map Prod.fst := by
  fun_induction settle f n l with
  | case1 l => rfl
  | case2 n => rfl
  | case3 n x l ih => rw [List.map_cons, List.map_cons, ih]
  | case4 n p l _ ih => rw [List.map_cons, List.map_cons, ih]

/-- What is settled is no longer queued. -/
theorem settle_queued {f : Fate} (hf : f ≠ .queued) (n : Nat) (l : List (α × Fate)) :
    only .queued (settle f n l) = (only .queued l).drop n := by
  fun_induction settle f n l with
  | case1 l => rfl
  | case2 n => rfl
  | case3 n x l ih => rw [only_cons_ne hf, only_cons_self, ih, List.drop_succ_cons]
  | case4 n p l hp ih =>
    obtain ⟨x, g⟩ := p
    have hne : g ≠ .queued := fun hg => hp x (by rw [hg])
    rw [only_cons_ne hne, only_cons_ne hne, ih]

/-- The fates that are not concerned stay. -/
theorem settle_other {f g : Fate} (hg : g ≠ .queued) (hf : f ≠ g) (n : Nat)
    (l : List (α × Fate)) : only g (settle f n l) = only g l := by
  fun_induction settle f n l with
  | case1 l => rfl
  | case2 n => rfl
  | case3 n x l ih => rw [only_cons_ne hf, only_cons_ne hg.symm, ih]
  | case4 n p l hp ih =>
    obtain ⟨x, k⟩ := p
    by_cases hk : k = g
    · rw [hk, only_cons_self, only_cons_self, ih]
    · rw [only_cons_ne hk, only_cons_ne hk, ih]

/-- **What is sent** is sent behind what was sent before. -/
theorem settle_sent {n : Nat} {l : List (α × Fate)} (h : InOrder l) :
    only .sent (settle .sent n l) = only .sent l ++ (only .queued l).take n := by
  fun_induction settle .sent n l with
  | case1 l => rw [List.take_zero, List.append_nil]
  | case2 n => rfl
  | case3 n x l ih =>
    obtain ⟨hnone, hrest⟩ := h
    rw [only_cons_self, only_cons_self, only_cons_ne (by decide), ih hrest, hnone,
      List.take_succ_cons]
    rfl
  | case4 n p l hp ih =>
    obtain ⟨x, g⟩ := p
    cases g with
    | queued => exact absurd rfl (hp x)
    | sent =>
      have hrest : InOrder l := h
      rw [only_cons_self, only_cons_self, only_cons_ne (by decide), ih hrest]
      rfl
    | dropped =>
      have hrest : InOrder l := h
      rw [only_cons_ne (by decide), only_cons_ne (by decide), only_cons_ne (by decide), ih hrest]

/-- **What is dropped** is counted once. -/
theorem settle_dropped (n : Nat) (l : List (α × Fate)) :
    (only .dropped (settle .dropped n l)).length =
      (only .dropped l).length + min n (only .queued l).length := by
  fun_induction settle .dropped n l with
  | case1 l => omega
  | case2 n => rfl
  | case3 n x l ih =>
    rw [only_cons_self, only_cons_self, only_cons_ne (by decide), List.length_cons, List.length_cons]
    omega
  | case4 n p l hp ih =>
    obtain ⟨x, g⟩ := p
    cases g with
    | queued => exact absurd rfl (hp x)
    | sent =>
      rw [only_cons_ne (by decide), only_cons_ne (by decide), only_cons_ne (by decide)]
      exact ih
    | dropped =>
      rw [only_cons_self, only_cons_self, only_cons_ne (by decide), List.length_cons,
        List.length_cons]
      omega

/-! ## The order -/

theorem InOrder.settle {f : Fate} (hf : f ≠ .queued) {n : Nat} {l : List (α × Fate)}
    (h : InOrder l) : InOrder (settle f n l) := by
  fun_induction Fates.settle f n l with
  | case1 l => exact h
  | case2 n => trivial
  | case3 n x l ih =>
    have hrest := ih h.2
    cases f with
    | queued => exact absurd rfl hf
    | sent => exact hrest
    | dropped => exact hrest
  | case4 n p l hp ih =>
    obtain ⟨x, g⟩ := p
    cases g with
    | queued => exact absurd rfl (hp x)
    | sent => exact ih h
    | dropped => exact ih h

/-- An element more is queued or dropped. -/
theorem InOrder.offer {f : Fate} (hf : f ≠ .sent) {l : List (α × Fate)} (h : InOrder l) (x : α) :
    InOrder (l ++ [(x, f)]) := by
  induction l with
  | nil =>
    cases f with
    | queued => exact ⟨rfl, trivial⟩
    | sent => exact absurd rfl hf
    | dropped => trivial
  | cons p l ih =>
    obtain ⟨y, g⟩ := p
    cases g with
    | queued =>
      obtain ⟨hnone, hrest⟩ := h
      have hlast : only .sent (l ++ [(x, f)]) = [] := by
        rw [only_append, hnone, only_cons_ne hf]
        rfl
      exact ⟨hlast, ih hrest⟩
    | sent => exact ih h
    | dropped => exact ih h

end Caterpillar.Fates
