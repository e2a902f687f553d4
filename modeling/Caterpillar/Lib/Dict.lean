/-
  Dictionaries that remember the order of their keys.

  An association list.  Setting a key that is there keeps its place, as it does in a Python `dict`; a
  new key goes last.

  `setItem` and `lookup`; what the one does to the other (`lookup_setItem`), and to the keys
  (`keys_setItem`, `nodup_setItem`).
-/
import Mathlib.Data.List.Nodup

namespace Caterpillar.Dict

variable {κ ν : Type} [DecidableEq κ]

/-- `d[k] = v`. -/
def setItem : List (κ × ν) → κ → ν → List (κ × ν)
  | [], k, v => [(k, v)]
  | p :: d, k, v => if p.1 = k then (k, v) :: d else p :: setItem d k v

/-- `d.get(k)`. -/
def lookup : List (κ × ν) → κ → Option ν
  | [], _ => none
  | p :: d, k => if p.1 = k then some p.2 else lookup d k

/-- The keys stay; a new one goes last. -/
theorem keys_setItem (d : List (κ × ν)) (k : κ) (v : ν) :
    (setItem d k v).map Prod.fst =
      if k ∈ d.map Prod.fst then d.map Prod.fst else d.map Prod.fst ++ [k] := by
  induction d with
  | nil => rfl
  | cons p d ih =>
    rw [setItem, List.map_cons]
    by_cases hk : p.1 = k
    · rw [if_pos hk, if_pos (List.mem_cons.mpr (Or.inl hk.symm)), List.map_cons, hk]
    · rw [if_neg hk, List.map_cons, ih]
      by_cases hmem : k ∈ d.map Prod.fst
      · rw [if_pos hmem, if_pos (List.mem_cons.mpr (Or.inr hmem))]
      · rw [if_neg hmem, if_neg, List.cons_append]
        rintro hin
        rcases List.mem_cons.mp hin with heq | hin
        · exact hk heq.symm
        · exact hmem hin

/-- What a key has after another was set. -/
theorem lookup_setItem (d : List (κ × ν)) (k k' : κ) (v : ν) :
    lookup (setItem d k v) k' = if k' = k then some v else lookup d k' := by
  induction d with
  | nil =>
    show (if k = k' then some v else none) = if k' = k then some v else none
    by_cases hk : k' = k
    · rw [if_pos hk, if_pos hk.symm]
    · rw [if_neg hk, if_neg fun h => hk h.symm]
  | cons p d ih =>
    rw [setItem]
    by_cases hp : p.1 = k
    · rw [if_pos hp]
      show (if k = k' then some v else lookup d k') = _
      rw [lookup, hp]
      by_cases hk : k' = k
      · rw [if_pos hk, if_pos hk.symm]
      · rw [if_neg hk, if_neg fun h => hk h.symm, if_neg fun h => hk h.symm]
    · rw [if_neg hp, lookup, lookup, ih]
      by_cases hk : p.1 = k'
      · rw [if_pos hk, if_pos hk, if_neg]
        rintro rfl
        exact hp hk
      · rw [if_neg hk, if_neg hk]

/-- With keys that differ, an entry is what its key has. -/
theorem mem_iff_lookup {d : List (κ × ν)} (h : (d.map Prod.fst).Nodup) (k : κ) (v : ν) :
    (k, v) ∈ d ↔ lookup d k = some v := by
  induction d with
  | nil => exact iff_of_false List.not_mem_nil (by rintro ⟨⟩)
  | cons p d ih =>
    obtain ⟨hnew, hrest⟩ := List.nodup_cons.mp h
    rw [lookup, List.mem_cons]
    by_cases hp : p.1 = k
    · rw [if_pos hp]
      constructor
      · rintro (rfl | hin)
        · rfl
        · exact absurd (List.mem_map.mpr ⟨(k, v), hin, hp.symm⟩) hnew
      · intro hv
        exact Or.inl (Prod.ext hp.symm (Option.some.inj hv).symm)
    · rw [if_neg hp, ← ih hrest]
      constructor
      · rintro (rfl | hin)
        · exact absurd rfl hp
        · exact hin
      · exact Or.inr

/-- Setting an item brings no key in twice. -/
theorem nodup_setItem {d : List (κ × ν)} (h : (d.map Prod.fst).Nodup) (k : κ) (v : ν) :
    ((setItem d k v).map Prod.fst).Nodup := by
  rw [keys_setItem]
  split
  · exact h
  · rename_i hnew
    refine List.nodup_append.mpr ⟨h, List.nodup_singleton _, fun a ha b hb => ?_⟩
    rw [List.mem_singleton.mp hb]
    rintro rfl
    exact hnew ha

end Caterpillar.Dict
