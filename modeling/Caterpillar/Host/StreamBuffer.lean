/-
  `StreamBuffer` of the GUI (src/scripts/caterpillar_gui.py): the samples behind the live plots.

  Program: three arrays of `2 * cap` samples, filled from the front.  A batch that does not fit any
  more first moves the newest `cap` samples to the front; of a batch of `cap` samples or more only the
  newest `cap` are kept.

  1. `StreamBuffer.append`, `clear` — the methods; an assignment outside an array, or of the wrong
     length, fails.
  2. `Shows` — an array shows the newest samples of a history, kept by the compaction and by the
     assignment behind the last sample.
  3. `stream_buffer_newest` — after any calls no assignment has failed, and the newest samples stand at
     the end of each array.
-/
import Caterpillar.Lib.Slice

namespace Caterpillar.Host.Plot

open Caterpillar.Slice

variable {τ α γ : Type}

/-! ## The class -/

/-- `StreamBuffer`. -/
structure StreamBuffer (τ α γ : Type) where
  cap : Nat
  t : List τ
  acc : List α
  gyr : List γ
  len : Nat

/-- `__init__`, with the zero of each array. -/
def StreamBuffer.new (cap : Nat) (t : τ) (acc : α) (gyr : γ) : StreamBuffer τ α γ :=
  ⟨cap, List.replicate (2 * cap) t, List.replicate (2 * cap) acc, List.replicate (2 * cap) gyr, 0⟩

/-- `clear`. -/
def StreamBuffer.clear (b : StreamBuffer τ α γ) : StreamBuffer τ α γ := { b with len := 0 }

/-- `xs[-k:]`; `-0` counts from the front. -/
def lastUpTo (xs : List α) (k : Nat) : List α := if k = 0 then xs else xs.rtake k

/-- `a[:keep] = a[len - keep:len]`. -/
def compactArray (a : List α) (keep len : Nat) : Option (List α) := do
  let newest ← view a ((len : Int) - keep) len
  assign a 0 keep newest

/-- The compaction of the three arrays. -/
def StreamBuffer.compact (b : StreamBuffer τ α γ) : Option (StreamBuffer τ α γ) := do
  let keep := b.cap
  let t ← compactArray b.t keep b.len
  let acc ← compactArray b.acc keep b.len
  let gyr ← compactArray b.gyr keep b.len
  some { b with t, acc, gyr, len := keep }

/-- `self.t[sl] = t` and its like, and `self.len += n`. -/
def StreamBuffer.write (b : StreamBuffer τ α γ) (n : Nat) (t : List τ) (acc : List α)
    (gyr : List γ) : Option (StreamBuffer τ α γ) := do
  let t ← assign b.t b.len (b.len + n : Nat) t
  let acc ← assign b.acc b.len (b.len + n : Nat) acc
  let gyr ← assign b.gyr b.len (b.len + n : Nat) gyr
  some { b with t, acc, gyr, len := b.len + n }

/-- `append` of `n` samples, no more than the capacity. -/
def StreamBuffer.appendSome (b : StreamBuffer τ α γ) (n : Nat) (t : List τ) (acc : List α)
    (gyr : List γ) : Option (StreamBuffer τ α γ) := do
  let b ← if b.len + n > 2 * b.cap then b.compact else some b
  b.write n t acc gyr

/-- `append`. -/
def StreamBuffer.append (b : StreamBuffer τ α γ) (t : List τ) (acc : List α) (gyr : List γ) :
    Option (StreamBuffer τ α γ) :=
  let n := t.length
  if n ≥ b.cap then
    b.appendSome b.cap (lastUpTo t b.cap) (lastUpTo acc b.cap) (lastUpTo gyr b.cap)
  else b.appendSome n t acc gyr

/-! ## One array -/

/-- The first `len` places of an array end with the newest samples of a history. -/
structure Shows (cap len : Nat) (a hist : List α) : Prop where
  size : a.length = 2 * cap
  newest : hist.rtake cap <:+ a.take len

theorem Shows.compact {cap len : Nat} {a hist : List α} (h : Shows cap len a hist)
    (hlo : cap ≤ len) (hhi : len ≤ 2 * cap) :
    ∃ a', compactArray a cap len = some a' ∧ Shows cap cap a' hist := by
  have hview : view a ((len : Int) - cap) len = some ((a.take len).rtake cap) :=
    view_last (by rw [h.size]; exact hhi) hlo
  have hlen : ((a.take len).rtake cap).length = cap := by
    rw [rtake_length, List.length_take, h.size]
    omega
  have hroom : 0 + ((a.take len).rtake cap).length ≤ a.length := by
    rw [hlen, h.size]
    omega
  obtain ⟨a', hassign, hsize, hfront⟩ := assign_fits hroom
  rw [Nat.zero_add, hlen] at hassign hfront
  refine ⟨a', ?_, hsize.trans h.size, ?_⟩
  · unfold compactArray
    rw [hview]
    exact hassign
  · rw [hfront]
    refine suffix_rtake h.newest ?_
    rw [rtake_length]
    omega

theorem Shows.write {cap len : Nat} {a hist xs : List α} (h : Shows cap len a hist)
    (hfit : len + xs.length ≤ 2 * cap) :
    ∃ a', assign a len (len + xs.length : Nat) xs = some a' ∧
      Shows cap (len + xs.length) a' (hist ++ xs) := by
  have hroom : len + xs.length ≤ a.length := by
    rw [h.size]
    exact hfit
  obtain ⟨a', hassign, hsize, hfront⟩ := assign_fits hroom
  refine ⟨a', hassign, hsize.trans h.size, ?_⟩
  rw [hfront]
  obtain ⟨front, hnewest⟩ := h.newest
  refine (rtake_append_suffix cap hist xs).trans ⟨front, ?_⟩
  rw [← List.append_assoc, hnewest]

/-- What is cut off a long batch would not be shown. -/
theorem Shows.uncut {cap len : Nat} {a hist xs : List α} (hcap : 0 < cap) (hlong : cap ≤ xs.length)
    (h : Shows cap len a (hist ++ lastUpTo xs cap)) : Shows cap len a (hist ++ xs) := by
  have hcut : lastUpTo xs cap = xs.rtake cap := if_neg (by omega)
  have hlen : (xs.rtake cap).length = cap := by
    rw [rtake_length]
    omega
  have hsame : (hist ++ xs).rtake cap = (hist ++ lastUpTo xs cap).rtake cap := by
    calc (hist ++ xs).rtake cap = xs.rtake cap := rtake_append hist hlong
      _ = (xs.rtake cap).rtake (xs.rtake cap).length := (rtake_eq_of_suffix (List.suffix_refl _)).symm
      _ = (hist ++ xs.rtake cap).rtake cap := by
        rw [hlen]
        exact (rtake_append hist (Nat.le_of_eq hlen.symm)).symm
      _ = (hist ++ lastUpTo xs cap).rtake cap := by rw [hcut]
  refine ⟨h.size, ?_⟩
  rw [hsame]
  exact h.newest

/-! ## The three arrays -/

/-- A batch of samples, or a history of them. -/
structure Batch (τ α γ : Type) where
  t : List τ
  acc : List α
  gyr : List γ
  acc_length : acc.length = t.length
  gyr_length : gyr.length = t.length

/-- No samples. -/
def Batch.empty : Batch τ α γ := ⟨[], [], [], rfl, rfl⟩

/-- One batch behind the other. -/
def Batch.extend (h x : Batch τ α γ) : Batch τ α γ where
  t := h.t ++ x.t
  acc := h.acc ++ x.acc
  gyr := h.gyr ++ x.gyr
  acc_length := by rw [List.length_append, List.length_append, h.acc_length, x.acc_length]
  gyr_length := by rw [List.length_append, List.length_append, h.gyr_length, x.gyr_length]

/-- The buffer shows the newest samples of a history. -/
structure Tracks (b : StreamBuffer τ α γ) (t : List τ) (acc : List α) (gyr : List γ) : Prop where
  len_le : b.len ≤ 2 * b.cap
  t : Shows b.cap b.len b.t t
  acc : Shows b.cap b.len b.acc acc
  gyr : Shows b.cap b.len b.gyr gyr

theorem Tracks.compact {b : StreamBuffer τ α γ} {t : List τ} {acc : List α} {gyr : List γ}
    (h : Tracks b t acc gyr) (hlo : b.cap ≤ b.len) :
    ∃ b', b.compact = some b' ∧ b'.cap = b.cap ∧ b'.len = b.cap ∧ Tracks b' t acc gyr := by
  obtain ⟨t', ht, hst⟩ := h.t.compact hlo h.len_le
  obtain ⟨acc', hacc, hsacc⟩ := h.acc.compact hlo h.len_le
  obtain ⟨gyr', hgyr, hsgyr⟩ := h.gyr.compact hlo h.len_le
  refine ⟨{ b with t := t', acc := acc', gyr := gyr', len := b.cap }, ?_, rfl, rfl, ?_⟩
  · unfold StreamBuffer.compact
    dsimp only
    rw [ht, hacc, hgyr]
    rfl
  · refine ⟨?_, hst, hsacc, hsgyr⟩
    show b.cap ≤ 2 * b.cap
    omega

theorem Tracks.write {b : StreamBuffer τ α γ} {t xt : List τ} {acc xacc : List α}
    {gyr xgyr : List γ} (h : Tracks b t acc gyr) {n : Nat} (ht : xt.length = n)
    (hacc : xacc.length = n) (hgyr : xgyr.length = n) (hfit : b.len + n ≤ 2 * b.cap) :
    ∃ b', b.write n xt xacc xgyr = some b' ∧ b'.cap = b.cap ∧
      Tracks b' (t ++ xt) (acc ++ xacc) (gyr ++ xgyr) := by
  have htfit : b.len + xt.length ≤ 2 * b.cap := by omega
  have haccfit : b.len + xacc.length ≤ 2 * b.cap := by omega
  have hgyrfit : b.len + xgyr.length ≤ 2 * b.cap := by omega
  obtain ⟨t', hat, hst⟩ := h.t.write htfit
  obtain ⟨acc', haacc, hsacc⟩ := h.acc.write haccfit
  obtain ⟨gyr', hagyr, hsgyr⟩ := h.gyr.write hgyrfit
  rw [ht] at hat hst
  rw [hacc] at haacc hsacc
  rw [hgyr] at hagyr hsgyr
  refine ⟨{ b with t := t', acc := acc', gyr := gyr', len := b.len + n }, ?_, rfl,
    hfit, hst, hsacc, hsgyr⟩
  unfold StreamBuffer.write
  rw [hat, haacc, hagyr]
  rfl

/-- **A batch of at most the capacity** always finds room, after the compaction at the latest. -/
theorem Tracks.appendSome {b : StreamBuffer τ α γ} {t xt : List τ} {acc xacc : List α}
    {gyr xgyr : List γ} (h : Tracks b t acc gyr) {n : Nat} (ht : xt.length = n)
    (hacc : xacc.length = n) (hgyr : xgyr.length = n) (hn : n ≤ b.cap) :
    ∃ b', b.appendSome n xt xacc xgyr = some b' ∧ b'.cap = b.cap ∧
      Tracks b' (t ++ xt) (acc ++ xacc) (gyr ++ xgyr) := by
  unfold StreamBuffer.appendSome
  by_cases hfull : b.len + n > 2 * b.cap
  · obtain ⟨b₁, hcompact, hcap, hlen, h₁⟩ := h.compact (by omega)
    rw [if_pos hfull, hcompact]
    obtain ⟨b', hwrite, hcap', h'⟩ := h₁.write ht hacc hgyr (by omega)
    exact ⟨b', hwrite, hcap'.trans hcap, h'⟩
  · rw [if_neg hfull]
    exact h.write ht hacc hgyr (by omega)

/-- **Step lemma of `append`.** -/
theorem Tracks.append {b : StreamBuffer τ α γ} {h x : Batch τ α γ} (hb : Tracks b h.t h.acc h.gyr)
    (hcap : 0 < b.cap) :
    ∃ b', b.append x.t x.acc x.gyr = some b' ∧ b'.cap = b.cap ∧
      Tracks b' (h.extend x).t (h.extend x).acc (h.extend x).gyr := by
  have hcut : ∀ {β : Type} (xs : List β), b.cap ≤ xs.length → (lastUpTo xs b.cap).length = b.cap := by
    intro β xs hlong
    unfold lastUpTo
    rw [if_neg (by omega), rtake_length]
    omega
  have hacc := x.acc_length
  have hgyr := x.gyr_length
  unfold StreamBuffer.append
  by_cases hlong : x.t.length ≥ b.cap
  · obtain ⟨b', happend, hcap', h'⟩ := hb.appendSome (n := b.cap) (hcut x.t hlong)
      (hcut x.acc (by omega)) (hcut x.gyr (by omega)) (Nat.le_refl _)
    refine ⟨b', ?_, hcap', h'.len_le, ?_, ?_, ?_⟩
    · exact (if_pos hlong).trans happend
    · rw [hcap']
      exact (hcap' ▸ h'.t).uncut hcap hlong
    · rw [hcap']
      exact (hcap' ▸ h'.acc).uncut hcap (by omega)
    · rw [hcap']
      exact (hcap' ▸ h'.gyr).uncut hcap (by omega)
  · obtain ⟨b', happend, hcap', h'⟩ := hb.appendSome rfl hacc hgyr (by omega)
    exact ⟨b', (if_neg hlong).trans happend, hcap', h'⟩

/-! ## Over calls -/

/-- A method call. -/
inductive BufferCall (τ α γ : Type) where
  | append (x : Batch τ α γ)
  | clear

/-- One call. -/
def StreamBuffer.call (b : StreamBuffer τ α γ) : BufferCall τ α γ → Option (StreamBuffer τ α γ)
  | .append x => b.append x.t x.acc x.gyr
  | .clear => some b.clear

/-- The samples since `clear`. -/
def Batch.after (h : Batch τ α γ) : BufferCall τ α γ → Batch τ α γ
  | .append x => h.extend x
  | .clear => .empty

theorem Tracks.call {b : StreamBuffer τ α γ} {h : Batch τ α γ} (hb : Tracks b h.t h.acc h.gyr)
    (hcap : 0 < b.cap) (c : BufferCall τ α γ) :
    ∃ b', b.call c = some b' ∧ b'.cap = b.cap ∧
      Tracks b' (h.after c).t (h.after c).acc (h.after c).gyr := by
  cases c with
  | append x => exact hb.append hcap
  | clear =>
    have hnil : ∀ {β : Type} {a hist : List β}, Shows b.cap b.len a hist → Shows b.cap 0 a [] := by
      intro β a hist hs
      refine ⟨hs.size, ?_⟩
      rw [List.rtake_nil]
      exact List.nil_suffix
    exact ⟨b.clear, rfl, rfl, Nat.zero_le _, hnil hb.t, hnil hb.acc, hnil hb.gyr⟩

/-- **Run lemma.** -/
theorem Tracks.run {b : StreamBuffer τ α γ} {h : Batch τ α γ} (hb : Tracks b h.t h.acc h.gyr)
    (hcap : 0 < b.cap) (calls : List (BufferCall τ α γ)) :
    ∃ b', calls.foldlM StreamBuffer.call b = some b' ∧ b'.cap = b.cap ∧
      Tracks b' (calls.foldl Batch.after h).t (calls.foldl Batch.after h).acc
        (calls.foldl Batch.after h).gyr := by
  induction calls generalizing b h with
  | nil => exact ⟨b, rfl, rfl, hb⟩
  | cons c calls ih =>
    obtain ⟨b₁, hcall, hcap₁, h₁⟩ := hb.call hcap c
    obtain ⟨b', hrun, hcap', h'⟩ := ih h₁ (by omega)
    refine ⟨b', ?_, hcap'.trans hcap₁, h'⟩
    rw [List.foldlM_cons, hcall]
    exact hrun

theorem new_tracks (cap : Nat) (t : τ) (acc : α) (gyr : γ) :
    Tracks (StreamBuffer.new cap t acc gyr) [] [] [] := by
  have hzero : ∀ {β : Type} (z : β), Shows cap 0 (List.replicate (2 * cap) z) [] := by
    intro β z
    refine ⟨List.length_replicate, ?_⟩
    rw [List.rtake_nil]
    exact List.nil_suffix
  exact ⟨Nat.zero_le _, hzero t, hzero acc, hzero gyr⟩

/-- The newest samples, counted. -/
theorem Shows.last {cap len : Nat} {a hist : List α} (h : Shows cap len a hist) :
    (a.take len).rtake (min hist.length cap) = hist.rtake (min hist.length cap) := by
  have hlen : (hist.rtake cap).length = min hist.length cap := by
    rw [rtake_length, Nat.min_comm]
  rw [← hlen, rtake_eq_of_suffix h.newest]
  exact (rtake_eq_of_suffix (rtake_suffix cap hist)).symm

/-- **The newest samples stand at the end**: after any calls, from an empty buffer, no assignment has
    left its array or found another length, and the last entries of each array, as many as have been
    appended since `clear` and at most `cap`, are the last samples appended. -/
theorem stream_buffer_newest {cap : Nat} (hcap : 0 < cap) (t : τ) (acc : α) (gyr : γ)
    (calls : List (BufferCall τ α γ)) :
    ∃ b, calls.foldlM StreamBuffer.call (StreamBuffer.new cap t acc gyr) = some b ∧
      b.len ≤ 2 * cap ∧
      let h := calls.foldl Batch.after Batch.empty
      let k := min h.t.length cap
      k ≤ b.len ∧ (b.t.take b.len).rtake k = h.t.rtake k ∧
        (b.acc.take b.len).rtake k = h.acc.rtake k ∧
        (b.gyr.take b.len).rtake k = h.gyr.rtake k := by
  obtain ⟨b, hrun, hbcap, hb⟩ :=
    (new_tracks cap t acc gyr).run (h := Batch.empty) hcap calls
  obtain rfl : b.cap = cap := hbcap
  refine ⟨b, hrun, hb.len_le, ?_⟩
  intro h k
  have hlast := hb.t.last
  have hk : k ≤ b.len := by
    have hle : min k (min b.len b.t.length) = min k h.t.length := by
      have hlen := congrArg List.length hlast
      rw [rtake_length, rtake_length, List.length_take] at hlen
      exact hlen
    have hk : k ≤ h.t.length := Nat.min_le_left _ _
    omega
  refine ⟨hk, hlast, ?_, ?_⟩
  · have hacc := hb.acc.last
    rw [h.acc_length] at hacc
    exact hacc
  · have hgyr := hb.gyr.last
    rw [h.gyr_length] at hgyr
    exact hgyr

/-- One sample, a burst of three into a buffer of two, two more, and one. -/
theorem stream_buffer_newest_burst :
    let batch := fun xs : List Nat => BufferCall.append (⟨xs, xs, xs, rfl, rfl⟩ : Batch Nat Nat Nat)
    ∃ b, [batch [1], batch [2, 3, 4], batch [5, 6], batch [7]].foldlM StreamBuffer.call
        (StreamBuffer.new 2 0 0 0) = some b ∧
      b.len ≤ 4 ∧ (b.t.take b.len).rtake 2 = [6, 7] := by
  intro batch
  obtain ⟨b, hrun, hlen, -, ht, -, -⟩ := stream_buffer_newest (by decide : 0 < 2) 0 0 0
    [batch [1], batch [2, 3, 4], batch [5, 6], batch [7]]
  exact ⟨b, hrun, hlen, ht⟩

end Caterpillar.Host.Plot
