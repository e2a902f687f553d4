/-
  Transition systems: reachable states, guarded runs, and devices written through a trace.

  Two small theories, both over arbitrary types.

  1. **Runs.**  `Reach init step s` — `s` is reached from an initial state by finitely many labelled
     steps.  `Reach.invariant` packages the one induction every safety proof needs; `guarded G step`
     restricts a step relation to the steps that meet a condition on the state BEFORE the step and
     the label, and `Reach.mono` transports reachability along an inclusion of step relations.
     `Ends f s P` says that every run out of `s` comes to an end, and to one with `P`; its rule is
     `Ends.of_measure`.
     For a total step, `foldl_keeps_iff` and `foldl_ends_iff` say which runs keep a property, and
     which end with it, and `foldl_written` what a run shows of what its steps write.

  2. **Replay.**  A storage device changes only through a list of atomic writes.  `replay write t f`
     is the image after the writes `t`; a power cut leaves `replay write (t.take k) f` for some `k`.
     `Along P t f` says that EVERY such image satisfies `P`; it composes along `++`
     (`along_append`), so the crash images of a long operation are covered by looking at its writes
     one at a time.
-/
import Mathlib.Tactic.Common

namespace Caterpillar.Runs

variable {σ α : Type}

/-! ## Reachable states -/

/-- The states reached from `init` by finitely many labelled steps. -/
inductive Reach (init : σ → Prop) (step : σ → α → σ → Prop) : σ → Prop
  | start {s : σ} : init s → Reach init step s
  | next {s s' : σ} {a : α} : Reach init step s → step s a s' → Reach init step s'

/-- The steps of `step` whose source state and label meet the condition `G`. -/
def guarded (G : σ → α → Prop) (step : σ → α → σ → Prop) : σ → α → σ → Prop :=
  fun s a s' => G s a ∧ step s a s'

/-- **Invariant rule.**  What holds initially and is preserved by every step out of a reachable
    state holds in every reachable state. -/
theorem Reach.invariant {init : σ → Prop} {step : σ → α → σ → Prop} {I : σ → Prop}
    (h0 : ∀ s, init s → I s)
    (hs : ∀ s a s', Reach init step s → I s → step s a s' → I s') {s : σ}
    (h : Reach init step s) : I s := by
  induction h with
  | start hi => exact h0 _ hi
  | next hr hst ih => exact hs _ _ _ hr ih hst

/-- More steps (and more initial states) reach more. -/
theorem Reach.mono {init init' : σ → Prop} {step step' : σ → α → σ → Prop}
    (hi : ∀ s, init s → init' s) (hst : ∀ s a s', step s a s' → step' s a s') {s : σ}
    (h : Reach init step s) : Reach init' step' s := by
  induction h with
  | start h0 => exact .start (hi _ h0)
  | next _ hs ih => exact .next ih (hst _ _ _ hs)

/-- **Executable runs.**  Where a function computes steps, the states it runs to are reached. -/
theorem Reach.run {init : σ → Prop} {step : σ → α → σ → Prop} {f : σ → α → Option σ}
    (hf : ∀ s a s', f s a = some s' → step s a s') {as : List α} {s s' : σ}
    (h : Reach init step s) (hr : as.foldlM f s = some s') : Reach init step s' := by
  induction as generalizing s with
  | nil =>
    obtain rfl := Option.some.inj hr
    exact h
  | cons a as ih =>
    rw [List.foldlM_cons] at hr
    obtain ⟨s₁, h₁, hrest⟩ := Option.bind_eq_some_iff.mp hr
    exact ih (h.next (hf _ _ _ h₁)) hrest

/-- The same for guarded steps, with a guard that is computed. -/
theorem Reach.runGuarded {init : σ → Prop} {g : σ → α → Bool} {f : σ → α → Option σ}
    {as : List α} {s s' : σ}
    (h : Reach init (guarded (fun s a => g s a = true) fun s a s' => f s a = some s') s)
    (hr : as.foldlM (fun s a => if g s a then f s a else none) s = some s') :
    Reach init (guarded (fun s a => g s a = true) fun s a s' => f s a = some s') s' := by
  refine h.run (fun s a s' hst => ?_) hr
  split at hst
  · rename_i hg
    exact ⟨hg, hst⟩
  · exact absurd hst (by simp)

/-! ## Runs that end -/

/-- Every run out of `s` has at most so many steps, and `P` holds where no step is left. -/
def Ends (f : σ → α → Option σ) (s : σ) (P : σ → Prop) : Prop :=
  ∃ b, ∀ (as : List α) s', as.foldlM f s = some s' → as.length ≤ b ∧ ((∀ a, f s' a = none) → P s')

section Measure

variable {f : σ → α → Option σ} {I : σ → Prop} {μ : σ → Nat}
  (hstep : ∀ s a s', I s → f s a = some s' → I s' ∧ μ s' < μ s)
include hstep

/-- A run is paid for by what it takes off the measure. -/
theorem run_measure (as : List α) {s s' : σ} (h : I s) (hr : as.foldlM f s = some s') :
    I s' ∧ as.length + μ s' ≤ μ s := by
  induction as generalizing s with
  | nil =>
    obtain rfl := Option.some.inj hr
    exact ⟨h, Nat.le_of_eq (Nat.zero_add _)⟩
  | cons a as ih =>
    rw [List.foldlM_cons] at hr
    obtain ⟨s₁, h₁, hrest⟩ := Option.bind_eq_some_iff.mp hr
    obtain ⟨hi, hlt⟩ := hstep s a s₁ h h₁
    obtain ⟨hi', hle⟩ := ih hi hrest
    refine ⟨hi', ?_⟩
    rw [List.length_cons]
    omega

/-- **Termination rule.**  What the invariant says of the states without a step holds at the end of
    every run. -/
theorem Ends.of_measure {P : σ → Prop} {s : σ} (h : I s)
    (hend : ∀ s', I s' → (∀ a, f s' a = none) → P s') : Ends f s P := by
  refine ⟨μ s, fun as s' hr => ?_⟩
  obtain ⟨hi, hle⟩ := run_measure hstep as h hr
  exact ⟨by omega, hend s' hi⟩

/-- And there is a run to its end. -/
theorem exists_end {s : σ} (h : I s) :
    ∃ (as : List α) (s' : σ), as.foldlM f s = some s' ∧ ∀ a, f s' a = none := by
  obtain ⟨n, hn⟩ : ∃ n, n = μ s := ⟨_, rfl⟩
  induction n using Nat.strongRecOn generalizing s with
  | ind n ih =>
    by_cases hstuck : ∀ a, f s a = none
    · exact ⟨[], s, rfl, hstuck⟩
    · obtain ⟨a, ha⟩ := not_forall.mp hstuck
      obtain ⟨s₁, h₁⟩ := Option.ne_none_iff_exists'.mp ha
      obtain ⟨hi, hlt⟩ := hstep s a s₁ h h₁
      obtain ⟨as, s', hr, hend⟩ := ih (μ s₁) (by omega) hi rfl
      refine ⟨a :: as, s', ?_, hend⟩
      rw [List.foldlM_cons, h₁]
      exact hr

end Measure

/-! ## Runs of a total step -/

/-- What every step keeps, a run of a total step keeps. -/
theorem foldl_keeps {step : σ → α → σ} {I : σ → Prop} (hI : ∀ s a, I s → I (step s a))
    (as : List α) {s : σ} (h : I s) : I (as.foldl step s) := by
  induction as generalizing s with
  | nil => exact h
  | cons a as ih => exact ih (hI s a h)

/-- **Runs of a total step.**  Where a step out of a state with the invariant `I` keeps `P` exactly
    if it meets the condition `G`, `P` holds all along a run exactly if every step of it meets
    `G`. -/
theorem foldl_keeps_iff {step : σ → α → σ} {I P : σ → Prop} {G : σ → α → Prop}
    (hI : ∀ s a, I s → I (step s a)) (hP : ∀ s a, I s → P s → (P (step s a) ↔ G s a)) {s : σ}
    (hi : I s) (hp : P s) (as : List α) :
    (∀ k, P ((as.take k).foldl step s)) ↔
      ∀ k a, as[k]? = some a → G ((as.take k).foldl step s) a := by
  have hnext : ∀ k a, as[k]? = some a →
      (as.take (k + 1)).foldl step s = step ((as.take k).foldl step s) a := by
    intro k a ha
    rw [List.take_add_one, ha, List.foldl_append]
    rfl
  constructor
  · intro hall k a ha
    have hafter := hall (k + 1)
    rw [hnext k a ha] at hafter
    exact (hP _ a (foldl_keeps hI _ hi) (hall k)).mp hafter
  · intro hall k
    induction k with
    | zero => exact hp
    | succ k ih =>
      cases ha : as[k]? with
      | none =>
        have hlen : as.length ≤ k := List.getElem?_eq_none_iff.mp ha
        rw [List.take_of_length_le hlen] at ih
        rw [List.take_of_length_le (Nat.le_succ_of_le hlen)]
        exact ih
      | some a =>
        rw [hnext k a ha]
        exact (hP _ a (foldl_keeps hI _ hi) ih).mpr (hall k a ha)

/-- **Runs of a total step that cannot recover.**  Where `P` holds after a step exactly if it held
    before it and the step meets the condition `G`, a run ends with `P` exactly if every step of it
    meets `G`. -/
theorem foldl_ends_iff {step : σ → α → σ} {I P : σ → Prop} {G : σ → α → Prop}
    (hI : ∀ s a, I s → I (step s a)) (hP : ∀ s a, I s → (P (step s a) ↔ P s ∧ G s a)) {s : σ}
    (hi : I s) (hp : P s) (as : List α) :
    P (as.foldl step s) ↔ ∀ k a, as[k]? = some a → G ((as.take k).foldl step s) a := by
  have hback : ∀ (bs : List α) {s : σ}, I s → P (bs.foldl step s) → P s := by
    intro bs
    induction bs with
    | nil =>
      intro s _ hend
      exact hend
    | cons b bs ih =>
      intro s hi hend
      exact ((hP s b hi).mp (ih (hI s b hi) hend)).1
  have hone : ∀ s a, I s → P s → (P (step s a) ↔ G s a) := by
    intro s a hi hp
    rw [hP s a hi]
    constructor
    · rintro ⟨-, hg⟩
      exact hg
    · intro hg
      exact ⟨hp, hg⟩
  rw [← foldl_keeps_iff hI hone hi hp as]
  constructor
  · intro hend k
    rw [← List.take_append_drop k as, List.foldl_append] at hend
    exact hback (as.drop k) (foldl_keeps hI (as.take k) hi) hend
  · intro hall
    have hend := hall as.length
    rw [List.take_length] at hend
    exact hend

section Written

variable {β : Type}

/-- What a run writes last, by what each step writes. -/
def written (step : σ → α → σ) (w : σ → α → Option β) : σ → List α → Option β
  | _, [] => none
  | s, a :: as => (written step w (step s a) as).or (w s a)

/-- **A run shows what was written last**, where a step shows what it writes and leaves what it does
    not. -/
theorem foldl_written {step : σ → α → σ} {I : σ → Prop} {w : σ → α → Option β} {obs : σ → β}
    (hI : ∀ s a, I s → I (step s a)) (hobs : ∀ s a, I s → obs (step s a) = (w s a).getD (obs s))
    (as : List α) {s : σ} (h : I s) :
    obs (as.foldl step s) = (written step w s as).getD (obs s) := by
  induction as generalizing s with
  | nil => rfl
  | cons a as ih =>
    rw [List.foldl_cons, ih (hI s a h), hobs s a h, written]
    cases written step w (step s a) as with
    | none => rfl
    | some v => rfl

end Written

/-! ## Replayed writes -/

variable {F E : Type}

/-- The image left by the writes `t`, applied in order to the image `f`. -/
def replay (write : E → F → F) (t : List E) (f : F) : F := t.foldl (fun f e => write e f) f

@[simp] theorem replay_nil (write : E → F → F) (f : F) : replay write [] f = f := rfl

@[simp] theorem replay_cons (write : E → F → F) (e : E) (t : List E) (f : F) :
    replay write (e :: t) f = replay write t (write e f) := rfl

theorem replay_append (write : E → F → F) (t u : List E) (f : F) :
    replay write (t ++ u) f = replay write u (replay write t f) :=
  List.foldl_append ..

/-- Every image a cut can leave on the way through the writes `t` satisfies `P`. -/
def Along (write : E → F → F) (P : F → Prop) (t : List E) (f : F) : Prop :=
  ∀ k, P (replay write (t.take k) f)

theorem along_nil {write : E → F → F} {P : F → Prop} {f : F} (h : P f) : Along write P [] f := by
  intro k
  simpa using h

/-- The uncut image is one of them. -/
theorem Along.full {write : E → F → F} {P : F → Prop} {t : List E} {f : F}
    (h : Along write P t f) : P (replay write t f) := by
  have hk := h t.length
  rwa [List.take_length] at hk

/-- So is the image before the first write. -/
theorem Along.init {write : E → F → F} {P : F → Prop} {t : List E} {f : F}
    (h : Along write P t f) : P f := by
  simpa using h 0

/-- **Composition.**  Writes issued one after the other are covered one after the other. -/
theorem along_append {write : E → F → F} {P : F → Prop} {t u : List E} {f : F}
    (ht : Along write P t f) (hu : Along write P u (replay write t f)) :
    Along write P (t ++ u) f := by
  intro k
  rw [List.take_append, replay_append]
  rcases Nat.lt_or_ge k t.length with hlt | hge
  · rw [Nat.sub_eq_zero_of_le (Nat.le_of_lt hlt), List.take_zero]
    exact ht k
  · rw [List.take_of_length_le hge]
    exact hu (k - t.length)

/-- A single write: the image before it and the image after it. -/
theorem along_singleton {write : E → F → F} {P : F → Prop} {e : E} {f : F} (h0 : P f)
    (h1 : P (write e f)) : Along write P [e] f := by
  intro k
  cases k with
  | zero => simpa using h0
  | succ k => simpa using h1

theorem Along.mono {write : E → F → F} {P Q : F → Prop} {t : List E} {f : F}
    (h : Along write P t f) (hPQ : ∀ g, P g → Q g) : Along write Q t f :=
  fun k => hPQ _ (h k)

end Caterpillar.Runs
