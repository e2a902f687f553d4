/-
  How long a host waits for a dump: the loop around `sink.done` in `robot_collect` (scripts/fleet.py)
  and in `BleWorker.dump` (scripts/caterpillar_gui.py), in time.

  The host waits a second at a time.  After five seconds without a chunk it asks again from its
  high-water mark, and gives up where it would have to ask a twenty-first time again.

  1. **Program** — `Waiting`: the transfer (Host/Reassembly), the clock, and where the loop is;
     `turn` is its body once `wait_for` has timed out.  Chunks arrive, or are lost, at any time; a
     write takes as long as it takes, and may fail.
  2. **Account** — every wait is paid for: a chunk, and a request, buys at most six (`patience`), and a
     request brings at most as many chunks as it asks for bytes, and one (`owed`).
  3. **Result** (`dump_wait`) — the loop ends after a number of waits the length of the session bounds,
     whatever is lost; it reports success only when the receiver is done, and failure no earlier than
     105 s after the start.

  Times are in milliseconds.  `wait_for` raises only while the receiver is not done.
-/
import Caterpillar.Host.Reassembly

namespace Caterpillar.Host.DumpWait

open Caterpillar.Word Caterpillar.Runs Caterpillar.Ble.Dump

/-! ## The program -/

/-- Where the loop is. -/
inductive LoopPc where
  /-- A request is being written. -/
  | writing
  /-- In `wait_for(done.wait(), timeout=1.0)`. -/
  | waiting
  /-- Behind the loop. -/
  | complete
  /-- It has returned after the last resume. -/
  | gaveUp
  /-- A write has raised. -/
  | raised
  deriving DecidableEq

/-- The timeout of `wait_for`. -/
def waitMs : Nat := 1000
/-- The silence after which the host asks again. -/
def silenceMs : Nat := 5000
/-- So many times. -/
def maxResumes : Nat := 20

variable {H : Type}

/-- The host in its loop. -/
structure Waiting (H : Type) where
  transfer : Transfer H
  now : Nat
  /-- `last_rx`. -/
  lastRx : Nat
  /-- Since when it has been in `wait_for`. -/
  since : Nat
  resumes : Nat
  pc : LoopPc
  /-- When the sink was made. -/
  started : Nat
  /-- Timeouts so far, and chunks that have come before it was done. -/
  waits : Nat
  heard : Nat

/-- What can happen, and when. -/
inductive LoopEvent where
  /-- Something on the link. -/
  | link (t : Nat) (e : Event)
  /-- The write of a request returns. -/
  | wrote (t : Nat)
  /-- It raises. -/
  | refused (t : Nat)
  /-- `wait_for` returns. -/
  | woken (t : Nat)
  /-- `wait_for` times out. -/
  | timeout (t : Nat)

/-- Its time. -/
def LoopEvent.time : LoopEvent → Nat
  | .link t _ | .wrote t | .refused t | .woken t | .timeout t => t

/-- A chunk arrives. -/
def arrives : Event → Bool
  | .deliver _ => true
  | _ => false

/-- A step of the link; the handler notes the time of a chunk it takes. -/
def linkStep (rx : Receiver H) (S : List UInt8) (w : Waiting H) (t : Nat) (e : Event) :
    Option (Waiting H) :=
  (step rx S w.transfer e).map fun tr =>
    if arrives e && !rx.done w.transfer.host then
      { w with transfer := tr, now := t, lastRx := t, heard := w.heard + 1 }
    else { w with transfer := tr, now := t }

/-- The body of the loop behind the timeout. -/
def turn (rx : Receiver H) (S : List UInt8) (w : Waiting H) (t : Nat) : Option (Waiting H) :=
  if t - w.lastRx < silenceMs then some { w with now := t, since := t, waits := w.waits + 1 }
  else if w.resumes ≥ maxResumes then
    some { w with now := t, waits := w.waits + 1, pc := .gaveUp }
  else
    (step rx S w.transfer .resume).map fun tr =>
      { w with
        transfer := tr
        now := t
        lastRx := t
        waits := w.waits + 1
        resumes := w.resumes + 1
        pc := .writing }

/-- One step; `none` where it cannot happen. -/
def loopStep (rx : Receiver H) (S : List UInt8) (w : Waiting H) (e : LoopEvent) : Option (Waiting H) :=
  if e.time < w.now then none
  else
    match e, w.pc with
    | .link _ .resume, _ => none
    | .link t e, .writing => linkStep rx S w t e
    | .link t e, .waiting => linkStep rx S w t e
    | .wrote t, .writing =>
        some { w with
          now := t, since := t, pc := if rx.done w.transfer.host then .complete else .waiting }
    | .refused t, .writing => some { w with now := t, pc := .raised }
    | .woken t, .waiting =>
        if rx.done w.transfer.host then some { w with now := t, pc := .complete } else none
    | .timeout t, .waiting =>
        if rx.done w.transfer.host ∨ t < w.since + waitMs then none else turn rx S w t
    | _, _ => none

/-- The sink is made; the first request is being written. -/
def Started (rx : Receiver H) (S : List UInt8) (w : Waiting H) : Prop :=
  ∃ t, w = ⟨begin rx S, t, t, t, 0, .writing, t, 0, 0⟩

/-- The states of the loop. -/
def Looping (rx : Receiver H) (S : List UInt8) : Waiting H → Prop :=
  Reach (Started rx S) fun w e w' => loopStep rx S w e = some w'

/-! ## What the requests owe -/

/-- The chunks these requests may still bring: one for each byte, and one. -/
def owed : List DumpJob → Nat
  | [] => 0
  | j :: jobs => j.remaining + 1 + owed jobs

theorem owed_eraseIdx {jobs : List DumpJob} {k : Nat} {j : DumpJob} (h : jobs[k]? = some j) :
    owed jobs = j.remaining + 1 + owed (jobs.eraseIdx k) := by
  induction jobs generalizing k with
  | nil => exact absurd h (by simp)
  | cons j₀ jobs ih =>
    cases k with
    | zero =>
      obtain rfl := Option.some.inj h
      rfl
    | succ k =>
      have hrest := ih (k := k) h
      show j₀.remaining + 1 + owed jobs = j.remaining + 1 + (j₀.remaining + 1 + owed (jobs.eraseIdx k))
      omega

theorem owed_snoc (jobs : List DumpJob) (j : DumpJob) :
    owed (jobs ++ [j]) = owed jobs + (j.remaining + 1) := by
  induction jobs with
  | nil => exact Nat.add_comm ..
  | cons j₀ jobs ih =>
    show j₀.remaining + 1 + owed (jobs ++ [j]) = j₀.remaining + 1 + owed jobs + (j.remaining + 1)
    omega

theorem owed_set {jobs : List DumpJob} {k : Nat} {j : DumpJob} (h : jobs[k]? = some j) (j' : DumpJob) :
    owed (jobs.set k j') + (j.remaining + 1) = owed jobs + (j'.remaining + 1) := by
  induction jobs generalizing k with
  | nil => exact absurd h (by simp)
  | cons j₀ jobs ih =>
    cases k with
    | zero =>
      obtain rfl := Option.some.inj h
      show j'.remaining + 1 + owed jobs + _ = j₀.remaining + 1 + owed jobs + _
      omega
    | succ k =>
      have hrest := ih (k := k) h
      show j₀.remaining + 1 + owed (jobs.set k j') + _ = j₀.remaining + 1 + owed jobs + _
      omega

theorem owed_erase_le (jobs : List DumpJob) (k : Nat) : owed (jobs.eraseIdx k) ≤ owed jobs := by
  cases h : jobs[k]? with
  | none => rw [List.eraseIdx_of_length_le (List.getElem?_eq_none_iff.mp h)]
  | some j =>
    rw [owed_eraseIdx h]
    omega

/-- **A chunk is paid for by its request.** -/
theorem owed_afterChunk {S : List UInt8} {jobs : List DumpJob} {k : Nat} {j : DumpJob}
    (h : jobs[k]? = some j) (hpos : 0 < j.remaining) : owed (afterChunk S jobs k j) + 1 ≤ owed jobs := by
  unfold afterChunk
  split
  · rw [owed_eraseIdx h]
    omega
  · rename_i hlast
    obtain ⟨hfull, -⟩ : ¬ (nextChunk S j).data.length < j.want ∧ _ :=
      not_or.mp fun hor => hlast (decide_eq_true hor)
    have hwant : 0 < j.want := by
      unfold DumpJob.want dumpChunkData
      omega
    have hfits : (nextChunk S j).data.length ≤ j.remaining := by
      have hle : (nextChunk S j).data.length ≤ j.want := List.length_take_le ..
      exact Nat.le_trans hle (Nat.min_le_left ..)
    have hless : (j.advance (nextChunk S j).data.length).remaining ≤
        j.remaining - (nextChunk S j).data.length := by
      show u32Sub _ _ ≤ _
      unfold u32Sub
      omega
    have hset := owed_set h (j.advance (nextChunk S j).data.length)
    omega

/-- What a step of the link does to what is owed. -/
theorem owed_step {rx : Receiver H} {S : List UInt8} {tr tr' : Transfer H} {e : Event}
    (he : e ≠ .resume) (hs : step rx S tr e = some tr') :
    owed tr'.jobs + (if arrives e then 1 else 0) ≤ owed tr.jobs := by
  cases e with
  | deliver k =>
    simp only [step] at hs
    split at hs
    · exact absurd hs (by simp)
    · rename_i j hj
      obtain ⟨hpos, hs⟩ := Option.ite_none_right_eq_some.mp hs
      obtain rfl := Option.some.inj hs
      exact owed_afterChunk hj hpos
  | lose k =>
    simp only [step] at hs
    split at hs
    · exact absurd hs (by simp)
    · rename_i j hj
      obtain ⟨hpos, hs⟩ := Option.ite_none_right_eq_some.mp hs
      obtain rfl := Option.some.inj hs
      exact Nat.le_of_succ_le (owed_afterChunk hj hpos)
  | giveUp k =>
    obtain rfl := Option.some.inj hs
    exact owed_erase_le tr.jobs k
  | resume => exact absurd rfl he

theorem owed_resume {rx : Receiver H} {S : List UInt8} {tr tr' : Transfer H}
    (hs : step rx S tr .resume = some tr') : owed tr'.jobs ≤ owed tr.jobs + (S.length + 1) := by
  obtain ⟨-, hs⟩ := Option.ite_none_left_eq_some.mp hs
  obtain rfl := Option.some.inj hs
  show owed (tr.jobs ++ [_]) ≤ _
  rw [owed_snoc]
  show owed tr.jobs + (S.length - rx.maxEnd tr.host + 1) ≤ owed tr.jobs + (S.length + 1)
  omega

/-! ## Patience -/

/-- The waits that can still end without the host asking again, if it hears nothing. -/
def patience (w : Waiting H) : Nat :=
  match w.pc with
  | .writing => 5
  | .waiting => if w.lastRx ≤ w.since then 4 - (w.since - w.lastRx) / waitMs else 5
  | _ => 0

theorem patience_le (w : Waiting H) : patience w ≤ 5 := by
  unfold patience
  split
  · exact Nat.le_refl 5
  · split
    · exact Nat.le_trans (Nat.sub_le ..) (by decide)
    · exact Nat.le_refl 5
  · exact Nat.zero_le 5

/-- **A wait without an answer costs patience.** -/
theorem patience_turn {w : Waiting H} {t : Nat} (hpc : w.pc = .waiting) (hrx : w.lastRx ≤ t)
    (hdue : w.since + waitMs ≤ t) (hsoon : t - w.lastRx < silenceMs) :
    patience { w with now := t, since := t, waits := w.waits + 1 } + 1 ≤ patience w := by
  unfold patience
  simp only [hpc, if_pos hrx]
  have hms : waitMs = 1000 := rfl
  have hsilence : silenceMs = 5000 := rfl
  rw [hms] at hdue ⊢
  split
  · omega
  · omega

/-! ## The account -/

/-- What holds of the loop. -/
structure Paid (rx : Receiver H) (S : List UInt8) (w : Waiting H) : Prop where
  reached : Reached rx S w.transfer
  resumes : w.resumes ≤ maxResumes
  heard : w.heard + owed w.transfer.jobs ≤ (1 + w.resumes) * (S.length + 1)
  waits : w.waits + patience w ≤ 6 * (w.heard + w.resumes) + 5 + if w.pc = .gaveUp then 1 else 0
  silent : w.started + silenceMs * w.resumes ≤ w.lastRx
  lastRx : w.lastRx ≤ w.now
  since : w.since ≤ w.now
  complete : w.pc = .complete → rx.done w.transfer.host = true
  gaveUp : w.pc = .gaveUp → w.resumes = maxResumes ∧ w.lastRx + silenceMs ≤ w.now

theorem started_paid {rx : Receiver H} {S : List UInt8} {w : Waiting H} (h : Started rx S w) :
    Paid rx S w := by
  obtain ⟨t, rfl⟩ := h
  have howed : owed (begin rx S).jobs = S.length + 1 := rfl
  refine ⟨.start rfl, Nat.zero_le _, ?_, Nat.le_refl 5, Nat.le_refl t, Nat.le_refl t, Nat.le_refl t, ?_, ?_⟩
  · show 0 + owed (begin rx S).jobs ≤ (1 + 0) * (S.length + 1)
    omega
  · exact nofun
  · exact nofun

/-- **On the link.**  A chunk that is taken pays for six waits. -/
theorem linkStep_paid {rx : Receiver H} {S : List UInt8} {w w' : Waiting H} {t : Nat} {e : Event}
    (h : Paid rx S w) (hpc : w.pc = .writing ∨ w.pc = .waiting) (hnow : w.now ≤ t) (he : e ≠ .resume)
    (hs : linkStep rx S w t e = some w') : Paid rx S w' := by
  obtain ⟨tr, htr, rfl⟩ := Option.map_eq_some_iff.mp hs
  have hreached : Reached rx S tr := h.reached.next htr
  have howed := owed_step he htr
  have hheard := h.heard
  have hwaits := h.waits
  have hsilent := h.silent
  have hlast := h.lastRx
  have hsince := h.since
  have hopen : w.pc ≠ .gaveUp ∧ w.pc ≠ .complete := by
    rcases hpc with hpc | hpc
    · rw [hpc]
      decide
    · rw [hpc]
      decide
  rw [if_neg hopen.1] at hwaits
  split
  · rename_i htaken
    obtain ⟨harrives, -⟩ := Bool.and_eq_true_iff.mp htaken
    rw [if_pos harrives] at howed
    have hpatience := patience_le { w with transfer := tr, now := t, lastRx := t, heard := w.heard + 1 }
    refine ⟨hreached, h.resumes, ?_, ?_, ?_, Nat.le_refl t, ?_, ?_, ?_⟩
    · show w.heard + 1 + owed tr.jobs ≤ (1 + w.resumes) * (S.length + 1)
      omega
    · show w.waits + patience _ ≤ 6 * (w.heard + 1 + w.resumes) + 5 + if w.pc = .gaveUp then 1 else 0
      rw [if_neg hopen.1]
      omega
    · show w.started + silenceMs * w.resumes ≤ t
      omega
    · show w.since ≤ t
      omega
    · exact fun hc => absurd hc hopen.2
    · exact fun hg => absurd hg hopen.1
  · have hsame : patience { w with transfer := tr, now := t } = patience w := rfl
    refine ⟨hreached, h.resumes, ?_, ?_, hsilent, ?_, ?_, ?_, ?_⟩
    · show w.heard + owed tr.jobs ≤ (1 + w.resumes) * (S.length + 1)
      omega
    · show w.waits + patience _ ≤ 6 * (w.heard + w.resumes) + 5 + if w.pc = .gaveUp then 1 else 0
      rw [if_neg hopen.1, hsame]
      exact hwaits
    · show w.lastRx ≤ t
      omega
    · show w.since ≤ t
      omega
    · exact fun hc => absurd hc hopen.2
    · exact fun hg => absurd hg hopen.1

/-- **The body of the loop.**  It goes back to wait, gives up, or asks again. -/
theorem turn_paid {rx : Receiver H} {S : List UInt8} {w w' : Waiting H} {t : Nat} (h : Paid rx S w)
    (hpc : w.pc = .waiting) (hnow : w.now ≤ t) (hdue : w.since + waitMs ≤ t)
    (hs : turn rx S w t = some w') : Paid rx S w' := by
  have hheard := h.heard
  have hwaits := h.waits
  have hsilent := h.silent
  have hlast := h.lastRx
  rw [hpc, if_neg (by decide)] at hwaits
  unfold turn at hs
  split at hs
  · rename_i hsoon
    obtain rfl := Option.some.inj hs
    have hcost := patience_turn hpc (by omega) hdue hsoon
    refine ⟨h.reached, h.resumes, hheard, ?_, hsilent, ?_, Nat.le_refl t, ?_, ?_⟩
    · show w.waits + 1 + patience _ ≤ 6 * (w.heard + w.resumes) + 5 + if w.pc = .gaveUp then 1 else 0
      omega
    · show w.lastRx ≤ t
      omega
    · exact fun hc => absurd (hpc.symm.trans hc) (by decide)
    · exact fun hg => absurd (hpc.symm.trans hg) (by decide)
  · rename_i hlong
    have hsilence : w.lastRx + silenceMs ≤ t := by omega
    split at hs
    · rename_i hall
      obtain rfl := Option.some.inj hs
      refine ⟨h.reached, h.resumes, hheard, ?_, hsilent, ?_, ?_, ?_, ?_⟩
      · show w.waits + 1 + 0 ≤ 6 * (w.heard + w.resumes) + 5 + 1
        omega
      · show w.lastRx ≤ t
        omega
      · show w.since ≤ t
        omega
      · exact nofun
      · exact fun _ => ⟨Nat.le_antisymm h.resumes hall, hsilence⟩
    · rename_i hmore
      obtain ⟨tr, htr, rfl⟩ := Option.map_eq_some_iff.mp hs
      have howed := owed_resume htr
      refine ⟨h.reached.next htr, ?_, ?_, ?_, ?_, Nat.le_refl t, ?_, ?_, ?_⟩
      · show w.resumes + 1 ≤ maxResumes
        omega
      · show w.heard + owed tr.jobs ≤ (1 + (w.resumes + 1)) * (S.length + 1)
        have hmul : (1 + (w.resumes + 1)) * (S.length + 1) =
            (1 + w.resumes) * (S.length + 1) + (S.length + 1) := by
          rw [← Nat.add_assoc, Nat.succ_mul]
        omega
      · show w.waits + 1 + 5 ≤ 6 * (w.heard + (w.resumes + 1)) + 5 + 0
        omega
      · show w.started + silenceMs * (w.resumes + 1) ≤ t
        rw [Nat.mul_succ]
        omega
      · show w.since ≤ t
        omega
      · exact nofun
      · exact nofun

/-- What a step of the loop can be. -/
def Moves (rx : Receiver H) (S : List UInt8) (w : Waiting H) : LoopEvent → Waiting H → Prop
  | .link t e, w' => e ≠ .resume ∧ (w.pc = .writing ∨ w.pc = .waiting) ∧ linkStep rx S w t e = some w'
  | .wrote t, w' => w.pc = .writing ∧ w' = { w with
      now := t, since := t, pc := if rx.done w.transfer.host then .complete else .waiting }
  | .refused t, w' => w.pc = .writing ∧ w' = { w with now := t, pc := .raised }
  | .woken t, w' =>
      w.pc = .waiting ∧ rx.done w.transfer.host = true ∧ w' = { w with now := t, pc := .complete }
  | .timeout t, w' => w.pc = .waiting ∧ w.since + waitMs ≤ t ∧ turn rx S w t = some w'

theorem loopStep_moves {rx : Receiver H} {S : List UInt8} {w w' : Waiting H} {e : LoopEvent}
    (hs : loopStep rx S w e = some w') : w.now ≤ e.time ∧ Moves rx S w e w' := by
  unfold loopStep at hs
  rw [Option.ite_none_left_eq_some] at hs
  obtain ⟨hnow, hs⟩ := hs
  refine ⟨Nat.le_of_not_lt hnow, ?_⟩
  split at hs
  · exact absurd hs (by simp)
  · rename_i t e hresume hpc
    exact ⟨hresume, Or.inl hpc, hs⟩
  · rename_i t e hresume hpc
    exact ⟨hresume, Or.inr hpc, hs⟩
  · rename_i t hpc
    exact ⟨hpc, (Option.some.inj hs).symm⟩
  · rename_i t hpc
    exact ⟨hpc, (Option.some.inj hs).symm⟩
  · rename_i t hpc
    obtain ⟨hdone, hs⟩ := Option.ite_none_right_eq_some.mp hs
    exact ⟨hpc, hdone, (Option.some.inj hs).symm⟩
  · rename_i t hpc
    obtain ⟨hdue, hs⟩ := Option.ite_none_left_eq_some.mp hs
    exact ⟨hpc, Nat.le_of_not_lt (not_or.mp hdue).2, hs⟩
  · exact absurd hs (by simp)

/-- **Every step of the loop keeps the account.** -/
theorem loopStep_paid {rx : Receiver H} {S : List UInt8} {w w' : Waiting H} {e : LoopEvent}
    (h : Paid rx S w) (hs : loopStep rx S w e = some w') : Paid rx S w' := by
  obtain ⟨hle, hs⟩ := loopStep_moves hs
  have hlast := h.lastRx
  have hwaits := h.waits
  cases e with
  | link t e =>
    obtain ⟨hresume, hpc, hs⟩ := hs
    exact linkStep_paid h hpc hle hresume hs
  | wrote t =>
    obtain ⟨hpc, rfl⟩ := hs
    have hbefore : patience w = 5 := by unfold patience; rw [hpc]
    rw [hbefore, hpc, if_neg (by decide)] at hwaits
    have hpatience := patience_le { w with
      now := t, since := t, pc := if rx.done w.transfer.host then .complete else .waiting }
    refine ⟨h.reached, h.resumes, h.heard, ?_, h.silent, Nat.le_trans hlast hle, Nat.le_refl t, ?_, ?_⟩
    · exact Nat.le_trans (Nat.add_le_add_left hpatience _) (Nat.le_trans hwaits (Nat.le_add_right ..))
    · intro hc
      cases hdone : rx.done w.transfer.host with
      | true => rfl
      | false =>
        simp only [hdone] at hc
        exact absurd hc (by decide)
    · intro hg
      cases hdone : rx.done w.transfer.host with
      | true =>
        simp only [hdone] at hg
        exact absurd hg (by decide)
      | false =>
        simp only [hdone] at hg
        exact absurd hg (by decide)
  | refused t =>
    obtain ⟨hpc, rfl⟩ := hs
    rw [hpc, if_neg (by decide)] at hwaits
    refine ⟨h.reached, h.resumes, h.heard, ?_, h.silent, Nat.le_trans hlast hle,
      Nat.le_trans h.since hle, ?_, ?_⟩
    · show w.waits + 0 ≤ 6 * (w.heard + w.resumes) + 5 + 0
      omega
    · exact nofun
    · exact nofun
  | woken t =>
    obtain ⟨hpc, hdone, rfl⟩ := hs
    rw [hpc, if_neg (by decide)] at hwaits
    refine ⟨h.reached, h.resumes, h.heard, ?_, h.silent, Nat.le_trans hlast hle,
      Nat.le_trans h.since hle, fun _ => hdone, ?_⟩
    · show w.waits + 0 ≤ 6 * (w.heard + w.resumes) + 5 + 0
      omega
    · exact nofun
  | timeout t =>
    obtain ⟨hpc, hdue, hs⟩ := hs
    exact turn_paid h hpc hle hdue hs

theorem looping_paid {rx : Receiver H} {S : List UInt8} {w : Waiting H} (h : Looping rx S w) :
    Paid rx S w :=
  h.invariant (fun _ h0 => started_paid h0) fun _ _ _ _ hinv hst => loopStep_paid hinv hst

/-- Asking again is possible as long as the receiver is not done. -/
theorem resume_some {rx : Receiver H} {S : List UInt8} {tr : Transfer H} (h : rx.done tr.host = false) :
    ∃ tr', step rx S tr .resume = some tr' := by
  refine ⟨_, if_neg ?_⟩
  rw [h]
  exact Bool.false_ne_true

/-- In `wait_for` the host is never stuck: it is woken, or its second runs out. -/
theorem waiting_moves {rx : Receiver H} {S : List UInt8} {w : Waiting H} (hpc : w.pc = .waiting) :
    ∃ t w', loopStep rx S w (if rx.done w.transfer.host then .woken t else .timeout t) = some w' := by
  cases hdone : rx.done w.transfer.host with
  | true =>
    refine ⟨w.now, { w with now := w.now, pc := .complete }, ?_⟩
    simp only [loopStep, LoopEvent.time, hpc, hdone, Nat.lt_irrefl, if_true, if_false]
  | false =>
    have hlate : ¬ (LoopEvent.timeout (max w.now (w.since + waitMs))).time < w.now :=
      Nat.not_lt_of_le (Nat.le_max_left ..)
    have hdue : ¬ (false = true ∨ max w.now (w.since + waitMs) < w.since + waitMs) := by
      rintro (hfalse | hearly)
      · exact absurd hfalse Bool.false_ne_true
      · omega
    obtain ⟨w', hw'⟩ : ∃ w', turn rx S w (max w.now (w.since + waitMs)) = some w' := by
      unfold turn
      split
      · exact ⟨_, rfl⟩
      · split
        · exact ⟨_, rfl⟩
        · obtain ⟨tr, htr⟩ := resume_some (S := S) hdone
          exact ⟨_, by rw [htr]; rfl⟩
    refine ⟨max w.now (w.since + waitMs), w', ?_⟩
    rw [if_neg Bool.false_ne_true]
    unfold loopStep
    rw [if_neg hlate]
    simp only [hpc, hdone]
    rw [if_neg hdue]
    exact hw'

/-- **How long a host waits.**  Its transfer is one of Host/Reassembly; it is never stuck; the length of
    the session bounds its waits, 20 the times it asks again; success is the receiver's, and failure
    comes after 21 silences of five seconds. -/
theorem dump_wait {rx : Receiver H} {S : List UInt8} {w : Waiting H} (h : Looping rx S w) :
    Reached rx S w.transfer ∧ w.waits ≤ 126 * (S.length + 2) ∧ w.resumes ≤ 20 ∧
      (w.pc = .waiting →
        ∃ t w', loopStep rx S w (if rx.done w.transfer.host then .woken t else .timeout t) = some w') ∧
      (w.pc = .complete → rx.done w.transfer.host = true) ∧
      (w.pc = .gaveUp → w.resumes = 20 ∧ w.started + 105000 ≤ w.now) := by
  have hpaid := looping_paid h
  refine ⟨hpaid.reached, ?_, hpaid.resumes, waiting_moves, hpaid.complete, fun hgave => ?_⟩
  · have hheard : w.heard ≤ 21 * (S.length + 1) := by
      have hasked : (1 + w.resumes) * (S.length + 1) ≤ 21 * (S.length + 1) :=
        Nat.mul_le_mul_right _ (Nat.add_le_add_left hpaid.resumes 1)
      have := hpaid.heard
      omega
    have hwaits := hpaid.waits
    have hresumes : w.resumes ≤ 20 := hpaid.resumes
    have hlast : (if w.pc = .gaveUp then 1 else 0) ≤ 1 := by
      split
      · exact Nat.le_refl 1
      · exact Nat.zero_le 1
    omega
  · obtain ⟨hall, hsilence⟩ := hpaid.gaveUp hgave
    have hsilent := hpaid.silent
    have hsum : silenceMs * maxResumes = 100000 := rfl
    have hms : silenceMs = 5000 := rfl
    rw [hall, hsum] at hsilent
    exact ⟨hall, by omega⟩

/-- Nothing ever comes: five waits for every request. -/
def silence : List LoopEvent :=
  (List.range 21).flatMap fun i =>
    .wrote (silenceMs * i) :: (List.range 5).map fun k => .timeout (silenceMs * i + waitMs * (k + 1))

theorem dump_wait_silence : ∃ w, Looping fleet [1, 2, 3] w ∧ w.resumes = 20 ∧ 105000 ≤ w.now := by
  have hrun : ((silence.foldlM (loopStep fleet [1, 2, 3])
      ⟨begin fleet [1, 2, 3], 0, 0, 0, 0, .writing, 0, 0, 0⟩).any fun w =>
        decide (w.pc = .gaveUp ∧ w.started = 0)) = true := by decide +kernel
  obtain ⟨w, hw, hout⟩ := (Option.any_eq_true _ _).mp hrun
  obtain ⟨hgave, hstart⟩ := of_decide_eq_true hout
  have hlooping : Looping fleet [1, 2, 3] w := Reach.run (fun _ _ _ h => h) (.start ⟨0, rfl⟩) hw
  obtain ⟨-, -, -, -, -, hend⟩ := dump_wait hlooping
  obtain ⟨hall, hlong⟩ := hend hgave
  exact ⟨w, hlooping, hall, by omega⟩

end Caterpillar.Host.DumpWait
