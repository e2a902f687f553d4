/-
  The host's reassembly of a dump: `_DumpSink` (scripts/fleet.py) and the dump of `BleWorker`
  (scripts/caterpillar_gui.py), over a link that may lose chunks.

  1. `DumpSink.onChunk`, `BleWorker.onDumpChunk` — the two handlers, each one in the source's words.
     `Receiver` is what they share: how a transfer starts, what a chunk does, when it is done.
  2. `Transfer` — a request is served chunk by chunk; a chunk may be delivered or lost; the host asks
     again from its high-water mark at any time before it is done.
  3. `Inv` — **the invariant**: every byte of the buffer is the session's where some delivered chunk
     covered it, and 0 where none did.
  4. `reassembled_iff` — so a finished buffer is the session exactly when the bytes no chunk covered
     are 0 anyway; `hole_at_front` is a lost first chunk.
-/
import Caterpillar.Lib.Slice
import Caterpillar.Ble.DumpThread

namespace Caterpillar.Host

open Caterpillar.Runs Caterpillar.Slice Caterpillar.Ble.Dump

/-! ## The two handlers -/

/-- `self.buf[c.offset:end] = c.data[:end - c.offset]`, with `end` at most `total`. -/
def place (buf : List UInt8) (total : Nat) (c : DumpChunk) : List UInt8 :=
  let stop := min (c.offset + c.data.length) total
  setSlice buf c.offset stop (takeUpTo c.data ((stop : Int) - c.offset))

/-- `_DumpSink`. -/
structure DumpSink where
  buf : List UInt8
  total : Nat
  maxEnd : Nat
  done : Bool

/-- `_DumpSink.__init__`. -/
def DumpSink.init (total : Nat) : DumpSink := ⟨List.replicate total 0, total, 0, false⟩

/-- `_DumpSink.on_chunk`. -/
def DumpSink.onChunk (s : DumpSink) (c : DumpChunk) : DumpSink :=
  if s.done then s
  else
    let stop := min (c.offset + c.data.length) s.total
    let maxEnd := max s.maxEnd stop
    { s with
      buf := place s.buf s.total c
      maxEnd := maxEnd
      done := (c.last && decide (stop ≥ s.total)) || decide (maxEnd ≥ s.total) }

/-- The dump of `BleWorker`; `dumpDone` is `None` before the first dump. -/
structure BleWorker where
  dumpBuf : List UInt8
  dumpExpected : Nat
  dumpMaxEnd : Nat
  dumpDone : Option Bool

/-- The head of `BleWorker.dump`. -/
def BleWorker.dump (total : Nat) : BleWorker := ⟨List.replicate total 0, total, 0, some false⟩

/-- `BleWorker._on_dump_chunk`. -/
def BleWorker.onDumpChunk (s : BleWorker) (c : DumpChunk) : BleWorker :=
  match s.dumpDone with
  | none => s
  | some true => s
  | some false =>
      let stop := min (c.offset + c.data.length) s.dumpExpected
      let maxEnd := max s.dumpMaxEnd stop
      { s with
        dumpBuf := place s.dumpBuf s.dumpExpected c
        dumpMaxEnd := maxEnd
        dumpDone := if (c.last && decide (stop ≥ s.dumpExpected)) ||
          decide (maxEnd ≥ s.dumpExpected) then some true else some false }

/-- What a transfer needs of the receiving side. -/
structure Receiver (H : Type) where
  start : Nat → H
  onChunk : H → DumpChunk → H
  maxEnd : H → Nat
  done : H → Bool
  buf : H → List UInt8

/-- fleet.py. -/
def fleet : Receiver DumpSink :=
  ⟨DumpSink.init, DumpSink.onChunk, DumpSink.maxEnd, DumpSink.done, DumpSink.buf⟩

/-- caterpillar_gui.py. -/
def gui : Receiver BleWorker :=
  ⟨BleWorker.dump, BleWorker.onDumpChunk, BleWorker.dumpMaxEnd,
    fun s => s.dumpDone == some true, BleWorker.dumpBuf⟩

/-! ## A transfer -/

variable {H : Type}

/-- The host, the requests the device has not given up (one that is cancelled by a later one may
    still send what it has in hand), and the chunks delivered while the host was not done. -/
structure Transfer (H : Type) where
  host : H
  jobs : List DumpJob
  delivered : List DumpChunk

/-- What can happen during a transfer; `k` numbers the requests. -/
inductive Event where
  /-- The device sends the next chunk of a request and it arrives. -/
  | deliver (k : Nat)
  /-- The device sends the next chunk of a request and it is lost. -/
  | lose (k : Nat)
  /-- The device gives a request up. -/
  | giveUp (k : Nat)
  /-- The host asks for the rest, from its high-water mark on. -/
  | resume

/-- The chunk the device sends next for a request into the session `S`. -/
def nextChunk (S : List UInt8) (j : DumpJob) : DumpChunk := j.chunk ((S.drop j.off).take j.want)

/-- What is left of the requests once the `k`-th has sent that chunk. -/
def afterChunk (S : List UInt8) (jobs : List DumpJob) (k : Nat) (j : DumpJob) : List DumpJob :=
  if (nextChunk S j).last then jobs.eraseIdx k
  else jobs.set k (j.advance (nextChunk S j).data.length)

/-- One step; `none` where it cannot happen. -/
def step (rx : Receiver H) (S : List UInt8) (t : Transfer H) : Event → Option (Transfer H)
  | .deliver k =>
      match t.jobs[k]? with
      | none => none
      | some j =>
          if 0 < j.remaining then
            some { t with
              host := rx.onChunk t.host (nextChunk S j)
              jobs := afterChunk S t.jobs k j
              delivered := if rx.done t.host then t.delivered else t.delivered ++ [nextChunk S j] }
          else none
  | .lose k =>
      match t.jobs[k]? with
      | none => none
      | some j => if 0 < j.remaining then some { t with jobs := afterChunk S t.jobs k j } else none
  | .giveUp k => some { t with jobs := t.jobs.eraseIdx k }
  | .resume =>
      if rx.done t.host then none
      else some { t with
        jobs := t.jobs ++ [⟨0, rx.maxEnd t.host, S.length - rx.maxEnd t.host⟩] }

/-- The first request of a transfer: everything, from offset 0. -/
def begin (rx : Receiver H) (S : List UInt8) : Transfer H where
  host := rx.start S.length
  jobs := [⟨0, 0, S.length⟩]
  delivered := []

/-- The step relation. -/
def Step (rx : Receiver H) (S : List UInt8) (t : Transfer H) (e : Event) (t' : Transfer H) : Prop :=
  step rx S t e = some t'

/-- The states of the transfer of a session. -/
def Reached (rx : Receiver H) (S : List UInt8) : Transfer H → Prop :=
  Reach (fun t => t = begin rx S) (Step rx S)

/-! ## What a chunk leaves in the buffer -/

/-- Some chunk covers byte `i`. -/
def Covered (cs : List DumpChunk) (i : Nat) : Prop :=
  ∃ c ∈ cs, c.offset ≤ i ∧ i < c.offset + c.data.length

theorem covered_append {cs : List DumpChunk} {c : DumpChunk} {i : Nat} :
    Covered (cs ++ [c]) i ↔ Covered cs i ∨ (c.offset ≤ i ∧ i < c.offset + c.data.length) := by
  constructor
  · rintro ⟨d, hd, hin⟩
    rcases List.mem_append.mp hd with hold | hnew
    · exact Or.inl ⟨d, hold, hin⟩
    · obtain rfl := List.mem_singleton.mp hnew
      exact Or.inr hin
  · rintro (⟨d, hd, hin⟩ | hin)
    · exact ⟨d, List.mem_append_left _ hd, hin⟩
    · exact ⟨c, List.mem_append_right _ (List.mem_singleton.mpr rfl), hin⟩

/-- The buffer shows `S` where it is covered and 0 elsewhere. -/
def Shows (S : List UInt8) (cs : List DumpChunk) (buf : List UInt8) : Prop :=
  buf.length = S.length ∧
    ∀ i, i < S.length → (Covered cs i → buf[i]? = S[i]?) ∧ (¬ Covered cs i → buf[i]? = some 0)

theorem shows_start (S : List UInt8) : Shows S [] (List.replicate S.length 0) := by
  constructor
  · exact List.length_replicate
  · intro i hi
    constructor
    · rintro ⟨c, hc, -⟩
      exact absurd hc (by simp)
    · intro _
      rw [List.getElem?_replicate, if_pos hi]

/-- **One more chunk.**  Past the end of the session a chunk is empty and leaves the buffer alone;
    otherwise it is an overlay. -/
theorem Shows.place {S buf : List UInt8} {cs : List DumpChunk} (h : Shows S cs buf) (j : DumpJob) :
    Shows S (cs ++ [nextChunk S j]) (place buf S.length (nextChunk S j)) := by
  obtain ⟨hlen, hshow⟩ := h
  rcases Nat.lt_or_ge S.length j.off with hpast | hin
  · have hnil : (S.drop j.off).take j.want = [] := by
      rw [List.drop_eq_nil_of_le (Nat.le_of_lt hpast), List.take_nil]
    have hplace : Host.place buf S.length (nextChunk S j) = buf := by
      unfold Host.place nextChunk DumpJob.chunk
      dsimp only
      rw [hnil, takeUpTo_nil]
      exact setSlice_nil buf (by rw [List.length_nil]; omega)
    -- an empty chunk covers no byte
    have hsame : ∀ i, Covered (cs ++ [nextChunk S j]) i ↔ Covered cs i := by
      intro i
      rw [covered_append]
      constructor
      · rintro (hold | hnew)
        · exact hold
        · unfold nextChunk DumpJob.chunk at hnew
          rw [hnil] at hnew
          exact absurd hnew.2 (Nat.not_lt_of_le hnew.1)
      · exact Or.inl
    rw [hplace]
    refine ⟨hlen, ?_⟩
    intro i hi
    rw [hsame i]
    exact hshow i hi
  · have hfit : j.off + ((S.drop j.off).take j.want).length ≤ S.length := by
      rw [List.length_take, List.length_drop]
      omega
    have hplace : Host.place buf S.length (nextChunk S j) =
        setSlice buf j.off (j.off + ((S.drop j.off).take j.want).length)
          ((S.drop j.off).take j.want) := by
      unfold Host.place nextChunk DumpJob.chunk
      dsimp only
      -- the slice is as long as the data, so none of it is cut off
      have hstop : ((j.off + ((S.drop j.off).take j.want).length : Nat) : Int) - j.off =
          ((S.drop j.off).take j.want).length := by omega
      rw [Nat.min_eq_left hfit, hstop, takeUpTo_length]
    rw [hplace]
    constructor
    · rw [setSlice_length (by omega), hlen]
    · intro i hi
      rw [covered_append, overlay_getElem? hlen hin]
      show (Covered cs i ∨ j.off ≤ i ∧ i < j.off + ((S.drop j.off).take j.want).length → _) ∧ _
      split
      · rename_i hnew
        constructor
        · intro _
          rfl
        · intro hnone
          exact absurd (Or.inr hnew) hnone
      · rename_i hnew
        constructor
        · rintro (hold | hcov)
          · exact (hshow i hi).1 hold
          · exact absurd hcov hnew
        · intro hnone
          exact (hshow i hi).2 (fun hold => hnone (Or.inl hold))

/-! ## The invariant -/

/-- What both handlers do in a state of a transfer: nothing once they are done, and `place` before. -/
structure Receiver.Lawful (rx : Receiver H) (live : H → Prop) (total : H → Nat) : Prop where
  live_start : ∀ n, live (rx.start n)
  buf_start : ∀ n, rx.buf (rx.start n) = List.replicate n 0
  total_start : ∀ n, total (rx.start n) = n
  live_chunk : ∀ h c, live h → live (rx.onChunk h c)
  total_chunk : ∀ h c, total (rx.onChunk h c) = total h
  finished : ∀ h c, rx.done h = true → rx.onChunk h c = h
  placed : ∀ h c, live h → rx.done h = false →
    rx.buf (rx.onChunk h c) = place (rx.buf h) (total h) c

theorem DumpSink.onChunk_open {s : DumpSink} (c : DumpChunk) (h : s.done = false) :
    (s.onChunk c).buf = place s.buf s.total c := by
  have hopen : ¬ s.done = true := by
    rw [h]
    decide
  unfold DumpSink.onChunk
  rw [if_neg hopen]

theorem DumpSink.onChunk_total (s : DumpSink) (c : DumpChunk) : (s.onChunk c).total = s.total := by
  unfold DumpSink.onChunk
  split
  · rfl
  · rfl

theorem fleet_lawful : fleet.Lawful (fun _ => True) DumpSink.total where
  live_start := fun _ => trivial
  buf_start := fun _ => rfl
  total_start := fun _ => rfl
  live_chunk := fun _ _ _ => trivial
  total_chunk := DumpSink.onChunk_total
  finished := fun _ _ hdone => if_pos hdone
  placed := fun _ c _ hopen => DumpSink.onChunk_open c hopen

theorem BleWorker.onDumpChunk_open {s : BleWorker} (c : DumpChunk) (h : s.dumpDone = some false) :
    (s.onDumpChunk c).dumpBuf = place s.dumpBuf s.dumpExpected c := by
  unfold BleWorker.onDumpChunk
  rw [h]

theorem BleWorker.onDumpChunk_live {s : BleWorker} (c : DumpChunk) (h : s.dumpDone.isSome) :
    (s.onDumpChunk c).dumpDone.isSome := by
  unfold BleWorker.onDumpChunk
  split
  · exact h
  · exact h
  · dsimp only
    split
    · rfl
    · rfl

theorem BleWorker.onDumpChunk_expected (s : BleWorker) (c : DumpChunk) :
    (s.onDumpChunk c).dumpExpected = s.dumpExpected := by
  unfold BleWorker.onDumpChunk
  split
  all_goals rfl

theorem gui_lawful : gui.Lawful (fun s => s.dumpDone.isSome) BleWorker.dumpExpected where
  live_start := fun _ => rfl
  buf_start := fun _ => rfl
  total_start := fun _ => rfl
  live_chunk := fun _ c h => BleWorker.onDumpChunk_live c h
  total_chunk := BleWorker.onDumpChunk_expected
  finished := by
    rintro ⟨buf, expected, maxEnd, dumpDone⟩ c hdone
    obtain rfl : dumpDone = some true := eq_of_beq hdone
    rfl
  placed := by
    rintro ⟨buf, expected, maxEnd, dumpDone⟩ c hlive hopen
    refine BleWorker.onDumpChunk_open c ?_
    rcases dumpDone with _ | done
    · exact absurd hlive Bool.noConfusion
    · cases done with
      | true => exact absurd hopen Bool.noConfusion
      | false => rfl

/-- The invariant of a transfer. -/
structure Inv (rx : Receiver H) (live : H → Prop) (total : H → Nat) (S : List UInt8)
    (t : Transfer H) : Prop where
  live : live t.host
  total : total t.host = S.length
  shows : Shows S t.delivered (rx.buf t.host)

section

variable {rx : Receiver H} {live : H → Prop} {total : H → Nat} {S : List UInt8}

theorem begin_inv (hrx : rx.Lawful live total) : Inv rx live total S (begin rx S) where
  live := hrx.live_start _
  total := hrx.total_start _
  shows := by
    show Shows S [] (rx.buf (rx.start S.length))
    rw [hrx.buf_start]
    exact shows_start S

/-- A chunk that arrives. -/
theorem Inv.deliver (hrx : rx.Lawful live total) {t : Transfer H} (h : Inv rx live total S t)
    (j : DumpJob) (jobs : List DumpJob) :
    Inv rx live total S
      ⟨rx.onChunk t.host (nextChunk S j), jobs,
        if rx.done t.host then t.delivered else t.delivered ++ [nextChunk S j]⟩ where
  live := hrx.live_chunk _ _ h.live
  total := (hrx.total_chunk _ _).trans h.total
  shows := by
    cases hdone : rx.done t.host with
    | true =>
      show Shows S t.delivered (rx.buf (rx.onChunk t.host (nextChunk S j)))
      rw [hrx.finished _ _ hdone]
      exact h.shows
    | false =>
      show Shows S (t.delivered ++ [nextChunk S j]) (rx.buf (rx.onChunk t.host (nextChunk S j)))
      rw [hrx.placed _ _ h.live hdone, h.total]
      exact h.shows.place j

/-- **Every step of a transfer keeps the invariant.** -/
theorem step_inv (hrx : rx.Lawful live total) {t t' : Transfer H} {e : Event}
    (h : Inv rx live total S t) (hs : Step rx S t e t') : Inv rx live total S t' := by
  cases e with
  | deliver k =>
    simp only [Step, step] at hs
    split at hs
    · exact absurd hs (by simp)
    · rename_i j _
      obtain ⟨-, hs⟩ := Option.ite_none_right_eq_some.mp hs
      obtain rfl := Option.some.inj hs
      exact h.deliver hrx j _
  | lose k =>
    simp only [Step, step] at hs
    split at hs
    · exact absurd hs (by simp)
    · obtain ⟨-, hs⟩ := Option.ite_none_right_eq_some.mp hs
      obtain rfl := Option.some.inj hs
      exact ⟨h.live, h.total, h.shows⟩
  | giveUp k =>
    obtain rfl := Option.some.inj hs
    exact ⟨h.live, h.total, h.shows⟩
  | resume =>
    obtain ⟨-, hs⟩ := Option.ite_none_left_eq_some.mp hs
    obtain rfl := Option.some.inj hs
    exact ⟨h.live, h.total, h.shows⟩

theorem reached_inv (hrx : rx.Lawful live total) {t : Transfer H} (h : Reached rx S t) :
    Inv rx live total S t := by
  refine h.invariant ?_ ?_
  · rintro t rfl
    exact begin_inv hrx
  · intro t e t' _ hinv hst
    exact step_inv hrx hinv hst

/-- The buffer is the session exactly when what no chunk covered is 0. -/
theorem Shows.complete_iff {cs : List DumpChunk} {buf : List UInt8} (h : Shows S cs buf) :
    (buf.length = S.length ∧ buf = S) ↔
      ∀ i, i < S.length → ¬ Covered cs i → S[i]? = some 0 := by
  obtain ⟨hlen, hshow⟩ := h
  constructor
  · rintro ⟨-, rfl⟩ i hi hnone
    exact (hshow i hi).2 hnone
  · intro hzero
    refine ⟨hlen, ?_⟩
    apply List.ext_getElem?
    intro i
    rcases Nat.lt_or_ge i S.length with hi | hi
    · by_cases hcov : Covered cs i
      · exact (hshow i hi).1 hcov
      · rw [(hshow i hi).2 hcov, hzero i hi hcov]
    · rw [List.getElem?_eq_none (by omega), List.getElem?_eq_none hi]

end

/-! ## Complete or not -/

/-- **When a finished transfer is right.**  For both hosts, any session, any requests and any pattern of
    loss: a buffer declared done has the session's length, and it is the session exactly when every
    byte that no delivered chunk covered is 0. -/
theorem reassembled_iff (S : List UInt8) :
    (∀ t, Reached fleet S t → t.host.done = true →
      (t.host.buf.length = S.length ∧ t.host.buf = S ↔
        ∀ i, i < S.length → ¬ Covered t.delivered i → S[i]? = some 0)) ∧
    (∀ t, Reached gui S t → t.host.dumpDone = some true →
      (t.host.dumpBuf.length = S.length ∧ t.host.dumpBuf = S ↔
        ∀ i, i < S.length → ¬ Covered t.delivered i → S[i]? = some 0)) := by
  constructor
  · intro t ht _
    exact (reached_inv fleet_lawful ht).shows.complete_iff
  · intro t ht _
    exact (reached_inv gui_lawful ht).shows.complete_iff

/-- 240 bytes, none of them 0. -/
def nonzeroBytes : List UInt8 := (List.range' 1 240).map UInt8.ofNat

/-- Two chunks that cover them. -/
theorem covered_halves {cs : List DumpChunk} {i : Nat} (hi : i < 240)
    (h : cs.map (fun c => (c.offset, c.data.length)) = [(0, 232), (232, 8)]) : Covered cs i := by
  obtain ⟨c, rest, rfl, hc, hrest⟩ := List.map_eq_cons_iff.mp h
  obtain ⟨d, rest, rfl, hd, -⟩ := List.map_eq_cons_iff.mp hrest
  obtain ⟨hoff, hlen⟩ := Prod.mk.inj hc
  obtain ⟨hoff', hlen'⟩ := Prod.mk.inj hd
  by_cases hfirst : i < 232
  · exact ⟨c, .head _, by omega, by omega⟩
  · exact ⟨d, .tail _ (.head _), by omega, by omega⟩

/-- The last chunk is lost and asked for again, and both hosts have the session. -/
theorem reassembled_iff_resumed :
    (∃ t, Reached fleet nonzeroBytes t ∧ t.host.done = true ∧ t.host.buf = nonzeroBytes) ∧
    ∃ t, Reached gui nonzeroBytes t ∧ t.host.dumpDone = some true ∧
      t.host.dumpBuf = nonzeroBytes := by
  have hlen : nonzeroBytes.length = 240 := rfl
  constructor
  · have hrun : (([Event.deliver 0, .lose 0, .resume, .deliver 0].foldlM (step fleet nonzeroBytes)
        (begin fleet nonzeroBytes)).any fun t => t.host.done &&
          decide (t.delivered.map (fun c => (c.offset, c.data.length)) = [(0, 232), (232, 8)])) =
            true := by decide +kernel
    obtain ⟨t, ht, hout⟩ := (Option.any_eq_true _ _).mp hrun
    rw [Bool.and_eq_true, decide_eq_true_eq] at hout
    have hreached : Reached fleet nonzeroBytes t := Reach.run (fun _ _ _ hst => hst) (.start rfl) ht
    refine ⟨t, hreached, hout.1, (((reassembled_iff nonzeroBytes).1 t hreached hout.1).mpr ?_).2⟩
    exact fun i hi hnone => absurd (covered_halves (hlen ▸ hi) hout.2) hnone
  · have hrun : (([Event.deliver 0, .lose 0, .resume, .deliver 0].foldlM (step gui nonzeroBytes)
        (begin gui nonzeroBytes)).any fun t => t.host.dumpDone == some true &&
          decide (t.delivered.map (fun c => (c.offset, c.data.length)) = [(0, 232), (232, 8)])) =
            true := by decide +kernel
    obtain ⟨t, ht, hout⟩ := (Option.any_eq_true _ _).mp hrun
    rw [Bool.and_eq_true, decide_eq_true_eq] at hout
    have hdone := eq_of_beq hout.1
    have hreached : Reached gui nonzeroBytes t := Reach.run (fun _ _ _ hst => hst) (.start rfl) ht
    refine ⟨t, hreached, hdone, (((reassembled_iff nonzeroBytes).2 t hreached hdone).mpr ?_).2⟩
    exact fun i hi hnone => absurd (covered_halves (hlen ▸ hi) hout.2) hnone

/-- **A lost first chunk**: 15 records of ones, of which the last half arrives with the mark `last`. -/
theorem hole_at_front :
    (¬ ∀ S t, Reached fleet S t → t.host.done = true → t.host.buf = S) ∧
    (¬ ∀ S t, Reached gui S t → t.host.dumpDone = some true → t.host.dumpBuf = S) := by
  constructor
  · intro hall
    have hrun : (([Event.lose 0, Event.deliver 0].foldlM (step fleet (List.replicate 240 1))
        (begin fleet (List.replicate 240 1))).any fun t =>
          t.host.done && decide (t.host.buf ≠ List.replicate 240 1)) = true := by decide +kernel
    obtain ⟨t, ht, hout⟩ := (Option.any_eq_true _ _).mp hrun
    rw [Bool.and_eq_true, decide_eq_true_eq] at hout
    exact hout.2 (hall _ t (Reach.run (fun _ _ _ hst => hst) (.start rfl) ht) hout.1)
  · intro hall
    have hrun : (([Event.lose 0, Event.deliver 0].foldlM (step gui (List.replicate 240 1))
        (begin gui (List.replicate 240 1))).any fun t =>
          t.host.dumpDone == some true && decide (t.host.dumpBuf ≠ List.replicate 240 1)) = true := by
      decide +kernel
    obtain ⟨t, ht, hout⟩ := (Option.any_eq_true _ _).mp hrun
    rw [Bool.and_eq_true, decide_eq_true_eq] at hout
    exact hout.2 (hall _ t (Reach.run (fun _ _ _ hst => hst) (.start rfl) ht) (eq_of_beq hout.1))

end Caterpillar.Host
