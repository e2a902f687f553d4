/-
  A dump request on a quiescent log, from the request to the chunk marked `last`.

  The log does not change, nobody aborts, no newer request comes, every credit arrives and the stack
  takes every notification.  What is left to decide is when the thread stops and what it has sent.

  1. `avail`, `stored` — the bytes of a session: the records it still has, each where the writer puts
     it.
  2. `plan` — the chunks the send loop makes of a request, by recursion on what remains;
     `plan_induct` is its induction: a final chunk, or a full one with the rest of the plan behind.
  3. `next`, `step` — the thread and the sent-callbacks of `Dump.step` with these answers.  `Serving` is
     the invariant (what is sent and what is planned make up the plan of the request), `work` the
     measure that every step decreases.
  4. `plan_stored_iff` — the chunks carry the session's bytes exactly when each begins in front of byte
     2^32 of the record stream: behind it the reader looks elsewhere than the writer wrote.
  5. `dump_served` — all of it together, with what a host makes of the chunks of many requests.
-/
import Caterpillar.Host.Reassembly
import Caterpillar.ImuLog.PowerLoss

namespace Caterpillar.Ble.DumpServe

open Caterpillar.Word Caterpillar.Ring Caterpillar.Runs Caterpillar.Sem Caterpillar.Slice
open Caterpillar.Imu Caterpillar.ImuLog
open Caterpillar.Ble.Dump (DumpJob DumpChunk DumpPc DumpTx dumpChunkData dumpCredits)
open Caterpillar.Host (place Covered Shows)

/-! ## The bytes of a session -/

/-- `avail` of `imu_log_read_session`. -/
def avail (s : Log) (session : Nat) : Nat :=
  match s.flash.findSession session with
  | none => 0
  | some i =>
      let stop := u32 ((s.flash.entries i).startRec + s.liveCount i)
      if stop ≤ s.clippedStart i then 0 else u32 ((stop - s.clippedStart i) * recSize)

/-- The first record of a session that the ring still holds. -/
def firstRec (s : Log) (session : Nat) : Nat :=
  match s.flash.findSession session with
  | none => 0
  | some i => s.clippedStart i

/-- The bytes of a session, each where the writer puts it. -/
def stored (s : Log) (session : Nat) : List UInt8 :=
  (List.range (avail s session)).map fun k =>
    s.flash.data (writerOff (firstRec s session + k / recSize) (k % recSize))

/-- The log with other bytes in its ring. -/
def withData (s : Log) (d : Nat → UInt8) : Log := { s with flash := { s.flash with data := d } }

@[simp] theorem avail_withData (s : Log) (d : Nat → UInt8) (session : Nat) :
    avail (withData s d) session = avail s session := rfl

@[simp] theorem firstRec_withData (s : Log) (d : Nat → UInt8) (session : Nat) :
    firstRec (withData s d) session = firstRec s session := rfl

theorem stored_length (s : Log) (session : Nat) : (stored s session).length = avail s session := by
  rw [stored, List.length_map, List.length_range]

theorem avail_lt (s : Log) (session : Nat) : avail s session < 4294967296 := by
  unfold avail
  split
  · decide
  · dsimp only
    split
    · decide
    · exact u32_lt _

/-- Where a session has bytes, their positions stay in front of byte 2^36. -/
theorem position_lt (s : Log) (session : Nat) {k : Nat} (h : k < avail s session) :
    16 * firstRec s session + k < 68719476736 := by
  unfold avail firstRec at *
  cases hfind : s.flash.findSession session with
  | none =>
    rw [hfind] at h
    exact absurd h (Nat.not_lt_zero k)
  | some i =>
    simp only [hfind, recSize_eq] at h ⊢
    split at h
    · exact absurd h (Nat.not_lt_zero k)
    · have hstop := u32_lt ((s.flash.entries i).startRec + s.liveCount i)
      have hcut : ∀ n, u32 n ≤ n := fun n => Nat.mod_le _ _
      have hle := hcut ((u32 ((s.flash.entries i).startRec + s.liveCount i) - s.clippedStart i) * 16)
      omega

/-- Byte `k` of a session stands at byte `16 * firstRec + k` of the record stream. -/
theorem stored_getElem? (s : Log) (session : Nat) {k : Nat} (h : k < avail s session) :
    (stored s session)[k]? =
      some (s.flash.data ((16 * firstRec s session + k) % dataCapacity)) := by
  have hb : k % recSize < recSize := Nat.mod_lt _ (by decide)
  rw [stored, List.getElem?_map, List.getElem?_range h, Option.map_some, writerOff_eq hb]
  congr 3
  rw [recSize_eq]
  omega

/-! ## The reader -/

theorem readLoop_length (f : Flash) (absByte len : Nat) : (readLoop f absByte len).length = len := by
  induction len using Nat.strongRecOn generalizing absByte with
  | ind len ih =>
    have hoff := ringOff_lt absByte
    rw [readLoop]
    split
    · rename_i hz
      exact hz.symm
    · dsimp only
      rw [List.length_append, ih _ (by omega), Flash.readData, List.length_map, List.length_range]
      omega

/-- The read of the session, with its arithmetic named. -/
theorem readSession_named (s : Log) (session offset len : Nat) :
    imuLogReadSession s session offset len =
      if offset ≥ avail s session then []
      else readLoop s.flash (u32 (16 * firstRec s session + offset))
        (min len (avail s session - offset)) := by
  unfold imuLogReadSession avail firstRec
  cases s.flash.findSession session with
  | none => rfl
  | some i =>
    dsimp only
    split
    · rfl
    · rw [sessionByte, u32_u32_add, recSize_eq, Nat.mul_comm (s.clippedStart i) 16]

theorem readSession_len (s : Log) (session offset len : Nat) :
    (imuLogReadSession s session offset len).length = min len (avail s session - offset) := by
  rw [readSession_named]
  split
  · rw [List.length_nil]
    omega
  · exact readLoop_length ..

/-! ## The plan of a request -/

/-- The chunk made next. -/
def chunkOf (s : Log) (j : DumpJob) : DumpChunk :=
  j.chunk (imuLogReadSession s j.session j.off j.want)

theorem chunkOf_length (s : Log) (j : DumpJob) :
    (chunkOf s j).data.length = min j.want (avail s j.session - j.off) := readSession_len ..

/-- A chunk that is not the last is full. -/
theorem more_after {s : Log} {j : DumpJob} (h : (chunkOf s j).last = false) :
    (chunkOf s j).data.length = dumpChunkData ∧ dumpChunkData < j.remaining ∧
      j.off + dumpChunkData ≤ avail s j.session := by
  have hlen := chunkOf_length s j
  have hno := of_decide_eq_false h
  rw [not_or] at hno
  have hwant : j.want = min j.remaining dumpChunkData := rfl
  have hchunk : dumpChunkData = 232 := rfl
  have hdata : (chunkOf s j).data.length =
      (imuLogReadSession s j.session j.off j.want).length := rfl
  omega

/-- The chunks the send loop sends. -/
def plan (s : Log) (j : DumpJob) : List DumpChunk :=
  if j.remaining = 0 then []
  else
    let c := chunkOf s j
    if c.last = true then [c] else c :: plan s (j.advance c.data.length)
termination_by j.remaining
decreasing_by
  rename_i h
  obtain ⟨hlen, hmore, -⟩ := more_after (Bool.eq_false_iff.mpr h)
  have hpos : 0 < dumpChunkData := by decide
  show u32Sub j.remaining (chunkOf s j).data.length < j.remaining
  unfold u32Sub
  omega

/-- What is left of a request after a full chunk. -/
def rest (j : DumpJob) : DumpJob :=
  ⟨j.session, j.off + dumpChunkData, j.remaining - dumpChunkData⟩

/-- Nothing wraps on the way. -/
theorem advance_eq {s : Log} {j : DumpJob} (hfit : j.remaining < 4294967296)
    (h : (chunkOf s j).last = false) : j.advance (chunkOf s j).data.length = rest j := by
  obtain ⟨hlen, hmore, hend⟩ := more_after h
  have hav := avail_lt s j.session
  rw [hlen, DumpJob.advance, u32_of_lt (by omega), u32Sub_of_le (by omega) hfit]
  rfl

theorem plan_last {s : Log} {j : DumpJob} (hpos : 0 < j.remaining)
    (h : (chunkOf s j).last = true) : plan s j = [chunkOf s j] := by
  rw [plan, if_neg (by omega)]
  exact if_pos h

theorem plan_more {s : Log} {j : DumpJob} (hfit : j.remaining < 4294967296)
    (h : (chunkOf s j).last = false) : plan s j = chunkOf s j :: plan s (rest j) := by
  obtain ⟨-, hmore, -⟩ := more_after h
  rw [plan, if_neg (by omega), ← advance_eq hfit h]
  exact if_neg (by simp [h])

/-- **The induction of the send loop.**  A final chunk, or a full one in front of the rest. -/
theorem plan_induct {s : Log} {P : DumpJob → List DumpChunk → Prop}
    (hlast : ∀ j, 0 < j.remaining → (chunkOf s j).last = true → P j [chunkOf s j])
    (hmore : ∀ j, j.remaining < 4294967296 → (chunkOf s j).last = false →
      P (rest j) (plan s (rest j)) → P j (chunkOf s j :: plan s (rest j)))
    (j : DumpJob) (hpos : 0 < j.remaining) (hfit : j.remaining < 4294967296) : P j (plan s j) := by
  obtain ⟨n, hn⟩ : ∃ n, n = j.remaining := ⟨_, rfl⟩
  induction n using Nat.strongRecOn generalizing j with
  | ind n ih =>
    cases hl : (chunkOf s j).last with
    | true =>
      rw [plan_last hpos hl]
      exact hlast j hpos hl
    | false =>
      obtain ⟨-, hmuch, -⟩ := more_after hl
      have hpart : (rest j).remaining = j.remaining - dumpChunkData := rfl
      have hchunk : dumpChunkData = 232 := rfl
      rw [plan_more hfit hl]
      exact hmore j hfit hl
        (ih (rest j).remaining (by omega) (rest j) (by omega) (by omega) rfl)

/-! ## What the chunks are -/

/-- Each chunk begins where the one before ends. -/
def Consecutive : Nat → List DumpChunk → Prop
  | _, [] => True
  | offset, c :: cs => c.offset = offset ∧ Consecutive (offset + c.data.length) cs

/-- The last chunk is marked, and no other. -/
def OneLast (cs : List DumpChunk) : Prop :=
  ∃ init c, cs = init ++ [c] ∧ c.last = true ∧ ∀ d ∈ init, d.last = false

/-- The chunks of a request for `len` bytes from `offset` on, out of `total`; what they carry apart. -/
structure Shaped (total offset len : Nat) (cs : List DumpChunk) : Prop where
  small : ∀ c ∈ cs, c.data.length ≤ dumpChunkData
  consecutive : Consecutive offset cs
  count : (cs.flatMap DumpChunk.data).length = min len (total - offset)
  oneLast : OneLast cs

/-- The chunks of a request into the session `S`. -/
structure Served (S : List UInt8) (offset len : Nat) (cs : List DumpChunk) : Prop where
  small : ∀ c ∈ cs, c.data.length ≤ dumpChunkData
  consecutive : Consecutive offset cs
  bytes : cs.flatMap DumpChunk.data = (S.drop offset).take len
  oneLast : OneLast cs

theorem chunkOf_small (s : Log) (j : DumpJob) : (chunkOf s j).data.length ≤ dumpChunkData := by
  have hlen := chunkOf_length s j
  have hwant : j.want = min j.remaining dumpChunkData := rfl
  omega

/-- A final chunk carries all that is left. -/
theorem last_length {s : Log} {j : DumpJob} (h : (chunkOf s j).last = true) :
    (chunkOf s j).data.length = min j.remaining (avail s j.session - j.off) := by
  have hlen := chunkOf_length s j
  have hwant : j.want = min j.remaining dumpChunkData := rfl
  have hdata : (chunkOf s j).data.length =
      (imuLogReadSession s j.session j.off j.want).length := rfl
  rcases of_decide_eq_true h with hshort | hall
  · omega
  · omega

/-- **The shape of a plan.** -/
theorem plan_shaped (s : Log) (j : DumpJob) (hpos : 0 < j.remaining)
    (hfit : j.remaining < 4294967296) :
    Shaped (avail s j.session) j.off j.remaining (plan s j) := by
  refine plan_induct (P := fun j cs => Shaped (avail s j.session) j.off j.remaining cs) ?_ ?_
    j hpos hfit
  · intro j _ hl
    refine ⟨?_, ⟨rfl, trivial⟩, ?_, [], chunkOf s j, rfl, hl, fun d hd => absurd hd (by simp)⟩
    · intro c hc
      obtain rfl := List.mem_singleton.mp hc
      exact chunkOf_small s j
    · rw [List.flatMap_cons, List.flatMap_nil, List.append_nil]
      exact last_length hl
  · rintro j - hl ⟨hsmall, hcons, hcount, init, c, hcs, hc, hinit⟩
    obtain ⟨hfull, hmuch, hend⟩ := more_after hl
    refine ⟨?_, ⟨rfl, ?_⟩, ?_, chunkOf s j :: init, c, ?_, hc, ?_⟩
    · intro d hd
      rcases List.mem_cons.mp hd with rfl | hd
      · exact chunkOf_small s j
      · exact hsmall d hd
    · rw [hfull]
      exact hcons
    · have hrest : (rest j).remaining = j.remaining - dumpChunkData ∧
          (rest j).off = j.off + dumpChunkData ∧ (rest j).session = j.session := ⟨rfl, rfl, rfl⟩
      rw [List.flatMap_cons, List.length_append, hcount, hrest.1, hrest.2.1, hrest.2.2, hfull]
      omega
    · rw [hcs, List.cons_append]
    · intro d hd
      rcases List.mem_cons.mp hd with rfl | hd
      · exact hl
      · exact hinit d hd

/-! ## What they carry -/

/-- A chunk carries the bytes of `S` at its place. -/
def Faithful (S : List UInt8) (c : DumpChunk) : Prop :=
  c.data = (S.drop c.offset).take c.data.length

/-- Two parts that fit make up the whole. -/
theorem append_slice_iff {a b S : List UInt8} {off n len : Nat} (ha : a.length = n) (hn : n ≤ len)
    (hin : off + n ≤ S.length) :
    a ++ b = (S.drop off).take len ↔
      a = (S.drop off).take n ∧ b = (S.drop (off + n)).take (len - n) := by
  have hsplit : (S.drop off).take len =
      (S.drop off).take n ++ (S.drop (off + n)).take (len - n) := by
    rw [← List.drop_drop, ← List.take_add, Nat.add_sub_cancel' hn]
  have hlen : a.length = ((S.drop off).take n).length := by
    rw [List.length_take, List.length_drop]
    omega
  rw [hsplit]
  constructor
  · intro h
    exact List.append_inj h hlen
  · rintro ⟨rfl, rfl⟩
    rfl

/-- **The chunks of a plan together are the slice asked for exactly if each carries its part.** -/
theorem plan_bytes_iff (s : Log) (j : DumpJob) (hpos : 0 < j.remaining)
    (hfit : j.remaining < 4294967296) :
    (plan s j).flatMap DumpChunk.data = ((stored s j.session).drop j.off).take j.remaining ↔
      ∀ c ∈ plan s j, Faithful (stored s j.session) c := by
  refine plan_induct (P := fun j cs =>
    cs.flatMap DumpChunk.data = ((stored s j.session).drop j.off).take j.remaining ↔
      ∀ c ∈ cs, Faithful (stored s j.session) c) ?_ ?_ j hpos hfit
  · intro j _ hl
    have hlen := last_length hl
    have hsame : ((stored s j.session).drop j.off).take j.remaining =
        ((stored s j.session).drop j.off).take (chunkOf s j).data.length := by
      rw [hlen, ← stored_length s j.session, ← List.length_drop, ← List.take_take,
        List.take_length]
    rw [List.flatMap_cons, List.flatMap_nil, List.append_nil, List.forall_mem_singleton, hsame]
    rfl
  · intro j hfit hl ih
    obtain ⟨hfull, hmuch, hend⟩ := more_after hl
    rw [List.flatMap_cons, append_slice_iff hfull (Nat.le_of_lt hmuch)
      (by rw [stored_length]; exact hend), List.forall_mem_cons]
    refine and_congr ?_ ih
    rw [Faithful, hfull]
    rfl

/-! ## Where the reader looks -/

/-- Every chunk with data begins in front of byte 2^32 of the record stream. -/
def InFront (s : Log) (j : DumpJob) : Prop :=
  ∀ i, dumpChunkData * i < min j.remaining (avail s j.session - j.off) →
    16 * firstRec s j.session + (j.off + dumpChunkData * i) < 4294967296

/-- A read that begins in front of byte 2^32 may end behind it: that byte lies 36544 bytes behind a
    physical end of the ring, so a chunk does not wrap twice. -/
theorem readLoop_chunk (f : Flash) {a n : Nat} (ha : a < 4294967296) (hn : n ≤ dumpChunkData) :
    readLoop f a n = (List.range n).map fun k => f.data ((a + k) % dataCapacity) := by
  have hchunk : dumpChunkData = 232 := rfl
  rcases Nat.lt_or_ge 4294967296 (a + n) with hcross | hfit
  · have hcap := dataCapacity_eq
    have hoff : ringOff a = a % 695648 := by rw [ringOff, hcap]
    have hspan : min n (dataCapacity - ringOff a) = n := by omega
    rw [readLoop, if_neg (by omega)]
    dsimp only
    rw [hspan, Nat.sub_self, readLoop, if_pos rfl, List.append_nil, Flash.readData]
    refine List.map_congr_left fun k hk => ?_
    have hk' := List.mem_range.mp hk
    have hslot : (a + k) % dataCapacity = ringOff a + k := by
      rw [hoff, hcap]
      omega
    rw [hslot]
  · exact readLoop_get f n a hfit

theorem chunk_faithful {s : Log} {j : DumpJob}
    (h : 0 < (chunkOf s j).data.length → 16 * firstRec s j.session + j.off < 4294967296) :
    Faithful (stored s j.session) (chunkOf s j) := by
  have hlen := chunkOf_length s j
  have hsmall := chunkOf_small s j
  have hread := readSession_named s j.session j.off j.want
  have hdata : (chunkOf s j).data = imuLogReadSession s j.session j.off j.want := rfl
  have hoffset : (chunkOf s j).offset = j.off := rfl
  generalize hn : (chunkOf s j).data.length = n at *
  rw [Faithful, hn, hdata, hread, hoffset]
  split
  · have hz : n = 0 := by omega
    rw [hz, List.take_zero]
  · rename_i hin
    rcases Nat.eq_zero_or_pos n with hz | hpos
    · rw [← hlen, hz, List.take_zero, readLoop]
      rfl
    · rw [← hlen, u32_of_lt (h hpos), readLoop_chunk s.flash (h hpos) hsmall]
      refine List.ext_getElem? fun k => ?_
      rcases Nat.lt_or_ge k n with hk | hk
      · rw [List.getElem?_map, List.getElem?_range hk, List.getElem?_take_of_lt hk,
          List.getElem?_drop, stored_getElem? s j.session (by omega), Option.map_some,
          Nat.add_assoc]
      · rw [List.getElem?_eq_none, List.getElem?_eq_none]
        · rw [List.length_take]
          omega
        · rw [List.length_map, List.length_range]
          exact hk

/-- What holds of the chunks of a request holds of those of the rest. -/
theorem InFront.rest {s : Log} {j : DumpJob} (h : InFront s j) (hl : (chunkOf s j).last = false) :
    InFront s (rest j) := by
  obtain ⟨-, hmuch, hend⟩ := more_after hl
  intro i hi
  have hchunk : dumpChunkData = 232 := rfl
  have hrest : (DumpServe.rest j).remaining = j.remaining - dumpChunkData ∧
    (DumpServe.rest j).off = j.off + dumpChunkData ∧
      (DumpServe.rest j).session = j.session := ⟨rfl, rfl, rfl⟩
  rw [hrest.1, hrest.2.1, hrest.2.2] at hi
  rw [hrest.2.1, hrest.2.2]
  have hsucc : dumpChunkData * (i + 1) = dumpChunkData * i + dumpChunkData := Nat.mul_succ _ _
  have hnext := h (i + 1) (by omega)
  omega

theorem plan_faithful {s : Log} {j : DumpJob} (hpos : 0 < j.remaining)
    (hfit : j.remaining < 4294967296) (h : InFront s j) :
    ∀ c ∈ plan s j, Faithful (stored s j.session) c := by
  have hfirst : ∀ j : DumpJob, 0 < j.remaining → InFront s j →
      Faithful (stored s j.session) (chunkOf s j) := by
    intro j hpos h
    refine chunk_faithful fun hdata => ?_
    have hlen := chunkOf_length s j
    have hzero := h 0 (by omega)
    omega
  refine plan_induct (P := fun j cs => InFront s j → ∀ c ∈ cs, Faithful (stored s j.session) c)
    ?_ ?_ j hpos hfit h
  · intro j hpos _ h c hc
    obtain rfl := List.mem_singleton.mp hc
    exact hfirst j hpos h
  · intro j _ hl ih h c hc
    obtain ⟨-, hmuch, -⟩ := more_after hl
    rcases List.mem_cons.mp hc with rfl | hc
    · exact hfirst j (by omega) h
    · exact ih (h.rest hl) c hc

/-- The chunk that begins `i` chunks behind the first. -/
theorem chunk_mem {s : Log} {j : DumpJob} (hpos : 0 < j.remaining) (hfit : j.remaining < 4294967296)
    {i : Nat} (hi : dumpChunkData * i < min j.remaining (avail s j.session - j.off)) :
    chunkOf s ⟨j.session, j.off + dumpChunkData * i, j.remaining - dumpChunkData * i⟩ ∈
      plan s j := by
  refine plan_induct (P := fun j cs => ∀ i, dumpChunkData * i <
      min j.remaining (avail s j.session - j.off) →
    chunkOf s ⟨j.session, j.off + dumpChunkData * i, j.remaining - dumpChunkData * i⟩ ∈ cs)
    ?_ ?_ j hpos hfit i hi
  · intro j _ hl i hi
    have hlen := last_length hl
    have hsmall := chunkOf_small s j
    have hlow : dumpChunkData * i < dumpChunkData * 1 := by omega
    obtain rfl : i = 0 := Nat.lt_one_iff.mp (Nat.lt_of_mul_lt_mul_left hlow)
    exact List.mem_cons_self
  · intro j _ hl ih i hi
    obtain ⟨-, hmuch, hend⟩ := more_after hl
    cases i with
    | zero => exact List.mem_cons_self
    | succ i =>
      have hsucc : dumpChunkData * (i + 1) = dumpChunkData * i + dumpChunkData :=
        Nat.mul_succ _ _
      have hrest : (rest j).remaining = j.remaining - dumpChunkData ∧
        (rest j).off = j.off + dumpChunkData ∧ (rest j).session = j.session := ⟨rfl, rfl, rfl⟩
      have hmem := ih i (by rw [hrest.1, hrest.2.1, hrest.2.2]; omega)
      rw [hrest.1, hrest.2.1, hrest.2.2] at hmem
      have hoff : j.off + dumpChunkData * (i + 1) = j.off + dumpChunkData + dumpChunkData * i := by
        omega
      have hleft : j.remaining - dumpChunkData * (i + 1) =
          j.remaining - dumpChunkData - dumpChunkData * i := by
        omega
      rw [hoff, hleft]
      exact List.mem_cons_of_mem _ hmem

theorem readLoop_head (f : Flash) (a : Nat) {n : Nat} (hn : 0 < n) :
    (readLoop f a n)[0]? = some (f.data (ringOff a)) := by
  have hoff := ringOff_lt a
  rw [readLoop, if_neg (by omega)]
  dsimp only
  rw [Flash.readData, List.getElem?_append_left, List.getElem?_map, List.getElem?_range]
  · rfl
  · omega
  · rw [List.length_map, List.length_range]
    omega

/-- The first byte of a faithful chunk: what the reader finds is what the writer put there. -/
theorem Faithful.head {s : Log} {j : DumpJob} (h : Faithful (stored s j.session) (chunkOf s j))
    (hpos : 0 < j.remaining) (hin : j.off < avail s j.session) :
    s.flash.data (u32 (16 * firstRec s j.session + j.off) % dataCapacity) =
      s.flash.data ((16 * firstRec s j.session + j.off) % dataCapacity) := by
  have hwant : j.want = min j.remaining dumpChunkData := rfl
  have hchunk : dumpChunkData = 232 := rfl
  have hsome : 0 < min j.want (avail s j.session - j.off) := by omega
  have hdata : (chunkOf s j).data = readLoop s.flash (u32 (16 * firstRec s j.session + j.off))
      (min j.want (avail s j.session - j.off)) :=
    (readSession_named ..).trans (if_neg (Nat.not_le_of_lt hin))
  have hoffset : (chunkOf s j).offset = j.off := rfl
  have hhead := congrArg (fun l : List UInt8 => l[0]?) h
  beta_reduce at hhead
  rw [List.getElem?_take_of_lt (by rw [chunkOf_length]; exact hsome), List.getElem?_drop, hoffset,
    Nat.add_zero, stored_getElem? s j.session hin, hdata, readLoop_head _ _ hsome] at hhead
  exact Option.some.inj hhead

/-- A chunk that begins behind byte 2^32 is wrong for some bytes in the ring. -/
theorem chunk_unfaithful {s : Log} {j : DumpJob} (hpos : 0 < j.remaining)
    (hin : j.off < avail s j.session)
    (h : 4294967296 ≤ 16 * firstRec s j.session + j.off) :
    ∃ d, ¬ Faithful (stored (withData s d) j.session) (chunkOf (withData s d) j) := by
  have hmoved : u32 (16 * firstRec s j.session + j.off) % dataCapacity ≠
      (16 * firstRec s j.session + j.off) % dataCapacity := by
    intro heq
    have hlow := (wrapped_mod_iff (position_lt s j.session hin)).mp heq
    omega
  -- the writer put a 1 there, the reader finds a 0
  refine ⟨fun p => if p = (16 * firstRec s j.session + j.off) % dataCapacity then 1 else 0,
    fun hf => ?_⟩
  have hhead : (if u32 (16 * firstRec s j.session + j.off) % dataCapacity =
        (16 * firstRec s j.session + j.off) % dataCapacity then (1 : UInt8) else 0) =
      if (16 * firstRec s j.session + j.off) % dataCapacity =
        (16 * firstRec s j.session + j.off) % dataCapacity then 1 else 0 := hf.head hpos hin
  rw [if_neg hmoved, if_pos rfl] at hhead
  exact absurd hhead (by decide)

/-- **A plan carries the session's bytes, whatever they are, exactly if every chunk begins in front of
    byte 2^32.** -/
theorem plan_stored_iff (s : Log) (j : DumpJob) (hpos : 0 < j.remaining)
    (hfit : j.remaining < 4294967296) :
    (∀ d, ∀ c ∈ plan (withData s d) j, Faithful (stored (withData s d) j.session) c) ↔
      InFront s j := by
  constructor
  · intro hall i hi
    by_contra hno
    have hchunk : dumpChunkData = 232 := rfl
    obtain ⟨d, hd⟩ := chunk_unfaithful (s := s)
      (j := ⟨j.session, j.off + dumpChunkData * i, j.remaining - dumpChunkData * i⟩)
      (Nat.sub_pos_of_lt (by omega)) (show j.off + dumpChunkData * i < avail s j.session by omega)
      (Nat.not_lt.mp hno)
    exact hd (hall d _ (chunk_mem hpos hfit hi))
  · intro h d
    exact plan_faithful hpos hfit h

/-! ## The thread -/

/-- The fields of a request. -/
def request (session offset len : UInt32) : DumpJob := ⟨session.toNat, offset.toNat, len.toNat⟩

/-- A request waits for the idle thread. -/
structure Pending (r : DumpJob) (tx : DumpTx) : Prop where
  idle : tx.pc = .idle
  given : tx.dumpSem.count = 1
  req : tx.req = r

/-- The thread's next statement: the log answers its reads, the stack takes its notifications. -/
def next (s : Log) (tx : DumpTx) : Option DumpTx :=
  match tx.pc with
  | .reading j => Dump.step tx (.read (some (imuLogReadSession s j.session j.off j.want)))
  | .sending _ _ _ => Dump.step tx (.notify .accepted)
  | _ => Dump.step tx .run

/-- Who moves. -/
inductive Move where
  | thread
  | sentCb

/-- One step. -/
def step (s : Log) (tx : DumpTx) : Move → Option DumpTx
  | .thread => next s tx
  | .sentCb => Dump.step tx .sentCb

/-- On the way to the send loop with the request `r`. -/
structure Fetching (r : DumpJob) (tx : DumpTx) : Prop where
  taken : tx.dumpSem.count = 0
  req : tx.req = r
  sent : tx.sent = []

/-- In the send loop with `j` left of the request `r`; `held` credits in hand. -/
structure Sending (s : Log) (r j : DumpJob) (held : Nat) (tx : DumpTx) : Prop where
  taken : tx.dumpSem.count = 0
  go : tx.dumpAbort = false
  left : 0 < j.remaining
  fits : j.remaining < 4294967296
  split : tx.sent ++ plan s j = plan s r
  credits : dumpCredits ≤ tx.dumpCreditSem.count + tx.outstanding + held

/-- **The invariant**, by where the thread is. -/
def Serving (s : Log) (r : DumpJob) (tx : DumpTx) : Prop :=
  match tx.pc with
  | .idle => Pending r tx ∨ (tx.dumpSem.count = 0 ∧ tx.sent = plan s r)
  | .woken => Fetching r tx
  | .cleared => Fetching r tx ∧ tx.dumpAbort = false
  | .haveSession session => (Fetching r tx ∧ tx.dumpAbort = false) ∧ session = r.session
  | .haveOff session off =>
      (Fetching r tx ∧ tx.dumpAbort = false) ∧ session = r.session ∧ off = r.off
  | .draining j => (Fetching r tx ∧ tx.dumpAbort = false) ∧ j = r
  | .giving j given => (Fetching r tx ∧ tx.dumpAbort = false) ∧ j = r ∧ given ≤ dumpCredits ∧
      given ≤ tx.dumpCreditSem.count + tx.outstanding
  | .loop j => Sending s r j 0 tx
  | .reading j => Sending s r j 0 tx
  | .built j c => Sending s r j 0 tx ∧ c = chunkOf s j
  | .sending j c _ => Sending s r j 1 tx ∧ c = chunkOf s j

/-- What is left to do: each chunk takes the thread four statements and the stack one callback. -/
def work (s : Log) (r : DumpJob) (tx : DumpTx) : Nat :=
  2 * tx.outstanding +
    match tx.pc with
    | .idle => if tx.dumpSem.count = 0 then 0
        else 20 + 7 * (plan s r).length + tx.dumpCreditSem.count
    | .woken => 19 + 7 * (plan s r).length + tx.dumpCreditSem.count
    | .cleared => 18 + 7 * (plan s r).length + tx.dumpCreditSem.count
    | .haveSession _ => 17 + 7 * (plan s r).length + tx.dumpCreditSem.count
    | .haveOff _ _ => 16 + 7 * (plan s r).length + tx.dumpCreditSem.count
    | .draining _ => 15 + 7 * (plan s r).length + tx.dumpCreditSem.count
    | .giving _ given => 10 + 7 * (plan s r).length - given
    | .loop j => 1 + 7 * (plan s j).length
    | .reading j => 7 * (plan s j).length
    | .built j _ => 7 * (plan s j).length - 1
    | .sending j _ _ => 7 * (plan s j).length - 2

theorem plan_length {s : Log} {j : DumpJob} (hpos : 0 < j.remaining)
    (hfit : j.remaining < 4294967296) : 0 < (plan s j).length := by
  cases hl : (chunkOf s j).last with
  | true =>
    rw [plan_last hpos hl]
    exact Nat.one_pos
  | false =>
    rw [plan_more hfit hl]
    exact Nat.succ_pos _

theorem next_serving {s : Log} {r : DumpJob} (hpos : 0 < r.remaining)
    (hfit : r.remaining < 4294967296) {tx tx' : DumpTx} (h : Serving s r tx)
    (hn : next s tx = some tx') : Serving s r tx' ∧ work s r tx' < work s r tx := by
  obtain ⟨dumpSem, credits, req, abort, pc, caller, outstanding, sent⟩ := tx
  cases pc with
  -- the token of the request is there to take; once the last chunk is out there is none
  | idle =>
    obtain ⟨t, ht, rfl⟩ := Option.map_eq_some_iff.mp hn
    have hcount : 0 < dumpSem.count ∧ t.count = dumpSem.count - 1 := KSem.take_some ht
    rcases h with h | h
    · have hgiven : dumpSem.count = 1 := h.given
      have hone : ¬ dumpSem.count = 0 := by omega
      refine ⟨⟨?_, h.req, rfl⟩, ?_⟩
      · show t.count = 0
        omega
      · simp only [work, if_neg hone]
        omega
    · have hzero : dumpSem.count = 0 := h.1
      omega
  | woken =>
    obtain rfl := Option.some.inj hn
    refine ⟨⟨⟨h.taken, h.req, h.sent⟩, rfl⟩, ?_⟩
    simp only [work]
    omega
  | cleared =>
    obtain rfl := Option.some.inj hn
    obtain ⟨hf, hgo⟩ := h
    refine ⟨⟨⟨⟨hf.taken, hf.req, hf.sent⟩, hgo⟩, congrArg DumpJob.session hf.req⟩, ?_⟩
    simp only [work]
    omega
  | haveSession session =>
    obtain rfl := Option.some.inj hn
    obtain ⟨⟨hf, hgo⟩, hsession⟩ := h
    refine ⟨⟨⟨⟨hf.taken, hf.req, hf.sent⟩, hgo⟩, hsession, congrArg DumpJob.off hf.req⟩, ?_⟩
    simp only [work]
    omega
  | haveOff session off =>
    obtain rfl := Option.some.inj hn
    obtain ⟨⟨hf, hgo⟩, hsession, hoff⟩ := h
    refine ⟨⟨⟨⟨hf.taken, hf.req, hf.sent⟩, hgo⟩, ?_⟩, ?_⟩
    · have hlen : req.remaining = r.remaining := congrArg DumpJob.remaining hf.req
      rw [hsession, hoff, hlen]
    · simp only [work]
      omega
  -- a credit taken away leaves one fewer to drain
  | draining j =>
    obtain ⟨⟨hf, hgo⟩, rfl⟩ := h
    cases ht : credits.take with
    | some t =>
      obtain ⟨htok, hcount⟩ := KSem.take_some ht
      simp only [next, Dump.step, Dump.runStep, ht, Option.some.injEq] at hn
      subst hn
      refine ⟨⟨⟨⟨hf.taken, hf.req, hf.sent⟩, hgo⟩, rfl⟩, ?_⟩
      simp only [work]
      omega
    | none =>
      simp only [next, Dump.step, Dump.runStep, ht, Option.some.injEq] at hn
      subst hn
      refine ⟨⟨⟨⟨hf.taken, hf.req, hf.sent⟩, hgo⟩, rfl, Nat.zero_le _, Nat.zero_le _⟩, ?_⟩
      simp only [work]
      omega
  -- the last credit given, the loop has the whole plan before it
  | giving j given =>
    obtain ⟨⟨hf, hgo⟩, rfl, hle, hcred⟩ := h
    have hcred' : given ≤ credits.count + outstanding := hcred
    by_cases hmore : given < dumpCredits
    · simp only [next, Dump.step, Dump.runStep, if_pos hmore, Option.some.injEq] at hn
      subst hn
      have hgive := credits.give_count
      have hdc : dumpCredits = 2 := rfl
      refine ⟨⟨⟨⟨hf.taken, hf.req, hf.sent⟩, hgo⟩, rfl, hmore, ?_⟩, ?_⟩
      · show given + 1 ≤ credits.give.count + outstanding
        omega
      · simp only [work]
        omega
    · simp only [next, Dump.step, Dump.runStep, if_neg hmore, Option.some.injEq] at hn
      subst hn
      have hsent : sent = [] := hf.sent
      refine ⟨⟨hf.taken, hgo, hpos, hfit, ?_, ?_⟩, ?_⟩
      · show sent ++ plan s j = plan s j
        rw [hsent, List.nil_append]
      · show dumpCredits ≤ credits.count + outstanding + 0
        omega
      · simp only [work]
        have hdc : dumpCredits = 2 := rfl
        omega
  | loop j =>
    have hgo : 0 < j.remaining ∧ abort = false := ⟨h.left, h.go⟩
    simp only [next, Dump.step, Dump.runStep, if_pos hgo, Option.some.injEq] at hn
    subst hn
    refine ⟨⟨h.taken, h.go, h.left, h.fits, h.split, h.credits⟩, ?_⟩
    simp only [work]
    omega
  | reading j =>
    obtain rfl := Option.some.inj hn
    have hlen := plan_length (s := s) h.left h.fits
    refine ⟨⟨⟨h.taken, h.go, h.left, h.fits, h.split, h.credits⟩, rfl⟩, ?_⟩
    simp only [work]
    omega
  | built j c =>
    obtain ⟨t, ht, rfl⟩ := Option.map_eq_some_iff.mp hn
    have hcount : 0 < credits.count ∧ t.count = credits.count - 1 := KSem.take_some ht
    obtain ⟨hs, hc⟩ := h
    have hlen := plan_length (s := s) hs.left hs.fits
    have hcred : dumpCredits ≤ credits.count + outstanding + 0 := hs.credits
    refine ⟨⟨⟨hs.taken, hs.go, hs.left, hs.fits, hs.split, ?_⟩, hc⟩, ?_⟩
    · show dumpCredits ≤ t.count + outstanding + 1
      omega
    · simp only [work]
      omega
  -- the chunk sent moves from the plan to what was sent; after the last one the plan is empty
  | sending j c tries =>
    obtain rfl := Option.some.inj hn
    obtain ⟨hs, rfl⟩ := h
    have hcred : dumpCredits ≤ credits.count + outstanding + 1 := hs.credits
    have hsplit : sent ++ plan s j = plan s r := hs.split
    cases hl : (chunkOf s j).last with
    | true =>
      have hplan := plan_last hs.left hl
      simp only [Dump.notifyStep, hl, if_true]
      refine ⟨Or.inr ⟨hs.taken, ?_⟩, ?_⟩
      · show sent ++ [chunkOf s j] = plan s r
        rw [← hplan]
        exact hsplit
      · have hzero : dumpSem.count = 0 := hs.taken
        simp only [work, hzero, hplan, List.length_singleton, if_true]
        omega
    | false =>
      obtain ⟨-, hmuch, -⟩ := more_after hl
      have hplan := plan_more hs.fits hl
      have hleft : (rest j).remaining = j.remaining - dumpChunkData := rfl
      have hfits := hs.fits
      simp only [Dump.notifyStep, hl, Bool.false_eq_true, if_false]
      rw [advance_eq hs.fits hl]
      refine ⟨⟨hs.taken, hs.go, by omega, by omega, ?_, ?_⟩, ?_⟩
      · show sent ++ [chunkOf s j] ++ plan s (rest j) = plan s r
        rw [List.append_assoc, List.singleton_append, ← hplan]
        exact hsplit
      · show dumpCredits ≤ credits.count + (outstanding + 1) + 0
        omega
      · simp only [work, hplan, List.length_cons]
        omega

/-- A callback turns a notification into a credit, or into nothing where there are enough. -/
theorem sentCb_credits {c : KSem 2} {n given : Nat} (hn : 0 < n) (hg : given ≤ dumpCredits)
    (h : given ≤ c.count + n) : given ≤ c.give.count + (n - 1) := by
  have hgive := c.give_count
  have hdc : dumpCredits = 2 := rfl
  omega

theorem sentCb_serving {s : Log} {r : DumpJob} {tx tx' : DumpTx} (h : Serving s r tx)
    (hn : Dump.step tx .sentCb = some tx') : Serving s r tx' ∧ work s r tx' < work s r tx := by
  obtain ⟨hpos, hst⟩ := Option.ite_none_right_eq_some.mp hn
  obtain rfl := Option.some.inj hst
  obtain ⟨dumpSem, credits, req, abort, pc, caller, outstanding, sent⟩ := tx
  have hout : 0 < outstanding := hpos
  have hgive := credits.give_count
  -- in the loop a callback moves one from the notifications under way to the credits
  have hsend : ∀ {j held}, Sending s r j held
      ⟨dumpSem, credits, req, abort, pc, caller, outstanding, sent⟩ → Sending s r j held
      ⟨dumpSem, credits.give, req, abort, pc, caller, outstanding - 1, sent⟩ := by
    intro j held h
    have hcred : dumpCredits ≤ credits.count + outstanding + held := h.credits
    refine ⟨h.taken, h.go, h.left, h.fits, h.split, ?_⟩
    show dumpCredits ≤ credits.give.count + (outstanding - 1) + held
    have hdc : dumpCredits = 2 := rfl
    omega
  cases pc with
  | idle =>
    constructor
    · rcases h with h | h
      · exact Or.inl ⟨h.idle, h.given, h.req⟩
      · exact Or.inr h
    · by_cases hz : dumpSem.count = 0
      · simp only [work, if_pos hz]
        omega
      · simp only [work, if_neg hz]
        omega
  | woken =>
    refine ⟨⟨h.taken, h.req, h.sent⟩, ?_⟩
    simp only [work]
    omega
  | cleared =>
    obtain ⟨hf, hgo⟩ := h
    refine ⟨⟨⟨hf.taken, hf.req, hf.sent⟩, hgo⟩, ?_⟩
    simp only [work]
    omega
  | haveSession session =>
    obtain ⟨⟨hf, hgo⟩, hrest⟩ := h
    refine ⟨⟨⟨⟨hf.taken, hf.req, hf.sent⟩, hgo⟩, hrest⟩, ?_⟩
    simp only [work]
    omega
  | haveOff session off =>
    obtain ⟨⟨hf, hgo⟩, hrest⟩ := h
    refine ⟨⟨⟨⟨hf.taken, hf.req, hf.sent⟩, hgo⟩, hrest⟩, ?_⟩
    simp only [work]
    omega
  | draining j =>
    obtain ⟨⟨hf, hgo⟩, hrest⟩ := h
    refine ⟨⟨⟨⟨hf.taken, hf.req, hf.sent⟩, hgo⟩, hrest⟩, ?_⟩
    simp only [work]
    omega
  | giving j given =>
    obtain ⟨⟨hf, hgo⟩, hj, hle, hcred⟩ := h
    refine ⟨⟨⟨⟨hf.taken, hf.req, hf.sent⟩, hgo⟩, hj, hle, sentCb_credits hout hle hcred⟩, ?_⟩
    simp only [work]
    omega
  | loop j =>
    refine ⟨hsend h, ?_⟩
    simp only [work]
    omega
  | reading j =>
    refine ⟨hsend h, ?_⟩
    simp only [work]
    omega
  | built j c =>
    refine ⟨⟨hsend h.1, h.2⟩, ?_⟩
    simp only [work]
    omega
  | sending j c tries =>
    refine ⟨⟨hsend h.1, h.2⟩, ?_⟩
    simp only [work]
    omega

/-- **Step lemma.** -/
theorem step_serving {s : Log} {r : DumpJob} (hpos : 0 < r.remaining)
    (hfit : r.remaining < 4294967296) (tx : DumpTx) (m : Move) (tx' : DumpTx) (h : Serving s r tx)
    (hst : step s tx m = some tx') : Serving s r tx' ∧ work s r tx' < work s r tx := by
  cases m with
  | thread => exact next_serving hpos hfit h hst
  | sentCb => exact sentCb_serving h hst

/-- **Progress.**  The thread stops at the end of the request only: where it waits for a credit, a
    notification is outstanding. -/
theorem stuck_served {s : Log} {r : DumpJob} {tx : DumpTx} (h : Serving s r tx)
    (hstuck : ∀ m, step s tx m = none) : tx.pc = .idle ∧ tx.sent = plan s r := by
  have hthread := hstuck .thread
  have hcb := hstuck .sentCb
  obtain ⟨dumpSem, credits, req, abort, pc, caller, outstanding, sent⟩ := tx
  cases pc with
  | idle =>
    rcases h with h | h
    · have hgiven : dumpSem.count = 1 := h.given
      have hnone : dumpSem.count = 0 := KSem.take_none (Option.map_eq_none_iff.mp hthread)
      omega
    · exact ⟨rfl, h.2⟩
  | woken => exact absurd hthread (by simp [step, next, Dump.step, Dump.runStep])
  | cleared => exact absurd hthread (by simp [step, next, Dump.step, Dump.runStep])
  | haveSession session => exact absurd hthread (by simp [step, next, Dump.step, Dump.runStep])
  | haveOff session off => exact absurd hthread (by simp [step, next, Dump.step, Dump.runStep])
  | draining j =>
    simp only [step, next, Dump.step, Dump.runStep] at hthread
    split at hthread
    · exact absurd hthread (by simp)
    · exact absurd hthread (by simp)
  | giving j given =>
    simp only [step, next, Dump.step, Dump.runStep] at hthread
    split at hthread
    · exact absurd hthread (by simp)
    · exact absurd hthread (by simp)
  | loop j =>
    simp only [step, next, Dump.step, Dump.runStep] at hthread
    split at hthread
    · exact absurd hthread (by simp)
    · exact absurd hthread (by simp)
  | reading j => exact absurd hthread (by simp [step, next, Dump.step])
  | built j c =>
    have hnone : credits.count = 0 := KSem.take_none (Option.map_eq_none_iff.mp hthread)
    have hcred : dumpCredits ≤ credits.count + outstanding + 0 := h.1.credits
    have hdc : dumpCredits = 2 := rfl
    have hout : 0 < outstanding := by omega
    exact absurd hcb (by simp [step, Dump.step, hout])
  | sending j c tries => exact absurd hthread (by simp [step, next, Dump.step])

/-- **Every run of a request ends with its plan sent.** -/
theorem ends_planned (s : Log) {r : DumpJob} (hpos : 0 < r.remaining)
    (hfit : r.remaining < 4294967296) {tx : DumpTx} (h : Pending r tx) :
    Ends (step s) tx fun t => t.pc = .idle ∧ t.sent = plan s r := by
  have hserving : Serving s r tx := by
    unfold Serving
    rw [h.idle]
    exact Or.inl h
  exact Ends.of_measure (step_serving hpos hfit) hserving fun t ht hstuck => stuck_served ht hstuck

/-- And there is such a run. -/
theorem planned_end (s : Log) {r : DumpJob} (hpos : 0 < r.remaining)
    (hfit : r.remaining < 4294967296) {tx : DumpTx} (h : Pending r tx) :
    ∃ (ms : List Move) (t : DumpTx),
      ms.foldlM (step s) tx = some t ∧ (∀ m, step s t m = none) ∧ t.sent = plan s r := by
  have hserving : Serving s r tx := by
    unfold Serving
    rw [h.idle]
    exact Or.inl h
  obtain ⟨ms, t, hrun, hstuck⟩ := exists_end (step_serving hpos hfit) hserving
  obtain ⟨b, hb⟩ := ends_planned s hpos hfit h
  exact ⟨ms, t, hrun, hstuck, ((hb ms t hrun).2 hstuck).2⟩

/-! ## Many requests -/

/-- The chunks of a request that has been served. -/
def Sent (s : Log) (r : DumpJob) (cs : List DumpChunk) : Prop :=
  ∃ (tx : DumpTx) (ms : List Move) (t : DumpTx),
    Pending r tx ∧ ms.foldlM (step s) tx = some t ∧ (∀ m, step s t m = none) ∧ t.sent = cs

theorem Sent.planned {s : Log} {r : DumpJob} {cs : List DumpChunk} (h : Sent s r cs)
    (hpos : 0 < r.remaining) (hfit : r.remaining < 4294967296) : cs = plan s r := by
  obtain ⟨tx, ms, t, hp, hrun, hstuck, rfl⟩ := h
  obtain ⟨b, hb⟩ := ends_planned s hpos hfit hp
  exact ((hb ms t hrun).2 hstuck).2

/-- Consecutive chunks cover everything from the first to the last. -/
theorem Consecutive.covers {cs : List DumpChunk} {offset : Nat} (h : Consecutive offset cs) {k : Nat}
    (hlo : offset ≤ k) (hhi : k < offset + (cs.flatMap DumpChunk.data).length) : Covered cs k := by
  induction cs generalizing offset with
  | nil => exact absurd hhi (Nat.not_lt.mpr hlo)
  | cons c cs ih =>
    obtain ⟨hoff, hrest⟩ := h
    rw [List.flatMap_cons, List.length_append] at hhi
    rcases Nat.lt_or_ge k (offset + c.data.length) with hin | hbehind
    · exact ⟨c, List.mem_cons_self, by omega, by omega⟩
    · obtain ⟨d, hd, hcov⟩ := ih hrest hbehind (by omega)
      exact ⟨d, List.mem_cons_of_mem _ hd, hcov⟩

/-- Every chunk of a plan is made by a read of the session. -/
theorem plan_chunks {s : Log} {j : DumpJob} (hpos : 0 < j.remaining)
    (hfit : j.remaining < 4294967296) :
    ∀ c ∈ plan s j, ∃ j', j'.session = j.session ∧ c = chunkOf s j' := by
  refine plan_induct (P := fun j cs => ∀ c ∈ cs, ∃ j', j'.session = j.session ∧ c = chunkOf s j')
    ?_ ?_ j hpos hfit
  · intro j _ _ c hc
    obtain rfl := List.mem_singleton.mp hc
    exact ⟨j, rfl, rfl⟩
  · intro j _ _ ih c hc
    rcases List.mem_cons.mp hc with rfl | hc
    · exact ⟨j, rfl, rfl⟩
    · exact ih c hc

/-- A faithful chunk is what a host expects of the session. -/
theorem Faithful.next {s : Log} {j : DumpJob} (h : Faithful (stored s j.session) (chunkOf s j)) :
    chunkOf s j = Host.nextChunk (stored s j.session) j := by
  have hlen := chunkOf_length s j
  have hsame : (chunkOf s j).data = ((stored s j.session).drop j.off).take j.want := by
    have hoffset : (chunkOf s j).offset = j.off := rfl
    rw [h, hoffset, hlen, ← stored_length s j.session, ← List.length_drop, ← List.take_take,
      List.take_length]
  show j.chunk (chunkOf s j).data = _
  rw [hsame]
  rfl

/-- Placing faithful chunks keeps a buffer that shows the session where it is covered. -/
theorem shows_foldl {s : Log} {session : Nat} {cs done : List DumpChunk} {buf : List UInt8}
    (hcs : ∀ c ∈ cs, ∃ j, j.session = session ∧ c = chunkOf s j ∧ Faithful (stored s session) c)
    (h : Shows (stored s session) done buf) :
    Shows (stored s session) (done ++ cs)
      (cs.foldl (fun buf c => place buf (avail s session) c) buf) := by
  induction cs generalizing done buf with
  | nil =>
    rw [List.append_nil]
    exact h
  | cons c cs ih =>
    obtain ⟨j, rfl, rfl, hf⟩ := hcs c List.mem_cons_self
    have hplace := h.place j
    rw [← hf.next, stored_length] at hplace
    have hall := ih (fun d hd => hcs d (List.mem_cons_of_mem _ hd)) hplace
    rw [List.append_assoc, List.singleton_append] at hall
    exact hall

/-- **Resuming.**  Requests that together cover a session and are each served faithfully leave the host
    with the session, whatever their order and overlaps. -/
theorem resumed {s : Log} {session : UInt32} {rs : List (UInt32 × UInt32)}
    {css : List (List DumpChunk)} (hpos : ∀ r ∈ rs, 0 < r.2)
    (hfront : ∀ r ∈ rs, InFront s (request session r.1 r.2))
    (hcover : ∀ k < avail s session.toNat, ∃ r ∈ rs, r.1.toNat ≤ k ∧ k < r.1.toNat + r.2.toNat)
    (hsent : List.Forall₂ (fun r cs => Sent s (request session r.1 r.2) cs) rs css) :
    css.flatten.foldl (fun buf c => place buf (avail s session.toNat) c)
      (List.replicate (avail s session.toNat) 0) = stored s session.toNat := by
  have hword : ∀ x : UInt32, 0 < x → 0 < x.toNat ∧ x.toNat < 4294967296 := fun x hx =>
    ⟨UInt32.lt_iff_toNat_lt.mp hx, x.toNat_lt⟩
  have hplans : css = rs.map fun r => plan s (request session r.1 r.2) := by
    clear hcover hfront
    induction hsent with
    | nil => rfl
    | @cons r cs rs css hr hrs ih =>
      obtain ⟨h1, h2⟩ := hword r.2 (hpos r List.mem_cons_self)
      rw [List.map_cons, ← ih fun r hr => hpos r (List.mem_cons_of_mem _ hr),
        hr.planned h1 h2]
  subst hplans
  have hchunks : ∀ c ∈ (rs.map fun r => plan s (request session r.1 r.2)).flatten,
      ∃ j, j.session = session.toNat ∧ c = chunkOf s j ∧ Faithful (stored s session.toNat) c := by
    intro c hc
    obtain ⟨cs, hcs, hc⟩ := List.mem_flatten.mp hc
    obtain ⟨r, hr, rfl⟩ := List.mem_map.mp hcs
    obtain ⟨h1, h2⟩ := hword r.2 (hpos r hr)
    obtain ⟨j, hj, hmade⟩ := plan_chunks h1 h2 c hc
    exact ⟨j, hj, hmade, plan_faithful h1 h2 (hfront r hr) c hc⟩
  have hshows := shows_foldl hchunks (Host.shows_start (stored s session.toNat))
  rw [stored_length, List.nil_append] at hshows
  refine (hshows.complete_iff.mpr fun k hk hnot => absurd ?_ hnot).2
  rw [stored_length] at hk
  obtain ⟨r, hr, hlo, hhi⟩ := hcover k hk
  obtain ⟨h1, h2⟩ := hword r.2 (hpos r hr)
  have hshape := plan_shaped s (request session r.1 r.2) h1 h2
  have hcount : ((plan s (request session r.1 r.2)).flatMap DumpChunk.data).length =
    min r.2.toNat (avail s session.toNat - r.1.toNat) := hshape.count
  have hcons : Consecutive r.1.toNat (plan s (request session r.1 r.2)) := hshape.consecutive
  obtain ⟨c, hc, hin⟩ := hcons.covers hlo (by omega)
  exact ⟨c, List.mem_flatten.mpr ⟨_, List.mem_map.mpr ⟨r, hr, rfl⟩, hc⟩, hin⟩

/-! ## Served -/

/-- What a plan makes of a request, given what its chunks carry. -/
theorem plan_served {s : Log} {j : DumpJob} (hpos : 0 < j.remaining)
    (hfit : j.remaining < 4294967296) :
    Served (stored s j.session) j.off j.remaining (plan s j) ↔
      ∀ c ∈ plan s j, Faithful (stored s j.session) c := by
  rw [← plan_bytes_iff s j hpos hfit]
  constructor
  · exact Served.bytes
  · intro hbytes
    have hshape := plan_shaped s j hpos hfit
    exact ⟨hshape.small, hshape.consecutive, hbytes, hshape.oneLast⟩

/-- Where every run ends with the plan sent, a property of the end is one of the plan. -/
theorem ends_iff (s : Log) {r : DumpJob} (hpos : 0 < r.remaining) (hfit : r.remaining < 4294967296)
    {tx : DumpTx} (h : Pending r tx) (P : List DumpChunk → Prop) :
    Ends (step s) tx (fun t => t.pc = .idle ∧ P t.sent) ↔ P (plan s r) := by
  constructor
  · rintro ⟨b, hb⟩
    obtain ⟨ms, t, hrun, hstuck, hsent⟩ := planned_end s hpos hfit h
    rw [← hsent]
    exact ((hb ms t hrun).2 hstuck).2
  · intro hP
    obtain ⟨b, hb⟩ := ends_planned s hpos hfit h
    refine ⟨b, fun ms t hrun => ⟨(hb ms t hrun).1, fun hstuck => ?_⟩⟩
    obtain ⟨hidle, hsent⟩ := (hb ms t hrun).2 hstuck
    rw [hsent]
    exact ⟨hidle, hP⟩

/-- **A request on a quiescent log.**  Every run ends with consecutive chunks of at most 232 bytes, as
    many bytes as there are and the last chunk marked.  They carry the session's bytes, whatever the
    ring holds, exactly if every chunk with data begins in front of byte 2^32 of the record stream; and
    then the chunks of any requests that cover the session put it together. -/
theorem dump_served (s : Log) :
    (∀ (session offset len : UInt32) (tx : DumpTx), 0 < len →
      Pending (request session offset len) tx →
      (∀ d, Ends (step (withData s d)) tx fun t => t.pc = .idle ∧
        Shaped (avail s session.toNat) offset.toNat len.toNat t.sent) ∧
      ((∀ d, Ends (step (withData s d)) tx fun t => t.pc = .idle ∧
          Served (stored (withData s d) session.toNat) offset.toNat len.toNat t.sent) ↔
        InFront s (request session offset len))) ∧
    ∀ (session : UInt32) (rs : List (UInt32 × UInt32)) (css : List (List DumpChunk)),
      (∀ r ∈ rs, 0 < r.2) → (∀ r ∈ rs, InFront s (request session r.1 r.2)) →
      (∀ k < avail s session.toNat, ∃ r ∈ rs, r.1.toNat ≤ k ∧ k < r.1.toNat + r.2.toNat) →
      List.Forall₂ (fun r cs => Sent s (request session r.1 r.2) cs) rs css →
      css.flatten.foldl (fun buf c => place buf (avail s session.toNat) c)
        (List.replicate (avail s session.toNat) 0) = stored s session.toNat := by
  constructor
  · intro session offset len tx hlen hp
    have hpos : 0 < (request session offset len).remaining := UInt32.lt_iff_toNat_lt.mp hlen
    have hfit : (request session offset len).remaining < 4294967296 := len.toNat_lt
    have hsession : session.toNat = (request session offset len).session := rfl
    have hoffset : offset.toNat = (request session offset len).off := rfl
    have hremaining : len.toNat = (request session offset len).remaining := rfl
    rw [hsession, hoffset, hremaining]
    generalize request session offset len = r at *
    constructor
    · intro d
      rw [ends_iff (withData s d) hpos hfit hp]
      exact plan_shaped (withData s d) r hpos hfit
    · rw [← plan_stored_iff s r hpos hfit]
      refine forall_congr' fun d => ?_
      rw [ends_iff (withData s d) hpos hfit hp]
      exact plan_served hpos hfit
  · intro session rs css hpos hfront hcover hsent
    exact resumed hpos hfront hcover hsent

/-- Up to a ring length all of a session is there. -/
theorem logged_stored {l : List ImuSample} {s : Log} {j : Journal} (h : Logged l s j)
    (hs : s.Filed) (hk : s.Kept j.drained) (hl : l.length ≤ 43478) :
    avail s 1 = 16 * l.length ∧ firstRec s 1 = 0 ∧ stored s 1 = recordBytes l := by
  obtain ⟨e, he, hv, hseq, hstart, -⟩ := h.entry
  have hv' : (s.flash.entries 0).Valid := by rw [he]; exact hv
  have hlive : s.liveCount 0 = l.length := (if_pos ⟨h.active, h.slot.symm⟩).trans h.count
  have hclip : s.clippedStart 0 = 0 := by
    rw [(logged_readable h).1]
    omega
  have hfind : s.flash.findSession 1 = some 0 := by
    rw [← hseq, ← he]
    exact findSession_eq hs.entries (by decide) hv'
  have hfirst : firstRec s 1 = 0 := by
    unfold firstRec
    rw [hfind]
    exact hclip
  have havail : avail s 1 = 16 * l.length := by
    unfold avail
    rw [hfind]
    dsimp only
    rw [he, hstart, hlive, hclip, recSize_eq, u32_of_lt (by omega), u32_of_lt (by omega)]
    split
    · omega
    · omega
  refine ⟨havail, hfirst, List.ext_getElem? fun k => ?_⟩
  have hlen := recordBytes_length l
  rcases Nat.lt_or_ge k (16 * l.length) with hin | hout
  · have hcur : (s.flash.entries s.curSlot).Valid := by rw [h.slot]; exact hv'
    obtain ⟨-, hbstart, -, -⟩ := (hs.bound (Or.inl h.active)).entry hcur
    rw [h.slot, he, hstart] at hbstart
    -- each byte is where the drain put it
    have hst := (hk.live (Or.inl h.active) hcur).2
    rw [h.seq, h.drained, h.total, h.count, ← hbstart] at hst
    have hcap := dataCapacity_eq
    have hdata := hst.2 k (by omega) (by omega)
    rw [stored_getElem? s 1 (by omega), hfirst, Nat.mul_zero, Nat.zero_add, hdata]
    show some ((recordBytes l).getD (k - 16 * 0) 0) = _
    rw [Nat.mul_zero, Nat.sub_zero, List.getD_eq_getElem?_getD, List.getElem?_eq_getElem (by omega)]
    rfl
  · rw [List.getElem?_eq_none (by rw [stored_length]; omega), List.getElem?_eq_none (by omega)]

/-- Twenty records are served whole, and two requests that overlap put them together. -/
theorem dump_served_twenty : ∃ s j, Reach Fresh (guarded steady DeviceStep) (.on s j) ∧
    j.drained 1 = numbered 20 ∧
    Ends (step s) { DumpTx.cold with dumpSem := KSem.full, req := request 1 0 320 } (fun t =>
      t.pc = .idle ∧ Served (recordBytes (numbered 20)) 0 320 t.sent) ∧
    ∃ css, List.Forall₂ (fun r cs => Sent s (request 1 r.1 r.2) cs) [(0, 250), (232, 100)] css ∧
      css.flatten.foldl (fun buf c => place buf 320 c) (List.replicate 320 0) =
        recordBytes (numbered 20) := by
  obtain ⟨s, j, hr, h⟩ := logged_steady (numbered 20) (by decide)
  obtain ⟨hs, -, hk⟩ := reach_kept (fun d e => steady_call) hr
  obtain ⟨havail, hfirst, hstored⟩ := logged_stored h hs hk (by decide)
  rw [numbered_length] at havail
  have hfront : ∀ offset len : UInt32, InFront s (request 1 offset len) := by
    intro offset len i hi
    have hsession : (request 1 offset len).session = 1 := rfl
    rw [hsession, havail] at hi
    rw [hsession, hfirst]
    omega
  obtain ⟨hserved, hresumed⟩ := dump_served s
  have hpending : ∀ r, Pending r { DumpTx.cold with dumpSem := KSem.full, req := r } :=
    fun r => ⟨rfl, rfl, rfl⟩
  have hsent : ∀ r : DumpJob, 0 < r.remaining → r.remaining < 4294967296 → Sent s r (plan s r) := by
    intro r hpos hfit
    obtain ⟨ms, t, hrun, hstuck, hplan⟩ := planned_end s hpos hfit (hpending r)
    exact ⟨_, ms, t, hpending r, hrun, hstuck, hplan⟩
  have hboth : List.Forall₂ (fun r cs => Sent s (request 1 r.1 r.2) cs) [(0, 250), (232, 100)]
      [plan s (request 1 0 250), plan s (request 1 232 100)] :=
    .cons (hsent _ (by decide) (by decide)) (.cons (hsent _ (by decide) (by decide)) .nil)
  have hone : (1 : UInt32).toNat = 1 := rfl
  have hall := (hserved 1 0 320 _ (by decide) (hpending _)).2.mpr (hfront 0 320) s.flash.data
  rw [hone, show stored (withData s s.flash.data) 1 = _ from hstored] at hall
  refine ⟨s, j, hr, h.drained, hall, _, hboth, ?_⟩
  have hlens : ∀ r ∈ [((0 : UInt32), (250 : UInt32)), (232, 100)], 0 < r.2 := by
    intro r hr
    rcases List.mem_pair.mp hr with rfl | rfl
    · decide
    · decide
  have hwhole := hresumed 1 [(0, 250), (232, 100)] _ hlens (fun r _ => hfront r.1 r.2)
    (fun k hk => ?_) hboth
  · rw [hone, havail, hstored] at hwhole
    exact hwhole
  · have hk' : k < 320 := hk.trans_eq havail
    by_cases hfew : k < 250
    · exact ⟨(0, 250), .head _, Nat.zero_le k, by show k < 0 + 250; omega⟩
    · exact ⟨(232, 100), .tail _ (.head _), by show 232 ≤ k; omega, by show k < 232 + 100; omega⟩

/-! ## Behind byte 2^32 -/

/-- Calls only, no write fails, `total_abs` stays at most `B`. -/
def logging (B : Nat) : Device → ImuLog.Event → Prop
  | .on s _, .op o => ImuLog.Within B s o
  | .off _ _, .boot => True
  | _, _ => False

/-- In such a run every listed session is stored, also behind record 2^28. -/
theorem logging_kept {B : Nat} (hB : B < 4294967295) {d : Device}
    (h : Reach Fresh (guarded (logging B) DeviceStep) d) : d.Filed ∧ d.Kept := by
  refine Reach.invariant (I := fun d => d.Filed ∧ d.Kept) ?_ ?_ h
  · rintro d ⟨f, rfl, hforeign⟩
    exact ⟨fun hown => absurd hown hforeign, fun hown => absurd hown hforeign⟩
  · rintro d e d' - ⟨hf, hk⟩ ⟨hg, hst⟩
    have hroom : onCall (fun s o => Room s o ∧ o.Ok) d e ∧ cutsSafe d e := by
      cases d with
      | on s j =>
        cases e with
        | op o =>
          obtain ⟨hok, -, hle⟩ := hg
          refine ⟨⟨?_, hok⟩, trivial⟩
          have hs : s.Filed := hf
          have hcount := hs.count
          cases o with
          | drain ret =>
            have hsum := hle ret rfl
            show s.totalAbs + s.drainCount < 4294967296 ∧ s.curCount + s.drainCount < 4294967295
            omega
          | start st ret => trivial
          | append xs => trivial
          | stop => trivial
          | erase => trivial
        | cut o k => exact hg.elim
        | boot => exact hg.elim
        | bootCut k => exact hg.elim
      | off f j => exact ⟨trivial, trivial⟩
    exact ⟨device_filed hf (onCall_imp (fun _ _ hr => hr.1) hroom.1) hst,
      device_kept hf hk hroom.1 hroom.2 hst⟩

/-- **The last record of 2^28 + 1.**  It begins at byte 2^32 of the record stream; asked for it, the
    thread sends what stands at the start of the ring. -/
theorem dump_wraps :
    ¬ ∀ s j, Reach Fresh (guarded (onCall NoWrap) DeviceStep) (.on s j) →
      ∀ (session offset len : UInt32) (tx : DumpTx), 0 < len →
        Pending (request session offset len) tx →
        Ends (step s) tx fun t => t.pc = .idle ∧
          Served (stored s session.toNat) offset.toNat len.toNat t.sent := by
  intro hall
  obtain ⟨s, j, hr, h⟩ := logged_reach (G := logging 268435457) (by decide) (fun _ _ => trivial)
    (fun _ _ _ hw => hw) (alikeButLast 268435456)
    (Nat.le_of_eq (alikeButLast_length 268435456))
  obtain ⟨hf, hk⟩ := logging_kept (by decide) hr
  have hs : s.Filed := hf
  have hlast := h.last_at hs hk
  obtain ⟨e, he, hv, hseq, hstart, -⟩ := h.entry
  have hlen := alikeButLast_length 268435456
  have htot := h.total
  have hlive : s.liveCount 0 = s.curCount := if_pos ⟨h.active, h.slot.symm⟩
  have hcount := h.count
  have hfloor := ringFloor_eq s
  rw [recCapacity_eq] at hfloor
  have hclip : s.clippedStart 0 = 268391979 := by
    obtain ⟨h1, h2, h3⟩ := le_clippedStart s 0
    rw [he, hstart] at h3
    omega
  have hfind : s.flash.findSession 1 = some 0 := by
    rw [← hseq, ← he]
    exact findSession_eq hs.entries (by decide) (by rw [he]; exact hv)
  have hfirst : firstRec s 1 = 268391979 := by
    unfold firstRec
    rw [hfind]
    exact hclip
  have havail : avail s 1 = 695648 := by
    unfold avail
    rw [hfind]
    dsimp only
    rw [he, hstart, hlive, hcount, hlen, hclip]
    decide
  -- the start of the ring holds record 268433172
  have hfront : s.flash.data 0 = 0 := by
    have hcur : (s.flash.entries s.curSlot).Valid := by
      rw [h.slot, he]
      exact hv
    obtain ⟨-, hbstart, -, -⟩ := (hs.bound (Or.inl h.active)).entry hcur
    rw [h.slot, he, hstart] at hbstart
    have hst := (hk.live (Or.inl h.active) hcur).2
    rw [h.seq, h.drained, htot, hcount, ← hbstart, hlen] at hst
    have hcap := dataCapacity_eq
    have hdata := hst.2 (16 * 268433172) (by omega) (by omega)
    have hslot : 16 * 268433172 % dataCapacity = 0 := by decide
    rw [hslot] at hdata
    rw [hdata]
    exact alikeButLast_front (by decide)
  have hreach : Reach Fresh (guarded (onCall NoWrap) DeviceStep) (.on s j) := by
    refine hr.mono (fun _ h0 => h0) fun d e d' hst => ⟨?_, hst.2⟩
    have hg := hst.1
    cases d with
    | on s j =>
      cases e with
      | op o => exact ⟨hg.2.1, fun ret ho => Nat.lt_of_le_of_lt (hg.2.2 ret ho) (by decide)⟩
      | cut o k => exact hg.elim
      | boot => exact hg.elim
      | bootCut k => exact hg.elim
    | off f j =>
      cases e with
      | op o => exact trivial
      | cut o k => exact trivial
      | boot => exact trivial
      | bootCut k => exact trivial
  have hpending : Pending (request 1 695632 16)
      { DumpTx.cold with dumpSem := KSem.full, req := request 1 695632 16 } :=
    ⟨rfl, rfl, rfl⟩
  have hserved := hall s j hreach 1 695632 16 _ (by decide) hpending
  rw [ends_iff s (by decide) (by decide) hpending] at hserved
  have hfaithful := (plan_served (s := s) (j := request 1 695632 16) (by decide) (by decide)).mp
    hserved _ (chunk_mem (i := 0) (by decide) (by decide) (by
      show dumpChunkData * 0 < min 16 (avail s 1 - 695632)
      rw [havail]
      decide))
  have hhead := hfaithful.head (by decide) (by
    show 695632 < avail s 1
    rw [havail]
    decide)
  have hsame : s.flash.data (u32 (16 * firstRec s 1 + 695632) % dataCapacity) =
      s.flash.data ((16 * firstRec s 1 + 695632) % dataCapacity) := hhead
  rw [hfirst] at hsame
  have hzero : u32 (16 * 268391979 + 695632) % dataCapacity = 0 := by decide
  have hone : (16 * 268391979 + 695632) % dataCapacity = 16 * 268435456 % dataCapacity := by decide
  rw [hzero, hone, hfront, hlast] at hsame
  exact absurd hsame (by decide)

end Caterpillar.Ble.DumpServe
