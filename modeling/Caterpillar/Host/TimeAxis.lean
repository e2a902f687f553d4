/-
  The time axis of the live stream (`on_stream_pkt` of src/scripts/caterpillar_gui.py).

  Program: a record carries the low 16 bits of the count of its sample.  The GUI takes the differences
  inside a packet modulo 65536, the first one from the last record of the packet before, and adds them
  up; the sum so far is carried to the next packet.  numpy counts in `int64`.

  1. `recs`, `diff`, `cumsum`, `unwrap`, `onStreamPkt` — the program, over the bytes of a notification.
  2. `unwrap_counts` — one packet: where the records before ended at a count, the sums are the counts
     since the first record.
  3. `Unwrapped` — the state between two packets, kept by every packet of any size (`packet_step`).
  4. `time_axis` — the stream; `plot_axis` — what the plot buffer shows of it.
-/
import Caterpillar.Host.Protocol
import Caterpillar.Host.StreamBuffer

namespace Caterpillar.Host.TimeAxis

open Caterpillar.Bytes Caterpillar.Imu Caterpillar.Host Caterpillar.Host.Plot
open Caterpillar.Ble.Packets (streamPkt)
open Caterpillar.Ble.Sfifo (Packet)

/-! ## Unwrapping -/

/-- A value of numpy's `int64`. -/
def int64 (x : Int) : Int := Int.bmod x 18446744073709551616

/-- `x & 0xFFFF`. -/
def lowWord (x : Int) : Int := x % 65536

/-- `np.diff(seq, prepend=last)`. -/
def diff (last : Int) : List Int → List Int
  | [] => []
  | x :: xs => int64 (x - last) :: diff x xs

/-- `np.cumsum`, from a sum on. -/
def cumsum (sum : Int) : List Int → List Int
  | [] => []
  | x :: xs => int64 (sum + x) :: cumsum (int64 (sum + x)) xs

/-- `abs_seq` of a packet. -/
def unwrap (seqLast : Option Int) (seqAbs : Int) (seq : List Int) : List Int :=
  let last := seqLast.getD (seq.headD 0)
  let deltas := (diff last seq).map fun d => d % 65536
  (cumsum 0 deltas).map fun s => int64 (seqAbs + s)

theorem int64_add (x y : Int) : int64 (int64 x + int64 y) = int64 (x + y) := by
  unfold int64
  rw [Int.bmod_add_bmod, Int.add_bmod_bmod]

theorem int64_of_range {x : Int} (hlo : -9223372036854775808 ≤ x) (hhi : x < 9223372036854775808) :
    int64 x = x := by
  unfold int64
  exact Int.bmod_eq_of_le (by omega) (by omega)

/-- The difference of two words, modulo 65536, is the one of the counts. -/
theorem delta_eq {a b : Nat} (h : a ≤ b ∧ b < a + 65536) :
    int64 (lowWord b - lowWord a) % 65536 = (b : Int) - a := by
  unfold lowWord
  rw [int64_of_range (by omega) (by omega)]
  omega

/-- Counts that rise by less than 65536 from one to the next. -/
abbrev Rising (counts : List Nat) : Prop := counts.IsChain fun a b => a ≤ b ∧ b < a + 65536

/-- The differences add up to the counts since any earlier one. -/
theorem cumsum_counts {prev : Nat} {counts : List Nat} (h : Rising (prev :: counts)) (base : Int) :
    cumsum (int64 (prev - base)) ((diff (lowWord prev) (counts.map fun c : Nat => lowWord c)).map
        fun d => d % 65536) =
      counts.map fun c : Nat => int64 ((c : Int) - base) := by
  induction counts generalizing prev with
  | nil => rfl
  | cons c counts ih =>
    obtain ⟨hstep, hrest⟩ := List.isChain_cons_cons.mp h
    have hsum : int64 (int64 ((prev : Int) - base) + int64 (lowWord c - lowWord prev) % 65536) =
        int64 ((c : Int) - base) := by
      have hdelta : int64 (lowWord c - lowWord prev) % 65536 = int64 ((c : Int) - prev) := by
        rw [delta_eq hstep]
        exact (int64_of_range (by omega) (by omega)).symm
      rw [hdelta, int64_add]
      congr 1
      omega
    simp only [List.map_cons, diff, cumsum]
    rw [hsum, ih hrest]

/-- **One packet.**  The records before ended at the count `prev`, or there were none and the packet
    begins with it. -/
theorem unwrap_counts {prev : Nat} {counts : List Nat} (h : Rising (prev :: counts)) (c₀ : Nat)
    {seqLast : Option Int}
    (hlast : seqLast = some (lowWord prev) ∨ seqLast = none ∧ counts.head? = some prev) :
    unwrap seqLast (int64 ((prev : Int) - c₀)) (counts.map fun c : Nat => lowWord c) =
      counts.map fun c : Nat => int64 ((c : Int) - c₀) := by
  have hprepend : seqLast.getD ((counts.map fun c : Nat => lowWord c).headD 0) = lowWord prev := by
    rcases hlast with rfl | ⟨rfl, hhead⟩
    · rfl
    · cases counts with
      | nil => exact absurd hhead (by simp)
      | cons c counts =>
        obtain rfl : c = prev := Option.some.inj hhead
        rfl
  have hzero : int64 ((prev : Int) - prev) = 0 := by
    rw [Int.sub_self]
    rfl
  unfold unwrap
  dsimp only
  rw [hprepend, ← hzero, cumsum_counts h prev, List.map_map]
  refine List.map_congr_left fun c _ => ?_
  show int64 (int64 ((prev : Int) - c₀) + int64 ((c : Int) - prev)) = _
  rw [int64_add]
  congr 1
  omega

/-! ## A notification -/

/-- `np.frombuffer(data, np.int16, n * 8, 8).reshape(n, 8)`. -/
def recs (data : List UInt8) (n : Nat) : List (List Int) :=
  (List.range n).map fun i => (List.range 8).map fun j => Code.h.read data (8 + (i * 8 + j) * 2)

/-- What the GUI makes of a record under its settings `κ`: `abs_seq / odr_hz`, and the scaled axes. -/
structure Scale (κ τ α γ : Type) where
  time : κ → Int → τ
  acc : κ → List Int → α
  gyr : κ → List Int → γ

/-- The stream's part of the main window. -/
structure Gui (κ τ α γ : Type) where
  /-- `_odr_hz`, `_afs` and `_gfs`. -/
  cfg : κ
  seqLast : Option Int
  seqAbs : Int
  sbuf : StreamBuffer τ α γ
  streamN : Nat
  decim : Nat
  streamDropped : Nat
  /-- The absolute sequence of each record since the state was reset. -/
  axis : List Int

variable {κ τ α γ : Type} (S : Scale κ τ α γ)

/-- `on_stream_pkt`; `none` where it raises. -/
def onStreamPkt (g : Gui κ τ α γ) (data : List UInt8) : Option (Gui κ τ α γ) :=
  match data with
  | [] => none
  | n :: _ =>
      if n = 0 ∨ data.length < 8 + n.toNat * recordSize then some g
      else
        let rows := recs data n.toNat
        let seq := rows.map fun r => lowWord (r.getD 7 0)
        let absSeq := unwrap g.seqLast g.seqAbs seq
        let sbuf := g.sbuf.append (absSeq.map (S.time g.cfg))
          (rows.map fun r => S.acc g.cfg (r.take 3))
          (rows.map fun r => S.gyr g.cfg ((r.drop 3).take 3))
        sbuf.map fun sbuf =>
          { g with
            seqLast := seq.getLast?
            seqAbs := absSeq.getLastD 0
            sbuf
            streamN := g.streamN + n.toNat
            decim := if u8At data 1 = 0 then 1 else (u8At data 1).toNat
            streamDropped := (u32At data 4).toNat
            axis := g.axis ++ absSeq }

/-- What concerns the stream. -/
inductive GuiEvent (κ : Type) where
  /-- A notification of 0xFFE9. -/
  | packet (data : List UInt8)
  /-- `_start_session`: the unwrap state is reset. -/
  | start
  /-- `_apply_imu_cfg`. -/
  | config (cfg : κ)

/-- One event; an exception ends in the event loop. -/
def Gui.handle (g : Gui κ τ α γ) : GuiEvent κ → Gui κ τ α γ
  | .packet data => (onStreamPkt S g data).getD g
  | .start =>
      { g with
        seqLast := none
        seqAbs := 0
        sbuf := g.sbuf.clear
        streamN := 0
        streamDropped := 0
        axis := [] }
  | .config cfg => { g with cfg }

/-- The main window as it opens, with a plot buffer of `cap` samples. -/
def Gui.init (cfg : κ) (cap : Nat) (t : τ) (acc : α) (gyr : γ) : Gui κ τ α γ :=
  ⟨cfg, none, 0, StreamBuffer.new cap t acc gyr, 0, 1, 0, []⟩

/-! ## The bytes of a packet -/

/-- The words of a record. -/
def wordsOf (x : ImuSample) : List UInt16 :=
  [x.ax.toUInt16, x.ay.toUInt16, x.az.toUInt16, x.gx.toUInt16, x.gy.toUInt16, x.gz.toUInt16,
    x.tempRaw.toUInt16, x.seq16]

/-- The row numpy reads of a record, its last word taken for signed like the others. -/
def rowOf (x : ImuSample) : List Int := (wordsOf x).map fun w => w.toInt16.toInt

/-- The sign of the last word is masked away. -/
theorem rowOf_seq (x : ImuSample) : lowWord ((rowOf x).getD 7 0) = x.seq16.toNat := by
  have hlt := x.seq16.toNat_lt
  have hsigned : x.seq16.toInt16.toInt = (x.seq16.toNat : Int).bmod 65536 :=
    BitVec.toInt_eq_toNat_bmod x.seq16.toBitVec
  calc x.seq16.toInt16.toInt % 65536 = (x.seq16.toNat : Int).bmod 65536 % 65536 := by
        rw [hsigned]
    _ = (x.seq16.toNat : Int) % 65536 := Int.bmod_emod
    _ = x.seq16.toNat := by omega

/-- One row. -/
theorem recs_row {head pre post : List UInt8} {x : ImuSample} {i : Nat} (hhead : head.length = 8)
    (hpre : pre.length = 16 * i) :
    ((List.range 8).map fun j =>
      Code.h.read (head ++ (pre ++ (x.bytes ++ post))) (8 + (i * 8 + j) * 2)) = rowOf x := by
  have hread : ∀ j, j < 8 →
      Code.h.read (head ++ (pre ++ (x.bytes ++ post))) (8 + (i * 8 + j) * 2) =
        ((wordsOf x).getD j 0).toInt16.toInt := by
    intro j hj
    have hat : u16At (head ++ (pre ++ (x.bytes ++ post))) (8 + (16 * i + 2 * j)) =
        (wordsOf x).getD j 0 := by
      rw [u16At_skip _ hhead, u16At_skip _ hpre]
      exact u16At_array (wordsOf x) post hj
    show (u16At _ _).toInt16.toInt = _
    rw [← hat]
    congr 3
    omega
  calc ((List.range 8).map fun j =>
        Code.h.read (head ++ (pre ++ (x.bytes ++ post))) (8 + (i * 8 + j) * 2)) =
      (List.range 8).map fun j => ((wordsOf x).getD j 0).toInt16.toInt :=
        List.map_congr_left fun j hj => hread j (List.mem_range.mp hj)
    _ = rowOf x := rfl

/-- **The rows of a packet** are its records. -/
theorem recs_packet (p : Packet) (s : Buffer) :
    recs (streamPkt p s) p.records.length = p.records.map rowOf := by
  rw [streamPkt_bytes]
  unfold recs
  refine List.ext_getElem (by simp) fun i hi hi' => ?_
  have hlt : i < p.records.length := by simpa using hi'
  have hsplit : recordBytes p.records = recordBytes (p.records.take i) ++
      ((p.records[i]).bytes ++ recordBytes (p.records.drop (i + 1))) := by
    rw [← recordBytes_cons, ← List.drop_eq_getElem_cons hlt, ← recordBytes_append,
      List.take_append_drop]
  have hpre : (recordBytes (p.records.take i)).length = 16 * i := by
    rw [recordBytes_length, List.length_take]
    omega
  rw [List.getElem_map, List.getElem_map, List.getElem_range, hsplit]
  exact recs_row rfl hpre

/-! ## Between two packets -/

@[simp] theorem diff_length (last : Int) (seq : List Int) : (diff last seq).length = seq.length := by
  induction seq generalizing last with
  | nil => rfl
  | cons x xs ih => exact congrArg (· + 1) (ih x)

@[simp] theorem cumsum_length (sum : Int) (xs : List Int) : (cumsum sum xs).length = xs.length := by
  induction xs generalizing sum with
  | nil => rfl
  | cons x xs ih => exact congrArg (· + 1) (ih _)

@[simp] theorem unwrap_length (seqLast : Option Int) (seqAbs : Int) (seq : List Int) :
    (unwrap seqLast seqAbs seq).length = seq.length := by
  unfold unwrap
  simp

/-- `seq` of a notification. -/
def seqOf (data : List UInt8) (n : Nat) : List Int :=
  (recs data n).map fun r => lowWord (r.getD 7 0)

/-- What a notification hands to the plot buffer. -/
def batchOf (g : Gui κ τ α γ) (data : List UInt8) (n : Nat) : Batch τ α γ where
  t := (unwrap g.seqLast g.seqAbs (seqOf data n)).map (S.time g.cfg)
  acc := (recs data n).map fun r => S.acc g.cfg (r.take 3)
  gyr := (recs data n).map fun r => S.gyr g.cfg ((r.drop 3).take 3)
  acc_length := by simp [seqOf]
  gyr_length := by simp [seqOf]

/-- The plot buffer shows some history. -/
def Gui.Sound (g : Gui κ τ α γ) : Prop :=
  0 < g.sbuf.cap ∧ ∃ h : Batch τ α γ, Tracks g.sbuf h.t h.acc h.gyr

/-- **A notification that is long enough** goes through: the plot buffer takes its batch. -/
theorem onStreamPkt_whole {g : Gui κ τ α γ} {h : Batch τ α γ} (hcap : 0 < g.sbuf.cap)
    (hb : Tracks g.sbuf h.t h.acc h.gyr) {data rest : List UInt8} {n : UInt8}
    (hdata : data = n :: rest) (hn : ¬ (n = 0 ∨ data.length < 8 + n.toNat * recordSize)) :
    ∃ g', onStreamPkt S g data = some g' ∧ g'.cfg = g.cfg ∧ g'.sbuf.cap = g.sbuf.cap ∧
      g'.seqLast = (seqOf data n.toNat).getLast? ∧
      g'.seqAbs = (unwrap g.seqLast g.seqAbs (seqOf data n.toNat)).getLastD 0 ∧
      g'.axis = g.axis ++ unwrap g.seqLast g.seqAbs (seqOf data n.toNat) ∧
      Tracks g'.sbuf (h.extend (batchOf S g data n.toNat)).t (h.extend (batchOf S g data n.toNat)).acc
        (h.extend (batchOf S g data n.toNat)).gyr := by
  obtain ⟨sbuf, happend, hcap', hb'⟩ := hb.append (x := batchOf S g data n.toNat) hcap
  subst hdata
  unfold onStreamPkt
  dsimp only
  rw [if_neg hn]
  refine ⟨_, congrArg (Option.map _) happend, rfl, hcap', rfl, rfl, rfl, hb'⟩

/-- Whatever happens, the plot buffer shows some history. -/
theorem handle_sound {g : Gui κ τ α γ} (h : g.Sound) (e : GuiEvent κ) : (g.handle S e).Sound := by
  obtain ⟨hcap, hist, hb⟩ := h
  cases e with
  | packet data =>
    show ((onStreamPkt S g data).getD g).Sound
    cases data with
    | nil => exact ⟨hcap, hist, hb⟩
    | cons n rest =>
      by_cases hn : n = 0 ∨ (n :: rest).length < 8 + n.toNat * recordSize
      · have hskip : onStreamPkt S g (n :: rest) = some g := if_pos hn
        rw [hskip]
        exact ⟨hcap, hist, hb⟩
      · obtain ⟨g', hrun, -, hcap', -, -, -, hb'⟩ := onStreamPkt_whole S hcap hb rfl hn
        rw [hrun]
        exact ⟨by rw [Option.getD_some, hcap']; exact hcap, _, hb'⟩
  | start =>
    obtain ⟨b', hclear, hcap', hb'⟩ := hb.call hcap .clear
    obtain rfl : g.sbuf.clear = b' := Option.some.inj hclear
    exact ⟨hcap, _, hb'⟩
  | config cfg => exact ⟨hcap, hist, hb⟩

/-- The state between two packets of a stream whose first record counts `c₀`: `seen` are the counts so
    far, `prev` the last of them, or `c₀` in front of the first packet. -/
structure Unwrapped (c₀ prev : Nat) (seen : List Nat) (g : Gui κ τ α γ) : Prop where
  last : g.seqLast = some (lowWord prev) ∨ g.seqLast = none ∧ seen = []
  abs : g.seqAbs = int64 ((prev : Int) - c₀)
  axis : g.axis = seen.map fun c : Nat => int64 ((c : Int) - c₀)
  cap : 0 < g.sbuf.cap
  plot : ∃ h : Batch τ α γ, Tracks g.sbuf h.t h.acc h.gyr ∧ h.t = g.axis.map (S.time g.cfg)

/-- The records carry the low words of the counts. -/
theorem seqOf_packet {p : Packet} {counts : List Nat}
    (hcounts : (p.records.map fun x => x.seq16) = counts.map fun c => UInt16.ofNat c) (s : Buffer) :
    seqOf (streamPkt p s) p.records.length = counts.map fun c : Nat => lowWord c := by
  have hwords : (p.records.map fun x => (x.seq16.toNat : Int)) =
      counts.map fun c : Nat => lowWord c := by
    calc (p.records.map fun x => (x.seq16.toNat : Int)) =
        (p.records.map fun x => x.seq16).map fun w => (w.toNat : Int) := by
          rw [List.map_map]
          rfl
      _ = counts.map fun c : Nat => lowWord c := by
          rw [hcounts, List.map_map]
          refine List.map_congr_left fun c _ => ?_
          show ((UInt16.ofNat c).toNat : Int) = (c : Int) % 65536
          rw [UInt16.toNat_ofNat']
          exact Int.natCast_mod c 65536
  unfold seqOf
  rw [recs_packet, List.map_map, ← hwords]
  exact List.map_congr_left fun x _ => rowOf_seq x

/-- **Step lemma.**  A packet of any size carries the state on to its last record. -/
theorem packet_step {c₀ prev : Nat} {seen counts : List Nat} {g : Gui κ τ α γ}
    (h : Unwrapped S c₀ prev seen g) {p : Packet}
    (hsize : 1 ≤ p.records.length ∧ p.records.length ≤ 14)
    (hcounts : (p.records.map fun x => x.seq16) = counts.map fun c => UInt16.ofNat c)
    (hrise : Rising (prev :: counts)) (hfirst : seen = [] → counts.head? = some prev) (s : Buffer) :
    ∃ g', onStreamPkt S g (streamPkt p s) = some g' ∧ g'.cfg = g.cfg ∧
      Unwrapped S c₀ (counts.getLastD prev) (seen ++ counts) g' := by
  have hn : (UInt8.ofNat p.records.length).toNat = p.records.length :=
    UInt8.toNat_ofNat'.trans (Nat.mod_eq_of_lt (by omega))
  have hlen : (streamPkt p s).length = 8 + p.records.length * recordSize := by
    rw [streamPkt_bytes, List.length_append, recordBytes_length, Nat.mul_comm]
    rfl
  obtain ⟨rest, hdata⟩ : ∃ rest, streamPkt p s = UInt8.ofNat p.records.length :: rest := by
    rw [streamPkt_bytes]
    exact ⟨_, rfl⟩
  have hwhole : ¬ (UInt8.ofNat p.records.length = 0 ∨
      (streamPkt p s).length < 8 + (UInt8.ofNat p.records.length).toNat * recordSize) := by
    rw [hn, hlen]
    rintro (hzero | hshort)
    · have hnat : (UInt8.ofNat p.records.length).toNat = 0 := congrArg UInt8.toNat hzero
      omega
    · omega
  obtain ⟨hist, hb, ht⟩ := h.plot
  obtain ⟨g', hrun, hcfg, hcap', hlast', habs', haxis', hb'⟩ :=
    onStreamPkt_whole S h.cap hb hdata hwhole
  have hseq := seqOf_packet hcounts s
  have hunwrap : unwrap g.seqLast g.seqAbs (seqOf (streamPkt p s) p.records.length) =
      counts.map fun c : Nat => int64 ((c : Int) - c₀) := by
    rw [hseq, h.abs]
    refine unwrap_counts hrise c₀ ?_
    rcases h.last with hsome | ⟨hnone, hseen⟩
    · exact Or.inl hsome
    · exact Or.inr ⟨hnone, hfirst hseen⟩
  -- the last record of the packet
  have hne : counts ≠ [] := by
    rintro rfl
    have hzero := congrArg List.length hcounts
    simp only [List.length_map, List.length_nil] at hzero
    omega
  obtain ⟨front, c, hsnoc⟩ := (List.eq_nil_or_concat counts).resolve_left hne
  rw [List.concat_eq_append] at hsnoc
  have hlastD : counts.getLastD prev = c := by
    rw [hsnoc]
    simp
  rw [hn] at hlast' habs' haxis' hb'
  refine ⟨g', hrun, hcfg, ?_⟩
  constructor
  · refine Or.inl ?_
    rw [hlast', hseq, hlastD, hsnoc]
    simp
  · rw [habs', hunwrap, hlastD, hsnoc]
    simp
  · rw [haxis', hunwrap, h.axis, List.map_append]
  · rw [hcap']
    exact h.cap
  · refine ⟨_, hb', ?_⟩
    show hist.t ++ (unwrap g.seqLast g.seqAbs (seqOf (streamPkt p s) p.records.length)).map
      (S.time g.cfg) = _
    rw [haxis', hcfg, ht, List.map_append]

/-! ## A stream -/

/-- The events of a stream, each packet out of some buffer of the firmware's. -/
def streamEvents (ps : List (Packet × Buffer)) : List (GuiEvent κ) :=
  ps.map fun p => .packet (streamPkt p.1 p.2)

/-- The sequence words of a stream. -/
def wordsIn (ps : List (Packet × Buffer)) : List UInt16 :=
  ps.flatMap fun p => p.1.records.map fun x => x.seq16

/-- The counts of a stream rise up to a cut and from there. -/
theorem rising_append {prev : Nat} {xs ys : List Nat} (h : Rising (prev :: (xs ++ ys))) :
    Rising (prev :: xs) ∧ Rising (xs.getLastD prev :: ys) := by
  induction xs generalizing prev with
  | nil => exact ⟨List.isChain_singleton prev, h⟩
  | cons x xs ih =>
    obtain ⟨hstep, hrest⟩ := List.isChain_cons_cons.mp h
    obtain ⟨hxs, hys⟩ := ih hrest
    refine ⟨List.isChain_cons_cons.mpr ⟨hstep, hxs⟩, ?_⟩
    rw [List.getLastD_cons]
    exact hys

/-- **Run lemma.** -/
theorem stream_run {c₀ prev : Nat} {seen counts : List Nat} {g : Gui κ τ α γ}
    (h : Unwrapped S c₀ prev seen g) {ps : List (Packet × Buffer)}
    (hsize : ∀ p ∈ ps, 1 ≤ p.1.records.length ∧ p.1.records.length ≤ 14)
    (hcounts : wordsIn ps = counts.map fun c => UInt16.ofNat c)
    (hrise : Rising (prev :: counts)) (hfirst : seen = [] → ∀ c ∈ counts.head?, c = prev) :
    ((streamEvents ps).foldl (Gui.handle S) g).cfg = g.cfg ∧
      ∃ prev', Unwrapped S c₀ prev' (seen ++ counts) ((streamEvents ps).foldl (Gui.handle S) g) := by
  induction ps generalizing prev seen counts g with
  | nil =>
    have hnil : counts = [] := by
      have hlen := congrArg List.length hcounts
      rw [List.length_map] at hlen
      exact List.length_eq_zero_iff.mp hlen.symm
    rw [hnil, List.append_nil]
    exact ⟨rfl, prev, h⟩
  | cons p ps ih =>
    -- the counts of this packet, and those behind it
    have hlen : (p.1.records.map fun x => x.seq16).length = p.1.records.length := List.length_map _
    have hsplit : (p.1.records.map fun x => x.seq16) ++ wordsIn ps =
        counts.map fun c => UInt16.ofNat c := hcounts
    have hhere : (p.1.records.map fun x => x.seq16) =
        (counts.take p.1.records.length).map fun c => UInt16.ofNat c := by
      rw [List.map_take, ← hsplit]
      exact (List.take_left' hlen).symm
    have hrest : wordsIn ps = (counts.drop p.1.records.length).map fun c => UInt16.ofNat c := by
      rw [List.map_drop, ← hsplit]
      exact (List.drop_left' hlen).symm
    obtain ⟨hsizep, hsizeps⟩ := List.forall_mem_cons.mp hsize
    obtain ⟨hrise₁, hrise₂⟩ : Rising (prev :: counts.take p.1.records.length) ∧
        Rising ((counts.take p.1.records.length).getLastD prev ::
          counts.drop p.1.records.length) := by
      refine rising_append ?_
      rw [List.take_append_drop]
      exact hrise
    have hne : counts.take p.1.records.length ≠ [] := by
      intro hnil
      have hzero := congrArg List.length hhere
      rw [hnil, hlen] at hzero
      simp only [List.map_nil, List.length_nil] at hzero
      omega
    have hfirst₁ : seen = [] → (counts.take p.1.records.length).head? = some prev := by
      intro hseen
      cases hc : counts with
      | nil =>
        rw [hc] at hne
        exact absurd List.take_nil hne
      | cons c cs =>
        obtain rfl : c = prev := hfirst hseen c (by rw [hc]; rfl)
        rw [List.head?_take, if_neg (by omega)]
        rfl
    obtain ⟨g₁, hrun, hcfg, h₁⟩ := packet_step S h hsizep hhere hrise₁ hfirst₁ p.2
    have hstep : g.handle S (.packet (streamPkt p.1 p.2)) = g₁ := by
      show (onStreamPkt S g _).getD g = g₁
      rw [hrun]
      rfl
    obtain ⟨hcfg', prev', h'⟩ := ih h₁ hsizeps hrest hrise₂ fun hnil =>
      absurd (List.append_eq_nil_iff.mp hnil).2 hne
    rw [List.append_assoc, List.take_append_drop] at h'
    show ((streamEvents ps).foldl (Gui.handle S) (g.handle S (.packet (streamPkt p.1 p.2)))).cfg =
      g.cfg ∧ _
    rw [hstep]
    refine ⟨hcfg'.trans hcfg, prev', ?_⟩
    show Unwrapped S c₀ prev' (seen ++ counts)
      ((streamEvents ps).foldl (Gui.handle S) (g.handle S (.packet (streamPkt p.1 p.2))))
    rw [hstep]
    exact h'

/-- `_start_session`, at any moment. -/
theorem start_unwrapped {g : Gui κ τ α γ} (h : g.Sound) (c₀ : Nat) :
    Unwrapped S c₀ c₀ [] (g.handle S .start) := by
  obtain ⟨hcap, hist, hb⟩ := h
  obtain ⟨b', hclear, hcap', hb'⟩ := hb.call hcap .clear
  obtain rfl : g.sbuf.clear = b' := Option.some.inj hclear
  constructor
  · exact Or.inr ⟨rfl, rfl⟩
  · rw [Int.sub_self]
    rfl
  · rfl
  · exact hcap
  · exact ⟨Batch.empty, hb', rfl⟩

theorem init_sound (cfg : κ) {cap : Nat} (hcap : 0 < cap) (t : τ) (acc : α) (gyr : γ) :
    (Gui.init cfg cap t acc gyr).Sound :=
  ⟨hcap, Batch.empty, new_tracks cap t acc gyr⟩

/-- The window after any events, a start of a session and a stream. -/
def Gui.streamed (before : List (GuiEvent κ)) (ps : List (Packet × Buffer)) (g : Gui κ τ α γ) :
    Gui κ τ α γ :=
  (before ++ GuiEvent.start :: streamEvents ps).foldl (Gui.handle S) g

/-- As far as `int64` reaches, the counts are counted in full. -/
theorem counts_fit {c₀ : Nat} {cs : List Nat} (hrise : Rising (c₀ :: cs))
    (hfit : ∀ c ∈ cs, c < c₀ + 9223372036854775808) :
    ((c₀ :: cs).map fun c : Nat => int64 ((c : Int) - c₀)) =
    (c₀ :: cs).map fun c : Nat => (c : Int) - c₀ := by
  have hle : ∀ c ∈ cs, c₀ ≤ c := by
    have hsorted : (c₀ :: cs).Pairwise (· ≤ ·) :=
      List.isChain_iff_pairwise.mp (hrise.imp fun _ _ h => h.1)
    exact (List.pairwise_cons.mp hsorted).1
  refine List.map_congr_left fun c hc => ?_
  rcases List.mem_cons.mp hc with rfl | hc
  · rw [Int.sub_self]
    rfl
  · have hlo := hle c hc
    have hhi := hfit c hc
    exact int64_of_range (by omega) (by omega)

section Streams

variable {c₀ : Nat} {cs : List Nat} {ps : List (Packet × Buffer)}
  (hsize : ∀ p ∈ ps, 1 ≤ p.1.records.length ∧ p.1.records.length ≤ 14)
  (hcounts : wordsIn ps = (c₀ :: cs).map fun c => UInt16.ofNat c) (hrise : Rising (c₀ :: cs))
include hsize hcounts hrise

/-- The state behind a stream. -/
theorem streamed_unwrapped {g : Gui κ τ α γ} (h : g.Sound) (before : List (GuiEvent κ)) :
    ∃ prev', Unwrapped S c₀ prev' (c₀ :: cs) (g.streamed S before ps) := by
  have hsound : (before.foldl (Gui.handle S) g).Sound := by
    induction before generalizing g with
    | nil => exact h
    | cons e before ih => exact ih (handle_sound S h e)
  have hfirst : ([] : List Nat) = [] → ∀ c ∈ (c₀ :: cs).head?, c = c₀ := by
    intro _ c hc
    exact (Option.some.inj hc).symm
  have hrise' : Rising (c₀ :: c₀ :: cs) := List.isChain_cons_cons.mpr ⟨by omega, hrise⟩
  obtain ⟨-, prev', hrun⟩ :=
    stream_run S (start_unwrapped S hsound c₀) hsize hcounts hrise' hfirst
  unfold Gui.streamed
  rw [List.foldl_append]
  exact ⟨prev', hrun⟩

/-- In the integers of numpy. -/
theorem streamed_axis {g : Gui κ τ α γ} (h : g.Sound) (before : List (GuiEvent κ)) :
    (g.streamed S before ps).axis = (c₀ :: cs).map fun c : Nat => int64 ((c : Int) - c₀) := by
  obtain ⟨prev', hrun⟩ := streamed_unwrapped S hsize hcounts hrise h before
  exact hrun.axis

variable (hfit : ∀ c ∈ cs, c < c₀ + 9223372036854775808)
include hfit

/-- **The time axis**: whatever came before the session, and however its records are split into
    packets, record `i` is assigned `c_i - c_0`, as long as that is below 2^63. -/
theorem time_axis {cap : Nat} (hcap : 0 < cap) (cfg : κ) (t : τ) (acc : α) (gyr : γ)
    (before : List (GuiEvent κ)) :
    ((Gui.init cfg cap t acc gyr).streamed S before ps).axis =
      (c₀ :: cs).map fun c : Nat => (c : Int) - c₀ := by
  rw [streamed_axis S hsize hcounts hrise (init_sound cfg hcap t acc gyr) before]
  exact counts_fit hrise hfit

/-- **The plot**: the newest entries of the plot buffer are the times of the newest records. -/
theorem plot_axis {cap : Nat} (hcap : 0 < cap) (cfg : κ) (t : τ) (acc : α) (gyr : γ)
    (before : List (GuiEvent κ)) :
    let g := (Gui.init cfg cap t acc gyr).streamed S before ps
    let times := (c₀ :: cs).map fun c : Nat => S.time g.cfg ((c : Int) - c₀)
    let k := min times.length g.sbuf.cap
    (g.sbuf.t.take g.sbuf.len).rtake k = times.rtake k := by
  intro g times k
  obtain ⟨prev', hrun⟩ :=
    streamed_unwrapped S hsize hcounts hrise (init_sound cfg hcap t acc gyr) before
  obtain ⟨h, hb, ht⟩ := hrun.plot
  have htimes : h.t = times := by
    rw [ht, hrun.axis, counts_fit hrise hfit, List.map_map]
    rfl
  have hlast := hb.t.last
  rw [htimes] at hlast
  exact hlast

end Streams

/-- Records that keep their count alone, in packets of one. -/
def sparse (counts : List Nat) : List (Packet × Buffer) :=
  counts.map fun c => (⟨1, 0, [⟨0, 0, 0, 0, 0, 0, 0, UInt16.ofNat c⟩]⟩, fun _ => 0)

theorem sparse_size (counts : List Nat) :
    ∀ p ∈ sparse counts, 1 ≤ p.1.records.length ∧ p.1.records.length ≤ 14 := by
  intro p hp
  obtain ⟨c, -, rfl⟩ := List.mem_map.mp hp
  exact ⟨Nat.le_refl 1, by simp⟩

theorem sparse_words (counts : List Nat) :
    wordsIn (sparse counts) = counts.map fun c => UInt16.ofNat c := by
  induction counts with
  | nil => rfl
  | cons c counts ih => exact congrArg (UInt16.ofNat c :: ·) ih

/-- A window that keeps the counts for times. -/
def plain : Scale Unit Int Unit Unit := ⟨fun _ n => n, fun _ _ => (), fun _ _ => ()⟩

/-- Two notifications before the session, one too short and one empty, and five records behind them in
    packets of three and two, with two wraps of the 16 bits. -/
theorem time_axis_wraps :
    let p := fun counts : List Nat => ((⟨1, 0, counts.map fun c =>
      (⟨-1, 2, 0, 0, 0, 0, 0, UInt16.ofNat c⟩ : ImuSample)⟩, fun _ => 0xAA) : Packet × Buffer)
    ((Gui.init () 4 0 () ()).streamed plain [.packet [3, 1], .packet []]
      [p [65530, 65535, 65536], p [131071, 131072]]).axis = [0, 5, 6, 65541, 65542] := by
  intro p
  have hrise : Rising [65530, 65535, 65536, 131071, 131072] := by simp
  exact time_axis plain (by simp [p]) (by simp [p, wordsIn]) hrise (by simp) (by decide) () 0 () () _

/-- Counts as far apart as they may be. -/
def strides (c : Nat) : Nat → List Nat
  | 0 => []
  | n + 1 => (c + 65535) :: strides (c + 65535) n

theorem strides_rising (c n : Nat) : Rising (c :: strides c n) := by
  induction n generalizing c with
  | zero => exact List.isChain_singleton c
  | succ n ih => exact List.isChain_cons_cons.mpr ⟨by omega, ih (c + 65535)⟩

theorem strides_last (c n : Nat) : c + 65535 * n ∈ c :: strides c n := by
  induction n generalizing c with
  | zero => simp
  | succ n ih =>
    have hlast := ih (c + 65535)
    rw [show c + 65535 * (n + 1) = c + 65535 + 65535 * n by omega]
    exact List.mem_cons_of_mem c hlast

/-- **Beyond `int64`**: a stream of 2^48 records, each 65535 samples behind the one before, ends below
    where it began. -/
theorem time_axis_overflows :
    ¬ ∀ (ps : List (Packet × Buffer)) (c₀ : Nat) (cs : List Nat),
      (∀ p ∈ ps, 1 ≤ p.1.records.length ∧ p.1.records.length ≤ 14) →
      wordsIn ps = (c₀ :: cs).map (fun c => UInt16.ofNat c) → Rising (c₀ :: cs) →
      ((Gui.init () 4 0 () ()).streamed plain [] ps).axis =
        (c₀ :: cs).map fun c : Nat => (c : Int) - c₀ := by
  intro hall
  have hlast : ∀ n : Nat, int64 (65535 * (n : Int)) = 65535 * n := by
    intro n
    have hsize := sparse_size (0 :: strides 0 n)
    have hwords := sparse_words (0 :: strides 0 n)
    have hclaim := hall _ 0 (strides 0 n) hsize hwords (strides_rising 0 n)
    have hsound : (Gui.init () 4 0 () () : Gui Unit Int Unit Unit).Sound :=
      init_sound () (by decide) 0 () ()
    rw [streamed_axis plain hsize hwords (strides_rising 0 n) hsound []] at hclaim
    have hat := List.map_inj_left.mp hclaim _ (strides_last 0 n)
    simpa using hat
  have hfar := hlast 281474976710656
  exact absurd hfar (by decide)

end Caterpillar.Host.TimeAxis
