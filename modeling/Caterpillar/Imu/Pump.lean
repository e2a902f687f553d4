/-
  The cross-core sample ring (common/imu_shared.h): the coprocessor's sampling loop
  (flpr/src/main.c) and the pump thread (src/imu/imu_pump.c), interleaved.

  1. `FlprPc`, `PumpPc`, `State` — where each side is, down to the single field it reads or writes;
     each acts on its own stale copy of the other's counter.  Beside the code's state there are the
     readings of the sensor (`read`), the record made of each and what became of it (`hist`), the
     slots released so far (`taken`) and what was handed on (`delivered`).
  2. `Inv` — **the invariant**, one field a fact: the ring holds the published records that are not
     released (`Holds`); a slot being written is free; a slot being copied is not yet released.
  3. `flpr_inv`, `pump_inv` — each side's step keeps it.
  4. `Tells`, `Accounts` — a record against the reading it is of; `ring_loses_nothing` — the
     accounting, over every interleaving and every starting counter.

  The loops are modelled from the moment the block is published (`magic`, `imu_ok`).  A timeout of
  the sampling loop, a failed read and `apply_config` touch neither the ring nor its counters.
-/
import Caterpillar.Lib.Ring
import Caterpillar.Lib.Runs
import Caterpillar.Lib.Word
import Caterpillar.Imu.Sample

namespace Caterpillar.Imu.Pump

open Caterpillar.Word Caterpillar.Ring Caterpillar.Runs

/-! ## The two loops -/

/-- `IMU_RING_N`. -/
def imuRingN : Nat := 2048

/-- `PUMP_CHUNK`. -/
def pumpChunk : Nat := 64

/-- `counter & (IMU_RING_N - 1)`. -/
def ringSlot (counter : Nat) : Nat := counter &&& (imuRingN - 1)

theorem ringSlot_eq (counter : Nat) : ringSlot counter = counter % 2048 :=
  Nat.and_two_pow_sub_one_eq_mod counter 11

/-- The slot does not see the counter wrap. -/
theorem ringSlot_u32 (counter : Nat) : ringSlot (u32 counter) = counter % 2048 := by
  rw [ringSlot_eq, u32_mod_of_dvd (by decide)]

/-- The record published for a reading. -/
def record (d : Asm330lhhRaw) (sampled : Nat) : ImuSample :=
  ⟨d.ax, d.ay, d.az, d.gx, d.gy, d.gz, d.tempRaw, UInt16.ofNat sampled⟩

/-- The ring and its counters in shared SRAM. -/
structure ImuShared where
  head : Nat
  tail : Nat
  overrun : Nat
  ring : Nat → ImuSample

/-- Where the sampling loop is. -/
inductive FlprPc where
  /-- In `drv_asm330lhh_wait_data`. -/
  | waiting
  /-- `sampled` is incremented. -/
  | counted (d : Asm330lhhRaw)
  /-- `sh->head` is read. -/
  | haveHead (d : Asm330lhhRaw) (head : Nat)
  /-- The ring was found full. -/
  | full (d : Asm330lhhRaw)
  /-- The first `n` fields of the slot are written. -/
  | writing (d : Asm330lhhRaw) (head n : Nat)

/-- Where the pump is. -/
inductive PumpPc where
  /-- In `k_msleep`. -/
  | asleep
  /-- `sh->head` is read. -/
  | haveHead (head : Nat)
  /-- At the test `tail != head`. -/
  | loop (head tail : Nat)
  /-- Out of `n` records `i` are copied, and the first `j` fields of the next. -/
  | copying (head tail n i j : Nat)
  /-- `sh->tail` is written; the `n` records of `chunk` are still to be handed on. -/
  | freed (head tail n : Nat)

/-- What became of a sample. -/
inductive Fate where
  | published
  | overrun
  deriving DecidableEq

/-- Both cores. -/
structure State where
  sh : ImuShared
  flpr : FlprPc
  sampled : Nat
  pump : PumpPc
  chunk : Nat → ImuSample
  drainedTotal : Nat
  read : List Asm330lhhRaw
  hist : List (ImuSample × Fate)
  taken : Nat
  delivered : List ImuSample

/-- One step of the sampling loop after the sensor was read. -/
def flprStep (s : State) : Option State :=
  match s.flpr with
  | .waiting => none
  | .counted d => some { s with flpr := .haveHead d s.sh.head }
  | .haveHead d head =>
      if u32Sub head s.sh.tail ≥ imuRingN then some { s with flpr := .full d }
      else some { s with flpr := .writing d head 0 }
  | .full d =>
      some { s with
        sh := { s.sh with overrun := u32 (s.sh.overrun + 1) }
        hist := s.hist ++ [(record d s.sampled, .overrun)]
        flpr := .waiting }
  | .writing d head n =>
      if n < fieldCount then
        let slot := ringSlot head
        some { s with
          sh := { s.sh with
            ring := Function.update s.sh.ring slot
              (copyField n (record d s.sampled) (s.sh.ring slot)) }
          flpr := .writing d head (n + 1) }
      else
        some { s with
          sh := { s.sh with head := u32 (head + 1) }
          hist := s.hist ++ [(record d s.sampled, .published)]
          flpr := .waiting }

/-- One step of the pump. -/
def pumpStep (s : State) : State :=
  match s.pump with
  | .asleep => { s with pump := .haveHead s.sh.head }
  | .haveHead head => { s with pump := .loop head s.sh.tail }
  | .loop head tail =>
      if tail = head then { s with pump := .asleep }
      else { s with pump := .copying head tail (min (u32Sub head tail) pumpChunk) 0 0 }
  | .copying head tail n i j =>
      if i < n then
        if j < fieldCount then
          { s with
            chunk := Function.update s.chunk i
              (copyField j (s.sh.ring (ringSlot (u32 (tail + i)))) (s.chunk i))
            pump := .copying head tail n i (j + 1) }
        else { s with pump := .copying head tail n (i + 1) 0 }
      else
        { s with
          sh := { s.sh with tail := u32 (tail + n) }
          drainedTotal := u32 (s.drainedTotal + n)
          taken := s.taken + n
          pump := .freed head (u32 (tail + n)) n }
  | .freed head tail n =>
      { s with
        delivered := s.delivered ++ (List.range n).map s.chunk
        pump := .loop head tail }

/-- Whose step it is. -/
inductive Event where
  /-- The sensor is ready and read. -/
  | sample (d : Asm330lhhRaw)
  | flpr
  | pump

/-- One step; `none` where it cannot happen. -/
def step (s : State) : Event → Option State
  | .sample d =>
      match s.flpr with
      | .waiting =>
          some { s with
            sampled := u32 (s.sampled + 1)
            read := s.read ++ [d]
            flpr := .counted d }
      | _ => none
  | .flpr => flprStep s
  | .pump => some (pumpStep s)

/-- The step relation of the two cores. -/
def Step (s : State) (e : Event) (s' : State) : Prop := step s e = some s'

/-- Counter values to start from: `head` and `tail`, `sampled`, `overrun`. -/
structure Counters where
  head : Nat
  sampled : Nat
  overrun : Nat

/-- Both loops about to start, over an empty ring of any content. -/
def Start (c : Counters) (s : State) : Prop :=
  s.sh.head = u32 c.head ∧ s.sh.tail = u32 c.head ∧ s.sampled = u32 c.sampled ∧
    s.sh.overrun = u32 c.overrun ∧ s.drainedTotal = 0 ∧ s.flpr = .waiting ∧ s.pump = .asleep ∧
    s.read = [] ∧ s.hist = [] ∧ s.taken = 0 ∧ s.delivered = []

/-! ## What became of the samples -/

/-- The samples published. -/
def published (hist : List (ImuSample × Fate)) : List ImuSample :=
  hist.filterMap fun e => match e.2 with
    | .published => some e.1
    | .overrun => none

/-- The samples dropped. -/
def overruns (hist : List (ImuSample × Fate)) : List ImuSample :=
  hist.filterMap fun e => match e.2 with
    | .published => none
    | .overrun => some e.1

/-- The reading the sampling loop is busy with. -/
def inFlight (s : State) : List Asm330lhhRaw :=
  match s.flpr with
  | .waiting => []
  | .counted d | .haveHead d _ | .full d | .writing d _ _ => [d]

/-- The records taken out of the ring and not yet handed on. -/
def inHand (s : State) : Nat :=
  match s.pump with
  | .freed _ _ n => n
  | _ => 0

@[simp] theorem published_append_published (hist : List (ImuSample × Fate)) (x : ImuSample) :
    published (hist ++ [(x, .published)]) = published hist ++ [x] := by
  simp [published]

@[simp] theorem published_append_overrun (hist : List (ImuSample × Fate)) (x : ImuSample) :
    published (hist ++ [(x, .overrun)]) = published hist := by
  simp [published]

@[simp] theorem overruns_append_published (hist : List (ImuSample × Fate)) (x : ImuSample) :
    overruns (hist ++ [(x, .published)]) = overruns hist := by
  simp [overruns]

@[simp] theorem overruns_append_overrun (hist : List (ImuSample × Fate)) (x : ImuSample) :
    overruns (hist ++ [(x, .overrun)]) = overruns hist ++ [x] := by
  simp [overruns]

@[simp] theorem published_cons_published (x : ImuSample) (hist : List (ImuSample × Fate)) :
    published ((x, .published) :: hist) = x :: published hist := rfl

@[simp] theorem published_cons_overrun (x : ImuSample) (hist : List (ImuSample × Fate)) :
    published ((x, .overrun) :: hist) = published hist := rfl

/-- A record published has its place in the history. -/
theorem published_at {hist : List (ImuSample × Fate)} {x : ImuSample} (h : x ∈ published hist) :
    ∃ i : Nat, hist[i]? = some (x, .published) := by
  obtain ⟨⟨z, fate⟩, hmem, hz⟩ := List.mem_filterMap.mp h
  cases fate with
  | overrun => exact absurd hz (by simp)
  | published =>
    obtain rfl : z = x := by simpa using hz
    exact List.mem_iff_getElem?.mp hmem

/-- Every sample is published or dropped. -/
theorem published_overruns (hist : List (ImuSample × Fate)) :
    (published hist).length + (overruns hist).length = hist.length := by
  induction hist with
  | nil => rfl
  | cons e hist ih =>
    obtain ⟨x, fate⟩ := e
    cases fate with
    | published =>
      show (published hist).length + 1 + (overruns hist).length = hist.length + 1
      omega
    | overrun =>
      show (published hist).length + ((overruns hist).length + 1) = hist.length + 1
      omega

/-- Up to the first published sample all were dropped. -/
theorem published_first {hist : List (ImuSample × Fate)} {y : ImuSample}
    (h : (published hist)[0]? = some y) :
    ∃ D B, hist = D ++ (y, .published) :: B ∧ ∀ e ∈ D, e.2 = .overrun := by
  induction hist with
  | nil => exact absurd h (by simp [published])
  | cons e hist ih =>
    obtain ⟨x, fate⟩ := e
    cases fate with
    | published =>
      obtain rfl : x = y := by simpa using h
      exact ⟨[], hist, rfl, by simp⟩
    | overrun =>
      obtain ⟨D, B, rfl, hD⟩ := ih h
      refine ⟨(x, .overrun) :: D, B, rfl, ?_⟩
      rintro e (_ | ⟨_, he⟩)
      · rfl
      · exact hD e he

/-- **Between two consecutive published samples all were dropped.** -/
theorem published_consecutive {hist : List (ImuSample × Fate)} {k : Nat} {x y : ImuSample}
    (hx : (published hist)[k]? = some x) (hy : (published hist)[k + 1]? = some y) :
    ∃ A D B, hist = A ++ (x, .published) :: (D ++ (y, .published) :: B) ∧
      ∀ e ∈ D, e.2 = .overrun := by
  induction hist generalizing k with
  | nil => exact absurd hx (by simp [published])
  | cons e hist ih =>
    obtain ⟨z, fate⟩ := e
    cases fate with
    | overrun =>
      obtain ⟨A, D, B, rfl, hD⟩ := ih hx hy
      exact ⟨(z, .overrun) :: A, D, B, rfl, hD⟩
    | published =>
      rw [published_cons_published] at hx hy
      rw [List.getElem?_cons_succ] at hy
      cases k with
      | zero =>
        obtain rfl : z = x := by simpa using hx
        obtain ⟨D, B, rfl, hD⟩ := published_first hy
        exact ⟨[], D, B, rfl, hD⟩
      | succ k =>
        rw [List.getElem?_cons_succ] at hx
        obtain ⟨A, D, B, rfl, hD⟩ := ih hx hy
        exact ⟨(z, .published) :: A, D, B, rfl, hD⟩

/-! ## Records and readings -/

/-- The record `x` tells the reading `d`, and that it was the `n`-th sample. -/
structure Tells (d : Asm330lhhRaw) (n : Nat) (x : ImuSample) : Prop where
  ax : x.ax = d.ax
  ay : x.ay = d.ay
  az : x.az = d.az
  gx : x.gx = d.gx
  gy : x.gy = d.gy
  gz : x.gz = d.gz
  tempRaw : x.tempRaw = d.tempRaw
  seq16 : x.seq16.toNat = n % 65536

/-- The 16 bits do not see the count wrap. -/
theorem record_tells (d : Asm330lhhRaw) (n : Nat) : Tells d n (record d (u32 n)) := by
  refine ⟨rfl, rfl, rfl, rfl, rfl, rfl, rfl, ?_⟩
  show (UInt16.ofNat (u32 n)).toNat = n % 65536
  rw [UInt16.toNat_ofNat']
  unfold u32
  omega

theorem Tells.seq16_eq {d : Asm330lhhRaw} {n : Nat} {x : ImuSample} (h : Tells d n x) :
    x.seq16 = UInt16.ofNat n := by
  apply UInt16.toNat.inj
  rw [h.seq16, UInt16.toNat_ofNat']

/-- The readings, in order: each of the first is told by the record made of it, the `i`-th as sample
    `sampled + i + 1`; the others are `busy`. -/
structure Accounts (sampled : Nat) (read : List Asm330lhhRaw) (hist : List (ImuSample × Fate))
    (busy : List Asm330lhhRaw) : Prop where
  length : hist.length + busy.length = read.length
  busy : read.drop hist.length = busy
  told : ∀ i x fate, hist[i]? = some (x, fate) →
    ∃ d, read[i]? = some d ∧ Tells d (sampled + i + 1) x

theorem Accounts.sample {sampled : Nat} {read : List Asm330lhhRaw}
    {hist : List (ImuSample × Fate)} (h : Accounts sampled read hist []) (d : Asm330lhhRaw) :
    Accounts sampled (read ++ [d]) hist [d] := by
  have hlen : hist.length = read.length := h.length
  refine ⟨?_, ?_, fun i x fate hi => ?_⟩
  · rw [List.length_append, hlen]
  · rw [hlen, List.drop_left]
  · obtain ⟨d', hd', htells⟩ := h.told i x fate hi
    refine ⟨d', ?_, htells⟩
    rw [List.getElem?_append_left (List.getElem?_eq_some_iff.mp hd').1]
    exact hd'

/-- The reading is through, with a record that tells it. -/
theorem Accounts.settle {sampled : Nat} {read : List Asm330lhhRaw}
    {hist : List (ImuSample × Fate)} {d : Asm330lhhRaw} {x : ImuSample}
    (h : Accounts sampled read hist [d]) (hx : Tells d (sampled + hist.length + 1) x)
    (fate : Fate) : Accounts sampled read (hist ++ [(x, fate)]) [] := by
  have hlen : hist.length + 1 = read.length := h.length
  refine ⟨?_, ?_, fun i y fate' hi => ?_⟩
  · rw [List.length_append, List.length_singleton, hlen]
    rfl
  · rw [List.length_append, List.length_singleton, hlen, List.drop_length]
  · rcases Nat.lt_or_ge i hist.length with hlt | hge
    · rw [List.getElem?_append_left hlt] at hi
      exact h.told i y fate' hi
    · have hi' := (List.getElem?_eq_some_iff.mp hi).1
      rw [List.length_append, List.length_singleton] at hi'
      obtain rfl : i = hist.length := by omega
      rw [List.getElem?_append_right (Nat.le_refl _), Nat.sub_self] at hi
      obtain ⟨rfl, -⟩ : x = y ∧ fate = fate' := by simpa using hi
      refine ⟨d, ?_, hx⟩
      -- the first of what is left is the reading just handled
      rw [← Nat.add_zero hist.length, ← List.getElem?_drop, h.busy]
      rfl

/-! ## The invariant -/

/-- `head` is what the shared `head` was at some moment since `tail` last moved. -/
def Snapshot (c : Counters) (s : State) (lo head : Nat) : Prop :=
  ∃ q, lo ≤ q ∧ q ≤ (published s.hist).length ∧ head = u32 (c.head + q)

/-- What the sampling loop relies on. -/
def FlprSound (c : Counters) (s : State) : FlprPc → Prop
  | .waiting | .counted _ | .full _ => True
  | .haveHead _ head => head = s.sh.head
  | .writing d head n =>
      head = s.sh.head ∧ n ≤ fieldCount ∧ (published s.hist).length < s.taken + 2048 ∧
      ∃ old, s.sh.ring ((c.head + (published s.hist).length) % 2048) =
        copyUpto n (record d s.sampled) old

/-- What the pump relies on. -/
def PumpSound (c : Counters) (s : State) : PumpPc → Prop
  | .asleep => s.delivered.length = s.taken ∧ s.delivered <+: published s.hist
  | .haveHead head =>
      s.delivered.length = s.taken ∧ s.delivered <+: published s.hist ∧ Snapshot c s s.taken head
  | .loop head tail =>
      s.delivered.length = s.taken ∧ s.delivered <+: published s.hist ∧
      Snapshot c s s.taken head ∧ tail = s.sh.tail
  | .copying head tail n i j =>
      s.delivered.length = s.taken ∧
      s.delivered ++ (List.range i).map s.chunk <+: published s.hist ∧
      Snapshot c s (s.taken + n) head ∧ tail = s.sh.tail ∧ i ≤ n ∧ j ≤ fieldCount ∧
      (i < n → ∃ old, s.chunk i = copyUpto j ((published s.hist).getD (s.taken + i) default) old)
  | .freed head tail n =>
      s.delivered.length + n = s.taken ∧
      s.delivered ++ (List.range n).map s.chunk <+: published s.hist ∧
      Snapshot c s s.taken head ∧ tail = s.sh.tail

/-- The invariant of the two cores. -/
structure Inv (c : Counters) (s : State) : Prop where
  head : s.sh.head = u32 (c.head + (published s.hist).length)
  tail : s.sh.tail = u32 (c.head + s.taken)
  le : s.taken ≤ (published s.hist).length
  room : (published s.hist).length ≤ s.taken + 2048
  holds : Holds 2048 s.sh.ring (c.head + s.taken) (c.head + (published s.hist).length)
    fun r => (published s.hist).getD (r - c.head) default
  read : Accounts c.sampled s.read s.hist (inFlight s)
  sampled : s.sampled = u32 (c.sampled + s.read.length)
  overrun : s.sh.overrun = u32 (c.overrun + (overruns s.hist).length)
  drained : s.drainedTotal = u32 s.taken
  flpr : FlprSound c s s.flpr
  pump : PumpSound c s s.pump

/-- The distance of the counters is the number of records in the ring. -/
theorem Inv.distance {c : Counters} {s : State} (h : Inv c s) :
    u32Sub s.sh.head s.sh.tail = (published s.hist).length - s.taken := by
  have hle := h.le
  have hroom := h.room
  rw [h.head, h.tail, u32Sub_u32 (by omega) (by omega)]
  omega

/-- So is the distance the pump computes from its snapshot. -/
theorem Snapshot.distance {c : Counters} {s : State} {head : Nat}
    (h : Snapshot c s s.taken head) (hs : Inv c s) :
    Snapshot c s (s.taken + u32Sub head s.sh.tail) head := by
  obtain ⟨q, hlo, hhi, rfl⟩ := h
  have hroom := hs.room
  refine ⟨q, ?_, hhi, rfl⟩
  rw [hs.tail, u32Sub_u32 (by omega) (by omega)]
  omega

theorem Snapshot.weaken {c : Counters} {s : State} {lo lo' head : Nat} (h : Snapshot c s lo head)
    (hlo : lo' ≤ lo) : Snapshot c s lo' head := by
  obtain ⟨q, h1, h2, h3⟩ := h
  exact ⟨q, by omega, h2, h3⟩

/-! ## Each side, while the other moves -/

/-- An entry of a list stays where it is as the list grows. -/
theorem getD_of_grown {l m : List ImuSample} (h : l <+: m) {i : Nat} (hi : i < l.length) :
    m.getD i default = l.getD i default := by
  obtain ⟨t, rfl⟩ := h
  rw [List.getD_eq_getElem?_getD, List.getD_eq_getElem?_getD, List.getElem?_append_left hi]

/-- The pump relies on nothing a growing history takes away. -/
theorem PumpSound.grow {c : Counters} {s s' : State} {pc : PumpPc} (h : PumpSound c s pc)
    (ht : s'.taken = s.taken) (hd : s'.delivered = s.delivered) (hc : s'.chunk = s.chunk)
    (htail : s'.sh.tail = s.sh.tail) (hpre : published s.hist <+: published s'.hist) :
    PumpSound c s' pc := by
  have hlen := hpre.length_le
  have hsnap : ∀ {lo head}, Snapshot c s lo head → Snapshot c s' lo head := by
    rintro lo head ⟨q, h1, h2, h3⟩
    exact ⟨q, h1, by omega, h3⟩
  cases pc with
  | asleep =>
    obtain ⟨h1, h2⟩ := h
    exact ⟨by rw [hd, ht, h1], by rw [hd]; exact h2.trans hpre⟩
  | haveHead head =>
    obtain ⟨h1, h2, h3⟩ := h
    refine ⟨by rw [hd, ht, h1], by rw [hd]; exact h2.trans hpre, ?_⟩
    rw [ht]
    exact hsnap h3
  | loop head tail =>
    obtain ⟨h1, h2, h3, h4⟩ := h
    refine ⟨by rw [hd, ht, h1], by rw [hd]; exact h2.trans hpre, ?_, by rw [htail, h4]⟩
    rw [ht]
    exact hsnap h3
  | copying head tail n i j =>
    obtain ⟨h1, h2, h3, h4, h5, h6, h7⟩ := h
    refine ⟨by rw [hd, ht, h1], by rw [hd, hc]; exact h2.trans hpre, ?_, by rw [htail, h4], h5, h6,
      fun hi => ?_⟩
    · rw [ht]
      exact hsnap h3
    · -- the record being copied was published before the snapshot
      obtain ⟨q, hq1, hq2, -⟩ := h3
      rw [hc, ht, getD_of_grown hpre (by omega)]
      exact h7 hi
  | freed head tail n =>
    obtain ⟨h1, h2, h3, h4⟩ := h
    refine ⟨by rw [hd, ht, h1], by rw [hd, hc]; exact h2.trans hpre, ?_, by rw [htail, h4]⟩
    rw [ht]
    exact hsnap h3

/-- The sampling loop relies on nothing the pump changes: slots are only released. -/
theorem FlprSound.release {c : Counters} {s s' : State} {pc : FlprPc} (h : FlprSound c s pc)
    (hh : s'.sh.head = s.sh.head) (hr : s'.sh.ring = s.sh.ring) (hs : s'.sampled = s.sampled)
    (hhist : s'.hist = s.hist) (ht : s.taken ≤ s'.taken) : FlprSound c s' pc := by
  cases pc with
  | waiting | counted | full => trivial
  | haveHead d head => exact h.trans hh.symm
  | writing d head n =>
    obtain ⟨h1, h2, h3, h4⟩ := h
    refine ⟨h1.trans hh.symm, h2, ?_, ?_⟩
    · rw [hhist]
      omega
    · rw [hr, hhist, hs]
      exact h4

/-! ## One step of the sampling loop -/

/-- A step that only moves the sampling loop. -/
theorem Inv.moveFlpr {c : Counters} {s : State} (h : Inv c s) {pc : FlprPc}
    (hin : inFlight { s with flpr := pc } = inFlight s) (hpc : FlprSound c s pc) :
    Inv c { s with flpr := pc } :=
  { h with
    read := by rw [hin]; exact h.read
    flpr := by cases pc <;> exact hpc
    pump := h.pump.grow rfl rfl rfl rfl (List.prefix_refl _) }

theorem Inv.sample {c : Counters} {s : State} (h : Inv c s) (hpc : s.flpr = .waiting)
    (d : Asm330lhhRaw) :
    Inv c { s with
      sampled := u32 (s.sampled + 1)
      read := s.read ++ [d]
      flpr := .counted d } := by
  have hread := h.read
  unfold inFlight at hread
  rw [hpc] at hread
  refine { h with
    read := hread.sample d, sampled := ?_, flpr := trivial,
    pump := h.pump.grow rfl rfl rfl rfl (List.prefix_refl _) }
  show u32 (s.sampled + 1) = u32 (c.sampled + (s.read ++ [d]).length)
  rw [h.sampled, u32_u32_add, List.length_append, List.length_singleton, Nat.add_assoc]

/-- The record of the reading being handled tells it. -/
theorem Inv.record_settles {c : Counters} {s : State} (h : Inv c s) {d : Asm330lhhRaw}
    (hin : inFlight s = [d]) (fate : Fate) :
    Accounts c.sampled s.read (s.hist ++ [(record d s.sampled, fate)]) [] := by
  have hread := h.read
  rw [hin] at hread
  have hlen : s.hist.length + 1 = s.read.length := hread.length
  refine hread.settle ?_ fate
  rw [h.sampled, ← hlen, ← Nat.add_assoc]
  exact record_tells d _

theorem Inv.writeField {c : Counters} {s : State} (h : Inv c s) {d : Asm330lhhRaw} {head n : Nat}
    (hpc : s.flpr = .writing d head n) (hn : n < fieldCount) :
    Inv c { s with
      sh := { s.sh with
        ring := Function.update s.sh.ring (ringSlot head)
          (copyField n (record d s.sampled) (s.sh.ring (ringSlot head))) }
      flpr := .writing d head (n + 1) } := by
  have hflpr := h.flpr
  rw [hpc] at hflpr
  obtain ⟨hhead, -, hfree, old, hold⟩ := hflpr
  have hslot : ringSlot head = (c.head + (published s.hist).length) % 2048 := by
    rw [hhead, h.head, ringSlot_u32]
  refine { h with
    holds := ?_, read := ?_, flpr := ⟨hhead, hn, hfree, old, ?_⟩,
    pump := h.pump.grow rfl rfl rfl rfl (List.prefix_refl _) }
  · show Holds 2048 (Function.update s.sh.ring (ringSlot head) _) _ _ _
    rw [hslot]
    exact h.holds.write (by omega) _
  · have hread := h.read
    unfold inFlight at hread ⊢
    rw [hpc] at hread
    exact hread
  · show Function.update s.sh.ring (ringSlot head) _ _ = _
    rw [← hslot, Function.update_self, hslot, hold]
    rfl

theorem Inv.publish {c : Counters} {s : State} (h : Inv c s) {d : Asm330lhhRaw} {head n : Nat}
    (hpc : s.flpr = .writing d head n) (hn : ¬ n < fieldCount) :
    Inv c { s with
      sh := { s.sh with head := u32 (head + 1) }
      hist := s.hist ++ [(record d s.sampled, .published)]
      flpr := .waiting } := by
  have hflpr := h.flpr
  rw [hpc] at hflpr
  obtain ⟨hhead, hle, hfree, old, hold⟩ := hflpr
  obtain rfl : n = fieldCount := by omega
  have hgrow : published s.hist <+: published s.hist ++ [record d s.sampled] :=
    List.prefix_append _ _
  have hpub := published_append_published s.hist (record d s.sampled)
  have hlen : (published s.hist ++ [record d s.sampled]).length = (published s.hist).length + 1 := by
    rw [List.length_append, List.length_singleton]
  have htaken := h.le
  refine
    { h with
      head := ?_, le := ?_, room := ?_, holds := ?_, read := ?_, overrun := ?_, flpr := trivial,
      pump := h.pump.grow rfl rfl rfl rfl (by rw [hpub]; exact hgrow) }
  · show u32 (head + 1) = _
    rw [hhead, h.head, u32_u32_add, hpub, hlen, Nat.add_assoc]
  · rw [hpub, hlen]
    exact Nat.le_succ_of_le htaken
  · rw [hpub, hlen]
    exact hfree
  · rw [hpub, hlen]
    -- the slot holds the whole record, whatever was there before
    refine (h.holds.congr fun r h1 h2 => ?_).extend ?_
    · rw [getD_of_grown hgrow (by omega)]
    · show s.sh.ring ((c.head + (published s.hist).length) % 2048) = _
      rw [hold, copyUpto_all, Nat.add_sub_cancel_left, List.getD_eq_getElem?_getD,
        List.getElem?_append_right (Nat.le_refl _), Nat.sub_self]
      rfl
  · exact h.record_settles (by rw [inFlight, hpc]) _
  · rw [overruns_append_published]
    exact h.overrun

theorem Inv.drop {c : Counters} {s : State} (h : Inv c s) {d : Asm330lhhRaw}
    (hpc : s.flpr = .full d) :
    Inv c { s with
      sh := { s.sh with overrun := u32 (s.sh.overrun + 1) }
      hist := s.hist ++ [(record d s.sampled, .overrun)]
      flpr := .waiting } := by
  have hpub := published_append_overrun s.hist (record d s.sampled)
  refine { h with
    head := ?_, le := ?_, room := ?_, holds := ?_, read := ?_, overrun := ?_, flpr := trivial,
    pump := h.pump.grow rfl rfl rfl rfl (by rewrite [hpub]; exact List.prefix_refl _) }
  · rw [hpub]
    exact h.head
  · rw [hpub]
    exact h.le
  · rw [hpub]
    exact h.room
  · rw [hpub]
    exact h.holds
  · exact h.record_settles (by rw [inFlight, hpc]) _
  · show u32 (s.sh.overrun + 1) = _
    rw [h.overrun, u32_u32_add, overruns_append_overrun, List.length_append, List.length_singleton,
      Nat.add_assoc]

/-- The sampling loop's step keeps the invariant. -/
theorem flpr_inv {c : Counters} {s s' : State} (h : Inv c s) (hst : flprStep s = some s') :
    Inv c s' := by
  have hsound := h.flpr
  unfold flprStep at hst
  cases hpc : s.flpr with
  | waiting => simp [hpc] at hst
  | counted d =>
    simp only [hpc] at hst
    obtain rfl := Option.some.inj hst
    exact h.moveFlpr (by simp [inFlight, hpc]) rfl
  | haveHead d head =>
    rw [hpc] at hsound
    simp only [hpc] at hst
    split at hst
    · obtain rfl := Option.some.inj hst
      exact h.moveFlpr (by simp [inFlight, hpc]) trivial
    · rename_i hroom
      obtain rfl := Option.some.inj hst
      refine h.moveFlpr (by simp [inFlight, hpc]) ⟨hsound, Nat.zero_le _, ?_, _, rfl⟩
      -- the slot is free as of the `tail` just read, and stays so
      have hhead : head = s.sh.head := hsound
      rw [hhead, h.distance] at hroom
      unfold imuRingN at hroom
      omega
  | full d =>
    simp only [hpc] at hst
    obtain rfl := Option.some.inj hst
    exact h.drop hpc
  | writing d head n =>
    simp only [hpc] at hst
    split at hst
    · rename_i hn
      obtain rfl := Option.some.inj hst
      exact h.writeField hpc hn
    · rename_i hn
      obtain rfl := Option.some.inj hst
      exact h.publish hpc hn

/-! ## One step of the pump -/

/-- A step that only moves the pump. -/
theorem Inv.movePump {c : Counters} {s : State} (h : Inv c s) {pc : PumpPc}
    (hpc : PumpSound c s pc) : Inv c { s with pump := pc } :=
  { h with
    flpr := h.flpr.release rfl rfl rfl rfl (Nat.le_refl _)
    pump := by cases pc <;> exact hpc }

/-- The next entry of a list prolongs a prefix. -/
theorem prefix_snoc {l m : List ImuSample} {x : ImuSample} (h : l <+: m)
    (hx : m[l.length]? = some x) : l ++ [x] <+: m := by
  obtain ⟨t, rfl⟩ := h
  rw [List.getElem?_append_right (Nat.le_refl _), Nat.sub_self] at hx
  cases t with
  | nil => exact absurd hx (by simp)
  | cons y t =>
    obtain rfl : y = x := by simpa using hx
    exact ⟨t, by simp⟩

theorem Inv.copyOne {c : Counters} {s : State} (h : Inv c s) {head tail n i j : Nat}
    (hpc : s.pump = .copying head tail n i j) (hi : i < n) (hj : j < fieldCount) :
    Inv c { s with
      chunk := Function.update s.chunk i
        (copyField j (s.sh.ring (ringSlot (u32 (tail + i)))) (s.chunk i))
      pump := .copying head tail n i (j + 1) } := by
  have hpump := h.pump
  rw [hpc] at hpump
  obtain ⟨hlen, hpre, hsnap, htail, hin, -, hold⟩ := hpump
  obtain ⟨old, hold⟩ := hold hi
  have hq := hsnap
  obtain ⟨q, hq1, hq2, -⟩ := hq
  -- the slot is not yet released, so it holds the record
  have hring : s.sh.ring (ringSlot (u32 (tail + i))) =
      (published s.hist).getD (s.taken + i) default := by
    rw [htail, h.tail, u32_u32_add, ringSlot_u32, h.holds _ (by omega) (by omega)]
    show (published s.hist).getD (c.head + s.taken + i - c.head) default = _
    rw [Nat.add_assoc, Nat.add_sub_cancel_left]
  have hfirst : (List.range i).map (Function.update s.chunk i
      (copyField j (s.sh.ring (ringSlot (u32 (tail + i)))) (s.chunk i))) =
      (List.range i).map s.chunk := by
    refine List.map_congr_left fun k hk => ?_
    exact Function.update_of_ne (Nat.ne_of_lt (List.mem_range.mp hk)) _ _
  refine { h with
    flpr := h.flpr.release rfl rfl rfl rfl (Nat.le_refl _)
    pump := ⟨hlen, ?_, hsnap, htail, hin, hj, fun _ => ⟨old, ?_⟩⟩ }
  · show s.delivered ++ (List.range i).map (Function.update s.chunk i _) <+: _
    rw [hfirst]
    exact hpre
  · show Function.update s.chunk i _ i = _
    rw [Function.update_self, hring, hold]
    rfl

theorem Inv.copiedRecord {c : Counters} {s : State} (h : Inv c s) {head tail n i j : Nat}
    (hpc : s.pump = .copying head tail n i j) (hi : i < n) (hj : ¬ j < fieldCount) :
    Inv c { s with pump := .copying head tail n (i + 1) 0 } := by
  have hpump := h.pump
  rw [hpc] at hpump
  obtain ⟨hlen, hpre, hsnap, htail, -, hle, hold⟩ := hpump
  obtain ⟨old, hold⟩ := hold hi
  obtain rfl : j = fieldCount := by omega
  have hq := hsnap
  obtain ⟨q, hq1, hq2, -⟩ := hq
  have hlt : s.taken + i < (published s.hist).length := by omega
  refine h.movePump ⟨hlen, ?_, hsnap, htail, hi, Nat.zero_le _, fun _ => ⟨_, rfl⟩⟩
  rw [List.range_succ, List.map_append, ← List.append_assoc]
  refine prefix_snoc hpre ?_
  have hidx : (s.delivered ++ (List.range i).map s.chunk).length = s.taken + i := by
    rw [List.length_append, List.length_map, List.length_range, hlen]
  rw [hidx, hold, copyUpto_all, List.getElem?_eq_getElem hlt, List.getD_eq_getElem?_getD,
    List.getElem?_eq_getElem hlt]
  rfl

theorem Inv.release {c : Counters} {s : State} (h : Inv c s) {head tail n i j : Nat}
    (hpc : s.pump = .copying head tail n i j) (hi : ¬ i < n) :
    Inv c { s with
      sh := { s.sh with tail := u32 (tail + n) }
      drainedTotal := u32 (s.drainedTotal + n)
      taken := s.taken + n
      pump := .freed head (u32 (tail + n)) n } := by
  have hpump := h.pump
  rw [hpc] at hpump
  obtain ⟨hlen, hpre, hsnap, htail, hin, -, -⟩ := hpump
  obtain rfl : i = n := by omega
  have hq := hsnap
  obtain ⟨q, hq1, hq2, -⟩ := hq
  have hroom := h.room
  refine { h with
    tail := ?_, le := ?_, room := ?_, holds := ?_, drained := ?_,
    flpr := h.flpr.release rfl rfl rfl rfl (Nat.le_add_right _ _),
    pump := ⟨?_, hpre, hsnap, rfl⟩ }
  · show u32 (tail + i) = u32 (c.head + (s.taken + i))
    rw [htail, h.tail, u32_u32_add, Nat.add_assoc]
  · exact Nat.le_trans hq1 hq2
  · show (published s.hist).length ≤ s.taken + i + 2048
    omega
  · exact h.holds.shrink (by show c.head + s.taken ≤ c.head + (s.taken + i); omega) (Nat.le_refl _)
  · show u32 (s.drainedTotal + i) = u32 (s.taken + i)
    rw [h.drained, u32_u32_add]
  · show s.delivered.length + i = s.taken + i
    rw [hlen]

theorem Inv.deliver {c : Counters} {s : State} (h : Inv c s) {head tail n : Nat}
    (hpc : s.pump = .freed head tail n) :
    Inv c { s with
      delivered := s.delivered ++ (List.range n).map s.chunk
      pump := .loop head tail } := by
  have hpump := h.pump
  rw [hpc] at hpump
  obtain ⟨hlen, hpre, hsnap, htail⟩ := hpump
  refine { h with
    flpr := h.flpr.release rfl rfl rfl rfl (Nat.le_refl _)
    pump := ⟨?_, hpre, hsnap, htail⟩ }
  show (s.delivered ++ (List.range n).map s.chunk).length = s.taken
  rw [List.length_append, List.length_map, List.length_range, hlen]

/-- The pump's step keeps the invariant. -/
theorem pump_inv {c : Counters} {s : State} (h : Inv c s) : Inv c (pumpStep s) := by
  have hsound := h.pump
  unfold pumpStep
  cases hpc : s.pump with
  | asleep =>
    rw [hpc] at hsound
    obtain ⟨hlen, hpre⟩ := hsound
    exact h.movePump ⟨hlen, hpre, _, h.le, Nat.le_refl _, h.head⟩
  | haveHead head =>
    rw [hpc] at hsound
    obtain ⟨hlen, hpre, hsnap⟩ := hsound
    exact h.movePump ⟨hlen, hpre, hsnap, rfl⟩
  | loop head tail =>
    rw [hpc] at hsound
    obtain ⟨hlen, hpre, hsnap, htail⟩ := hsound
    dsimp only
    split
    · exact h.movePump ⟨hlen, hpre⟩
    · refine h.movePump ⟨hlen, ?_, ?_, htail, Nat.zero_le _, Nat.zero_le _, fun _ => ⟨_, rfl⟩⟩
      · rw [List.range_zero, List.map_nil, List.append_nil]
        exact hpre
      · rw [htail]
        exact (hsnap.distance h).weaken (by omega)
  | copying head tail n i j =>
    dsimp only
    split
    · rename_i hi
      split
      · rename_i hj
        exact h.copyOne hpc hi hj
      · rename_i hj
        exact h.copiedRecord hpc hi hj
    · rename_i hi
      exact h.release hpc hi
  | freed head tail n => exact h.deliver hpc

/-! ## Over runs -/

/-- **Step lemma.** -/
theorem step_inv {c : Counters} {s s' : State} {e : Event} (h : Inv c s) (hst : Step s e s') :
    Inv c s' := by
  cases e with
  | sample d =>
    unfold Step step at hst
    cases hpc : s.flpr with
    | waiting =>
      simp only [hpc] at hst
      obtain rfl := Option.some.inj hst
      exact h.sample hpc d
    | counted | haveHead | full | writing => simp [hpc] at hst
  | flpr => exact flpr_inv h hst
  | pump =>
    obtain rfl := Option.some.inj hst
    exact pump_inv h

theorem start_inv {c : Counters} {s : State} (h : Start c s) : Inv c s := by
  obtain ⟨hh, ht, hs, ho, hd, hf, hp, hr, hhist, htk, hdel⟩ := h
  have hpub : published s.hist = [] := by rw [hhist]; rfl
  refine ⟨?_, ?_, ?_, ?_, ?_, ?_, ?_, ?_, ?_, ?_, ?_⟩
  · rw [hpub]; exact hh
  · rw [htk]; exact ht
  · rw [htk]; exact Nat.zero_le _
  · rw [hpub]; exact Nat.zero_le _
  · rw [hpub, htk]
    intro r h1 h2
    exact absurd h2 (Nat.not_lt.mpr h1)
  · unfold inFlight
    rw [hhist, hf, hr]
    exact ⟨rfl, rfl, fun i x fate hi => absurd hi (by simp)⟩
  · rw [hr]; exact hs
  · rw [hhist]; exact ho
  · rw [hd, htk]; rfl
  · rw [hf]; trivial
  · rw [hp]
    show s.delivered.length = s.taken ∧ s.delivered <+: published s.hist
    rw [hdel, htk]
    exact ⟨rfl, List.nil_prefix⟩

/-- What the pump has delivered and has in hand is what was released. -/
theorem Inv.delivered_released {c : Counters} {s : State} (h : Inv c s) :
    s.delivered.length + inHand s = s.taken ∧ s.delivered <+: published s.hist := by
  have hsound := h.pump
  unfold inHand
  cases hpc : s.pump with
  | asleep | haveHead | loop =>
    rw [hpc] at hsound
    exact ⟨hsound.1, by first | exact hsound.2 | exact hsound.2.1⟩
  | copying head tail n i j =>
    rw [hpc] at hsound
    exact ⟨hsound.1, (List.prefix_append _ _).trans hsound.2.1⟩
  | freed head tail n =>
    rw [hpc] at hsound
    exact ⟨hsound.1, (List.prefix_append _ _).trans hsound.2.1⟩

/-- Consecutive published records differ in `seq16` by one more than the samples dropped between. -/
theorem Inv.seq_gap {c : Counters} {s : State} (h : Inv c s) {k : Nat} {x y : ImuSample}
    (hx : (published s.hist)[k]? = some x) (hy : (published s.hist)[k + 1]? = some y) :
    ∃ A D B, s.hist = A ++ (x, .published) :: (D ++ (y, .published) :: B) ∧
      (∀ e ∈ D, e.2 = .overrun) ∧ y.seq16 - x.seq16 = UInt16.ofNat (1 + D.length) := by
  obtain ⟨A, D, B, hhist, hD⟩ := published_consecutive hx hy
  refine ⟨A, D, B, hhist, hD, ?_⟩
  obtain ⟨_, -, hxs⟩ := h.read.told A.length x .published (by
    rw [hhist, List.getElem?_append_right (Nat.le_refl _), Nat.sub_self]
    rfl)
  obtain ⟨_, -, hys⟩ := h.read.told (A.length + (1 + D.length)) y .published (by
    rw [hhist, List.getElem?_append_right (Nat.le_add_right _ _), Nat.add_sub_cancel_left,
      Nat.add_comm 1, List.getElem?_cons_succ, List.getElem?_append_right (Nat.le_refl _),
      Nat.sub_self]
    rfl)
  have hsum : c.sampled + (A.length + (1 + D.length)) + 1 =
      1 + D.length + (c.sampled + A.length + 1) := by
    omega
  rw [hxs.seq16_eq, hys.seq16_eq, hsum, UInt16.ofNat_add]
  exact UInt16.add_sub_cancel _ _

/-- **The ring loses nothing silently.**  Over every interleaving of the two loops, field by field,
    from every value of the counters, across their wrap: `head - tail` is at most the ring size; every
    reading is, in order, published, dropped and counted, or being handled; what the pump has
    delivered is the first part of what was published, the rest being in its hand or in the ring, and
    each delivered record is the reading it was made of, whole; and `seq16` tells how many samples are
    missing between two delivered records. -/
theorem ring_loses_nothing {c : Counters} {s : State} (h : Reach (Start c) Step s) :
    u32Sub s.sh.head s.sh.tail ≤ imuRingN ∧
    (Accounts c.sampled s.read s.hist (inFlight s) ∧
      s.sampled = u32 (c.sampled + s.read.length) ∧
      s.sh.overrun = u32 (c.overrun + (overruns s.hist).length) ∧
      s.read.length =
        (published s.hist).length + (overruns s.hist).length + (inFlight s).length) ∧
    (s.delivered <+: published s.hist ∧
      s.delivered.length + inHand s + u32Sub s.sh.head s.sh.tail = (published s.hist).length ∧
      s.drainedTotal = u32 (s.delivered.length + inHand s)) ∧
    (∀ x ∈ s.delivered,
      ∃ (i : Nat) (d : Asm330lhhRaw), s.hist[i]? = some (x, .published) ∧ s.read[i]? = some d ∧
        Tells d (c.sampled + i + 1) x) ∧
    ∀ k x y, s.delivered[k]? = some x → s.delivered[k + 1]? = some y →
      ∃ A D B, s.hist = A ++ (x, .published) :: (D ++ (y, .published) :: B) ∧
        (∀ e ∈ D, e.2 = .overrun) ∧ y.seq16 - x.seq16 = UInt16.ofNat (1 + D.length) := by
  have hinv : Inv c s :=
    Reach.invariant (I := Inv c) (fun _ hs => start_inv hs)
      (fun _ _ _ _ hs hst => step_inv hs hst) h
  obtain ⟨hrel, hpre⟩ := hinv.delivered_released
  have hdist := hinv.distance
  have hle := hinv.le
  have hroom := hinv.room
  refine ⟨?_, ⟨hinv.read, hinv.sampled, hinv.overrun, ?_⟩, ⟨hpre, ?_, ?_⟩, ?_, ?_⟩
  · rw [hdist]
    unfold imuRingN
    omega
  · rw [← hinv.read.length, published_overruns]
  · rw [hdist]
    omega
  · rw [hrel]
    exact hinv.drained
  · intro x hx
    obtain ⟨i, hi⟩ := published_at (hpre.subset hx)
    obtain ⟨d, hd, htells⟩ := hinv.read.told i x .published hi
    exact ⟨i, d, hi, hd, htells⟩
  · intro k x y hx hy
    obtain ⟨t, ht⟩ := hpre
    refine hinv.seq_gap (k := k) ?_ ?_
    · rw [← ht, List.getElem?_append_left (List.getElem?_eq_some_iff.mp hx).1]
      exact hx
    · rw [← ht, List.getElem?_append_left (List.getElem?_eq_some_iff.mp hy).1]
      exact hy

/-- Both counters one before their last value: two samples go through, and the counters wrap. -/
theorem ring_loses_nothing_wrap : ∃ s x y, Reach (Start ⟨4294967294, 65535, 0⟩) Step s ∧
    s.sh.head = 0 ∧ s.delivered = [x, y] ∧
    (∃ (i : Nat) (d : Asm330lhhRaw), s.hist[i]? = some (x, .published) ∧ s.read[i]? = some d ∧
      Tells d (65535 + i + 1) x) ∧
    ∃ A D B, s.hist = A ++ (x, .published) :: (D ++ (y, .published) :: B) ∧
      (∀ e ∈ D, e.2 = .overrun) ∧ y.seq16 - x.seq16 = UInt16.ofNat (1 + D.length) := by
  let s₀ : State :=
    ⟨⟨4294967294, 4294967294, 0, fun _ => default⟩, .waiting, 65535, .asleep, fun _ => default, 0,
      [], [], 0, []⟩
  let events : List Event :=
    [.sample ⟨1, 2, 3, 4, 5, 6, 7⟩] ++ List.replicate 11 .flpr ++
      [.sample ⟨-8, 9, 10, 11, 12, 13, 14⟩] ++ List.replicate 11 .flpr ++ List.replicate 23 .pump
  let x : ImuSample := ⟨1, 2, 3, 4, 5, 6, 7, 0⟩
  let y : ImuSample := ⟨-8, 9, 10, 11, 12, 13, 14, 1⟩
  have hrun : (events.foldlM step s₀).any
      (fun s => decide (s.sh.head = 0 ∧ s.delivered = [x, y])) = true := by
    decide +kernel
  obtain ⟨s, hs, hend⟩ := (Option.any_eq_true ..).mp hrun
  rw [decide_eq_true_eq] at hend
  obtain ⟨hhead, hdel⟩ := hend
  have hreach : Reach (Start ⟨4294967294, 65535, 0⟩) Step s :=
    Reach.run (f := step) (fun _ _ _ hst => hst)
      (.start ⟨rfl, rfl, rfl, rfl, rfl, rfl, rfl, rfl, rfl, rfl, rfl⟩) hs
  obtain ⟨-, -, -, htells, hgap⟩ := ring_loses_nothing hreach
  have hx : s.delivered[0]? = some x := by rw [hdel]; rfl
  have hy : s.delivered[1]? = some y := by rw [hdel]; rfl
  exact ⟨s, x, y, hreach, hhead, hdel, htells x (by rw [hdel]; exact .head _), hgap 0 x y hx hy⟩

end Caterpillar.Imu.Pump
