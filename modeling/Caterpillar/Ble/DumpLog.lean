/-
  A dump while the log is written: `dump_thread` against `writer_drain_batch`.

  `imu_log_read_session` counts its offsets from the first record of the session that the ring still
  holds, and looks that record up again for every chunk.

  1. `DumpSystem` — the log, the dump sender, and where the session began when its request was first
     read (`origin`).  The reads of the thread are answered by `imu_log_read_session`.
  2. `Inv` — **the invariant**: every chunk carries the session's bytes from its own offset on, counted
     from that origin, and the chunks follow each other.
  3. `chunks_consistent` — so it holds as long as no drain takes the origin out of the ring while the
     dump goes on; `base_moves` is a run in which one does.
-/
import Caterpillar.Ble.DumpThread
import Caterpillar.ImuLog.PowerLoss

namespace Caterpillar.Ble.DumpLog

open Caterpillar.Word Caterpillar.Ring Caterpillar.Runs Caterpillar.Imu Caterpillar.ImuLog
open Caterpillar.Ble.Dump (DumpJob DumpChunk DumpPc DumpTx NotifyRet)

/-! ## The log and the sender -/

/-- How many records of a session are overwritten. -/
def overwritten (s : Log) (session : Nat) : Nat :=
  match s.flash.findSession session with
  | none => 0
  | some i => s.clippedStart i - (s.flash.entries i).startRec

/-- The log, and the dump sender that reads it. -/
structure DumpSystem where
  log : Log
  journal : Journal
  tx : DumpTx
  /-- The session being dumped and how many of its records were overwritten when the request was
      first read. -/
  origin : Option (Nat × Nat)

/-- What can happen. -/
inductive Move where
  | append (xs : List ImuSample)
  | drain (ret : Int)
  /-- `imu_log_read_session` returns to `dump_thread`. -/
  | read
  /-- Anything else of the dump, an error of the read included. -/
  | dump (e : Dump.Event)

/-- Bytes come from the log only. -/
def fromLog : Dump.Event → Bool
  | .read (some _) => true
  | _ => false

/-- A request that is picked up has not been read yet. -/
def keepOrigin (t : DumpTx) (origin : Option (Nat × Nat)) : Option (Nat × Nat) :=
  match t.pc with
  | .woken => none
  | _ => origin

/-- A call into the log. -/
def DumpSystem.call (d : DumpSystem) (o : Op) : DumpSystem :=
  { d with log := exec d.log o, journal := d.journal.record d.log o }

/-- One step; `none` where it cannot happen. -/
def step (d : DumpSystem) : Move → Option DumpSystem
  | .append xs => some (d.call (.append xs))
  | .drain ret => some (d.call (.drain ret))
  | .read =>
      match d.tx.pc with
      | .reading j =>
          (Dump.step d.tx (.read (some (imuLogReadSession d.log j.session j.off j.want)))).map
            fun t => { d with
              tx := t
              origin := some (d.origin.getD (j.session, overwritten d.log j.session)) }
      | _ => none
  | .dump e =>
      if fromLog e then none
      else (Dump.step d.tx e).map fun t => { d with tx := t, origin := keepOrigin t d.origin }

/-- The step relation. -/
def Step (d : DumpSystem) (m : Move) (d' : DumpSystem) : Prop := step d m = some d'

/-- A run without write errors, with at most 2^28 records and with safe power cuts. -/
def sound (d : Device) (e : ImuLog.Event) : Prop :=
  onCall (fun s o => o.Ok ∧ Low s o) d e ∧ cutsSafe d e

/-- Any log, however it got there, and a sender at reset. -/
def Start (d : DumpSystem) : Prop :=
  Reach Fresh (guarded sound DeviceStep) (.on d.log d.journal) ∧ d.tx = DumpTx.cold ∧
    d.origin = none

/-- The session the request being served will be read from again. -/
def readsOn (t : DumpTx) : Option Nat :=
  match t.pc with
  | .reading j => some j.session
  | .loop j => if t.dumpAbort then none else some j.session
  | .built j c => if c.last || t.dumpAbort then none else some j.session
  | .sending j c _ => if c.last || t.dumpAbort then none else some j.session
  | _ => none

/-- No write fails and the counter is at most 2^28. -/
def writes (d : DumpSystem) : Move → Prop
  | .drain ret => 0 ≤ ret ∧ d.log.totalAbs + d.log.drainCount ≤ 268435456
  | _ => True

/-- And the first readable record of the session that is going to be read again stays in the ring. -/
def stays (d : DumpSystem) : Move → Prop
  | .drain _ => ∀ session i, readsOn d.tx = some session → d.origin ≠ none →
      d.log.flash.findSession session = some i →
      d.log.totalAbs + d.log.drainCount ≤ d.log.clippedStart i + recCapacity
  | _ => True

/-! ## What is read -/

/-- **What is read** is the session from the offset on, counted from its first readable record; and
    it is never more than the ring holds. -/
theorem read_carries {s : Log} {drained : Nat → List ImuSample} (hf : s.Filed)
    (hk : s.Kept drained) (hlow : s.totalAbs ≤ 268435456) (session offset len : Nat) :
    imuLogReadSession s session offset len <+:
        (recordBytes (drained session)).drop (16 * overwritten s session + offset) ∧
      (imuLogReadSession s session offset len ≠ [] →
        offset + (imuLogReadSession s session offset len).length ≤ 695648) := by
  cases hfind : s.flash.findSession session with
  | none =>
    have hnil : imuLogReadSession s session offset len = [] := by
      unfold imuLogReadSession
      rw [hfind]
    rw [hnil]
    exact ⟨List.nil_prefix, fun h => absurd rfl h⟩
  | some i =>
    obtain ⟨hi, hv, rfl⟩ := findSession_some hfind
    obtain ⟨hdata, hlen⟩ := dump_exact hf hk hlow hi hv offset len
    have hbase : overwritten s (s.flash.entries i).seq =
        s.clippedStart i - (s.flash.entries i).startRec := by
      unfold overwritten
      rw [hfind]
    constructor
    · rw [hdata, readable_slice, hbase]
      exact List.take_prefix _ _
    · intro hne
      have hpos := List.length_pos_iff.mpr hne
      -- the readable part fits the ring
      have hcount : s.readableCount i =
          (s.flash.entries i).startRec + s.liveCount i - s.clippedStart i := rfl
      have hend := (hk.live_stores hf hi hv).2
      have hfloor := ringFloor_eq s
      have hclip := (le_clippedStart s i).2.1
      rw [recCapacity_eq] at hfloor
      omega

/-! ## What a call into the log changes -/

/-- What logging consists of. -/
def Logging (o : Op) : Prop := (∃ xs, o = .append xs) ∨ ∃ ret, o = .drain ret

/-- The directory after an append or a drain lists what it listed before, at the same place. -/
theorem find_before {s : Log} (hf : s.Filed) {o : Op} (ho : Logging o) {session i : Nat} (h : (exec s o).flash.findSession session = some i) :
    s.flash.findSession session = some i ∧
      ((exec s o).flash.entries i).startRec = (s.flash.entries i).startRec := by
  obtain ⟨hi, hv, hseq⟩ := findSession_some h
  have hout := exec_cases s o
  generalize exec s o = s' at h hi hv hseq hout
  have hsame : (s.flash.entries i).Valid ∧ (s'.flash.entries i).seq = (s.flash.entries i).seq ∧
      (s'.flash.entries i).startRec = (s.flash.entries i).startRec := by
    rcases ho with ⟨xs, rfl⟩ | ⟨ret, rfl⟩
    · cases hout with
      | idle _ => exact ⟨hv, rfl, rfl⟩
      | staged ha =>
        obtain ⟨g, hd, d, hram⟩ := appendFold_ram s xs
        rw [hram] at hv ⊢
        exact ⟨hv, rfl, rfl⟩
    · cases hout with
      | idle _ => exact ⟨hv, rfl, rfl⟩
      | wrote hne hg hk hL =>
        obtain ⟨hv0, hseq0, hstart0, -⟩ := hg.1.entry hv
        rw [drainWrite_entries] at hv0 hseq0 hstart0
        exact ⟨hv0, hseq0, hstart0⟩
  obtain ⟨hv0, hseq0, hstart0⟩ := hsame
  refine ⟨?_, hstart0⟩
  rw [← hseq, hseq0]
  exact findSession_eq hf.entries hi hv0

/-- The counter after an append or a drain. -/
theorem total_after {s : Log} {o : Op} (ho : Logging o) (hlow : Low s o) :
    (exec s o).totalAbs = s.totalAbs ∨
      (∃ ret, o = .drain ret) ∧ (exec s o).totalAbs = s.totalAbs + s.drainCount := by
  have hout := exec_cases s o
  generalize exec s o = s' at hout
  rcases ho with ⟨xs, rfl⟩ | ⟨ret, rfl⟩
  · left
    cases hout with
    | idle _ => rfl
    | staged ha =>
      obtain ⟨g, hd, d, hram⟩ := appendFold_ram s xs
      rw [hram]
  · cases hout with
    | idle _ => exact Or.inl rfl
    | wrote hne hg hk hL =>
      have hfits : s.totalAbs + s.drainCount ≤ 268435456 := hlow
      exact Or.inr ⟨⟨ret, rfl⟩, u32_of_lt (by omega)⟩

/-- A drain that leaves the first readable record in the ring leaves it the first readable one. -/
theorem overwritten_after {s : Log} (hf : s.Filed) {o : Op} (ho : Logging o) (hlow : Low s o)
    {session : Nat}
    (hstays : (∃ ret, o = .drain ret) → ∀ i, s.flash.findSession session = some i →
      s.totalAbs + s.drainCount ≤ s.clippedStart i + recCapacity)
    (h : (exec s o).flash.findSession session ≠ none) :
    s.flash.findSession session ≠ none ∧ overwritten (exec s o) session = overwritten s session := by
  obtain ⟨i, hafter⟩ := Option.ne_none_iff_exists'.mp h
  obtain ⟨hbefore, hstart⟩ := find_before hf ho hafter
  refine ⟨by rw [hbefore]; exact Option.some_ne_none i, ?_⟩
  have hclip : (exec s o).clippedStart i = s.clippedStart i := by
    obtain ⟨h1, h2, h3⟩ := le_clippedStart s i
    obtain ⟨h1', h2', h3'⟩ := le_clippedStart (exec s o) i
    have hfloor := ringFloor_eq s
    have hfloor' := ringFloor_eq (exec s o)
    rcases total_after ho hlow with htot | ⟨hdrain, htot⟩
    · omega
    · have hroom := hstays hdrain i hbefore
      omega
  unfold overwritten
  rw [hafter, hbefore]
  dsimp only
  rw [hclip, hstart]

/-- What was drained is a beginning of what is drained later. -/
theorem drained_grows (j : Journal) (s : Log) {o : Op} (ho : Logging o) (session : Nat) :
    j.drained session <+: (j.record s o).drained session := by
  rcases ho with ⟨xs, rfl⟩ | ⟨ret, rfl⟩
  · have hsame : (j.record s (.append xs)).drained = j.drained := by
      by_cases ha : s.active = true
      · rw [record_append j s xs ha]
      · rw [show j.record s (.append xs) = j from if_neg ha]
    rewrite [hsame]
    exact List.prefix_rfl
  · rw [record_drain]
    show _ <+: Function.update j.drained s.curSeq _ session
    by_cases hs : session = s.curSeq
    · rw [hs, Function.update_self]
      exact List.prefix_append _ _
    · rewrite [Function.update_of_ne hs]
      exact List.prefix_rfl

/-! ## The chunks -/

/-- The chunk carries the session's bytes from its own offset on, counted from record `p`. -/
def Carries (l : List ImuSample) (p : Nat) (c : DumpChunk) : Prop :=
  c.data <+: (recordBytes l).drop (16 * p + c.offset)

/-- The chunks follow each other from offset `a` to offset `b`. -/
def Chunks : Nat → List DumpChunk → Nat → Prop
  | a, [], b => a = b
  | a, c :: cs, b => c.offset = a ∧ Chunks (a + c.data.length) cs b

theorem Chunks.snoc {cs : List DumpChunk} {c : DumpChunk} :
    ∀ {a b : Nat}, Chunks a cs b → c.offset = b → Chunks a (cs ++ [c]) (b + c.data.length) := by
  induction cs with
  | nil =>
    rintro a b rfl hc
    exact ⟨hc, rfl⟩
  | cons d cs ih =>
    rintro a b ⟨hd, hrest⟩ hc
    exact ⟨hd, ih hrest hc⟩

/-- More records leave what was carried. -/
theorem Carries.grow {l m : List ImuSample} (hlm : l <+: m) {p : Nat} {c : DumpChunk}
    (h : Carries l p c) : Carries m p c := by
  obtain ⟨rest, rfl⟩ := hlm
  unfold Carries at h ⊢
  rw [recordBytes_append]
  rcases Nat.lt_or_ge (recordBytes l).length (16 * p + c.offset) with hlt | hle
  · rw [List.drop_eq_nil_of_le (Nat.le_of_lt hlt)] at h
    rw [List.prefix_nil.mp h]
    exact List.nil_prefix
  · rw [List.drop_append_of_le_length hle]
    exact h.trans (List.prefix_append _ _)

/-- **Reassembly.**  Chunks that follow each other and carry the session's bytes make one piece of
    it. -/
theorem Chunks.flatten {l : List ImuSample} {p : Nat} (cs : List DumpChunk) :
    ∀ {a b : Nat}, Chunks a cs b → (∀ c ∈ cs, Carries l p c) →
      (cs.flatMap (·.data)) <+: (recordBytes l).drop (16 * p + a) := by
  induction cs with
  | nil =>
    intro a b _ _
    exact List.nil_prefix
  | cons c cs ih =>
    rintro a b ⟨rfl, hrest⟩ hall
    have htail := ih hrest fun d hd => hall d (List.mem_cons_of_mem c hd)
    obtain ⟨rest, hfirst⟩ := hall c (List.mem_cons_self ..)
    -- what follows the first chunk is what its length leaves
    have hdrop : (recordBytes l).drop (16 * p + (c.offset + c.data.length)) = rest := by
      rw [← Nat.add_assoc, ← List.drop_drop, ← hfirst, List.drop_left]
    rw [hdrop] at htail
    rw [List.flatMap_cons, ← hfirst]
    exact (List.prefix_append_right_inj c.data).mpr htail

/-! ## The invariant -/

/-- What holds where the thread is: before the send loop nothing is read, in it the chunks sent reach
    the current offset, and a chunk in hand carries the session's bytes too. -/
def Phase (drained : Nat → List ImuSample) (origin : Option (Nat × Nat)) (sent : List DumpChunk) :
    DumpPc → Prop
  | .idle => ∃ a b, Chunks a sent b
  | .woken | .cleared | .haveSession _ | .haveOff _ _ | .draining _ | .giving _ _ =>
      sent = [] ∧ origin = none
  | .loop j | .reading j =>
      (∃ a, Chunks a sent j.off) ∧ (sent = [] ∧ origin = none ∨ ∃ p, origin = some (j.session, p))
  | .built j c | .sending j c _ =>
      (∃ a, Chunks a sent j.off) ∧ c = j.chunk c.data ∧
        (c.data ≠ [] → j.off + c.data.length ≤ 695648) ∧
        ∃ p, origin = some (j.session, p) ∧ Carries (drained j.session) p c

/-- The invariant of the dump. -/
structure Inv (d : DumpSystem) : Prop where
  filed : d.log.Filed
  low : d.log.totalAbs ≤ 268435456
  kept : d.log.Kept d.journal.drained
  phase : Phase d.journal.drained d.origin d.tx.sent d.tx.pc
  sent : ∀ c ∈ d.tx.sent, ∃ session p, d.origin = some (session, p) ∧
    Carries (d.journal.drained session) p c
  /-- The session still begins where it began. -/
  base : ∀ session p, readsOn d.tx = some session → d.origin = some (session, p) →
    d.log.flash.findSession session ≠ none → overwritten d.log session = p

theorem Phase.grow {drained drained' : Nat → List ImuSample}
    (hgrow : ∀ session, drained session <+: drained' session) {origin : Option (Nat × Nat)}
    {sent : List DumpChunk} {pc : DumpPc} (h : Phase drained origin sent pc) :
    Phase drained' origin sent pc := by
  cases pc with
  | built j c =>
    obtain ⟨hsent, hc, hfit, p, hp, hcar⟩ := h
    exact ⟨hsent, hc, hfit, p, hp, hcar.grow (hgrow _)⟩
  | sending j c tries =>
    obtain ⟨hsent, hc, hfit, p, hp, hcar⟩ := h
    exact ⟨hsent, hc, hfit, p, hp, hcar.grow (hgrow _)⟩
  | _ => exact h

/-- A call into the log. -/
theorem Inv.call {d : DumpSystem} (h : Inv d) {o : Op} (ho : Logging o) (hok : o.Ok)
    (hlow : Low d.log o)
    (hstays : (∃ ret, o = .drain ret) → ∀ session i, readsOn d.tx = some session →
      d.origin ≠ none → d.log.flash.findSession session = some i →
      d.log.totalAbs + d.log.drainCount ≤ d.log.clippedStart i + recCapacity) :
    Inv (d.call o) := by
  have hroom := hlow.room h.filed
  have hgrow := drained_grows d.journal d.log ho
  refine ⟨exec_filed h.filed o hroom, exec_low h.low hlow, exec_kept h.filed h.kept o hroom hok,
    h.phase.grow hgrow, ?_, ?_⟩
  · intro c hc
    obtain ⟨session, p, hp, hcar⟩ := h.sent c hc
    exact ⟨session, p, hp, hcar.grow (hgrow session)⟩
  · intro session p hreads horigin hfind
    obtain ⟨hbefore, hsame⟩ := overwritten_after h.filed ho hlow
      (fun hd i hi => hstays hd session i hreads
        (fun hnone => Option.some_ne_none _ (horigin.symm.trans hnone)) hi) hfind
    exact hsame.trans (h.base session p hreads horigin hbefore)

/-- **A chunk is read.**  The first read sets the origin; a later one finds the session beginning where
    it began. -/
theorem Inv.read {d d' : DumpSystem} (h : Inv d) (hs : step d .read = some d') : Inv d' := by
  simp only [step] at hs
  split at hs
  · rename_i j hpc
    have hread : Dump.step d.tx (.read (some (imuLogReadSession d.log j.session j.off j.want))) =
        some { d.tx with pc := .built j (j.chunk (imuLogReadSession d.log j.session j.off j.want)) } := by
      simp only [Dump.step, hpc]
    rw [hread] at hs
    obtain rfl := Option.some.inj hs
    have hphase := h.phase
    rw [hpc] at hphase
    obtain ⟨hsent, horigin⟩ := hphase
    obtain ⟨hcar, hfit⟩ := read_carries h.filed h.kept h.low j.session j.off j.want
    have hreads : readsOn d.tx = some j.session := by
      unfold readsOn
      rw [hpc]
    rcases horigin with ⟨hnil, hnone⟩ | ⟨p, hp⟩
    · refine ⟨h.filed, h.low, h.kept, ⟨hsent, rfl, hfit, overwritten d.log j.session, ?_, hcar⟩, ?_, ?_⟩
      · rw [hnone]
        rfl
      · intro c hc
        have hc' : c ∈ d.tx.sent := hc
        rw [hnil] at hc'
        exact absurd hc' List.not_mem_nil
      · intro session p _ hp _
        rw [hnone] at hp
        obtain ⟨rfl, rfl⟩ := Prod.mk.inj (Option.some.inj hp)
        rfl
    · have hkeep : some (d.origin.getD (j.session, overwritten d.log j.session)) = d.origin := by
        rw [hp]
        rfl
      rw [hkeep]
      refine ⟨h.filed, h.low, h.kept, ⟨hsent, rfl, hfit, p, hp, ?_⟩, h.sent, ?_⟩
      · by_cases hfind : d.log.flash.findSession j.session = none
        · have hnil : imuLogReadSession d.log j.session j.off j.want = [] := by
            unfold imuLogReadSession
            rw [hfind]
          rw [hnil]
          exact List.nil_prefix
        · rw [h.base j.session p hreads hp hfind] at hcar
          exact hcar
      · intro session q _ hq hfind
        have hsession : session = j.session := by
          rw [hp] at hq
          exact (Prod.mk.inj (Option.some.inj hq)).1.symm
        exact h.base session q (hreads.trans (congrArg some hsession.symm)) hq hfind
  · exact absurd hs (by simp)

/-- What a step of the sender has to show. -/
theorem Inv.move {d : DumpSystem} (h : Inv d) {t : DumpTx}
    (hphase : Phase d.journal.drained (keepOrigin t d.origin) t.sent t.pc)
    (hsent : ∀ c ∈ t.sent, ∃ session p, keepOrigin t d.origin = some (session, p) ∧
      Carries (d.journal.drained session) p c)
    (hreads : ∀ session, readsOn t = some session → d.origin ≠ none →
      readsOn d.tx = some session) :
    Inv { d with tx := t, origin := keepOrigin t d.origin } := by
  refine ⟨h.filed, h.low, h.kept, hphase, hsent, ?_⟩
  intro session p hr hp hfind
  have horigin : d.origin = some (session, p) := by
    have hp' : keepOrigin t d.origin = some (session, p) := hp
    unfold keepOrigin at hp'
    split at hp'
    · exact absurd hp' (by simp)
    · exact hp'
  have hne : d.origin ≠ none := by
    rw [horigin]
    exact Option.some_ne_none _
  exact h.base session p (hreads session hr hne) horigin hfind

/-- A step that neither moves the thread nor sends. -/
theorem Inv.quiet {d : DumpSystem} (h : Inv d) {t : DumpTx} (hpc : t.pc = d.tx.pc)
    (hsent : t.sent = d.tx.sent) (habort : d.tx.dumpAbort = true → t.dumpAbort = true) :
    Inv { d with tx := t, origin := keepOrigin t d.origin } := by
  have hkeep : keepOrigin t d.origin = d.origin := by
    have hphase := h.phase
    unfold keepOrigin
    rw [hpc]
    split
    · rename_i hwoken
      rw [hwoken] at hphase
      exact hphase.2.symm
    · rfl
  have hreads : ∀ session, readsOn t = some session → readsOn d.tx = some session := by
    intro session hr
    unfold readsOn at hr ⊢
    rw [hpc] at hr
    cases ha : d.tx.dumpAbort with
    | true =>
      rw [habort ha] at hr
      exact hr
    | false =>
      cases hb : t.dumpAbort with
      | true =>
        rw [hb] at hr
        revert hr
        split
        all_goals simp
      | false =>
        rw [hb] at hr
        exact hr
  refine h.move ?_ ?_ fun session hr _ => hreads session hr
  · rw [hkeep, hpc, hsent]
    exact h.phase
  · rw [hkeep, hsent]
    exact h.sent

/-- The thread goes back to sleep. -/
theorem Inv.rest {d : DumpSystem} (h : Inv d) {t : DumpTx} (hpc : t.pc = .idle)
    (hsent : t.sent = d.tx.sent) {a b : Nat} (hchunks : Chunks a d.tx.sent b) :
    Inv { d with tx := t, origin := keepOrigin t d.origin } := by
  have hkeep : keepOrigin t d.origin = d.origin := by
    unfold keepOrigin
    rw [hpc]
  refine h.move ?_ ?_ ?_
  · rw [hpc, hsent]
    exact ⟨a, b, hchunks⟩
  · rw [hkeep, hsent]
    exact h.sent
  · intro session hr
    unfold readsOn at hr
    rw [hpc] at hr
    exact absurd hr (by simp)

/-- Before the send loop. -/
theorem Inv.restarting {d : DumpSystem} (h : Inv d) {t : DumpTx}
    (hold : d.tx.sent = [] ∧ d.origin = none)
    (hsent : t.sent = d.tx.sent)
    (hphase : t.sent = [] → Phase d.journal.drained none t.sent t.pc) :
    Inv { d with tx := t, origin := keepOrigin t d.origin } := by
  have hkeep : keepOrigin t d.origin = none := by
    rw [hold.2]
    unfold keepOrigin
    split
    · rfl
    · rfl
  have hnil : t.sent = [] := hsent.trans hold.1
  refine h.move ?_ ?_ ?_
  · rw [hkeep]
    exact hphase hnil
  · intro c hc
    rw [hnil] at hc
    exact absurd hc List.not_mem_nil
  · intro session _ hne
    exact absurd hold.2 hne

/-- **One step of the thread.**  By cases on where it is. -/
theorem Inv.run {d : DumpSystem} (h : Inv d) {t : DumpTx} (hs : Dump.runStep d.tx = some t) :
    Inv { d with tx := t, origin := keepOrigin t d.origin } := by
  have hphase := h.phase
  cases hpc : d.tx.pc with
  | idle =>
    simp only [Dump.runStep, hpc] at hs
    obtain ⟨sem, -, rfl⟩ := Option.map_eq_some_iff.mp hs
    refine h.move ⟨rfl, rfl⟩ ?_ ?_
    · intro c hc
      exact absurd hc List.not_mem_nil
    · intro session hr
      exact absurd hr (by simp [readsOn])
  | woken =>
    rw [hpc] at hphase
    simp only [Dump.runStep, hpc] at hs
    obtain rfl := Option.some.inj hs
    exact h.restarting hphase rfl fun hnil => ⟨hnil, rfl⟩
  | cleared =>
    rw [hpc] at hphase
    simp only [Dump.runStep, hpc] at hs
    obtain rfl := Option.some.inj hs
    exact h.restarting hphase rfl fun hnil => ⟨hnil, rfl⟩
  | haveSession session =>
    rw [hpc] at hphase
    simp only [Dump.runStep, hpc] at hs
    obtain rfl := Option.some.inj hs
    exact h.restarting hphase rfl fun hnil => ⟨hnil, rfl⟩
  | haveOff session off =>
    rw [hpc] at hphase
    simp only [Dump.runStep, hpc] at hs
    obtain rfl := Option.some.inj hs
    exact h.restarting hphase rfl fun hnil => ⟨hnil, rfl⟩
  | draining j =>
    rw [hpc] at hphase
    simp only [Dump.runStep, hpc] at hs
    split at hs
    · obtain rfl := Option.some.inj hs
      exact h.restarting hphase rfl fun hnil => ⟨hnil, rfl⟩
    · obtain rfl := Option.some.inj hs
      exact h.restarting hphase rfl fun hnil => ⟨hnil, rfl⟩
  | giving j given =>
    rw [hpc] at hphase
    simp only [Dump.runStep, hpc] at hs
    split at hs
    · obtain rfl := Option.some.inj hs
      exact h.restarting hphase rfl fun hnil => ⟨hnil, rfl⟩
    · obtain rfl := Option.some.inj hs
      refine h.restarting hphase rfl fun hnil => ⟨⟨j.off, ?_⟩, Or.inl ⟨hnil, rfl⟩⟩
      rw [hnil]
      rfl
  | loop j =>
    rw [hpc] at hphase
    obtain ⟨⟨a, hchunks⟩, horigin⟩ := hphase
    simp only [Dump.runStep, hpc] at hs
    split at hs
    · rename_i hmore
      obtain rfl := Option.some.inj hs
      refine h.move ⟨⟨a, hchunks⟩, horigin⟩ h.sent ?_
      -- the thread is not told to stop, so it was going to read
      intro session hr _
      unfold readsOn
      rw [hpc, hmore.2]
      exact hr
    · obtain rfl := Option.some.inj hs
      exact h.rest rfl rfl hchunks
  | reading j =>
    simp only [Dump.runStep, hpc] at hs
    exact absurd hs (by simp)
  | built j c =>
    rw [hpc] at hphase
    simp only [Dump.runStep, hpc] at hs
    obtain ⟨sem, -, rfl⟩ := Option.map_eq_some_iff.mp hs
    refine h.move hphase h.sent ?_
    intro session hr _
    unfold readsOn at hr ⊢
    rw [hpc]
    exact hr
  | sending j c tries =>
    simp only [Dump.runStep, hpc] at hs
    exact absurd hs (by simp)

/-- **The stack answers.**  An accepted chunk joins the ones sent. -/
theorem Inv.notify {d : DumpSystem} (h : Inv d) {j : DumpJob} {c : DumpChunk} {tries : Nat}
    (hpc : d.tx.pc = .sending j c tries) (ret : NotifyRet) :
    Inv { d with
      tx := Dump.notifyStep d.tx j c tries ret
      origin := keepOrigin (Dump.notifyStep d.tx j c tries ret) d.origin } := by
  have hphase := h.phase
  rw [hpc] at hphase
  obtain ⟨⟨a, hchunks⟩, hc, hfit, p, hp, hcar⟩ := hphase
  cases ret with
  | accepted =>
    have hoff : c.offset = j.off := by rw [hc]; rfl
    have hsnoc := hchunks.snoc hoff
    have hsent : ∀ x ∈ d.tx.sent ++ [c], ∃ session p, d.origin = some (session, p) ∧
        Carries (d.journal.drained session) p x := by
      intro x hx
      rcases List.mem_append.mp hx with hx | hx
      · exact h.sent x hx
      · rw [List.mem_singleton.mp hx]
        exact ⟨j.session, p, hp, hcar⟩
    cases hlast : c.last with
    | true =>
      simp only [Dump.notifyStep, hlast]
      refine h.move ⟨a, _, hsnoc⟩ hsent ?_
      intro session hr
      exact absurd hr (by simp [readsOn])
    | false =>
      -- a chunk that is not the last is not empty, and the offset does not wrap
      have hne : c.data ≠ [] := by
        intro hnil
        rw [hc, hnil] at hlast
        have hwant := of_decide_eq_false hlast
        simp only [List.length_nil, not_or] at hwant
        obtain ⟨hlt, hrem⟩ := hwant
        unfold DumpJob.want Dump.dumpChunkData at hlt
        omega
      have hnext : (j.advance c.data.length).off = j.off + c.data.length := by
        have hle := hfit hne
        exact u32_of_lt (by omega)
      simp only [Dump.notifyStep, hlast]
      refine h.move ⟨⟨a, ?_⟩, Or.inr ⟨p, hp⟩⟩ hsent ?_
      · rw [hnext]
        exact hsnoc
      · intro session hr _
        unfold readsOn at hr ⊢
        rw [hpc]
        show (if c.last || d.tx.dumpAbort then none else some j.session) = some session
        rw [hlast]
        exact hr
  | busy =>
    simp only [Dump.notifyStep]
    split
    · refine h.move ⟨⟨a, hchunks⟩, hc, hfit, p, hp, hcar⟩ h.sent ?_
      intro session hr _
      unfold readsOn at hr ⊢
      rw [hpc]
      exact hr
    · exact h.rest rfl rfl hchunks
  | failed =>
    simp only [Dump.notifyStep]
    exact h.rest rfl rfl hchunks

/-- One statement of `ble_transport_dump_request` does not touch the thread. -/
theorem Inv.write {d : DumpSystem} (h : Inv d) {t : DumpTx} (hs : Dump.writeStep d.tx = some t) :
    Inv { d with tx := t, origin := keepOrigin t d.origin } := by
  unfold Dump.writeStep at hs
  split at hs
  · exact absurd hs (by simp)
  · split at hs
    · obtain rfl := Option.some.inj hs
      exact h.quiet rfl rfl fun _ => rfl
    all_goals
      obtain rfl := Option.some.inj hs
      exact h.quiet rfl rfl id

/-- **Every step of the sender** that takes nothing from the log. -/
theorem Inv.dump {d d' : DumpSystem} (h : Inv d) {e : Dump.Event}
    (hs : step d (.dump e) = some d') : Inv d' := by
  simp only [step] at hs
  split at hs
  · exact absurd hs (by simp)
  · rename_i hlog
    obtain ⟨t, ht, rfl⟩ := Option.map_eq_some_iff.mp hs
    cases e with
    -- requests and aborts come from outside and touch no chunk
    | request r =>
      obtain ⟨-, ht⟩ := Option.ite_none_right_eq_some.mp ht
      obtain rfl := Option.some.inj ht
      exact h.quiet rfl rfl id
    | write => exact h.write ht
    | abort =>
      obtain ⟨-, ht⟩ := Option.ite_none_right_eq_some.mp ht
      obtain rfl := Option.some.inj ht
      exact h.quiet rfl rfl fun _ => rfl
    | run => exact h.run ht
    | read res =>
      cases res with
      | some data => exact absurd rfl hlog
      | none =>
        simp only [Dump.step] at ht
        split at ht
        · rename_i hres
          exact absurd hres (by simp)
        · rename_i j hpc _
          obtain rfl := Option.some.inj ht
          have hphase := h.phase
          rw [hpc] at hphase
          obtain ⟨⟨a, hchunks⟩, -⟩ := hphase
          exact h.rest rfl rfl hchunks
        · exact absurd ht (by simp)
    -- the thread gives the dump up; the chunks sent stay a beginning of it
    | jam =>
      simp only [Dump.step] at ht
      split at ht
      · rename_i j c hpc
        obtain ⟨-, ht⟩ := Option.ite_none_right_eq_some.mp ht
        obtain rfl := Option.some.inj ht
        have hphase := h.phase
        rw [hpc] at hphase
        obtain ⟨⟨a, hchunks⟩, -⟩ := hphase
        exact h.rest rfl rfl hchunks
      · exact absurd ht (by simp)
    | notify ret =>
      simp only [Dump.step] at ht
      split at ht
      · rename_i j c tries hpc
        obtain rfl := Option.some.inj ht
        exact h.notify hpc ret
      · exact absurd ht (by simp)
    | sentCb =>
      obtain ⟨-, ht⟩ := Option.ite_none_right_eq_some.mp ht
      obtain rfl := Option.some.inj ht
      exact h.quiet rfl rfl id

/-- **Step lemma.** -/
theorem Inv.step {d d' : DumpSystem} {m : Move} (h : Inv d) (hw : writes d m) (hstays : stays d m)
    (hs : Step d m d') : Inv d' := by
  cases m with
  | append xs =>
    obtain rfl := Option.some.inj hs
    refine h.call (Or.inl ⟨xs, rfl⟩) trivial trivial ?_
    rintro ⟨ret, hret⟩
    cases hret
  | drain ret =>
    obtain rfl := Option.some.inj hs
    obtain ⟨hret, hlow⟩ := hw
    refine h.call (Or.inr ⟨ret, rfl⟩) hret hlow ?_
    intro _
    exact hstays
  | read => exact h.read hs
  | dump e => exact h.dump hs

/-- The invariant holds at the start. -/
theorem Inv.start {d : DumpSystem} (h : Start d) : Inv d := by
  obtain ⟨hlog, htx, horigin⟩ := h
  obtain ⟨hf, hl, hk⟩ := reach_kept (G := sound) (fun _ _ hg => hg) hlog
  refine ⟨hf, hl, hk, ?_, ?_, ?_⟩
  · rw [htx]
    exact ⟨0, 0, rfl⟩
  · intro c hc
    rw [htx] at hc
    exact absurd hc List.not_mem_nil
  · intro session p hr
    rw [htx] at hr
    exact absurd hr (by simp [readsOn, DumpTx.cold])

/-! ## The dump -/

/-- The chunks sent for a request carry the session's bytes, each from its own offset on, counted from
    where the session began when it was first read; put together they are one piece of the session. -/
def Consistent (d : DumpSystem) : Prop :=
  d.tx.sent ≠ [] → ∃ session p, d.origin = some (session, p) ∧
    (∀ c ∈ d.tx.sent, Carries (d.journal.drained session) p c) ∧
    ∃ a b, Chunks a d.tx.sent b ∧
      d.tx.sent.flatMap (·.data) <+: (recordBytes (d.journal.drained session)).drop (16 * p + a)

theorem Phase.chunks {drained : Nat → List ImuSample} {origin : Option (Nat × Nat)}
    {sent : List DumpChunk} {pc : DumpPc} (h : Phase drained origin sent pc) (hne : sent ≠ []) :
    ∃ a b, Chunks a sent b := by
  cases pc with
  | idle => exact h
  | loop j =>
    obtain ⟨⟨a, hchunks⟩, -⟩ := h
    exact ⟨a, _, hchunks⟩
  | reading j =>
    obtain ⟨⟨a, hchunks⟩, -⟩ := h
    exact ⟨a, _, hchunks⟩
  | built j c =>
    obtain ⟨⟨a, hchunks⟩, -⟩ := h
    exact ⟨a, _, hchunks⟩
  | sending j c tries =>
    obtain ⟨⟨a, hchunks⟩, -⟩ := h
    exact ⟨a, _, hchunks⟩
  | _ => exact absurd h.1 hne

theorem Inv.consistent {d : DumpSystem} (h : Inv d) : Consistent d := by
  intro hne
  obtain ⟨c, cs, hcons⟩ := List.exists_cons_of_ne_nil hne
  obtain ⟨session, p, hp, -⟩ := h.sent c (by rw [hcons]; exact List.mem_cons_self ..)
  have hall : ∀ x ∈ d.tx.sent, Carries (d.journal.drained session) p x := by
    intro x hx
    obtain ⟨session', p', hp', hcar⟩ := h.sent x hx
    obtain ⟨rfl, rfl⟩ := Prod.mk.inj (Option.some.inj (hp.symm.trans hp'))
    exact hcar
  obtain ⟨a, b, hchunks⟩ := h.phase.chunks hne
  exact ⟨session, p, hp, hall, a, b, hchunks, hchunks.flatten _ hall⟩

/-- **A dump stays consistent while logging continues**, over every interleaving of appends, drains,
    requests and chunks in which no drain takes the first readable record of the session out of the
    ring while the session is going to be read again. -/
theorem chunks_consistent {d : DumpSystem}
    (h : Reach Start (guarded (fun d m => writes d m ∧ stays d m) Step) d) : Consistent d := by
  have hinv : Inv d := by
    refine h.invariant ?_ ?_
    · intro d hstart
      exact Inv.start hstart
    · rintro d m d' - hinv ⟨⟨hw, hstays⟩, hst⟩
      exact hinv.step hw hstays hst
  exact hinv.consistent

/-! ## Runs -/

section

variable {G : DumpSystem → Move → Prop} (hread : ∀ d, G d .read) (hdump : ∀ d e, G d (.dump e))

include hdump

/-- Steps of the sender extend a run. -/
theorem reach_dumps {d : DumpSystem} (h : Reach Start (guarded G Step) d) (es : List Dump.Event)
    {d' : DumpSystem} (hrun : (es.map Move.dump).foldlM step d = some d') :
    Reach Start (guarded G Step) d' := by
  induction es generalizing d with
  | nil =>
    obtain rfl := Option.some.inj hrun
    exact h
  | cons e es ih =>
    rw [List.map_cons, List.foldlM_cons] at hrun
    obtain ⟨d₁, h₁, hrest⟩ := Option.bind_eq_some_iff.mp hrun
    exact ih (h.next ⟨hdump d e, h₁⟩) hrest

/-- The thread goes on to the next chunk. -/
theorem reach_again {d : DumpSystem} (h : Reach Start (guarded G Step) d) {j : DumpJob}
    (hpc : d.tx.pc = .loop j) (hmore : 0 < j.remaining) (habort : d.tx.dumpAbort = false) :
    Reach Start (guarded G Step) { d with tx := { d.tx with pc := .reading j } } := by
  refine h.next (a := Move.dump .run) ⟨hdump _ _, ?_⟩
  have hrun : Dump.runStep d.tx = some { d.tx with pc := .reading j } := by
    simp only [Dump.runStep, hpc]
    exact if_pos ⟨hmore, habort⟩
  simp only [Step, step, fromLog, Bool.false_eq_true, if_false, Dump.step, hrun, Option.map_some,
    keepOrigin]

include hread

/-- One chunk is read, finds a credit and is accepted. -/
theorem reach_chunk {d : DumpSystem} (h : Reach Start (guarded G Step) d) {j : DumpJob}
    (hpc : d.tx.pc = .reading j) (hcredit : 0 < d.tx.dumpCreditSem.count) {data : List UInt8}
    (hdata : imuLogReadSession d.log j.session j.off j.want = data) :
    ∃ t, Reach Start (guarded G Step) { d with
        tx := t, origin := some (d.origin.getD (j.session, overwritten d.log j.session)) } ∧
      t.sent = d.tx.sent ++ [j.chunk data] ∧
      t.pc = (if (j.chunk data).last then .idle else .loop (j.advance data.length)) ∧
      t.dumpAbort = d.tx.dumpAbort ∧ t.dumpCreditSem.count = d.tx.dumpCreditSem.count - 1 := by
  obtain ⟨sem, htake, hcount⟩ :
      ∃ t, d.tx.dumpCreditSem.take = some t ∧ t.count = d.tx.dumpCreditSem.count - 1 := by
    unfold Sem.KSem.take
    rw [if_neg (Nat.pos_iff_ne_zero.mp hcredit)]
    exact ⟨_, rfl, rfl⟩
  have hone : Reach Start (guarded G Step) { d with
      tx := { d.tx with pc := .built j (j.chunk data) }
      origin := some (d.origin.getD (j.session, overwritten d.log j.session)) } := by
    refine h.next (a := .read) ⟨hread d, ?_⟩
    simp only [Step, step, hpc, Dump.step, hdata, Option.map_some]
  have htwo : Reach Start (guarded G Step) { d with
      tx := { d.tx with dumpCreditSem := sem, pc := .sending j (j.chunk data) 0 }
      origin := some (d.origin.getD (j.session, overwritten d.log j.session)) } := by
    refine hone.next (a := .dump .run) ⟨hdump _ _, ?_⟩
    simp only [Step, step, fromLog, Bool.false_eq_true, if_false, Dump.step, Dump.runStep, htake,
      Option.map_some, keepOrigin]
  refine ⟨{ d.tx with
    dumpCreditSem := sem, outstanding := d.tx.outstanding + 1, sent := d.tx.sent ++ [j.chunk data],
    pc := if (j.chunk data).last then .idle else .loop (j.advance data.length) }, ?_, rfl, rfl, rfl,
    hcount⟩
  refine htwo.next (a := .dump (.notify .accepted)) ⟨hdump _ _, ?_⟩
  simp only [Step, step, fromLog, Bool.false_eq_true, if_false, Dump.step, Dump.notifyStep,
    Option.map_some, keepOrigin]
  cases hlast : (j.chunk data).last with
  | true => rfl
  | false => rfl

end

/-- A request of a host, up to the first read. -/
def request (r : DumpJob) : List Dump.Event := Dump.serve r ++ Dump.restart 1

/-- The sender once the request is picked up. -/
def pickedUp (r : DumpJob) : DumpTx :=
  { DumpTx.cold with
    req := r, pc := .reading r, dumpCreditSem := Sem.KSem.full }

theorem request_run (s : Log) (j : Journal) (session off n : Nat) :
    ((request ⟨session, off, n + 1⟩).map Move.dump).foldlM step ⟨s, j, DumpTx.cold, none⟩ =
      some ⟨s, j, pickedUp ⟨session, off, n + 1⟩, none⟩ := rfl

/-- What a device that has logged one session reads: everything but what is overwritten. -/
theorem logged_read {l : List ImuSample} {s : Log} {j : Journal} (h : Logged l s j)
    (hf : s.Filed) (hk : s.Kept j.drained) (hlow : s.totalAbs ≤ 268435456) (offset len : Nat) :
    overwritten s 1 = l.length - 43478 ∧
      imuLogReadSession s 1 offset len =
        ((recordBytes l).drop (16 * (l.length - 43478) + offset)).take
          (min len (16 * min l.length 43478 - offset)) := by
  obtain ⟨e, he, hv, hseq, hstart, -⟩ := h.entry
  have hv' : (s.flash.entries 0).Valid := by rw [he]; exact hv
  have hfind := findSession_eq hf.entries (by decide) hv'
  have hdump := (dump_exact hf hk hlow (by decide) hv' offset len).1
  rw [he, hseq] at hfind hdump
  obtain ⟨hclip, hcount⟩ := logged_readable h
  constructor
  · unfold overwritten
    rw [hfind]
    dsimp only
    rw [hclip, he, hstart, Nat.sub_zero]
  · rw [hdump, h.drained, readable_slice, he, hstart, hclip, hcount, Nat.sub_zero]

/-- One chunk of such a session, where the ring holds all of it. -/
theorem logged_chunk {G : DumpSystem → Move → Prop} (hread : ∀ d, G d .read)
    (hdump : ∀ d e, G d (.dump e)) {l : List ImuSample} {s : Log} {j : Journal} {tx : DumpTx}
    {origin : Option (Nat × Nat)} (h : Reach Start (guarded G Step) ⟨s, j, tx, origin⟩)
    (hl : Logged l s j) (hf : s.Filed) (hk : s.Kept j.drained) (hlow : s.totalAbs ≤ 268435456)
    {off rest n : Nat} (hpc : tx.pc = .reading ⟨1, off, rest⟩) (hcredit : 0 < tx.dumpCreditSem.count)
    (hn : min rest 232 = n) (hfull : off + n ≤ 16 * min l.length 43478) :
    ∃ t data, Reach Start (guarded G Step) ⟨s, j, t, some (origin.getD (1, l.length - 43478))⟩ ∧
      data = ((recordBytes l).drop (16 * (l.length - 43478) + off)).take n ∧
      t.sent = tx.sent ++ [⟨off, data, decide (n = rest)⟩] ∧
      (n ≠ rest → t.pc = .loop ⟨1, u32 (off + n), u32Sub rest n⟩) ∧
      t.dumpAbort = tx.dumpAbort ∧ t.dumpCreditSem.count = tx.dumpCreditSem.count - 1 := by
  obtain ⟨hbase, hdata⟩ := logged_read hl hf hk hlow off n
  have hall : min n (16 * min l.length 43478 - off) = n := by omega
  rw [hall] at hdata
  have hlen : (((recordBytes l).drop (16 * (l.length - 43478) + off)).take n).length = n := by
    rw [List.length_take, List.length_drop, recordBytes_length]
    omega
  generalize ((recordBytes l).drop (16 * (l.length - 43478) + off)).take n = data at hdata hlen
  have hwant : DumpJob.want ⟨1, off, rest⟩ = n := hn
  obtain ⟨t, hreach, hsent, hnext, habort, hcount⟩ :=
    reach_chunk hread hdump h hpc hcredit (hwant ▸ hdata)
  have hchunk : DumpJob.chunk ⟨1, off, rest⟩ data = ⟨off, data, decide (n = rest)⟩ := by
    unfold DumpJob.chunk
    rw [hlen, hwant]
    simp
  rw [hchunk] at hsent hnext
  refine ⟨t, data, ?_, rfl, hsent, ?_, habort, hcount⟩
  · rw [← hbase]
    exact hreach
  · intro hne
    rw [hnext, decide_eq_false hne, hlen]
    rfl

/-- **Two chunks of such a session**, the first of 232 bytes, with a record logged in between. -/
theorem logged_two_chunks {G : DumpSystem → Move → Prop} (hread : ∀ d, G d .read)
    (hdump : ∀ d e, G d (.dump e)) (happend : ∀ d xs, G d (.append xs)) {l : List ImuSample}
    (hl : l.length < 268435456) (x : ImuSample)
    (hdrain : ∀ d, d.log.totalAbs + d.log.drainCount = l.length + 1 → G d (.drain 0))
    {n : Nat} (hn : n < 232) (hfirst : 232 ≤ 16 * min l.length 43478)
    (hsecond : 233 + n ≤ 16 * min (l.length + 1) 43478) :
    ∃ d first second, Reach Start (guarded G Step) d ∧ d.origin = some (1, l.length - 43478) ∧
      d.journal.drained 1 = l ++ [x] ∧
      d.tx.sent = [⟨0, first, false⟩, ⟨232, second, true⟩] ∧
      first = ((recordBytes l).drop (16 * (l.length - 43478))).take 232 ∧
      second = ((recordBytes (l ++ [x])).drop (16 * (l.length + 1 - 43478) + 232)).take (n + 1) := by
  obtain ⟨s, j, hr, h⟩ := logged_steady l (Nat.le_of_lt hl)
  obtain ⟨hf, hlow, hk⟩ := reach_kept (fun d e => steady_call) hr
  have hlog : Reach Fresh (guarded sound DeviceStep) (.on s j) :=
    hr.mono (fun _ h0 => h0) fun _ _ _ hst => ⟨steady_call hst.1, hst.2⟩
  have hstart : Reach Start (guarded G Step) ⟨s, j, DumpTx.cold, none⟩ := .start ⟨hlog, rfl, rfl⟩
  have hpick := reach_dumps hdump hstart _ (request_run s j 1 0 (232 + n))
  -- the first chunk
  obtain ⟨t, first, hone, hbytes, hsent, hpc, habort, hcredit⟩ := logged_chunk hread hdump hpick h
    hf hk hlow rfl Nat.zero_lt_two (n := 232) (by omega) (by omega)
  have hmore : ¬ 232 = 232 + n + 1 := by omega
  rw [decide_eq_false hmore] at hsent
  rw [Nat.add_zero] at hbytes
  have hpc' := hpc hmore
  rw [u32Sub_of_le (by omega) (by omega), Nat.add_assoc, Nat.add_sub_cancel_left] at hpc'
  -- one record more
  obtain ⟨hroom, h'⟩ := h.cycle (by omega) x
  have hlow' : Low (exec s (.append [x])) (.drain 0) := by
    show _ + _ ≤ 268435456
    omega
  have happ := hone.next (a := Move.append [x]) ⟨happend _ _, rfl⟩
  have hlogged : Reach Start (guarded G Step)
      ⟨exec (exec s (.append [x])) (.drain 0),
        (j.record s (.append [x])).record (exec s (.append [x])) (.drain 0), t,
        some (1, l.length - 43478)⟩ :=
    happ.next (a := Move.drain 0) ⟨hdrain _ hroom, rfl⟩
  have hsteady := (hr.next (a := Event.op (.append [x])) ⟨⟨trivial, trivial⟩, rfl⟩).next
    (a := Event.op (.drain 0)) ⟨⟨Int.le_refl 0, hlow'⟩, rfl⟩
  obtain ⟨hf', hl', hk'⟩ := reach_kept (fun d e => steady_call) hsteady
  generalize exec (exec s (.append [x])) (.drain 0) = s' at hlogged hf' hl' hk' h'
  generalize (j.record s (.append [x])).record _ _ = j' at hlogged hf' hl' hk' h'
  -- the second chunk
  have hreading := reach_again hdump hlogged (j := ⟨1, 232, n + 1⟩) hpc' (Nat.succ_pos n) habort
  have hlen : (l ++ [x]).length = l.length + 1 := by simp
  obtain ⟨t', second, htwo, hbytes', hsent', -, -, -⟩ := logged_chunk hread hdump hreading h'
    hf' hk' hl' rfl (by
      show 0 < t.dumpCreditSem.count
      rw [hcredit]
      exact Nat.zero_lt_one) (n := n + 1) (by omega) (by rw [hlen]; omega)
  rw [hlen] at hbytes'
  refine ⟨_, first, second, htwo, rfl, h'.drained, ?_, hbytes, hbytes'⟩
  rw [hsent', hsent, decide_eq_true rfl]
  rfl

/-- **Such a dump is consistent.**  Of sixteen records 264 bytes are asked for, and a seventeenth is
    logged before the last 32, half of which are its own. -/
theorem chunks_consistent_logging : ∃ d first second,
    Reach Start (guarded (fun d m => writes d m ∧ stays d m) Step) d ∧
      d.tx.sent = [⟨0, first, false⟩, ⟨232, second, true⟩] ∧
      first ++ second = (recordBytes (numbered 17)).take 264 ∧ Consistent d := by
  have hlen := numbered_length 16
  obtain ⟨d, first, second, hreach, -, -, hsent, hfirst, hsecond⟩ := logged_two_chunks
    (G := fun d m => writes d m ∧ stays d m) (fun _ => ⟨trivial, trivial⟩)
    (fun _ _ => ⟨trivial, trivial⟩) (fun _ _ => ⟨trivial, trivial⟩) (l := numbered 16)
    (by rw [hlen]; decide) ⟨17, 4352, 19, 20, 21, 22, 23, 17⟩ (by
      intro d htotal
      rw [hlen] at htotal
      refine ⟨⟨Int.le_refl 0, by omega⟩, fun session i _ _ _ => ?_⟩
      rw [recCapacity_eq]
      omega) (n := 31) (by decide) (by rw [hlen]; decide) (by rw [hlen]; decide)
  rw [hlen] at hfirst hsecond
  refine ⟨d, first, second, hreach, hsent, ?_, chunks_consistent hreach⟩
  rw [hfirst, hsecond]
  decide +kernel

/-- Records alike but for the seventeenth; as many as the ring holds. -/
def marked : List ImuSample := alikeButLast 16 ++ List.replicate 43461 default

theorem marked_length : marked.length = 43478 := by
  unfold marked
  rw [List.length_append, alikeButLast_length, List.length_replicate]

/-- Byte 240 is zero and byte 256 is one, however the list goes on. -/
theorem marked_bytes (more : List ImuSample) :
    (recordBytes (marked ++ more))[240]? = some 0 ∧ (recordBytes (marked ++ more))[256]? = some 1 := by
  have hsplit : marked ++ more =
      alikeButLast 16 ++ (List.replicate 43461 default ++ more) := List.append_assoc _ _ _
  have hlen : (recordBytes (alikeButLast 16)).length = 272 := by
    rw [recordBytes_length, alikeButLast_length]
  rw [hsplit, recordBytes_append, List.getElem?_append_left (by omega),
    List.getElem?_append_left (by omega)]
  constructor
  · decide +kernel
  · decide +kernel

/-- **A drain moves the base.**  Session 1 fills the ring; one record more is drained between its first
    chunk and its second, and the second chunk, at offset 232, starts at byte 248 of the session. -/
theorem base_moves : ¬ ∀ d, Reach Start (guarded writes Step) d → Consistent d := by
  intro hall
  obtain ⟨d, first, data, hreach, horigin, hdrained, hsent, -, hdata⟩ := logged_two_chunks
    (G := writes) (fun _ => trivial) (fun _ _ => trivial) (fun _ _ => trivial) (l := marked)
    (by rw [marked_length]; decide) default (by
      intro d htotal
      rw [marked_length] at htotal
      exact ⟨Int.le_refl 0, by omega⟩) (n := 15) (by decide) (by rw [marked_length]; decide)
    (by rw [marked_length]; decide)
  -- what the claim says of the second chunk
  obtain ⟨session, p, horigin', hall', -⟩ := hall d hreach (by rw [hsent]; simp)
  rw [horigin] at horigin'
  have hpair : (1, marked.length - 43478) = (session, p) := Option.some.inj horigin'
  rw [marked_length] at hpair
  obtain ⟨rfl, rfl⟩ := Prod.mk.inj hpair
  have hcar : Carries (d.journal.drained 1) (43478 - 43478) ⟨232, data, true⟩ :=
    hall' _ (by rw [hsent]; exact .tail _ (.head _))
  unfold Carries at hcar
  rw [hdrained] at hcar
  obtain ⟨rest, hrest⟩ := hcar
  -- and what it is
  obtain ⟨hzero, hone⟩ := marked_bytes [default]
  rw [marked_length] at hdata
  have hlen : data.length = 16 := by
    rw [hdata, List.length_take, List.length_drop, recordBytes_length, List.length_append,
      marked_length]
    decide
  have hread : data[8]? = some 1 := by
    rw [hdata, List.getElem?_take_of_lt (by decide), List.getElem?_drop]
    exact hone
  have hclaim : data[8]? = some 0 := by
    have hfront : (data ++ rest)[8]? = data[8]? := List.getElem?_append_left (by omega)
    rw [← hzero, ← hfront, hrest, List.getElem?_drop]
    rfl
  rw [hread] at hclaim
  exact absurd hclaim (by decide)

end Caterpillar.Ble.DumpLog
