/-
  Flash writes that fail.

  `writer_drain_batch` logs a failed data write and then goes on as if it had succeeded: the staging
  tail, the ring position and the session's count move past a batch that is not in flash.

  1. **The account** (`Account`) is kept beside the log and never read by it: per session the records
     that were actually written, and for the running session how many records were refused and how
     many were lost after they had been accepted.
  2. **Honest** says what the log owes: dumps consist of written records, and everything that is not
     written is counted in `log_dropped`.
  3. `written_and_counted` — an undisturbed run in which no start finds records staged is honest, and
     its dumps are exactly the written records.
  4. `lost_uncounted` — a failed data write is never counted, and neither is a start over staged
     records; `failed_write_readable` is a device that lists and dumps a record it never wrote.
-/
import Caterpillar.ImuLog.PowerLoss

namespace Caterpillar.ImuLog

open Caterpillar.Word Caterpillar.Ring Caterpillar.Runs Caterpillar.Imu

/-! ## The account -/

/-- What became of the records of a log. -/
structure Account where
  /-- Per session id: the records written to flash, in order, since that id was last opened. -/
  written : Nat → List ImuSample
  /-- Records refused since the last start, the staging ring being full. -/
  refused : Nat
  /-- Accepted records given up since the last start, or by it, without having been written. -/
  lost : Nat

/-- Nothing logged yet. -/
def Account.empty : Account := ⟨fun _ => [], 0, 0⟩

/-- How many records of a block `imu_log_append` refuses. -/
def refusals (s : Log) (xs : List ImuSample) : Nat := xs.length - (accepted s xs).length

/-- What a call adds to the account. -/
def Account.record (a : Account) (s : Log) : Op → Account
  | .start _ ret =>
      if s.active = true then a
      else
        -- `stage_tail = stage_head` gives up whatever is still staged
        { written := if ret < 0 then a.written else Function.update a.written s.seqNext []
          refused := 0
          lost := s.staged }
  | .append xs =>
      if s.active = true then { a with refused := a.refused + refusals s xs } else a
  | .drain ret =>
      -- a batch whose write fails is taken off the staging ring all the same
      if ret < 0 then { a with lost := a.lost + s.drainCount }
      else { a with
        written := Function.update a.written s.curSeq
          (a.written s.curSeq ++ s.stagedBatch s.drainCount) }
  | .stop => a
  | .erase => a

/-- What an event of the device adds to it; a reset clears the counter. -/
def Account.turn (a : Account) : Device → Event → Account
  | .on s _, .op o => a.record s o
  | .on s _, .cut o k => if k = 0 then a else a.record s o
  | .off _ _, .boot => { a with refused := 0, lost := 0 }
  | _, _ => a

/-- A device and its account, one event on. -/
def AuditStep (x : Device × Account) (e : Event) (y : Device × Account) : Prop :=
  DeviceStep x.1 e y.1 ∧ y.2 = x.2.turn x.1 e

/-- A fresh device, nothing logged. -/
def AuditFresh (x : Device × Account) : Prop := Fresh x.1 ∧ x.2 = Account.empty

/-- **What the log owes**: every dump consists of records that were appended to the session and
    written, and every record that is not written is counted. -/
structure Honest (s : Log) (j : Journal) (a : Account) : Prop where
  genuine : ∀ seq, ∃ l : List ImuSample,
    (∀ x ∈ l, x ∈ j.appended seq ∧ x ∈ a.written seq) ∧
    ∀ offset len, imuLogReadSession s seq offset len = ((recordBytes l).drop offset).take len
  counted : s.logDropped = u32 (a.refused + a.lost)

/-- No write fails, no start finds records staged, `total_abs` stays at most 2^28, the staging ring
    does not straddle the wrap of its counters with more than 1024 records in it, and no power cut
    makes the next boot readmit records that were overwritten. -/
def faultless (x : Device × Account) (e : Event) : Prop :=
  undisturbed x.1 e ∧
    ∀ s j st ret, x.1 = .on s j → e = .op (.start st ret) → s.active = false → s.staged = 0

/-! ## The counter -/

theorem accepted_length_le (xs : List ImuSample) : ∀ s, (accepted s xs).length ≤ xs.length := by
  induction xs with
  | nil =>
    intro s
    exact Nat.le_refl 0
  | cons x xs ih =>
    intro s
    have hrest := ih (appendOne s x)
    rw [accepted]
    split
    · rw [List.length_cons]
      omega
    · rw [List.length_cons, List.length_cons]
      omega

/-- **The staging loop** counts what it refuses. -/
theorem appendFold_dropped (xs : List ImuSample) : ∀ (s : Log) (r : Nat), s.logDropped = u32 r →
    (xs.foldl appendOne s).logDropped = u32 (r + refusals s xs) := by
  induction xs with
  | nil =>
    intro s r h
    exact h
  | cons x xs ih =>
    intro s r h
    have hle := accepted_length_le xs (appendOne s x)
    by_cases hfull : u32Sub s.stageHead s.stageTail ≥ stageN
    · have hone : appendOne s x = { s with logDropped := u32 (s.logDropped + 1) } := if_pos hfull
      have hacc : accepted s (x :: xs) = accepted (appendOne s x) xs := if_pos hfull
      have hcount : (appendOne s x).logDropped = u32 (r + 1) := by
        rw [hone]
        show u32 (s.logDropped + 1) = u32 (r + 1)
        rw [h, u32_u32_add]
      have hsum : r + refusals s (x :: xs) = r + 1 + refusals (appendOne s x) xs := by
        unfold refusals
        rw [hacc, List.length_cons]
        omega
      rw [hsum]
      exact ih _ _ hcount
    · have hone : appendOne s x = { s with
          stage := Function.update s.stage (s.stageHead % stageN) x
          stageHead := u32 (s.stageHead + 1) } := if_neg hfull
      have hacc : accepted s (x :: xs) = x :: accepted (appendOne s x) xs := if_neg hfull
      have hcount : (appendOne s x).logDropped = u32 r := by
        rw [hone]
        exact h
      have hsum : refusals s (x :: xs) = refusals (appendOne s x) xs := by
        unfold refusals
        rw [hacc, List.length_cons, List.length_cons]
        omega
      rw [hsum]
      exact ih _ _ hcount

/-- What each call does to the counter. -/
theorem exec_dropped (s : Log) (o : Op) :
    (exec s o).logDropped = match o with
      | .start _ _ => if s.active = true then s.logDropped else 0
      | .append xs =>
          if s.active = true then (xs.foldl appendOne s).logDropped else s.logDropped
      | _ => s.logDropped := by
  have hout := exec_cases s o
  generalize exec s o = s' at hout
  cases hout with
  | idle hidle =>
    rcases hidle with ⟨st, ret, rfl, ha⟩ | ⟨xs, rfl, ha⟩ | ⟨ret, rfl, -⟩ | ⟨rfl, -⟩
    · exact (if_pos ha).symm
    · exact (if_neg (by rw [ha]; decide)).symm
    · rfl
    · rfl
  | failed ha _ => exact (if_neg (by rw [ha]; decide)).symm
  | opened ha _ => exact (if_neg (by rw [ha]; decide)).symm
  | staged ha => exact (if_pos ha).symm
  | wrote _ _ _ _ => rfl
  | closed _ _ => rfl
  | wiped _ _ => rfl

/-- The boot clears it. -/
theorem boot_dropped {f : Flash} (hf : f.dirMeta = ownMeta → f.Filed 4294967295) :
    (bootLog f).logDropped = 0 := by
  by_cases hm : f.dirMeta = ownMeta
  · obtain ⟨⟨g, t, heq⟩, -⟩ := bootLog_own (hf hm).plainCounts hm
    rw [heq]
    rfl
  · rw [bootLog_foreign hm]
    rfl

/-! ## Undisturbed runs -/

/-- The account of a log that has lost nothing: what is written is what was drained. -/
structure Exact (s : Log) (j : Journal) (a : Account) : Prop where
  written : a.written = j.drained
  lost : a.lost = 0
  counted : s.logDropped = u32 a.refused

/-- As long as writes succeed, what is drained is written. -/
theorem record_written {s : Log} {j : Journal} {a : Account} (h : a.written = j.drained) {o : Op}
    (hok : o.Ok) : (a.record s o).written = (j.record s o).drained := by
  cases o with
  | start st ret =>
    have hret : ¬ ret < 0 := Int.not_lt.mpr hok
    cases ha : s.active with
    | true =>
      have hacc : a.record s (.start st ret) = a := if_pos ha
      have hj : j.record s (.start st ret) = j := if_pos (Or.inl ha)
      rw [hj, hacc, h]
    | false =>
      have hacc : (a.record s (.start st ret)).written = Function.update a.written s.seqNext [] := by
        have hna : ¬ s.active = true := by rw [ha]; decide
        have hclaim : a.record s (.start st ret) = ⟨if ret < 0 then a.written
          else Function.update a.written s.seqNext [], 0, s.staged⟩ := if_neg hna
        rw [hclaim]
        exact if_neg hret
      rw [hacc, record_start_ok j s st ha hret, h]
  | append xs =>
    cases ha : s.active with
    | true =>
      have hacc : a.record s (.append xs) = { a with refused := a.refused + refusals s xs } :=
        if_pos ha
      rw [record_append j s xs ha, hacc]
      exact h
    | false =>
      have hna : ¬ s.active = true := by rw [ha]; decide
      have hj : j.record s (.append xs) = j := if_neg hna
      have hacc : a.record s (.append xs) = a := if_neg hna
      rw [hj, hacc, h]
  | drain ret =>
    have hacc : a.record s (.drain ret) = { a with
        written := Function.update a.written s.curSeq
          (a.written s.curSeq ++ s.stagedBatch s.drainCount) } := if_neg (Int.not_lt.mpr hok)
    rw [hacc, record_drain, h]
  | stop => exact h
  | erase => exact h

/-- **Step lemma.**  A call whose write succeeds, and which finds no records staged if it is a start,
    loses nothing. -/
theorem exec_exact {s : Log} {j : Journal} {a : Account} (h : Exact s j a) {o : Op} (hok : o.Ok)
    (hempty : ∀ st ret, o = .start st ret → s.active = false → s.staged = 0) :
    Exact (exec s o) (j.record s o) (a.record s o) := by
  have hwritten := record_written (s := s) h.written hok
  have hdropped := exec_dropped s o
  rcases h with ⟨-, hlost, hcounted⟩
  cases o with
  | start st ret =>
    cases ha : s.active with
    | true =>
      have hacc : a.record s (.start st ret) = a := if_pos ha
      rw [hacc] at hwritten ⊢
      exact ⟨hwritten, hlost, (hdropped.trans (if_pos ha)).trans hcounted⟩
    | false =>
      have hna : ¬ s.active = true := by rw [ha]; decide
      have hacc : ∃ w, a.record s (.start st ret) = ⟨w, 0, s.staged⟩ := ⟨_, if_neg hna⟩
      rcases hacc with ⟨w, hacc⟩
      rw [hacc] at hwritten ⊢
      exact ⟨hwritten, hempty st ret rfl ha, hdropped.trans (if_neg hna)⟩
  | append xs =>
    cases ha : s.active with
    | true =>
      have hacc : a.record s (.append xs) = { a with refused := a.refused + refusals s xs } :=
        if_pos ha
      rw [hacc] at hwritten ⊢
      exact ⟨hwritten, hlost,
        (hdropped.trans (if_pos ha)).trans (appendFold_dropped xs s a.refused hcounted)⟩
    | false =>
      have hna : ¬ s.active = true := by rw [ha]; decide
      have hacc : a.record s (.append xs) = a := if_neg hna
      rw [hacc] at hwritten ⊢
      exact ⟨hwritten, hlost, (hdropped.trans (if_neg hna)).trans hcounted⟩
  | drain ret =>
    have hacc : ∃ w, a.record s (.drain ret) = { a with written := w } :=
      ⟨_, if_neg (Int.not_lt.mpr hok)⟩
    rcases hacc with ⟨w, hacc⟩
    rw [hacc] at hwritten ⊢
    exact ⟨hwritten, hlost, hdropped.trans hcounted⟩
  | stop => exact ⟨hwritten, hlost, hdropped.trans hcounted⟩
  | erase => exact ⟨hwritten, hlost, hdropped.trans hcounted⟩

/-- A device whose account is exact; without power there is no counter to go by. -/
def ExactDevice : Device × Account → Prop
  | (.on s j, a) => Exact s j a
  | (.off _ j, a) => a.written = j.drained

/-- The device of an audited run runs on its own. -/
theorem audit_device {G : Device × Account → Event → Prop} {H : Device → Event → Prop}
    (hG : ∀ x e, G x e → H x.1 e) {x : Device × Account}
    (h : Reach AuditFresh (guarded G AuditStep) x) : Reach Fresh (guarded H DeviceStep) x.1 := by
  induction h with
  | start hi => exact .start hi.1
  | next _ hst ih => exact ih.next ⟨hG _ _ hst.1, hst.2.1⟩

/-- **Run lemma.** -/
theorem reach_exact {x : Device × Account} (h : Reach AuditFresh (guarded faultless AuditStep) x) :
    ExactDevice x := by
  refine Reach.invariant (I := ExactDevice) ?_ ?_ h
  · rintro ⟨d, a⟩ ⟨⟨f, rfl, -⟩, rfl⟩
    rfl
  · rintro ⟨d, a⟩ e ⟨d', a'⟩ hr hx ⟨⟨⟨hcall, -⟩, hempty⟩, hst, rfl⟩
    have hfiled := (reach_kept undisturbed_call (audit_device (fun _ _ hg => hg.1) hr)).1
    cases device_turn hst with
    | call s j o => exact exec_exact hx hcall.1 fun st ret ho => hempty s j st ret rfl (by rw [ho])
    | uncalled s j o => exact Exact.written hx
    | cut s j o k => exact record_written (Exact.written hx) hcall.1
    | boot f j => exact ⟨hx, rfl, boot_dropped hfiled⟩
    | bootCut f j k => exact hx

/-! ## Every dump -/

/-- **Written and counted.**  In every faultless run the log is honest; the dump of a listed session
    is the part of its written records that the ring still holds; what is written is a beginning of
    what was appended; and of the running session everything accepted is written or still staged. -/
theorem written_and_counted {s : Log} {j : Journal} {a : Account}
    (h : Reach AuditFresh (guarded faultless AuditStep) (.on s j, a)) :
    Honest s j a ∧
    (∀ i, i < maxSessions → (s.flash.entries i).Valid → ∀ offset len,
      imuLogReadSession s (s.flash.entries i).seq offset len =
        ((recordBytes (s.readable i (a.written (s.flash.entries i).seq))).drop offset).take len) ∧
    (∀ seq, a.written seq <+: j.appended seq) ∧
    (s.active = true → s.StageSafe → j.appended s.curSeq = a.written s.curSeq ++ s.pending) := by
  have hexact : Exact s j a := reach_exact h
  have hdev : Reach Fresh (guarded undisturbed DeviceStep) (.on s j) :=
    audit_device (fun _ _ hg => hg.1) h
  obtain ⟨hf, hl, hk⟩ := reach_kept undisturbed_call hdev
  have hs : s.Filed := hf
  have hfifo : s.Fifo j := reach_fifo hdev
  have hdump : ∀ i, i < maxSessions → (s.flash.entries i).Valid → ∀ offset len,
      imuLogReadSession s (s.flash.entries i).seq offset len =
        ((recordBytes (s.readable i (a.written (s.flash.entries i).seq))).drop offset).take len := by
    intro i hi hv offset len
    rw [hexact.written]
    exact (dump_exact hs hk hl hi hv offset len).1
  have hbeg : ∀ seq, a.written seq <+: j.appended seq := by
    intro seq
    rw [hexact.written]
    exact hfifo.beginning seq
  refine ⟨⟨?_, ?_⟩, hdump, hbeg, ?_⟩
  · intro seq
    cases hfind : s.flash.findSession seq with
    | none =>
      refine ⟨[], fun x hx => absurd hx (by simp), fun offset len => ?_⟩
      have hnothing : imuLogReadSession s seq offset len = [] := by
        unfold imuLogReadSession
        rw [hfind]
      rw [hnothing]
      simp
    | some i =>
      obtain ⟨hi, hv, rfl⟩ := findSession_some hfind
      refine ⟨_, fun x hx => ?_, hdump i hi hv⟩
      have hx' : x ∈ a.written (s.flash.entries i).seq :=
        List.mem_of_mem_take (List.mem_of_mem_drop hx)
      exact ⟨(hbeg _).subset hx', hx'⟩
  · rw [hexact.lost]
    exact hexact.counted
  · intro hact hsafe
    rw [hexact.written]
    exact hfifo.fifo (Or.inl hact) hsafe

/-! ## What a fault does -/

/-- A count that grows by less than 2^32 shows. -/
theorem u32_add_ne {n k : Nat} (hpos : 0 < k) (hlt : k < 4294967296) : u32 n ≠ u32 (n + k) := by
  unfold u32
  omega

/-- **Faults are not counted.**  Whatever the account was, a data write that fails leaves
    `log_dropped` short of the records it loses. -/
theorem lost_uncounted {s : Log} {a : Account} (h : s.logDropped = u32 (a.refused + a.lost))
    {ret : Int} (hret : ret < 0) (hstaged : s.staged ≠ 0) :
    (exec s (.drain ret)).logDropped ≠
      u32 ((a.record s (.drain ret)).refused + (a.record s (.drain ret)).lost) := by
  have hpos := drainCount_pos s hstaged
  have hbatch := drainCount_le_batch s
  have hacc : a.record s (.drain ret) = { a with lost := a.lost + s.drainCount } := if_pos hret
  rw [exec_dropped, hacc]
  show s.logDropped ≠ u32 (a.refused + (a.lost + s.drainCount))
  rw [h, ← Nat.add_assoc]
  exact u32_add_ne hpos (by omega)

/-- Neither is what a start finds staged. -/
theorem overstart_uncounted {s : Log} {a : Account} (ha : s.active = false) (st : Stamp) (ret : Int)
    (hstaged : s.staged ≠ 0) :
    (exec s (.start st ret)).logDropped ≠
      u32 ((a.record s (.start st ret)).refused + (a.record s (.start st ret)).lost) := by
  have hna : ¬ s.active = true := by rw [ha]; decide
  have hcount : (exec s (.start st ret)).logDropped = 0 := (exec_dropped s _).trans (if_neg hna)
  have hacc : ∃ w, a.record s (.start st ret) = ⟨w, 0, s.staged⟩ := ⟨_, if_neg hna⟩
  rcases hacc with ⟨w, hacc⟩
  rw [hcount, hacc]
  have hword : s.staged < 4294967296 := u32Sub_lt _ _
  have hne := u32_add_ne (n := 0) (Nat.pos_of_ne_zero hstaged) hword
  exact hne

/-! ## A device that reads what it never wrote -/

/-- A call extends an audited run. -/
theorem audit_call {G : Device × Account → Event → Prop} {s : Log} {j : Journal} {a : Account}
    (h : Reach AuditFresh (guarded G AuditStep) (.on s j, a)) (o : Op) (hg : G (.on s j, a) (.op o)) :
    Reach AuditFresh (guarded G AuditStep) (.on (exec s o) (j.record s o), a.record s o) :=
  h.next (a := .op o) ⟨hg, rfl, rfl⟩

/-- Data writes may fail, the others succeed. -/
def failing (x : Device × Account) (e : Event) : Prop :=
  onCall (fun _ o => ∀ st ret, o = .start st ret → 0 ≤ ret) x.1 e

/-- A blank device, booted. -/
theorem audit_boot {G : Device × Account → Event → Prop}
    (hboot : G (.off Flash.blank Journal.empty, .empty) .boot) :
    Reach AuditFresh (guarded G AuditStep)
      (.on (bootLog Flash.blank) Journal.empty, Account.empty) := by
  have hfresh : Reach AuditFresh (guarded G AuditStep)
      (.off Flash.blank Journal.empty, Account.empty) :=
    .start ⟨⟨Flash.blank, rfl, by decide⟩, rfl⟩
  exact hfresh.next (a := .boot) ⟨hboot, rfl, rfl⟩

/-- A session of one record: the record is listed, whatever becomes of its write. -/
theorem drain_lists {s : Log} {j : Journal} (h : Logged [] s j) (ret : Int) :
    let s' := exec (exec s (.append [default])) (.drain ret)
    s'.liveCount 0 = 1 ∧ s'.clippedStart 0 = 0 ∧ s'.totalAbs = 1 ∧
      (s'.flash.entries 0).Valid ∧ (s'.flash.entries 0).seq = 1 ∧
      (s'.flash.entries 0).startRec = 0 := by
  obtain ⟨hap, -, -⟩ := h.append default
  obtain ⟨-, hone, hn⟩ := h.one_staged default
  generalize exec s (.append [default]) = s₁ at hap hone hn ⊢
  have htr : s₁ = { s₁ with trace := [] } := by rw [hap]
  have hcount : s₁.curCount = 0 := by rw [hap]; exact h.count
  have htot : s₁.totalAbs = 0 := by rw [hap]; exact h.total
  have hslot : s₁.curSlot = 0 := by rw [hap]; exact h.slot
  have hlast : s₁.lastDirRefresh = 0 := by rw [hap]; exact h.refreshed
  have hact : s₁.active = true := by rw [hap]; exact h.active
  have hentries : s₁.flash.entries 0 = s.flash.entries 0 := by rw [hap]
  obtain ⟨e, he, hv, hseq, hstart, -⟩ := h.entry
  have hdrain : exec s₁ (.drain ret) = s₁.drained ret := by
    show writerDrainBatch { s₁ with trace := [] } ret = _
    rw [← htr, writerDrainBatch_eq s₁ ret (by omega)]
    refine if_neg ?_
    rw [hn, hcount, hlast]
    decide
  rw [hdrain]
  have hentry : (s₁.drained ret).flash.entries 0 = e := by
    show ((s₁.drainWrite ret).effect s₁.flash).entries 0 = e
    rw [drainWrite_entries, hentries, he]
  have htotal : (s₁.drained ret).totalAbs = 1 := by
    show u32 (s₁.totalAbs + s₁.drainCount) = 1
    rw [htot, hn]
    rfl
  refine ⟨?_, ?_, htotal, ?_⟩
  · have hlive : (s₁.drained ret).liveCount 0 = u32 (s₁.curCount + s₁.drainCount) :=
      if_pos ⟨hact, hslot.symm⟩
    rw [hlive, hcount, hn]
    rfl
  · unfold Log.clippedStart Log.ringFloor
    rw [hentry, hstart, htotal]
    rfl
  · rw [hentry]
    exact ⟨hv, hseq, hstart⟩

/-- Up to 2^28 records a session of any length is logged without a fault. -/
theorem audit_logged (l : List ImuSample) (hl : l.length ≤ 268435456) : ∃ s j a,
    Reach AuditFresh (guarded faultless AuditStep) (.on s j, a) ∧ Logged l s j := by
  have hnostart : ∀ {s : Log} {j : Journal} {o : Op}, (∀ st ret, o ≠ .start st ret) →
      ∀ s' j' st ret, Device.on s j = .on s' j' → Event.op o = .op (.start st ret) →
        s'.active = false → s'.staged = 0 := by
    intro s j o ho s' j' st ret _ heq
    cases heq
    exact absurd rfl (ho st ret)
  induction l using List.reverseRecOn with
  | nil =>
    have hboot : Reach AuditFresh (guarded faultless AuditStep) _ :=
      audit_boot ⟨⟨trivial, trivial⟩, fun _ _ _ _ heq => by cases heq⟩
    have hle : (bootLog Flash.blank).stageTail ≤ (bootLog Flash.blank).stageHead := by
      rw [bootLog_foreign (by decide)]
      exact Nat.le_refl _
    refine ⟨_, _, _, audit_call hboot (.start Stamp.zero 0) ?_, logged_nil⟩
    refine ⟨⟨⟨Int.le_refl 0, trivial, Or.inl hle⟩, trivial⟩, ?_⟩
    rintro s j st ret heq - -
    cases heq
    rw [bootLog_foreign (by decide)]
    rfl
  | append_singleton l x ih =>
    rw [List.length_append, List.length_singleton] at hl
    obtain ⟨s, j, a, hr, hlog⟩ := ih (by omega)
    obtain ⟨hap, -, -⟩ := hlog.append x
    obtain ⟨hroom, hmore⟩ := hlog.cycle (by omega) x
    have hbelow : s.stageTail ≤ s.stageHead := Nat.le_of_eq (hlog.tail.trans hlog.head.symm)
    have happ := audit_call hr (.append [x])
      ⟨⟨⟨trivial, trivial, Or.inl hbelow⟩, trivial⟩, hnostart fun _ _ h => by cases h⟩
    have hbelow' : (exec s (.append [x])).stageTail ≤ (exec s (.append [x])).stageHead := by
      rw [(hlog.one_staged x).1, hap]
      show s.stageTail ≤ _
      rw [hlog.tail, u32_of_lt (by omega), u32_of_lt (by omega)]
      exact Nat.le_succ _
    have hdrain := audit_call happ (.drain 0)
      ⟨⟨⟨Int.le_refl 0, Nat.le_trans (Nat.le_of_eq hroom) hl, Or.inl hbelow'⟩, trivial⟩,
        hnostart fun _ _ h => by cases h⟩
    exact ⟨_, _, _, hdrain, hmore⟩

/-- A session of three records, written and dumped from its second byte on. -/
theorem written_and_counted_three : ∃ s j a,
    Reach AuditFresh (guarded faultless AuditStep) (.on s j, a) ∧ Honest s j a ∧
      a.written 1 = numbered 3 ∧
      imuLogReadSession s 1 1 40 = ((recordBytes (numbered 3)).drop 1).take 40 := by
  obtain ⟨s, j, a, hr, h⟩ := audit_logged (numbered 3) (by decide)
  obtain ⟨hhonest, hdump, -, -⟩ := written_and_counted hr
  have hwritten : a.written 1 = numbered 3 := by
    rw [(show Exact _ _ _ from reach_exact hr).written]
    exact h.drained
  obtain ⟨e, he, hv, hseq, hstart, -⟩ := h.entry
  obtain ⟨hclip, hcount⟩ := logged_readable h
  have hread := hdump 0 (by decide) (by rw [he]; exact hv) 1 40
  rw [readable_slice, hclip, hcount, he, hseq, hstart, hwritten] at hread
  exact ⟨s, j, a, hr, hhonest, hwritten, hread⟩

/-- **Without the condition on writes** the log is not honest: session 1 logs one record, its write
    fails, and a dump of the session delivers the 16 bytes that were in flash before. -/
theorem failed_write_readable :
    ¬ ∀ s j a, Reach AuditFresh (guarded failing AuditStep) (.on s j, a) → Honest s j a := by
  intro hall
  have hlog := logged_nil
  have hboot : Reach AuditFresh (guarded failing AuditStep) _ := audit_boot trivial
  have hopen := audit_call hboot (.start Stamp.zero 0) (fun st ret ho => by cases ho; decide)
  have hnew : (Account.empty.record (bootLog Flash.blank) (.start Stamp.zero 0)).written 1 = [] := by
    rw [bootLog_foreign (by decide)]
    rfl
  have hfiled : (exec (bootLog Flash.blank) (.start Stamp.zero 0)).Filed :=
    exec_filed (boot_filed fun hown => absurd hown (by decide)) _ trivial
  generalize exec (bootLog Flash.blank) (.start Stamp.zero 0) = s₀ at hlog hopen hfiled
  generalize Journal.empty.record (bootLog Flash.blank) (.start Stamp.zero 0) = j₀ at hlog hopen
  generalize Account.empty.record (bootLog Flash.blank) (.start Stamp.zero 0) = a₀ at hopen hnew
  have happ := audit_call hopen (.append [default]) (fun st ret ho => by cases ho)
  have hdrain := audit_call happ (.drain (-5)) (fun st ret ho => by cases ho)
  obtain ⟨hlive, hclip, htot, hv, hseq, hstart⟩ := drain_lists hlog (-5)
  -- nothing has been written, so nothing may be dumped
  have hsame : ((a₀.record s₀ (.append [default])).record (exec s₀ (.append [default]))
      (.drain (-5))).written 1 = [] := by
    have hacc : a₀.record s₀ (.append [default]) = { a₀ with
        refused := a₀.refused + refusals s₀ [default] } := if_pos hlog.active
    rw [hacc]
    exact hnew
  obtain ⟨l, hl, hread⟩ := (hall _ _ _ hdrain).genuine 1
  have hnone : l = [] := by
    refine List.eq_nil_iff_forall_not_mem.mpr fun x hx => ?_
    have hmem := (hl x hx).2
    rw [hsame] at hmem
    exact absurd hmem (by simp)
  -- but the dump has 16 bytes
  obtain ⟨hap, -, -⟩ := hlog.append default
  obtain ⟨-, -, hn⟩ := hlog.one_staged default
  have hroom : Room (exec s₀ (.append [default])) (.drain (-5)) := by
    have htot' : (exec s₀ (.append [default])).totalAbs = 0 := by rw [hap]; exact hlog.total
    have hcount : (exec s₀ (.append [default])).curCount = 0 := by rw [hap]; exact hlog.count
    show _ + _ < 4294967296 ∧ _ + _ < 4294967295
    omega
  have hfiled' := exec_filed (exec_filed hfiled (.append [default]) trivial) (.drain (-5)) hroom
  have hdump := hread 0 16
  generalize exec (exec s₀ (.append [default]))
    (.drain (-5)) = s at hlive hclip htot hv hseq hstart hfiled' hdump
  have hcount : s.readableCount 0 = 1 := by
    unfold Log.readableCount
    rw [hstart, hlive, hclip]
  have hsize := congrArg List.length hdump
  rw [← hseq, readSession_eq hfiled'.entries (by rw [htot]; decide) (by decide) hv
    (Nat.le_of_eq (by rw [hstart, hlive, htot])), hstart, hlive, hclip, hcount, if_neg (by decide),
    if_neg (by decide), readLoop_get _ _ _ (by decide), hnone] at hsize
  rw [List.length_map, List.length_range] at hsize
  exact absurd hsize (by decide)

end Caterpillar.ImuLog
