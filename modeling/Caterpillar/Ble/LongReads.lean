/-
  Long reads of 0xFFF0 and 0xFFEF (src/ble/ble_interface.c): `on_t2log_read`, `on_dir_read`.

  Both callbacks build the whole value anew for every request and hand it to `bt_gatt_attr_read`,
  which applies the offset.  Nothing holds the value of the first request until the last one, so what
  a host puts together is one value only if the value stood still:

  1. the tier-2 log, as long as the ring gives up no byte between the first request and the last
     (`displaced`); what is logged in between only makes the value longer;
  2. the session directory, as long as the list stays the same, record counts included, which it does
     whatever is appended (`Quiet`).

  A drain changes the list: it moves the count of the running session.  That count lies in the first 16
  bytes of the value, so the pieces then make up the value at the *first* request, if that request
  covers these bytes and the drain changes nothing else in the list (`Counts`).

  The snapshot and the list each run under a lock of their own, `msgq_lock` and `log_lock`, so a
  request falls between two steps of `ble_msg` and between two calls of the log.
-/
import Caterpillar.Lib.LongRead
import Caterpillar.Host.Protocol
import Caterpillar.Ble.Messages

namespace Caterpillar.Ble.LongReads

open Caterpillar.Word Caterpillar.Bytes Caterpillar.Runs Caterpillar.LongRead
open Caterpillar.Imu Caterpillar.ImuLog
open Caterpillar.Ble.Messages Caterpillar.Ble.Packets
open Caterpillar.Host (dirStores_tiles dirStores_size dirStores_fields dirHead wordsOf bytesOf entriesOf)

/-! ## The servers -/

/-- The value `on_t2log_read` builds in `char snap[2048]`. -/
def onT2logRead (s : Msgs) : List UInt8 := t2Snapshot s t2RingSize

/-- 0xFFF0, over everything `ble_msg` and the sending thread can do. -/
def t2logServer (base : Nat) : Server Msgs Messages.Act UInt8 where
  init := Start base
  step := Messages.step
  ready s := s.holder.isNone
  value := onT2logRead

/-- 0xFFEF, over the calls of the log; `pkt` is what the stack held where `on_dir_read` builds its
    packet. -/
def dirServer (pkt : Log → Buffer) : Server Log Op UInt8 where
  init s := ∃ f, s = bootLog f
  step s op := some (exec s op)
  ready _ := true
  value s := dirPacket (imuLogSessionList s maxSessions) (pkt s)

/-! ## The tier-2 log -/

/-- How many bytes of the history the value no longer reaches. -/
def displaced (s : Msgs) : Nat := s.history.length - (onT2logRead s).length

/-- Storing a line is the only step that the history sees. -/
theorem prodStep_called {s s' : Msgs} (h : prodStep s = some s') : s.called <+: s'.called := by
  unfold prodStep at h
  split at h
  · cases h
  · rename_i line up hpc
    obtain rfl := Option.some.inj h
    exact List.prefix_append _ _
  · rename_i line hpc
    split at h
    · obtain rfl := Option.some.inj h
      exact List.prefix_refl _
    · obtain rfl := Option.some.inj h
      exact List.prefix_refl _
  · rename_i line k hpc
    split at h
    · obtain rfl := Option.some.inj h
      exact List.prefix_refl _
    · obtain rfl := Option.some.inj h
      exact List.prefix_refl _
  · obtain rfl := Option.some.inj h
    exact List.prefix_refl _
  · obtain rfl := Option.some.inj h
    exact List.prefix_refl _

theorem step_called {s s' : Msgs} {a : Messages.Act} (h : Messages.step s a = some s') :
    s.called <+: s'.called := by
  cases a with
  | msg text up =>
    obtain ⟨-, h⟩ := Option.ite_none_right_eq_some.mp h
    obtain rfl := Option.some.inj h
    exact List.prefix_refl _
  | prod => exact prodStep_called h
  | tx =>
    cases hpc : s.tx with
    | idle =>
      simp only [Messages.step, hpc] at h
      obtain ⟨-, h⟩ := Option.ite_none_right_eq_some.mp h
      obtain rfl := Option.some.inj h
      exact List.prefix_refl _
    | sending len tries =>
      simp only [Messages.step, hpc] at h
      cases h
  | attempt =>
    cases hpc : s.tx with
    | idle =>
      simp only [Messages.step, hpc] at h
      cases h
    | sending len tries =>
      simp only [Messages.step, hpc] at h
      obtain ⟨-, h⟩ := Option.ite_none_right_eq_some.mp h
      obtain rfl := Option.some.inj h
      exact List.prefix_refl _
  | returned =>
    cases hpc : s.tx with
    | idle =>
      simp only [Messages.step, hpc] at h
      cases h
    | sending len tries =>
      simp only [Messages.step, hpc] at h
      obtain rfl := Option.some.inj h
      exact List.prefix_refl _

/-- **Step lemma**: the history only grows. -/
theorem step_history {s s' : Msgs} {a : Messages.Act} (h : Messages.step s a = some s') :
    s.history <+: s'.history := by
  obtain ⟨calls, hcalls⟩ := step_called h
  unfold Msgs.history
  rw [← hcalls, List.flatMap_append]
  exact List.prefix_append _ _

/-- The value is the history without the bytes displaced. -/
theorem value_drop {base : Nat} {s : Msgs} (h : Inv base s) :
    onT2logRead s = s.history.drop (displaced s) ∧
      displaced s = s.history.length - min (u32 s.history.length) 2048 := by
  have hsnap := h.remembers.snapshot_any t2RingSize
  have hcounted : u32 s.history.length ≤ s.history.length := Nat.mod_le _ _
  have hsize : t2RingSize = 2048 := rfl
  have hd : displaced s = s.history.length - min (u32 s.history.length) 2048 := by
    unfold displaced onT2logRead
    rw [hsnap, List.length_drop, hsize]
    omega
  rw [hd]
  refine ⟨hsnap.trans ?_, rfl⟩
  rw [hsize, Nat.min_assoc, Nat.min_self]

/-- A byte displaced stays so. -/
theorem displaced_mono {base : Nat} {s s' : Msgs} (h : Inv base s) (h' : Inv base s')
    (hgrow : s.history <+: s'.history) : displaced s ≤ displaced s' := by
  have hle := hgrow.length_le
  rw [(value_drop h).2, (value_drop h').2]
  unfold u32
  omega

/-! ## The session directory -/

/-- The packet does not depend on what the stack held. -/
theorem dirPacket_any (list : List ImuLogSession) (s s' : Buffer) :
    dirPacket list s = dirPacket list s' := by
  have hsize := dirStores_size list
  unfold dirPacket
  rw [slice_stores s (dirStores_tiles list) hsize, slice_stores s' (dirStores_tiles list) hsize]

/-- The list, without the count of its first session. -/
def uncounted : List ImuLogSession → List ImuLogSession
  | [] => []
  | e :: list => { e with recCount := 0 } :: list

/-- The packet behind its first 16 bytes: the header, and three words of the first entry. -/
theorem drop_dirPacket (e : ImuLogSession) (list : List ImuLogSession) (s : Buffer) :
    (dirPacket (e :: list) s).drop 16 = (bytesOf e ++ entriesOf list).flatMap Field.bytes := by
  have himage : dirPacket (e :: list) s =
      (dirHead (list.length + 1) ++ wordsOf e).flatMap Field.bytes ++
        (bytesOf e ++ entriesOf list).flatMap Field.bytes := by
    unfold dirPacket
    rw [slice_stores s (dirStores_tiles _) (dirStores_size _), imageOf_eq, dirStores_fields,
      ← List.flatMap_append, entriesOf, List.flatMap_cons, ← entriesOf, List.length_cons,
      List.append_assoc, List.append_assoc]
  have hfront : ((dirHead (list.length + 1) ++ wordsOf e).flatMap Field.bytes).length = 16 := rfl
  rw [himage, List.drop_left' hfront]

/-- That count is the last field in these 16 bytes. -/
theorem dirPacket_uncounted {list list' : List ImuLogSession} (h : uncounted list = uncounted list')
    (s s' : Buffer) : SameFrom 16 (dirPacket list s) (dirPacket list' s') := by
  cases list with
  | nil =>
    cases list' with
    | nil =>
      rw [dirPacket_any [] s s']
      exact ⟨rfl, rfl⟩
    | cons e' l' => cases h
  | cons e l =>
    cases list' with
    | nil => cases h
    | cons e' l' =>
      obtain ⟨he, rfl⟩ := List.cons.inj h
      obtain ⟨-, -, -, hodr, hcontent, haccel, hgyro⟩ := ImuLogSession.mk.inj he
      have hbytes : bytesOf e = bytesOf e' := by
        unfold bytesOf
        rw [hodr, hcontent, haccel, hgyro]
      constructor
      · exact (slice_length _ _ _).trans (slice_length _ _ _).symm
      · rw [drop_dirPacket, drop_dirPacket, hbytes]

/-- What the list goes by. -/
theorem sessionList_congr {s s' : Log} (hflash : s'.flash = s.flash)
    (htotal : s'.totalAbs = s.totalAbs) (hactive : s'.active = s.active)
    (hrunning : s.active = true → s'.curSlot = s.curSlot ∧ s'.curCount = s.curCount) (max : Int) :
    imuLogSessionList s' max = imuLogSessionList s max := by
  have hfloor : s'.ringFloor = s.ringFloor := by
    unfold Log.ringFloor
    rw [htotal]
  have hslot : s'.listSlot = s.listSlot := by
    funext i
    have hclipped : s'.clippedStart i = s.clippedStart i := by
      unfold Log.clippedStart
      rw [hflash, hfloor]
    have hlive : s'.liveCount i = s.liveCount i := by
      unfold Log.liveCount
      rw [hflash, hactive]
      by_cases ha : s.active = true
      · obtain ⟨hslot, hcount⟩ := hrunning ha
        rw [hslot, hcount]
      · rw [if_neg fun h => ha h.1, if_neg fun h => ha h.1]
    unfold Log.listSlot
    rw [hflash, hfloor, hclipped, hlive]
  unfold imuLogSessionList
  rw [hslot]

/-- Calls that neither open nor close a session nor move records into the flash. -/
def Quiet (s : Log) (op : Op) : Prop :=
  (∃ xs, op = .append xs) ∨ (∃ st ret, op = .start st ret ∧ ret < 0) ∨ Idle s op

/-- **Step lemma**: a quiet call leaves the list as it is. -/
theorem quiet_list {s : Log} {op : Op} (h : Quiet s op) (max : Int) :
    imuLogSessionList (exec s op) max = imuLogSessionList s max := by
  have hout := exec_cases s op
  generalize exec s op = s' at hout
  cases hout with
  | idle hidle =>
    refine sessionList_congr ?_ ?_ ?_ ?_ max
    · rfl
    · rfl
    · rfl
    · exact fun _ => ⟨rfl, rfl⟩
  | failed ha hret =>
    refine sessionList_congr ?_ ?_ ?_ ?_ max
    · rfl
    · rfl
    · rfl
    · intro hrunning
      rw [ha] at hrunning
      cases hrunning
  | opened ha hret => simp [Quiet, Idle, ha, hret] at h
  | staged ha =>
    rename_i xs t
    obtain ⟨g, k, d, hram⟩ := appendFold_ram s xs
    rw [hram]
    refine sessionList_congr ?_ ?_ ?_ ?_ max
    · rfl
    · rfl
    · rfl
    · exact fun _ => ⟨rfl, rfl⟩
  | wrote hne hg hk hL => simp [Quiet, Idle, hne] at h
  | closed ha hg => simp [Quiet, Idle, ha] at h
  | wiped hnone hdata => simp [Quiet, Idle] at h

/-- Only quiet calls between the requests. -/
def QuietCalls (r : Reading Log UInt8) : LongRead.Act Op → Prop
  | .serve op => Quiet r.server op
  | .request _ => True

/-- Drains that move the count of the running session, the first one listed, and nothing else in the
    list. -/
def Counts (s : Log) (op : Op) : Prop :=
  (∃ ret, op = .drain ret) ∧ s.active = true ∧
    (imuLogSessionList s maxSessions).head?.map ImuLogSession.seq = some s.curSeq ∧ s.Spares

/-- **Step lemma**: what such a drain leaves of the list. -/
theorem counts_list {s : Log} (hf : s.Filed) {op : Op} (hroom : Room s op) (h : Counts s op) :
    uncounted (imuLogSessionList (exec s op) maxSessions) =
      uncounted (imuLogSessionList s maxSessions) := by
  obtain ⟨⟨ret, rfl⟩, hact, hfirst, hspared⟩ := h
  obtain ⟨e, c, list, hbefore, hafter⟩ := drain_sessionList hf hroom hact hfirst hspared
  rw [hbefore, hafter]
  rfl

/-- Such drains or quiet calls between the requests, the first of which is for 16 bytes or more. -/
def CountingCalls (r : Reading Log UInt8) : LongRead.Act Op → Prop
  | .serve op => Room r.server op ∧ (Quiet r.server op ∨ Counts r.server op)
  | .request len => r.moments = [] → 16 ≤ len

/-- A read begins in any state the device comes to. -/
def BeginsOn (r : Reading Log UInt8) : Prop :=
  ∃ s j, Reach Fresh (guarded (onCall Room) DeviceStep) (.on s j) ∧ r = Reading.begin s

/-! ## Reads that can happen -/

/-- The log comes to every state that calls lead to. -/
theorem dir_reached (pkt : Log → Buffer) (f : Flash) (ops : List Op) :
    (dirServer pkt).Reached (ops.foldl exec (bootLog f)) := by
  refine foldl_keeps (I := (dirServer pkt).Reached) (fun s op hs => ?_) ops (.start ⟨f, rfl⟩)
  exact hs.next (a := op) rfl

/-- So it comes to every state that a device comes to. -/
theorem device_reached (pkt : Log → Buffer) {s : Log} {j : Journal}
    (h : Reach Fresh (guarded (onCall Room) DeviceStep) (.on s j)) : (dirServer pkt).Reached s := by
  have hinv : ∀ {d}, Reach Fresh (guarded (onCall Room) DeviceStep) d →
      ∀ s j, d = .on s j → (dirServer pkt).Reached s := by
    intro d hd
    refine hd.invariant (I := fun d => ∀ s j, d = .on s j → (dirServer pkt).Reached s) ?_ ?_
    · rintro d ⟨f, rfl, -⟩ s j hon
      cases hon
    · rintro d e d' - ih ⟨-, hst⟩ s' j' hon
      cases device_turn hst with
      | call s j o =>
        obtain ⟨rfl, -⟩ := Device.on.inj hon
        exact (ih s j rfl).next (a := o) rfl
      | uncalled s j o => cases hon
      | cut s j o k => cases hon
      | boot f j =>
        obtain ⟨rfl, -⟩ := Device.on.inj hon
        exact .start ⟨f, rfl⟩
      | bootCut f j k => cases hon
  exact hinv h s j rfl

/-- Two sessions, both closed. -/
def twoSessions : Log :=
  [Op.start Stamp.zero 0, .append [default], .drain 0, .stop, .start Stamp.zero 0, .stop].foldl exec
    (bootLog Flash.blank)

/-- A read of the directory on a stack of zeros, begun with two sessions. -/
theorem dir_run {es : List (LongRead.Act Op)} {r : Reading Log UInt8}
    (h : es.foldlM (dirServer fun _ _ => 0).readStep (Reading.begin twoSessions) = some r) :
    (dirServer fun _ _ => 0).Reads r :=
  Reach.run (fun _ _ _ hst => hst) (.start ⟨twoSessions, dir_reached _ _ _, rfl⟩) h

/-! ## What a host puts together -/

/-- The requests of a read of 0xFFF0 are answered with ends of a growing history. -/
theorem t2log_value {base : Nat} {s : Msgs} (h : (t2logServer base).Reached s) :
    onT2logRead s = s.history.drop (displaced s) := (value_drop (reach_inv h)).1

theorem t2log_step {base : Nat} {s s' : Msgs} {a : Messages.Act}
    (h : (t2logServer base).Reached s) (hst : Messages.step s a = some s') :
    s.history <+: s'.history ∧ displaced s ≤ displaced s' := by
  have hgrow := step_history hst
  exact ⟨hgrow, displaced_mono (reach_inv h) (reach_inv (h.next hst)) hgrow⟩

/-- The same list makes the same value. -/
theorem dir_consistent {pkt : Log → Buffer} {r : Reading Log UInt8} (h : (dirServer pkt).Reads r)
    {last : Log} (hlast : r.moments.getLast? = some last)
    (hlist : ∀ s ∈ r.moments, imuLogSessionList s maxSessions = imuLogSessionList last maxSessions) :
    (dirServer pkt).Consistent r last := by
  refine Server.Reads.consistent h hlast fun s hs => ?_
  show dirPacket (imuLogSessionList s maxSessions) (pkt s) <+:
    dirPacket (imuLogSessionList last maxSessions) (pkt last)
  rw [hlist s hs, dirPacket_any _ (pkt s) (pkt last)]

/-- **Run lemma**: quiet calls leave the list as it was at all requests. -/
theorem quiet_moments {pkt : Log → Buffer} {r : Reading Log UInt8}
    (h : Reach (dirServer pkt).Begins
      (guarded QuietCalls fun r e r' => (dirServer pkt).readStep r e = some r') r) :
    ∀ s ∈ r.moments, imuLogSessionList s maxSessions = imuLogSessionList r.server maxSessions := by
  refine h.invariant (I := fun r => ∀ s ∈ r.moments,
    imuLogSessionList s maxSessions = imuLogSessionList r.server maxSessions) ?_ ?_
  · rintro r ⟨s, -, rfl⟩ s' hs'
    exact absurd hs' List.not_mem_nil
  · rintro r (op | len) r' _ ih ⟨hquiet, hst⟩ s hs
    · obtain ⟨s', hs', rfl⟩ := Server.readStep_serve hst
      obtain rfl := Option.some.inj hs'
      exact (ih s hs).trans (quiet_list hquiet maxSessions).symm
    · rcases Server.readStep_request hst with rfl | ⟨piece, -, -, rfl⟩
      · exact ih s hs
      · rcases List.mem_append.mp hs with hold | hnew
        · exact ih s hold
        · rw [List.mem_singleton.mp hnew]
          rfl

/-- The same list but for the first count in it makes the value at the first request. -/
theorem dir_consistent_first {pkt : Log → Buffer} {r : Reading Log UInt8}
    (h : Reach (dirServer pkt).Begins
      (guarded (Server.AsksFirst 16) fun r e r' => (dirServer pkt).readStep r e = some r') r)
    {first : Log} (hfirst : r.moments.head? = some first)
    (hlist : ∀ s ∈ r.moments, uncounted (imuLogSessionList s maxSessions) =
      uncounted (imuLogSessionList first maxSessions)) :
    (dirServer pkt).Consistent r first :=
  Server.Reads.consistent_first h hfirst fun s hs => dirPacket_uncounted (hlist s hs) _ _

/-- **Run lemma**: drains that count leave the rest of the list as it was at all requests. -/
theorem counting_moments {pkt : Log → Buffer} {r : Reading Log UInt8}
    (h : Reach BeginsOn
      (guarded CountingCalls fun r e r' => (dirServer pkt).readStep r e = some r') r) :
    ∀ s ∈ r.moments, uncounted (imuLogSessionList s maxSessions) =
      uncounted (imuLogSessionList r.server maxSessions) := by
  refine (h.invariant (I := fun r => r.server.Filed ∧ ∀ s ∈ r.moments,
    uncounted (imuLogSessionList s maxSessions) =
      uncounted (imuLogSessionList r.server maxSessions)) ?_ ?_).2
  · rintro r ⟨s, j, hs, rfl⟩
    exact ⟨reach_filed (fun _ _ _ hg => hg) hs, fun s' hs' => absurd hs' List.not_mem_nil⟩
  · rintro r (op | len) r' _ ⟨hf, ih⟩ ⟨hcalls, hst⟩
    · obtain ⟨hroom, hcall⟩ := hcalls
      obtain ⟨s', hs', rfl⟩ := Server.readStep_serve hst
      obtain rfl := Option.some.inj hs'
      refine ⟨exec_filed hf op hroom, fun s hs => (ih s hs).trans ?_⟩
      rcases hcall with hquiet | hcounts
      · exact congrArg uncounted (quiet_list hquiet maxSessions).symm
      · exact (counts_list hf hroom hcounts).symm
    · rcases Server.readStep_request hst with rfl | ⟨piece, -, -, rfl⟩
      · exact ⟨hf, ih⟩
      · refine ⟨hf, fun s hs => ?_⟩
        rcases List.mem_append.mp hs with hold | hnew
        · exact ih s hold
        · rw [List.mem_singleton.mp hnew]
          rfl

/-- A session of two records, and one that runs, with two records in the flash and three staged. -/
def runningSession : List Op :=
  [.start Stamp.zero 0, .append (numbered 2), .drain 0, .stop, .start Stamp.zero 0,
    .append (numbered 2), .drain 0, .append (numbered 3)]

/-- The three are drained between two pieces; the value keeps the count of the first piece. -/
theorem counted_read : ∃ r first, Reach BeginsOn (guarded CountingCalls
      fun r e r' => (dirServer fun _ _ => 0).readStep r e = some r') r ∧
    r.moments.head? = some first ∧ r.progress = .complete ∧
    r.moments.map (fun s => (imuLogSessionList s maxSessions).map ImuLogSession.recCount) =
      [[2, 2], [5, 2]] := by
  have hboot : Reach Fresh (guarded (onCall Room) DeviceStep)
      (.on (bootLog Flash.blank) Journal.empty) := reach_boot (.start ⟨Flash.blank, rfl, by decide⟩)
  obtain ⟨j, hs⟩ := reach_calls runningSession hboot
    ⟨trivial, trivial, by decide +kernel, trivial, trivial, trivial, by decide +kernel, trivial,
      trivial⟩
  have hrun : ((dirServer fun _ _ => 0).readStep
      (Reading.begin (runningSession.foldl exec (bootLog Flash.blank))) (.request 22)).any (fun r =>
      decide (Room r.server (.drain 0) ∧ r.server.active = true ∧
        (imuLogSessionList r.server maxSessions).head?.map ImuLogSession.seq =
          some r.server.curSeq ∧ r.server.Spares) &&
      ((dirServer fun _ _ => 0).readStep r (.serve (.drain 0))).any (fun r =>
        ((dirServer fun _ _ => 0).readStep r (.request 22)).any fun r =>
          decide (r.progress = .complete ∧
            r.moments.map (fun s => (imuLogSessionList s maxSessions).map ImuLogSession.recCount) =
              [[2, 2], [5, 2]]))) = true := by
    decide +kernel
  generalize runningSession.foldl exec (bootLog Flash.blank) = s at hs hrun
  obtain ⟨r₁, h₁, hrun⟩ := (Option.any_eq_true _ _).mp hrun
  obtain ⟨hdrain, hrun⟩ := Bool.and_eq_true_iff.mp hrun
  obtain ⟨hroom, hactive, hfirst, hspared⟩ := of_decide_eq_true hdrain
  obtain ⟨r₂, h₂, hrun⟩ := (Option.any_eq_true _ _).mp hrun
  obtain ⟨r₃, h₃, hout⟩ := (Option.any_eq_true _ _).mp hrun
  obtain ⟨hcomplete, hlists⟩ := of_decide_eq_true hout
  have hbegin : Reach BeginsOn (guarded CountingCalls
      fun r e r' => (dirServer fun _ _ => 0).readStep r e = some r') (Reading.begin s) :=
    .start ⟨s, j, hs, rfl⟩
  have hone := hbegin.next (a := LongRead.Act.request 22) ⟨fun _ => by decide, h₁⟩
  have hdrained := hone.next (a := LongRead.Act.serve (.drain 0))
    ⟨⟨hroom, Or.inr ⟨⟨0, rfl⟩, hactive, hfirst, hspared⟩⟩, h₂⟩
  have hread := hdrained.next (a := LongRead.Act.request 22) ⟨fun _ => by decide, h₃⟩
  cases hmoments : r₃.moments with
  | nil =>
    rw [hmoments] at hlists
    cases hlists
  | cons first ms => exact ⟨r₃, first, hread, by rw [hmoments]; rfl, hcomplete, hlists⟩

/-- A session started after the first piece: the header still says two, and three follow. -/
theorem dir_torn : ∃ r, (dirServer fun _ _ => 0).Reads r ∧ r.progress = .complete ∧
    r.assembled.length = 52 ∧ r.assembled.head? = some 2 ∧
    ∀ s ∈ r.during, r.assembled ≠ dirPacket (imuLogSessionList s maxSessions) fun _ => 0 := by
  have hrun : ([LongRead.Act.request 22, .serve (.start Stamp.zero 0), .request 22,
      .request 22].foldlM (dirServer fun _ _ => 0).readStep (Reading.begin twoSessions)).any
        (fun r => decide ((r.progress = .complete ∧ r.assembled.length = 52 ∧
          r.assembled.head? = some 2) ∧ ∀ s ∈ r.during,
            r.assembled ≠ dirPacket (imuLogSessionList s maxSessions) fun _ => 0)) = true := by
    decide +kernel
  obtain ⟨r, hr, hout⟩ := (Option.any_eq_true _ _).mp hrun
  obtain ⟨⟨hcomplete, hlen, hhead⟩, htorn⟩ := of_decide_eq_true hout
  exact ⟨r, dir_run hr, hcomplete, hlen, hhead, htorn⟩

/-- A text of 119 different characters. -/
def longText : List UInt8 := (List.range 119).map fun i => UInt8.ofNat (i + 1)

/-- Sixteen lines of it, more than the ring holds.  The queue is full after four. -/
def sixteen : List Messages.Act :=
  (List.replicate 4 (.msg longText 0 :: List.replicate 124 .prod)).flatten ++
    (List.replicate 12 (.msg longText 0 :: List.replicate 3 .prod)).flatten

/-- The statics before the first message. -/
def fresh : Msgs := ⟨fun _ _ => 0, u32 0, u32 0, fun _ => 0, 0, none, .idle, [], [], [], 0, [], []⟩

/-- "hi" stored between two requests, with the ring full. -/
def tornReading : List (LongRead.Act Messages.Act) :=
  [.request 22, .serve (.msg [0x68, 0x69] 0), .serve .prod, .serve .prod, .serve .prod, .request 22]

/-- The first piece is not of the later value, the second not of the earlier one. -/
theorem t2log_torn : ∃ r, (t2logServer 0).Reads r ∧ r.assembled.length = 44 ∧
    ∀ s ∈ r.during, ¬ r.assembled <+: onT2logRead s := by
  have hrun : ((sixteen.foldlM Messages.step fresh).bind fun s =>
      (tornReading.foldlM (t2logServer 0).readStep (Reading.begin s))).any (fun r => decide (
        r.assembled.length = 44 ∧ ∀ s ∈ r.during, r.assembled[0]? ≠ (onT2logRead s)[0]? ∨
          r.assembled[22]? ≠ (onT2logRead s)[22]?)) = true := by
    decide +kernel
  obtain ⟨r, hr, hout⟩ := (Option.any_eq_true _ _).mp hrun
  obtain ⟨s, hs, hread⟩ := Option.bind_eq_some_iff.mp hr
  obtain ⟨hlen, htorn⟩ := of_decide_eq_true hout
  have hreached : (t2logServer 0).Reached s :=
    Reach.run (fun _ _ _ hst => hst) (.start ⟨_, _, rfl⟩) hs
  refine ⟨r, Reach.run (fun _ _ _ hst => hst) (.start ⟨s, hreached, rfl⟩) hread, hlen, ?_⟩
  rintro s hs ⟨rest, hrest⟩
  have hne := htorn s hs
  rw [← hrest] at hne
  rcases hne with hne | hne
  · exact hne (List.getElem?_append_left (by omega)).symm
  · exact hne (List.getElem?_append_left (by omega)).symm

end Caterpillar.Ble.LongReads
