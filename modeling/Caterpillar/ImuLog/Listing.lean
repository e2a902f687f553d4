/-
  `imu_log_session_list` against the dump.

  1. `imuLogSessionList` — the directory as it is listed: every session that is not wholly overwritten,
     clipped to what the ring still holds, newest first.
  2. **Sessions are disjoint** — `Flash.Apart`, `Log.Apart`: the ranges of two listed sessions do not
     meet, whatever their ids.  (`Flash.Ordered` says more, but only until `seq_next` wraps.)
  3. **A drain** moves the count of the running session in the list, and nothing else where it spares
     the other sessions listed (`drain_sessionList`).
  4. `list_and_dump_agree` — what is listed is what can be dumped, and it fits the ring.
-/
import Mathlib.Data.List.Sort
import Caterpillar.Lib.Interval
import Caterpillar.ImuLog.Dump

namespace Caterpillar.ImuLog

open Caterpillar.Word Caterpillar.Ring Caterpillar.Runs Caterpillar.Imu Caterpillar.Interval

/-! ## The list -/

/-- `struct imu_log_session`. -/
structure ImuLogSession where
  seq : Nat
  wallStart : Nat
  recCount : Nat
  odrCode : UInt8
  content : UInt8
  accelFs : UInt8
  gyroFs : UInt8
  deriving DecidableEq

/-- One iteration of the directory loop of `imu_log_session_list`. -/
def Log.listSlot (s : Log) (i : Nat) : Option ImuLogSession :=
  let e := s.flash.entries i
  if ¬ e.Valid then none
  else
    let stop := u32 (e.startRec + s.liveCount i)
    if stop ≤ s.ringFloor then none
    else some ⟨e.seq, e.wallStart, u32Sub stop (s.clippedStart i), e.odrCode, e.content, e.accelFs,
      e.gyroFs⟩

/-- The insertion sort of `imu_log_session_list`: each session moves left past the smaller ids.  The
    sorted part is kept right to left here, so moving left is moving in. -/
def newestFirst (l : List ImuLogSession) : List ImuLogSession :=
  (l.reverse.insertionSort fun a b => a.seq ≤ b.seq).reverse

/-- `imu_log_session_list`: the sessions written to `out`. -/
def imuLogSessionList (s : Log) (max : Int) : List ImuLogSession :=
  let tmp := newestFirst ((List.range maxSessions).filterMap s.listSlot)
  tmp.take (min (tmp.length : Int) max).toNat

theorem newestFirst_perm (l : List ImuLogSession) : (newestFirst l).Perm l :=
  (List.reverse_perm _).trans ((List.perm_insertionSort _ _).trans (List.reverse_perm l))

/-- Ids that differ come out in strictly decreasing order. -/
theorem newestFirst_pairwise {l : List ImuLogSession} (h : l.Pairwise fun a b => a.seq ≠ b.seq) :
    (newestFirst l).Pairwise fun a b => b.seq < a.seq := by
  have hle : (newestFirst l).Pairwise fun a b => b.seq ≤ a.seq := by
    unfold newestFirst
    rw [List.pairwise_reverse]
    exact List.pairwise_insertionSort _ _
  have hne : (newestFirst l).Pairwise fun a b => a.seq ≠ b.seq :=
    (newestFirst_perm l).symm.pairwise h fun hab hba => hab hba.symm
  exact (hle.and hne).imp fun hab => by omega

/-- With room for all sessions the list is complete. -/
theorem sessionList_all (s : Log) {max : Int} (hmax : 16 ≤ max) :
    imuLogSessionList s max = newestFirst ((List.range maxSessions).filterMap s.listSlot) := by
  have hlen : (newestFirst ((List.range maxSessions).filterMap s.listSlot)).length ≤ 16 := by
    rw [(newestFirst_perm _).length_eq]
    exact Nat.le_trans (List.length_filterMap_le _ _) (Nat.le_of_eq List.length_range)
  unfold imuLogSessionList
  apply List.take_of_length_le
  omega

/-! ## Sessions are disjoint -/

/-- Of two listed sessions one ends before the other begins. -/
def Flash.Apart (f : Flash) : Prop :=
  ∀ i k, i < maxSessions → k < maxSessions → i ≠ k → (f.entries i).Valid → (f.entries k).Valid →
    (f.entries i).startRec + (f.entries i).recCount ≤ (f.entries k).startRec ∨
      (f.entries k).startRec + (f.entries k).recCount ≤ (f.entries i).startRec

/-- And the session the writer may extend begins behind all others. -/
structure Log.Apart (s : Log) : Prop where
  entries : s.flash.Apart
  running : s.Busy → (s.flash.entries s.curSlot).Valid → ∀ i, i < maxSessions → i ≠ s.curSlot →
    (s.flash.entries i).Valid → (s.flash.entries i).startRec + (s.flash.entries i).recCount ≤ s.curStart

theorem Flash.Apart.none {f : Flash} (h : ∀ i, ¬ (f.entries i).Valid) : f.Apart :=
  fun i _ _ _ _ hv _ => absurd hv (h i)

/-- Opening a session at the counter. -/
theorem Flash.Apart.enter {f : Flash} {T seq : Nat} (h : f.Apart) (hf : f.Filed T) (st : Stamp)
    (ret : Int) : ((Ev.writeEntry (slotOf seq) (newEntry seq T st) ret).effect f).Apart := by
  by_cases hret : ret < 0
  · have hkeep : (Ev.writeEntry (slotOf seq) (newEntry seq T st) ret).effect f = f := if_pos hret
    rw [hkeep]
    exact h
  · intro i k hi hk hne hvi hvk
    rw [effect_writeEntry_entries hret] at hvi hvk
    rw [effect_writeEntry_entries hret, effect_writeEntry_entries hret]
    by_cases hsi : i = slotOf seq
    · have hsk : ¬ k = slotOf seq := fun hsk => hne (hsi.trans hsk.symm)
      rw [if_neg hsk] at hvk ⊢
      rw [if_pos hsi]
      exact Or.inr (hf k hk hvk).ends
    · rw [if_neg hsi] at hvi ⊢
      by_cases hsk : k = slotOf seq
      · rw [if_pos hsk]
        exact Or.inl (hf i hi hvi).ends
      · rw [if_neg hsk] at hvk ⊢
        exact h i k hi hk hne hvi hvk

/-- Updating counts keeps the sessions apart as long as only one is extended, and that one begins behind
    all others. -/
theorem Flash.Apart.image {R : Nat → Nat → Nat → Prop} {f g : Flash} (h : f.Apart) (cur : Nat)
    (hg : Image R f g)
    (hR : ∀ i c, i < maxSessions → (f.entries i).Valid → R i (f.entries i).recCount c →
      c = (f.entries i).recCount ∨ (i = cur ∧ ∀ k, k < maxSessions → k ≠ i → (f.entries k).Valid →
        (f.entries k).startRec + (f.entries k).recCount ≤ (f.entries i).startRec)) : g.Apart := by
  intro i k hi hk hne hvi hvk
  obtain ⟨hvi', -, hsi, hci⟩ := hg.1.entry hvi
  obtain ⟨hvk', -, hsk, hck⟩ := hg.1.entry hvk
  have hold := h i k hi hk hne hvi' hvk'
  rw [hsi, hsk]
  rcases hR i _ hi hvi' hci with hsame | ⟨hcur, hlast⟩
  · rcases hR k _ hk hvk' hck with hsame' | ⟨-, hlast⟩
    · rw [hsame, hsame']
      exact hold
    · left
      rw [hsame]
      exact hlast i hi hne hvi'
  · rcases hR k _ hk hvk' hck with hsame | ⟨hcur', -⟩
    · right
      rw [hsame]
      exact hlast k hk hne.symm hvk'
    · exact absurd (hcur.trans hcur'.symm) hne

/-- The entry of the running session, where a call extends it, begins behind all others. -/
theorem Log.Apart.behind {s : Log} (hf : s.Filed) (h : s.Apart) (hb : s.Busy) {i : Nat}
    (hcur : i = s.curSlot) (hv : (s.flash.entries i).Valid) :
    i = s.curSlot ∧ ∀ k, k < maxSessions → k ≠ i → (s.flash.entries k).Valid →
      (s.flash.entries k).startRec + (s.flash.entries k).recCount ≤ (s.flash.entries i).startRec := by
  subst hcur
  refine ⟨rfl, ?_⟩
  intro k hk hne hvk
  rw [((hf.bound hb).entry hv).2.1]
  exact h.running hb hv k hk hne hvk

theorem Log.Apart.closing {s : Log} {g : Flash} (hf : s.Filed) (h : s.Apart)
    (hg : Image (Closing s) s.flash g) : g.Apart := by
  refine h.entries.image s.curSlot hg ?_
  rintro i c - hv (hsame | ⟨hact, hcur, -⟩)
  · exact Or.inl hsame
  · exact Or.inr (h.behind hf (Or.inl hact) hcur hv)

theorem Log.Apart.refreshed {s : Log} {g : Flash} {ret : Int} (hf : s.Filed) (h : s.Apart)
    (hne : u32Sub s.stageHead s.stageTail ≠ 0)
    (hg : Image (Refreshed s.curSlot (u32 (s.curCount + s.drainCount)))
      ((s.drainWrite ret).effect s.flash) g) : g.Apart := by
  have hbase : ((s.drainWrite ret).effect s.flash).Apart := by
    unfold Flash.Apart
    rw [drainWrite_entries]
    exact h.entries
  refine hbase.image s.curSlot hg ?_
  intro i c _ hv hc
  rw [drainWrite_entries] at hv hc ⊢
  rcases hc with hsame | ⟨hcur, -⟩
  · exact Or.inl hsame
  · exact Or.inr (h.behind hf (Log.busy_of_staged hne) hcur hv)

/-- **Cut images keep their sessions apart.** -/
theorem After.apart {s : Log} {op : Op} {g : Flash} (hf : s.Filed) (h : s.Apart)
    (hg : After s op g) : g.Apart := by
  cases hg.leaves with
  | idle _ => exact h.entries
  | staged => exact h.entries
  | entered ha => exact h.entries.enter hf.entries _ _
  | drained hne hg => exact h.refreshed hf hne hg
  | closed hg => exact h.closing hf hg
  | erased hg => exact h.closing hf hg

/-- **Step lemma.**  Every call keeps the sessions apart. -/
theorem exec_apart {s : Log} (hf : s.Filed) (h : s.Apart) (op : Op) : (exec s op).Apart := by
  have hout := exec_cases s op
  generalize exec s op = s' at hout
  cases hout with
  | idle _ => exact ⟨h.entries, h.running⟩
  | @failed st ret t ha hret =>
    have hidle : ¬ Log.Busy { s.claimed with trace := t } := Log.not_busy ha rfl
    exact ⟨h.entries, fun hb => absurd hb hidle⟩
  | @opened st ret t ha hret =>
    refine ⟨h.entries.enter hf.entries st ret, ?_⟩
    intro _ _ i hi hne (hv : (((s.entryWrite st ret).effect s.flash).entries i).Valid)
    show (((s.entryWrite st ret).effect s.flash).entries i).startRec +
      (((s.entryWrite st ret).effect s.flash).entries i).recCount ≤ s.totalAbs
    have hslot : ¬ i = slotOf s.seqNext := hne
    rw [Log.entryWrite, effect_writeEntry_entries hret, if_neg hslot] at hv ⊢
    exact (hf.entries i hi hv).ends
  | @staged xs t ha =>
    obtain ⟨g, hd, d, hram⟩ := appendFold_ram s xs
    rw [hram]
    exact ⟨h.entries, fun _ => h.running (Or.inl ha)⟩
  | @wrote ret g t L hne hg hk hL =>
    refine ⟨h.refreshed hf hne hg, ?_⟩
    intro _ (hv : (g.entries s.curSlot).Valid) i hi hother (hvi : (g.entries i).Valid)
    obtain ⟨hv0, -, -, -⟩ := hg.1.entry hv
    obtain ⟨hvi0, -, hstart, hc⟩ := hg.1.entry hvi
    rw [drainWrite_entries] at hv0 hvi0 hstart hc
    show (g.entries i).startRec + (g.entries i).recCount ≤ s.curStart
    rcases hc with hsame | ⟨hcur, -⟩
    · rw [hstart, hsame]
      exact h.running (Log.busy_of_staged hne) hv0 i hi hother hvi0
    · exact absurd hcur hother
  | @closed g t L ha hg =>
    refine ⟨h.closing hf hg, ?_⟩
    intro _ (hv : (g.entries s.curSlot).Valid) i hi hother (hvi : (g.entries i).Valid)
    obtain ⟨hv0, -, -, -⟩ := hg.1.entry hv
    obtain ⟨hvi0, -, hstart, hc⟩ := hg.1.entry hvi
    show (g.entries i).startRec + (g.entries i).recCount ≤ s.curStart
    rcases hc with hsame | ⟨-, hcur, -⟩
    · rw [hstart, hsame]
      exact h.running (Or.inl ha) hv0 i hi hother hvi0
    · exact absurd hcur hother
  | @wiped g t L d hnone hdata =>
    exact ⟨Flash.Apart.none hnone, fun _ hv => absurd hv (hnone _)⟩

/-- A boot touches open flags only, or wipes. -/
theorem Flash.Apart.reopened {f g : Flash} (h : f.Apart) (hre : Reopened f g) : g.Apart :=
  h.image 0 hre.image fun _ _ _ _ hc => Or.inl hc

theorem boot_apart {f : Flash} (hf : f.dirMeta = ownMeta → f.Filed 4294967295)
    (h : f.dirMeta = ownMeta → f.Apart) : (bootLog f).Apart := by
  by_cases hm : f.dirMeta = ownMeta
  · obtain ⟨g, t, heq, hre⟩ := bootLog_over (hf hm).plainCounts hm
    rw [heq]
    exact ⟨(h hm).reopened hre, fun hb => absurd hb (Log.not_busy rfl rfl)⟩
  · have hnone := bootLog_foreign_none hm
    exact ⟨Flash.Apart.none hnone, fun _ hv => absurd hv (hnone _)⟩

/-- A device whose listed sessions are apart. -/
def Device.Apart : Device → Prop
  | .on s _ => s.Apart
  | .off f _ => f.dirMeta = ownMeta → f.Apart

theorem device_apart {d d' : Device} {e : Event} (hf : d.Filed) (h : d.Apart)
    (hst : DeviceStep d e d') : d'.Apart := by
  cases device_turn hst with
  | call s j o => exact exec_apart (s := s) hf h o
  | uncalled s j o =>
    have hs : s.Apart := h
    exact fun _ => hs.entries
  | cut s j o k => exact fun _ => (cutImage_after s o k).apart hf h
  | boot f j => exact boot_apart hf h
  | bootCut f j k =>
    have hfl : f.dirMeta = ownMeta → f.Filed 4294967295 := hf
    have hap : f.dirMeta = ownMeta → f.Apart := h
    exact bootCut_keeps (fun hm => (hfl hm).plainCounts) hap (fun _ hre ha => ha.reopened hre)
      (fun _ => Flash.Apart.none) k

/-! ## Listed and dumped -/

/-- The calls of a run that keeps the counter low and whose writes succeed. -/
def lowCalls : Device → Event → Prop := onCall fun s o => o.Ok ∧ Low s o

/-- **Run lemma.**  Whatever power cuts the run has. -/
theorem reach_apart {d : Device} (h : Reach Fresh (guarded lowCalls DeviceStep) d) :
    d.Filed ∧ d.Low ∧ d.Apart := by
  refine Reach.invariant (I := fun d => d.Filed ∧ d.Low ∧ d.Apart) ?_ ?_ h
  · rintro d ⟨f, rfl, hforeign⟩
    exact ⟨fun hown => absurd hown hforeign, fun hown => absurd hown hforeign,
      fun hown => absurd hown hforeign⟩
  · rintro d e d' - ⟨hf, hl, ha⟩ ⟨hg, hst⟩
    have hroom : onCall Room d e := by
      cases d with
      | on s j =>
        have hs : s.Filed := hf
        cases e with
        | op o => exact Low.room hg.2 hs
        | cut o k => exact Low.room hg.2 hs
        | boot => trivial
        | bootCut k => trivial
      | off f j => trivial
    exact ⟨device_filed hf hroom hst, device_low hf hl (onCall_imp (fun _ _ hc => hc.2) hg) hst,
      device_apart hf ha hst⟩

section

variable {s : Log} (hf : s.Filed)

include hf

/-- A listed entry ends at or before the counter, by the count a reader goes by. -/
theorem live_ends {i : Nat} (hi : i < maxSessions) (hv : (s.flash.entries i).Valid) :
    (s.flash.entries i).startRec + s.liveCount i ≤ s.totalAbs := by
  unfold Log.liveCount
  split
  · rename_i hrun
    obtain ⟨hact, rfl⟩ := hrun
    obtain ⟨-, hstart, -, hsum⟩ := (hf.bound (Or.inl hact)).entry hv
    rw [hstart]
    exact Nat.le_of_eq hsum
  · exact (hf.entries i hi hv).ends

/-- What the list shows of a slot. -/
theorem listSlot_eq {i : Nat} (hi : i < maxSessions) (hv : (s.flash.entries i).Valid) :
    s.listSlot i =
      if (s.flash.entries i).startRec + s.liveCount i ≤ s.ringFloor then none
      else some ⟨(s.flash.entries i).seq, (s.flash.entries i).wallStart, s.readableCount i,
        (s.flash.entries i).odrCode, (s.flash.entries i).content, (s.flash.entries i).accelFs,
        (s.flash.entries i).gyroFs⟩ := by
  have hends := live_ends hf hi hv
  have htotal := hf.total
  obtain ⟨hle, hfloor, hcases⟩ := le_clippedStart s i
  unfold Log.listSlot
  dsimp only
  rw [if_neg (not_not_intro hv),
    u32_of_lt (by omega : (s.flash.entries i).startRec + s.liveCount i < 4294967296)]
  split
  · rfl
  · rw [u32Sub_of_le (by omega) (by omega)]
    rfl

theorem listSlot_some {i : Nat} (hi : i < maxSessions) {e : ImuLogSession}
    (h : s.listSlot i = some e) : (s.flash.entries i).Valid ∧ e.seq = (s.flash.entries i).seq ∧
      e.recCount = s.readableCount i := by
  by_cases hv : (s.flash.entries i).Valid
  · rw [listSlot_eq hf hi hv] at h
    split at h
    · exact absurd h (by simp)
    · obtain rfl := Option.some.inj h
      exact ⟨hv, rfl, rfl⟩
  · unfold Log.listSlot at h
    rw [if_pos hv] at h
    exact absurd h (by simp)

/-- A read delivers what is asked for, up to the readable part. -/
theorem readSession_length (hlow : s.totalAbs ≤ 268435456) {i : Nat} (hi : i < maxSessions) (hv : (s.flash.entries i).Valid)
    (offset len : Nat) : (imuLogReadSession s (s.flash.entries i).seq offset len).length =
      min len (16 * s.readableCount i - offset) := by
  have hends := live_ends hf hi hv
  obtain ⟨hle, hfloor, hclip⟩ := le_clippedStart s i
  have hrf := ringFloor_eq s
  have hcount : s.readableCount i =
    (s.flash.entries i).startRec + s.liveCount i - s.clippedStart i := rfl
  rw [readSession_eq hf.entries hlow hi hv hends offset len]
  split
  · rw [List.length_nil]
    omega
  · split
    · rw [List.length_nil]
      omega
    · rw [readLoop_get _ _ _ (by omega), List.length_map, List.length_range]

end

/-- The slots of the listed sessions are apart in what they show, too. -/
theorem readable_apart {s : Log} (hf : s.Filed) (h : s.Apart) {i k : Nat} (hi : i < maxSessions)
    (hk : k < maxSessions) (hne : i ≠ k) (hvi : (s.flash.entries i).Valid)
    (hvk : (s.flash.entries k).Valid) :
    (s.flash.entries i).startRec + s.liveCount i ≤ s.clippedStart k ∨
      (s.flash.entries k).startRec + s.liveCount k ≤ s.clippedStart i := by
  have hlei := (le_clippedStart s i).1
  have hlek := (le_clippedStart s k).1
  have hlast : ∀ i k, i = s.curSlot → s.active = true → k < maxSessions → k ≠ i →
      (s.flash.entries i).Valid → (s.flash.entries k).Valid →
      (s.flash.entries k).startRec + (s.flash.entries k).recCount ≤ (s.flash.entries i).startRec := by
    intro i k hcur hact hk hne hvi hvk
    exact (h.behind hf (Or.inl hact) hcur hvi).2 k hk hne hvk
  unfold Log.liveCount
  split
  · rename_i hrun
    rw [if_neg (fun hc => hne (hrun.2.trans hc.2.symm))]
    have hbehind := hlast i k hrun.2 hrun.1 hk hne.symm hvi hvk
    omega
  · split
    · rename_i hrun
      have hbehind := hlast k i hrun.2 hrun.1 hi hne hvk hvi
      omega
    · have hold := h.entries i k hi hk hne hvi hvk
      omega

/-- Two listed sessions have two ids: each is filed in the slot of its id. -/
theorem listed_ids {s : Log} (hf : s.Filed) :
    ((List.range maxSessions).filterMap s.listSlot).Pairwise fun a b => a.seq ≠ b.seq := by
  rw [List.pairwise_filterMap]
  refine List.nodup_range.imp_of_mem ?_
  intro i k hi hk hne a ha b hb heq
  rw [List.mem_range] at hi hk
  obtain ⟨hvi, hsi, -⟩ := listSlot_some hf hi ha
  obtain ⟨hvk, hsk, -⟩ := listSlot_some hf hk hb
  apply hne
  rw [← (hf.entries i hi hvi).slot, ← (hf.entries k hk hvk).slot, ← hsi, ← hsk, heq]

/-! ## A drain in the list -/

/-- Another count does not move the newest session. -/
theorem newestFirst_recount {l m : List ImuLogSession} {e e' : ImuLogSession}
    (hids : (l ++ e :: m).Pairwise fun a b => a.seq ≠ b.seq) (hseq : e'.seq = e.seq)
    (hfirst : (newestFirst (l ++ e :: m)).head?.map ImuLogSession.seq = some e.seq) :
    ∃ t, newestFirst (l ++ e :: m) = e :: t ∧ newestFirst (l ++ e' :: m) = e' :: t := by
  have hsorted := newestFirst_pairwise hids
  have hperm := newestFirst_perm (l ++ e :: m)
  have hids' : (l ++ e' :: m).Pairwise fun a b => a.seq ≠ b.seq := by
    rw [← List.pairwise_map (f := ImuLogSession.seq) (R := fun a b => a ≠ b)] at hids ⊢
    rw [List.map_append, List.map_cons, hseq, ← List.map_cons, ← List.map_append]
    exact hids
  have hsorted' := newestFirst_pairwise hids'
  have hperm' := newestFirst_perm (l ++ e' :: m)
  generalize newestFirst (l ++ e :: m) = r at hfirst hsorted hperm
  generalize newestFirst (l ++ e' :: m) = r' at hsorted' hperm'
  cases r with
  | nil => exact absurd hfirst (by simp)
  | cons x t =>
    obtain ⟨hlater, ht⟩ := List.pairwise_cons.mp hsorted
    have hx : x.seq = e.seq := Option.some.inj hfirst
    have hmem : e ∈ x :: t := hperm.mem_iff.mpr (by simp)
    have hxe : e = x := by
      rcases List.mem_cons.mp hmem with h | h
      · exact h
      · -- what is behind the first has a smaller id
        have hlt := hlater e h
        omega
    subst hxe
    refine ⟨t, rfl, ?_⟩
    have hrest : t.Perm (l ++ m) := (List.perm_cons e).mp (hperm.trans List.perm_middle)
    have hsame : r'.Perm (e' :: t) :=
      hperm'.trans (List.perm_middle.trans (hrest.symm.cons e'))
    have hcons : (e' :: t).Pairwise fun a b => b.seq < a.seq := by
      refine List.pairwise_cons.mpr ⟨fun b hb => ?_, ht⟩
      rw [hseq]
      exact hlater b hb
    refine hsame.eq_of_pairwise (fun a b _ _ hab hba => ?_) hsorted' hcons
    omega

/-- What a drain does to the counters and to the entries. -/
structure Drains (s s' : Log) : Prop where
  slot : s'.curSlot = s.curSlot
  active : s'.active = s.active
  total : s'.totalAbs = s.totalAbs + s.drainCount
  count : s'.curCount = s.curCount + s.drainCount
  entries : ∀ i, (s'.flash.entries i).Valid → ∃ c o,
    s'.flash.entries i = { s.flash.entries i with recCount := c, isOpen := o } ∧
      (i ≠ s.curSlot → c = (s.flash.entries i).recCount)
  running : s.active = true → (s.flash.entries s.curSlot).Valid →
    (s'.flash.entries s.curSlot).Valid
  spared : ∀ i, i ≠ s.curSlot →
    s.totalAbs + s.drainCount ≤ (s.flash.entries i).startRec + recCapacity →
      s'.flash.entries i = s.flash.entries i

theorem exec_drains {s : Log} {ret : Int} (hroom : Room s (.drain ret)) :
    Drains s (exec s (.drain ret)) := by
  have hcall : exec s (.drain ret) = writerDrainBatch { s with trace := [] } ret := rfl
  have hspared : ∀ i, i ≠ s.curSlot →
      s.totalAbs + s.drainCount ≤ (s.flash.entries i).startRec + recCapacity →
        (exec s (.drain ret)).flash.entries i = s.flash.entries i := by
    intro i hne h
    rw [hcall]
    exact writerDrainBatch_entry { s with trace := [] } ret hne hroom.1 h
  have hout := exec_cases s (.drain ret)
  generalize exec s (.drain ret) = s' at hspared hout ⊢
  cases hout with
  | idle hidle =>
    have hnone : s.drainCount = 0 := by
      have hle := drainCount_le_staged s
      have hzero : u32Sub s.stageHead s.stageTail = 0 := by simpa [Idle] using hidle
      omega
    refine ⟨rfl, rfl, ?_, ?_, fun i _ => ⟨_, _, rfl, fun _ => rfl⟩, fun _ h => h, hspared⟩
    · rw [hnone, Nat.add_zero]
    · rw [hnone, Nat.add_zero]
  | wrote hdue hg hk hL =>
    refine ⟨rfl, rfl, u32_of_lt hroom.1, u32_of_lt (Nat.lt_trans hroom.2 (by decide)), ?_, hk,
      hspared⟩
    intro i hv
    obtain ⟨c, o, hsame, hc⟩ := hg.1 i hv
    rw [drainWrite_entries] at hsame hc
    exact ⟨c, o, hsame, fun hne => hc.resolve_right fun h => hne h.1⟩

/-- The next drain overwrites no record of a session listed beside the running one, and moves the
    floor to the end of none: it stays listed, with its count. -/
def Log.Spares (s : Log) : Prop :=
  ∀ i, i < maxSessions → i ≠ s.curSlot → s.listSlot i ≠ none →
    s.totalAbs + s.drainCount ≤ (s.flash.entries i).startRec + recCapacity ∧
    s.totalAbs + s.drainCount <
      (s.flash.entries i).startRec + (s.flash.entries i).recCount + recCapacity

instance (s : Log) : Decidable s.Spares :=
  inferInstanceAs (Decidable (∀ i, i < maxSessions → _))

section

variable {s s' : Log} (hf : s.Filed) (hf' : s'.Filed) (h : Drains s s')

include hf hf' h

/-- What a drain leaves of another session's line in the list. -/
theorem Drains.listSlot_other (hspared : s.Spares) {i : Nat} (hi : i < maxSessions)
    (hne : i ≠ s.curSlot) : s'.listSlot i = s.listSlot i := by
  have hfloor := ringFloor_eq s
  have hfloor' := ringFloor_eq s'
  have htotal := h.total
  have hcount : s.liveCount i = (s.flash.entries i).recCount := if_neg fun hrun => hne hrun.2
  have hcount' : s'.liveCount i = (s'.flash.entries i).recCount :=
    if_neg fun hrun => hne (hrun.2.trans h.slot)
  by_cases hv' : (s'.flash.entries i).Valid
  · -- the entry is what it was
    obtain ⟨c, o, hsame, hc⟩ := h.entries i hv'
    obtain rfl := hc hne
    have hv : (s.flash.entries i).Valid := by
      rw [hsame] at hv'
      exact hv'
    have hstart : (s'.flash.entries i).startRec = (s.flash.entries i).startRec := by rw [hsame]
    have hrec : (s'.flash.entries i).recCount = (s.flash.entries i).recCount := by rw [hsame]
    have hold := listSlot_eq hf hi hv
    have hnow := listSlot_eq hf' hi hv'
    rw [hcount] at hold
    rw [hcount', hstart, hrec] at hnow
    by_cases hgone : (s.flash.entries i).startRec + (s.flash.entries i).recCount ≤ s.ringFloor
    · rw [if_pos hgone] at hold
      rw [if_pos (by omega)] at hnow
      exact hnow.trans hold.symm
    · rw [if_neg hgone] at hold
      obtain ⟨hfits, hend⟩ := hspared i hi hne (by rw [hold]; exact Option.some_ne_none _)
      rw [if_neg (by omega), h.spared i hne hfits] at hnow
      -- nothing of it is overwritten, before or after
      have hread : s'.readableCount i = s.readableCount i := by
        obtain ⟨h1, h2, h3⟩ := le_clippedStart s i
        obtain ⟨h1', h2', h3'⟩ := le_clippedStart s' i
        unfold Log.readableCount
        rw [hcount, hcount', hstart, hrec]
        omega
      rw [hnow, hread, hold]
  · -- only an entry that is not listed goes
    have hgone : s'.listSlot i = none := if_pos hv'
    rw [hgone]
    by_contra hlisted
    have hstays := h.spared i hne (hspared i hi hne fun hnone => hlisted hnone.symm).1
    rw [hstays] at hv'
    exact hlisted (if_pos hv').symm

/-- And of the running session's: the count is another one. -/
theorem Drains.listSlot_current (hact : s.active = true) {e : ImuLogSession}
    (he : s.listSlot s.curSlot = some e) :
    ∃ c, s'.listSlot s.curSlot = some { e with recCount := c } := by
  have hv := hf.running hact
  have hv' := h.running hact hv
  obtain ⟨-, hstart, -, hsum⟩ := (hf.bound (Or.inl hact)).entry hv
  have hslot : s.curSlot < maxSessions := by
    rw [(hf.bound (Or.inl hact)).slot]
    exact slotOf_lt _
  have hfloor := ringFloor_eq s
  have hfloor' := ringFloor_eq s'
  have htotal := h.total
  have hcap := recCapacity_eq
  have hlive : s.liveCount s.curSlot = s.curCount := if_pos ⟨hact, rfl⟩
  have hlive' : s'.liveCount s.curSlot = s.curCount + s.drainCount :=
    (if_pos ⟨h.active.trans hact, h.slot.symm⟩).trans h.count
  obtain ⟨c, o, hsame, -⟩ := h.entries s.curSlot hv'
  have hnow := listSlot_eq hf' hslot hv'
  rw [listSlot_eq hf hslot hv, hlive] at he
  obtain ⟨hshown, he⟩ := Option.ite_none_left_eq_some.mp he
  rw [hlive', hsame, if_neg (by dsimp only; omega)] at hnow
  exact ⟨s'.readableCount s.curSlot, by rw [hnow, ← Option.some.inj he]⟩

end

/-- The running session, where it is the first one listed. -/
theorem first_current {s : Log} (hf : s.Filed) (hact : s.active = true)
    (hfirst : (imuLogSessionList s maxSessions).head?.map ImuLogSession.seq = some s.curSeq) :
    s.curSlot ∈ List.range maxSessions ∧ ∃ x, s.listSlot s.curSlot = some x ∧
      (newestFirst ((List.range maxSessions).filterMap s.listSlot)).head? = some x := by
  rw [sessionList_all s (by decide)] at hfirst
  obtain ⟨x, hx, hseq⟩ := Option.map_eq_some_iff.mp hfirst
  have hmem : x ∈ (List.range maxSessions).filterMap s.listSlot :=
    (newestFirst_perm _).mem_iff.mp (List.mem_of_head? hx)
  obtain ⟨k, hk, hxk⟩ := List.mem_filterMap.mp hmem
  obtain ⟨hvk, hseqk, -⟩ := listSlot_some hf (List.mem_range.mp hk) hxk
  have hown : k = s.curSlot := by
    rw [(hf.bound (Or.inl hact)).slot, ← hseq, hseqk, (hf.entries k (List.mem_range.mp hk) hvk).slot]
  subst hown
  exact ⟨hk, x, hxk, hx⟩

/-- **A drain of the newest session**, which runs and is listed already, changes its count in the list
    and nothing else, as long as it spares the other sessions listed. -/
theorem drain_sessionList {s : Log} (hf : s.Filed) {ret : Int} (hroom : Room s (.drain ret))
    (hact : s.active = true)
    (hfirst : (imuLogSessionList s maxSessions).head?.map ImuLogSession.seq = some s.curSeq)
    (hspared : s.Spares) :
    ∃ e c t, imuLogSessionList s maxSessions = e :: t ∧
      imuLogSessionList (exec s (.drain ret)) maxSessions = { e with recCount := c } :: t := by
  obtain ⟨hk, x, hxk, hx⟩ := first_current hf hact hfirst
  have hf' := exec_filed hf (.drain ret) hroom
  have hdrains := exec_drains hroom
  generalize exec s (.drain ret) = s' at hf' hdrains ⊢
  rw [sessionList_all s (by decide), sessionList_all _ (by decide)]
  obtain ⟨c, hafter⟩ := hdrains.listSlot_current hf hf' hact hxk
  -- all other slots show what they showed
  obtain ⟨l, m, hsplit⟩ := List.append_of_mem hk
  have hnodup := (hsplit ▸ List.nodup_range : (l ++ s.curSlot :: m).Nodup)
  have hnot : s.curSlot ∉ l ++ m := (List.nodup_middle.mp hnodup).notMem
  have hsame : ∀ i ∈ l ++ m, s'.listSlot i = s.listSlot i := by
    intro i hin
    have hi : i < maxSessions := by
      rw [← List.mem_range, hsplit]
      rcases List.mem_append.mp hin with h | h
      · exact List.mem_append_left _ h
      · exact List.mem_append_right _ (List.mem_cons_of_mem _ h)
    have hne : i ≠ s.curSlot := fun h => hnot (h ▸ hin)
    exact hdrains.listSlot_other hf hf' hspared hi hne
  have hids := listed_ids hf
  rw [hsplit] at hx hids ⊢
  rw [List.filterMap_append, List.filterMap_cons_some hxk] at hx hids
  rw [List.filterMap_append, List.filterMap_append, List.filterMap_cons_some hxk,
    List.filterMap_cons_some hafter,
    List.filterMap_congr fun i hi => hsame i (List.mem_append_left _ hi),
    List.filterMap_congr fun i hi => hsame i (List.mem_append_right _ hi)]
  have hhead : (newestFirst (l.filterMap s.listSlot ++ x :: m.filterMap s.listSlot)).head?.map
      ImuLogSession.seq = some x.seq := by
    rw [hx]
    rfl
  obtain ⟨t, h₁, h₂⟩ := newestFirst_recount hids (rfl : { x with recCount := c }.seq = x.seq) hhead
  exact ⟨x, c, t, h₁, h₂⟩

/-! ## What is listed, and what is dumped -/

/-- The counts of the listed sessions, slot by slot. -/
theorem listed_counts {s : Log} (hf : s.Filed) (l : List Nat)
    (hl : ∀ i ∈ l, i < maxSessions) :
    (l.filterMap s.listSlot).map ImuLogSession.recCount =
      (l.filter fun i => (s.listSlot i).isSome).map s.readableCount := by
  induction l with
  | nil => rfl
  | cons i l ih =>
    have hrest := ih fun k hk => hl k (List.mem_cons_of_mem _ hk)
    cases hslot : s.listSlot i with
    | none =>
      rw [List.filterMap_cons_none hslot, hrest, List.filter_cons_of_neg (by rw [hslot]; decide)]
    | some e =>
      obtain ⟨-, -, hcount⟩ := listSlot_some hf (hl i List.mem_cons_self) hslot
      rw [List.filterMap_cons_some hslot, List.map_cons, hrest, hcount,
        List.filter_cons_of_pos (by rw [hslot]; rfl), List.map_cons]

/-- **What is listed fits the ring**: it lies side by side between the floor and the counter. -/
theorem listed_fit {s : Log} (hf : s.Filed) (h : s.Apart) :
    (((List.range maxSessions).filterMap s.listSlot).map ImuLogSession.recCount).sum ≤
      recCapacity := by
  have hshown : ∀ i ∈ (List.range maxSessions).filter fun i => (s.listSlot i).isSome,
      i < maxSessions ∧ (s.flash.entries i).Valid := by
    intro i hi
    rw [List.mem_filter, List.mem_range] at hi
    obtain ⟨e, he⟩ := Option.isSome_iff_exists.mp hi.2
    exact ⟨hi.1, (listSlot_some hf hi.1 he).1⟩
  rw [listed_counts hf _ fun i hi => List.mem_range.mp hi]
  have hfit : (((List.range maxSessions).filter fun i => (s.listSlot i).isSome).map
      fun i => (s.flash.entries i).startRec + s.liveCount i - s.clippedStart i).sum ≤
        s.totalAbs - s.ringFloor := by
    apply sum_length_le
    · refine (List.nodup_range.filter _).imp_of_mem ?_
      intro i k hi hk hne
      obtain ⟨hi, hvi⟩ := hshown i hi
      obtain ⟨hk, hvk⟩ := hshown k hk
      exact readable_apart hf h hi hk hne hvi hvk
    · intro i hi
      obtain ⟨hi, hv⟩ := hshown i hi
      exact ⟨(le_clippedStart s i).2.1, live_ends hf hi hv⟩
  have hfloor := ringFloor_eq s
  refine Nat.le_trans hfit ?_
  omega

/-- **The list and the dump agree, and what is listed fits the ring.**  In every state reached without
    flash errors and with at most 2^28 records: ids strictly decrease, each listed session dumps exactly
    the records listed for it, what is not listed dumps nothing, and all together they fit the ring. -/
theorem list_and_dump_agree {s : Log} {j : Journal}
    (h : Reach Fresh (guarded lowCalls DeviceStep) (.on s j)) {max : Int} (hmax : 16 ≤ max) :
    (imuLogSessionList s max).Pairwise (fun a b => b.seq < a.seq) ∧
    (∀ e ∈ imuLogSessionList s max, ∀ len, 16 * e.recCount ≤ len →
      (imuLogReadSession s e.seq 0 len).length = 16 * e.recCount) ∧
    (∀ i, i < maxSessions → (s.flash.entries i).Valid →
      (∀ e ∈ imuLogSessionList s max, e.seq ≠ (s.flash.entries i).seq) →
      ∀ offset len, imuLogReadSession s (s.flash.entries i).seq offset len = []) ∧
    ((imuLogSessionList s max).map ImuLogSession.recCount).sum ≤ recCapacity := by
  obtain ⟨hf, hlow, hap⟩ : s.Filed ∧ s.totalAbs ≤ 268435456 ∧ s.Apart := reach_apart h
  rw [sessionList_all s hmax]
  have hmem : ∀ {e}, e ∈ newestFirst ((List.range maxSessions).filterMap s.listSlot) ↔
      ∃ i, i < maxSessions ∧ s.listSlot i = some e := by
    intro e
    rw [(newestFirst_perm _).mem_iff, List.mem_filterMap]
    simp only [List.mem_range]
  refine ⟨newestFirst_pairwise (listed_ids hf), ?_, ?_, ?_⟩
  · intro e he len hlen
    obtain ⟨i, hi, hslot⟩ := hmem.mp he
    obtain ⟨hv, hseq, hcount⟩ := listSlot_some hf hi hslot
    rw [hseq, readSession_length hf hlow hi hv, hcount]
    omega
  · intro i hi hv hnot offset len
    have hends := live_ends hf hi hv
    obtain ⟨hle, hfloor, hclip⟩ := le_clippedStart s i
    have hgone : (s.flash.entries i).startRec + s.liveCount i ≤ s.ringFloor := by
      by_contra hshown
      have hslot := listSlot_eq hf hi hv
      rw [if_neg hshown] at hslot
      exact hnot _ (hmem.mpr ⟨i, hi, hslot⟩) rfl
    rw [readSession_eq hf.entries hlow hi hv hends, if_pos (by omega)]
  · rw [((newestFirst_perm _).map ImuLogSession.recCount).sum_eq]
    exact listed_fit hf hap

/-- A session without records, one of three, and one of two that is still open. -/
def threeSessions : List Op :=
  [.start Stamp.zero 0, .stop, .start Stamp.zero 0, .append (numbered 3), .drain 0, .stop,
    .start Stamp.zero 0, .append (numbered 2), .drain 0]

/-- The session without records is not listed, and dumps nothing. -/
theorem list_and_dump_agree_three : ∃ s j, Reach Fresh (guarded lowCalls DeviceStep) (.on s j) ∧
    (imuLogSessionList s 16).map (fun e => (e.seq, e.recCount)) = [(3, 2), (2, 3)] ∧
    (imuLogSessionList s 16).Pairwise (fun a b => b.seq < a.seq) ∧
    (∀ e ∈ imuLogSessionList s 16, ∀ len, 16 * e.recCount ≤ len →
      (imuLogReadSession s e.seq 0 len).length = 16 * e.recCount) ∧
    (∀ offset len, imuLogReadSession s 1 offset len = []) ∧
    ((imuLogSessionList s 16).map ImuLogSession.recCount).sum ≤ recCapacity := by
  have hboot : Reach Fresh (guarded lowCalls DeviceStep) (.on (bootLog Flash.blank) Journal.empty) :=
    reach_boot (.start ⟨Flash.blank, rfl, by decide⟩)
  obtain ⟨j, hr⟩ := reach_calls threeSessions hboot
    ⟨⟨Int.le_refl 0, trivial⟩, ⟨trivial, trivial⟩, ⟨Int.le_refl 0, trivial⟩, ⟨trivial, trivial⟩,
      ⟨Int.le_refl 0, by decide +kernel⟩, ⟨trivial, trivial⟩,
      ⟨Int.le_refl 0, trivial⟩, ⟨trivial, trivial⟩,
      ⟨Int.le_refl 0, by decide +kernel⟩, trivial⟩
  have hlist : (imuLogSessionList (threeSessions.foldl exec (bootLog Flash.blank)) 16).map
      (fun e => (e.seq, e.recCount)) = [(3, 2), (2, 3)] := by
    decide +kernel
  have hentry : ((threeSessions.foldl exec (bootLog Flash.blank)).flash.entries 0).Valid ∧
      ((threeSessions.foldl exec (bootLog Flash.blank)).flash.entries 0).seq = 1 := by
    decide +kernel
  generalize threeSessions.foldl exec (bootLog Flash.blank) = s at hr hlist hentry
  obtain ⟨h1, h2, h3, h4⟩ := list_and_dump_agree hr (Int.le_refl 16)
  refine ⟨s, j, hr, hlist, h1, h2, fun offset len => ?_, h4⟩
  rw [← hentry.2]
  refine h3 0 (by decide) hentry.1 (fun e he => ?_) offset len
  -- neither of the two listed is session 1
  have hmem := List.mem_map_of_mem (f := fun e => (e.seq, e.recCount)) he
  rw [hlist] at hmem
  rw [hentry.2]
  simp only [List.mem_cons, Prod.mk.injEq, List.not_mem_nil, or_false] at hmem
  omega

end Caterpillar.ImuLog
