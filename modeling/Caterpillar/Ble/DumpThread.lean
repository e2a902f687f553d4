/-
  The dump sender (src/ble/ble_transport.c): `ble_transport_dump_request`, `ble_transport_dump_abort`
  and `dump_thread`, interleaved with the Bluetooth stack's sent-callbacks.

  1. `DumpTx` — the statics, where the thread is in its loop (`DumpPc`), how far a request is written
     (`caller`), and how many notifications the stack has accepted and not yet reported (`outstanding`).
  2. `step` — one assignment, semaphore call or notification at a time.  What the thread gets from
     elsewhere comes with the event: the bytes read from the log, the stack's answer, a timeout.
  3. `Budget` — **the invariant** of the flow control: credits, the credit in the thread's hand and
     the notifications outstanding are `DUMP_CREDITS` together.  `step_budget` keeps it through every
     step but one: the credits of a fresh request come out of nowhere.
  4. `outstanding_le` — so the bound holds in every run that restarts its credits only when that is
     harmless, and `restart_over` shows a run that does not.
-/
import Caterpillar.Lib.Runs
import Caterpillar.Lib.Sem
import Caterpillar.Lib.Word

namespace Caterpillar.Ble.Dump

open Caterpillar.Word Caterpillar.Runs Caterpillar.Sem

/-! ## The statics and the thread -/

/-- `DUMP_CHUNK_DATA`. -/
def dumpChunkData : Nat := 232

/-- `DUMP_CREDITS`. -/
def dumpCredits : Nat := 2

/-- `session`, `off` and `remaining` of `dump_thread`; a request before it is served. -/
structure DumpJob where
  session : Nat
  off : Nat
  remaining : Nat
  deriving DecidableEq

/-- A notification of 0xFFEB: `{offset u32, n u16, last u8, rsvd u8}` and `n` data bytes. -/
structure DumpChunk where
  offset : Nat
  data : List UInt8
  last : Bool
  deriving DecidableEq

/-- `want`. -/
def DumpJob.want (j : DumpJob) : Nat := min j.remaining dumpChunkData

/-- The chunk made of what `imu_log_read_session` delivered. -/
def DumpJob.chunk (j : DumpJob) (data : List UInt8) : DumpChunk where
  offset := j.off
  data := data
  last := decide (data.length < j.want ∨ data.length = j.remaining)

/-- What is left to do once `n` bytes are sent. -/
def DumpJob.advance (j : DumpJob) (n : Nat) : DumpJob :=
  { j with off := u32 (j.off + n), remaining := u32Sub j.remaining n }

/-- Where `dump_thread` is. -/
inductive DumpPc where
  /-- In `k_sem_take(&dump_sem, K_FOREVER)`. -/
  | idle
  /-- `dump_sem` is taken. -/
  | woken
  /-- `dump_abort` is cleared. -/
  | cleared
  /-- `dump_req_session` is read. -/
  | haveSession (session : Nat)
  /-- `dump_req_off` is read. -/
  | haveOff (session off : Nat)
  /-- In the loop that takes the old credits. -/
  | draining (j : DumpJob)
  /-- `given` fresh credits are given. -/
  | giving (j : DumpJob) (given : Nat)
  /-- At the test of the send loop. -/
  | loop (j : DumpJob)
  /-- About to read the log. -/
  | reading (j : DumpJob)
  /-- Waiting for a credit with the chunk built. -/
  | built (j : DumpJob) (c : DumpChunk)
  /-- With a credit in hand, after `tries` refused attempts. -/
  | sending (j : DumpJob) (c : DumpChunk) (tries : Nat)

/-- What `bt_gatt_notify_cb` answers. -/
inductive NotifyRet where
  | accepted
  /-- `-ENOMEM`, `-EAGAIN` or `-ENOBUFS`. -/
  | busy
  /-- Any other error. -/
  | failed

/-- The dump's statics, its thread and its caller. -/
structure DumpTx where
  dumpSem : KSem 1
  dumpCreditSem : KSem 2
  /-- `dump_req_session`, `dump_req_off`, `dump_req_len`. -/
  req : DumpJob
  dumpAbort : Bool
  pc : DumpPc
  /-- The request being written, and how many of its assignments are made. -/
  caller : Option (DumpJob × Nat)
  /-- Notifications accepted by the stack and not yet reported sent. -/
  outstanding : Nat
  /-- The chunks handed over for the request being served. -/
  sent : List DumpChunk

/-- What can happen. -/
inductive Event where
  /-- `ble_transport_dump_request` is called. -/
  | request (r : DumpJob)
  /-- Its next statement. -/
  | write
  /-- `ble_transport_dump_abort`. -/
  | abort
  /-- The thread's next statement, where it needs no answer. -/
  | run
  /-- `imu_log_read_session` returns: these bytes, or an error. -/
  | read (res : Option (List UInt8))
  /-- Three seconds without a credit. -/
  | jam
  /-- `bt_gatt_notify_cb` returns. -/
  | notify (ret : NotifyRet)
  /-- `dump_sent_cb`. -/
  | sentCb

/-- One statement of `ble_transport_dump_request`. -/
def writeStep (s : DumpTx) : Option DumpTx :=
  match s.caller with
  | none => none
  | some (r, k) =>
      match k with
      | 0 => some { s with dumpAbort := true, caller := some (r, 1) }
      | 1 => some { s with req := { s.req with session := r.session }, caller := some (r, 2) }
      | 2 => some { s with req := { s.req with off := r.off }, caller := some (r, 3) }
      | 3 => some { s with req := { s.req with remaining := r.remaining }, caller := some (r, 4) }
      | _ => some { s with dumpSem := s.dumpSem.give, caller := none }

/-- One statement of `dump_thread` that needs no answer. -/
def runStep (s : DumpTx) : Option DumpTx :=
  match s.pc with
  | .idle => s.dumpSem.take.map fun t => { s with dumpSem := t, pc := .woken, sent := [] }
  | .woken => some { s with dumpAbort := false, pc := .cleared }
  | .cleared => some { s with pc := .haveSession s.req.session }
  | .haveSession session => some { s with pc := .haveOff session s.req.off }
  | .haveOff session off => some { s with pc := .draining ⟨session, off, s.req.remaining⟩ }
  | .draining j =>
      match s.dumpCreditSem.take with
      | some t => some { s with dumpCreditSem := t }
      | none => some { s with pc := .giving j 0 }
  | .giving j given =>
      if given < dumpCredits then
        some { s with dumpCreditSem := s.dumpCreditSem.give, pc := .giving j (given + 1) }
      else some { s with pc := .loop j }
  | .loop j =>
      if 0 < j.remaining ∧ s.dumpAbort = false then some { s with pc := .reading j }
      else some { s with pc := .idle }
  | .reading _ => none
  | .built j c => s.dumpCreditSem.take.map fun t => { s with dumpCreditSem := t, pc := .sending j c 0 }
  | .sending _ _ _ => none

/-- The stack's answer to one attempt. -/
def notifyStep (s : DumpTx) (j : DumpJob) (c : DumpChunk) (tries : Nat) : NotifyRet → DumpTx
  | .accepted =>
      { s with
        outstanding := s.outstanding + 1
        sent := s.sent ++ [c]
        pc := if c.last then .idle else .loop (j.advance c.data.length) }
  | .busy =>
      if tries + 1 < 500 ∧ s.dumpAbort = false then { s with pc := .sending j c (tries + 1) }
      else { s with dumpCreditSem := s.dumpCreditSem.give, pc := .idle }
  | .failed => { s with dumpCreditSem := s.dumpCreditSem.give, pc := .idle }

/-- One step; `none` where it cannot happen. -/
def step (s : DumpTx) : Event → Option DumpTx
  | .request r => if s.caller = none then some { s with caller := some (r, 0) } else none
  | .write => writeStep s
  | .abort => if s.caller = none then some { s with dumpAbort := true } else none
  | .run => runStep s
  | .read res =>
      match s.pc, res with
      | .reading j, some data => some { s with pc := .built j (j.chunk data) }
      | .reading _, none => some { s with pc := .idle }
      | _, _ => none
  | .jam =>
      match s.pc with
      | .built _ _ => if s.dumpCreditSem.count = 0 then some { s with pc := .idle } else none
      | _ => none
  | .notify ret =>
      match s.pc with
      | .sending j c tries => some (notifyStep s j c tries ret)
      | _ => none
  | .sentCb =>
      if 0 < s.outstanding then
        some { s with outstanding := s.outstanding - 1, dumpCreditSem := s.dumpCreditSem.give }
      else none

/-- The step relation. -/
def Step (s : DumpTx) (e : Event) (s' : DumpTx) : Prop := step s e = some s'

/-- The statics at reset. -/
def DumpTx.cold : DumpTx where
  dumpSem := KSem.empty
  dumpCreditSem := KSem.empty
  req := ⟨0, 0, 0⟩
  dumpAbort := false
  pc := .idle
  caller := none
  outstanding := 0
  sent := []

/-- The device at reset. -/
def Start (s : DumpTx) : Prop := s = DumpTx.cold

/-! ## The budget -/

/-- The credit in the thread's hand. -/
def DumpPc.held : DumpPc → Nat
  | .sending _ _ _ => 1
  | _ => 0

/-- Credits, the credit in hand and the notifications outstanding. -/
def Budget (s : DumpTx) : Prop :=
  Within dumpCredits s.dumpCreditSem (s.outstanding + s.pc.held)

/-- A credit is added out of nowhere only where that is harmless: nothing is outstanding, or there is
    room for it beside what is. -/
def restartClear (s : DumpTx) : Event → Bool
  | .run =>
      match s.pc with
      | .giving _ given =>
          decide (given < dumpCredits →
            s.outstanding = 0 ∨ s.dumpCreditSem.count + s.outstanding < dumpCredits)
      | _ => true
  | _ => true

/-- Where neither the credits nor what is outstanding change, the budget is unchanged. -/
theorem Budget.move {s s' : DumpTx} (h : Budget s) (hc : s'.dumpCreditSem = s.dumpCreditSem)
    (ho : s'.outstanding = s.outstanding) (hp : s'.pc.held = s.pc.held) : Budget s' := by
  unfold Budget
  rw [hc, ho, hp]
  exact h

theorem writeStep_budget {s s' : DumpTx} (h : Budget s) (hs : writeStep s = some s') :
    Budget s' := by
  unfold writeStep at hs
  split at hs
  · exact absurd hs (by simp)
  · split at hs
    all_goals
      obtain rfl := Option.some.inj hs
      exact h.move rfl rfl rfl

/-- **One step of the thread.**  By cases on where it is: only `giving` makes a credit. -/
theorem runStep_budget {s s' : DumpTx} (h : Budget s) (hclear : restartClear s .run = true)
    (hs : runStep s = some s') : Budget s' := by
  obtain ⟨dumpSem, credits, req, abort, pc, caller, outstanding, sent⟩ := s
  cases pc with
  | idle =>
    obtain ⟨t, -, rfl⟩ := Option.map_eq_some_iff.mp hs
    exact h.move rfl rfl rfl
  | woken =>
    obtain rfl := Option.some.inj hs
    exact h.move rfl rfl rfl
  | cleared =>
    obtain rfl := Option.some.inj hs
    exact h.move rfl rfl rfl
  | haveSession session =>
    obtain rfl := Option.some.inj hs
    exact h.move rfl rfl rfl
  | haveOff session off =>
    obtain rfl := Option.some.inj hs
    exact h.move rfl rfl rfl
  | draining j =>
    -- the old credits are taken and thrown away
    cases ht : credits.take with
    | some t =>
      simp only [runStep, ht, Option.some.injEq] at hs
      subst hs
      exact Within.discard h ht
    | none =>
      simp only [runStep, ht, Option.some.injEq] at hs
      subst hs
      exact h.move rfl rfl rfl
  | giving j given =>
    by_cases hmore : given < dumpCredits
    · simp only [runStep, if_pos hmore, Option.some.injEq] at hs
      subst hs
      have hroom := of_decide_eq_true hclear hmore
      refine Within.give ?_
      rcases hroom with hnone | hfits
      · exact Or.inr ⟨hnone, Nat.le_refl _⟩
      · exact Or.inl hfits
    · simp only [runStep, if_neg hmore, Option.some.injEq] at hs
      subst hs
      exact h.move rfl rfl rfl
  | loop j =>
    simp only [runStep] at hs
    split at hs
    all_goals
      obtain rfl := Option.some.inj hs
      exact h.move rfl rfl rfl
  | reading j => exact absurd hs (by simp [runStep])
  | built j c =>
    obtain ⟨t, ht, rfl⟩ := Option.map_eq_some_iff.mp hs
    exact Within.take h ht
  | sending j c tries => exact absurd hs (by simp [runStep])

/-- The answer of the stack decides what becomes of the credit in hand. -/
theorem notifyStep_budget {s : DumpTx} {j : DumpJob} {c : DumpChunk} {tries : Nat}
    (hpc : s.pc = .sending j c tries) (h : Budget s) (ret : NotifyRet) :
    Budget (notifyStep s j c tries ret) := by
  have hheld : Within dumpCredits s.dumpCreditSem (s.outstanding + 1) := by
    unfold Budget at h
    rw [hpc] at h
    exact h
  have hback : Budget { s with dumpCreditSem := s.dumpCreditSem.give, pc := .idle } :=
    Within.release hheld
  cases ret with
  | accepted =>
    -- in flight now, whether or not the loop goes on
    cases hlast : c.last with
    | true =>
      simp only [notifyStep, hlast]
      exact hheld
    | false =>
      simp only [notifyStep, hlast]
      exact hheld
  | busy =>
    simp only [notifyStep]
    split
    · exact h.move rfl rfl (by rw [hpc]; rfl)
    · exact hback
  | failed => exact hback

/-- **Every step keeps the budget**, a credit out of nowhere apart. -/
theorem step_budget {s s' : DumpTx} {e : Event} (h : Budget s) (hclear : restartClear s e = true)
    (hs : Step s e s') : Budget s' := by
  cases e with
  | request r =>
    obtain ⟨-, hs⟩ := Option.ite_none_right_eq_some.mp hs
    obtain rfl := Option.some.inj hs
    exact h.move rfl rfl rfl
  | write => exact writeStep_budget h hs
  | abort =>
    obtain ⟨-, hs⟩ := Option.ite_none_right_eq_some.mp hs
    obtain rfl := Option.some.inj hs
    exact h.move rfl rfl rfl
  | run => exact runStep_budget h hclear hs
  | read res =>
    simp only [Step, step] at hs
    split at hs
    · rename_i j data hpc
      obtain rfl := Option.some.inj hs
      exact h.move rfl rfl (by rw [hpc]; rfl)
    · rename_i j hpc
      obtain rfl := Option.some.inj hs
      exact h.move rfl rfl (by rw [hpc]; rfl)
    · exact absurd hs (by simp)
  | jam =>
    simp only [Step, step] at hs
    split at hs
    · rename_i j c hpc
      obtain ⟨-, hs⟩ := Option.ite_none_right_eq_some.mp hs
      obtain rfl := Option.some.inj hs
      exact h.move rfl rfl (by rw [hpc]; rfl)
    · exact absurd hs (by simp)
  | notify ret =>
    simp only [Step, step] at hs
    split at hs
    · rename_i j c tries hpc
      obtain rfl := Option.some.inj hs
      exact notifyStep_budget hpc h ret
    · exact absurd hs (by simp)
  | sentCb =>
    obtain ⟨hpos, hs⟩ := Option.ite_none_right_eq_some.mp hs
    obtain rfl := Option.some.inj hs
    -- the credit comes back from the notification that is reported
    have hsum : s.outstanding - 1 + s.pc.held + 1 = s.outstanding + s.pc.held := by omega
    apply Within.release
    rw [hsum]
    exact h

/-! ## The bound -/

/-- **At most `DUMP_CREDITS` notifications are outstanding**, over any interleaving of requests,
    aborts, sends and callbacks in which no credit is added out of nowhere beside them. -/
theorem outstanding_le {s : DumpTx}
    (h : Reach Start (guarded (fun s e => restartClear s e = true) Step) s) :
    s.outstanding ≤ dumpCredits := by
  have hb : Budget s := by
    refine h.invariant ?_ ?_
    · rintro s rfl
      exact Nat.zero_le _
    · rintro s e s' - hinv ⟨hclear, hst⟩
      exact step_budget hinv hclear hst
  unfold Budget Within at hb
  omega

/-- A request, written and picked up: the thread is about to read. -/
def serve (r : DumpJob) : List Event :=
  .request r :: List.replicate 5 .write

/-- One full chunk is read and accepted by the stack. -/
def sendFull : List Event :=
  [.run, .read (some (List.replicate 232 0)), .run, .notify .accepted]

/-- From `dump_sem` to the send loop, with `more` steps before or on the way. -/
def restart (more : Nat) : List Event := List.replicate (9 + more) .run

/-- Two chunks in flight within the budget. -/
theorem outstanding_le_two : ∃ s : DumpTx, s.outstanding ≤ dumpCredits ∧ s.outstanding = 2 := by
  have hrun : ((serve ⟨1, 0, 1000⟩ ++ restart 0 ++ sendFull ++ sendFull).foldlM
      (fun s e => if restartClear s e then step s e else none) DumpTx.cold).any
        (fun s => decide (s.outstanding = 2)) = true := by decide +kernel
  obtain ⟨s, hs, hout⟩ := (Option.any_eq_true _ _).mp hrun
  exact ⟨s, outstanding_le (Reach.runGuarded (.start rfl) hs), of_decide_eq_true hout⟩

/-- **A request that arrives while two notifications are outstanding** gets two credits more. -/
theorem restart_over : ¬ ∀ s, Reach Start Step s → s.outstanding ≤ dumpCredits := by
  intro hall
  have hrun : ((serve ⟨1, 0, 1000⟩ ++ restart 0 ++ sendFull ++ sendFull ++ serve ⟨1, 464, 536⟩ ++
      restart 1 ++ sendFull).foldlM step DumpTx.cold).any
        (fun s => decide (s.outstanding = 3)) = true := by decide +kernel
  obtain ⟨s, hs, hout⟩ := (Option.any_eq_true _ _).mp hrun
  have hle := hall s (Reach.run (fun _ _ _ hst => hst) (.start rfl) hs)
  have hthree := of_decide_eq_true hout
  unfold dumpCredits at hle
  omega

end Caterpillar.Ble.Dump
