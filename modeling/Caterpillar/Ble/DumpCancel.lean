/-
  Cancelling a dump: `dump_abort`, `dump_sem` and the three request fields (src/ble/ble_transport.c).

  The queue between the callers and `dump_thread` holds one request.  A call raises `dump_abort`; the
  thread lowers it itself, after it has taken `dump_sem` and before it reads the fields.

  1. `Happening` — what is recorded: requests, aborts, and each chunk with the request that each field
     behind it was read from (`Owner`) and the service it was sent in.
  2. `step` — `Dump.step` with both calls atomic (`request_atomic`), and the record kept.
  3. `Honoured`, `Unmixed`, `ServedOnce` — the three promises, read off the record.
  4. `Inv` — **the invariant**.  While the flag is down the thread serves the request made last and
     nothing has cancelled it; once the flag is up, at most the chunk in hand follows.
  5. `cancel_kept` — so the promises hold in every run in which the thread lowers the flag only when it
     was raised by the request just taken; `abort_lost` and `served_twice` are runs where it was not.
-/
import Caterpillar.Ble.DumpThread

namespace Caterpillar.Ble.DumpCancel

open Caterpillar.Runs Caterpillar.Sem
open Caterpillar.Ble.Dump (DumpJob DumpPc DumpTx)

/-! ## What is recorded -/

/-- The requests that the three fields were read from, by number. -/
structure Owner where
  session : Nat
  off : Nat
  len : Nat
  deriving DecidableEq

/-- A return of a call, or a chunk handed over. -/
inductive Happening where
  /-- The `k`-th request has returned. -/
  | request (k : Nat)
  /-- An abort has returned, after `k` requests. -/
  | abort (k : Nat)
  /-- A chunk is sent, in the thread's `service`-th service. -/
  | chunk (owner : Owner) (service : Nat)
  deriving DecidableEq

/-- It cancels the `n`-th request: a later request does, and an abort. -/
def Happening.cancels : Happening → Nat → Bool
  | .request k, n => decide (n < k)
  | .abort k, n => decide (n ≤ k)
  | .chunk _ _, _ => false

/-- It is a chunk with a field of a request that `e` cancels. -/
def Happening.late (e : Happening) : Happening → Bool
  | .chunk o _ => e.cancels o.session || e.cancels o.off || e.cancels o.len
  | _ => false

/-- It is a chunk. -/
def Happening.isChunk : Happening → Bool
  | .chunk _ _ => true
  | _ => false

/-! ## The promises -/

/-- After a request or an abort has returned, at most one chunk of an older request follows. -/
def Honoured (h : List Happening) : Prop :=
  ∀ pre e post, h = pre ++ e :: post → post.countP e.late ≤ 1

/-- No chunk mixes the fields of two requests. -/
def Unmixed (h : List Happening) : Prop :=
  ∀ o k, .chunk o k ∈ h → o.off = o.session ∧ o.len = o.session

/-- No request is served twice. -/
def ServedOnce (h : List Happening) : Prop :=
  ∀ o k o' k', .chunk o k ∈ h → .chunk o' k' ∈ h → o.session = o'.session → k = k'

/-- Nothing has cancelled the `n`-th request. -/
def Live (h : List Happening) (n : Nat) : Prop := ∀ e ∈ h, e.cancels n = false

instance (h : List Happening) (n : Nat) : Decidable (Live h n) :=
  inferInstanceAs (Decidable (∀ e ∈ h, e.cancels n = false))

/-! ## The system -/

/-- The dump sender, and the record. -/
structure Watched where
  tx : DumpTx
  /-- Requests made. -/
  issued : Nat
  /-- Where the fields that the thread has read come from. -/
  owner : Owner
  /-- Times `dump_sem` was taken. -/
  service : Nat
  history : List Happening

/-- What can happen. -/
inductive Move where
  /-- `ble_transport_dump_request`. -/
  | request (r : DumpJob)
  /-- `ble_transport_dump_abort`. -/
  | abort
  /-- A step of the thread, the stack or the log. -/
  | dump (e : Dump.Event)

/-- The calls are made by `Move.request` and `Move.abort` only. -/
def isCall : Dump.Event → Bool
  | .request _ => true
  | .write => true
  | .abort => true
  | _ => false

/-- The statements of `ble_transport_dump_request`, all at once. -/
def requested (tx : DumpTx) (r : DumpJob) : DumpTx :=
  { tx with dumpAbort := true, req := r, dumpSem := tx.dumpSem.give }

/-- A field that the thread reads is that of the request made last. -/
def ownerAfter (s : Watched) (e : Dump.Event) : Owner :=
  match s.tx.pc, e with
  | .cleared, .run => { s.owner with session := s.issued }
  | .haveSession _, .run => { s.owner with off := s.issued }
  | .haveOff _ _, .run => { s.owner with len := s.issued }
  | _, _ => s.owner

/-- A service begins where `dump_sem` is taken. -/
def serviceAfter (s : Watched) (e : Dump.Event) : Nat :=
  match s.tx.pc, e with
  | .idle, .run => s.service + 1
  | _, _ => s.service

/-- A chunk is recorded where the stack accepts it. -/
def historyAfter (s : Watched) (e : Dump.Event) : List Happening :=
  match s.tx.pc, e with
  | .sending _ _ _, .notify .accepted => s.history ++ [.chunk s.owner s.service]
  | _, _ => s.history

/-- One step; `none` where it cannot happen. -/
def step (s : Watched) : Move → Option Watched
  | .request r => some { s with
      tx := requested s.tx r
      issued := s.issued + 1
      history := s.history ++ [.request (s.issued + 1)] }
  | .abort => some { s with
      tx := { s.tx with dumpAbort := true }
      history := s.history ++ [.abort s.issued] }
  | .dump e =>
      if isCall e then none
      else (Dump.step s.tx e).map fun tx => { s with
        tx := tx
        owner := ownerAfter s e
        service := serviceAfter s e
        history := historyAfter s e }

/-- The step relation. -/
def Step (s : Watched) (m : Move) (s' : Watched) : Prop := step s m = some s'

/-- The device at reset. -/
def Watched.cold : Watched := ⟨DumpTx.cold, 0, ⟨0, 0, 0⟩, 0, []⟩

/-- The start of a run. -/
def Start (s : Watched) : Prop := s = Watched.cold

/-- An atomic request is one that no other step interrupts. -/
theorem request_atomic (tx : DumpTx) (r : DumpJob) (h : tx.caller = none) :
    (Dump.Event.request r :: List.replicate 5 .write).foldlM Dump.step tx =
      some (requested tx r) := by
  obtain ⟨dumpSem, credits, req, abort, pc, caller, outstanding, sent⟩ := tx
  obtain rfl : caller = none := h
  rfl

/-- The flag is lowered only for the request just taken: no newer one waits, and no abort has come
    since it was made. -/
def clears (s : Watched) : Move → Bool
  | .dump .run =>
      match s.tx.pc with
      | .woken => decide (s.tx.dumpSem.count = 0 ∧ Live s.history s.issued)
      | _ => true
  | _ => true

/-! ## The record -/

theorem split_concat {α : Type} {h pre post : List α} {x e : α} (hs : h ++ [x] = pre ++ e :: post) :
    (post = [] ∧ e = x) ∨ ∃ post', post = post' ++ [x] ∧ h = pre ++ e :: post' := by
  rcases List.eq_nil_or_concat post with rfl | ⟨post', y, rfl⟩
  · left
    obtain ⟨-, hx⟩ := List.append_inj' hs rfl
    exact ⟨rfl, (List.singleton_inj.mp hx).symm⟩
  · right
    rw [List.concat_eq_append, ← List.cons_append, ← List.append_assoc] at hs
    obtain ⟨hh, hx⟩ := List.append_inj' hs rfl
    rw [List.concat_eq_append, List.singleton_inj.mp hx]
    exact ⟨post', rfl, hh⟩

/-- No chunk has followed a cancellation of the `n`-th request. -/
def Quiet (h : List Happening) (n : Nat) : Prop :=
  ∀ pre e post, h = pre ++ e :: post → e.cancels n = true → ∀ x ∈ post, x.isChunk = false

theorem Live.quiet {h : List Happening} {n : Nat} (hl : Live h n) : Quiet h n := by
  intro pre e post hh hc
  have hno := hl e (by rw [hh]; exact List.mem_append_right _ List.mem_cons_self)
  rw [hno] at hc
  exact absurd hc Bool.false_ne_true

/-- A call may follow. -/
theorem Quiet.call {h : List Happening} {n : Nat} (hq : Quiet h n) {x : Happening}
    (hx : x.isChunk = false) : Quiet (h ++ [x]) n := by
  intro pre e post hh hc y hy
  rcases split_concat hh with ⟨rfl, -⟩ | ⟨post', rfl, hh'⟩
  · exact absurd hy List.not_mem_nil
  · rcases List.mem_append.mp hy with hy | hy
    · exact hq pre e post' hh' hc y hy
    · obtain rfl := List.mem_singleton.mp hy
      exact hx

theorem late_call {x : Happening} (hx : x.isChunk = false) (e : Happening) : e.late x = false := by
  cases x with
  | request k => rfl
  | abort k => rfl
  | chunk o k => exact absurd hx (by simp [Happening.isChunk])

theorem Honoured.call {h : List Happening} (hh : Honoured h) {x : Happening}
    (hx : x.isChunk = false) : Honoured (h ++ [x]) := by
  intro pre e post hs
  rcases split_concat hs with ⟨rfl, -⟩ | ⟨post', rfl, hs'⟩
  · exact Nat.zero_le _
  · rw [List.countP_append, List.countP_singleton, late_call hx]
    exact hh pre e post' hs'

/-- **The chunk in hand** is the one that may follow. -/
theorem Honoured.chunk {h : List Happening} (hh : Honoured h) {n : Nat} (hq : Quiet h n) (k : Nat) :
    Honoured (h ++ [.chunk ⟨n, n, n⟩ k]) := by
  intro pre e post hs
  rcases split_concat hs with ⟨rfl, -⟩ | ⟨post', rfl, hs'⟩
  · exact Nat.zero_le _
  · rw [List.countP_append, List.countP_singleton]
    cases hc : e.cancels n with
    | false =>
      have hlate : e.late (.chunk ⟨n, n, n⟩ k) = false := by simp [Happening.late, hc]
      rw [hlate]
      exact hh pre e post' hs'
    | true =>
      have hnone : post'.countP e.late = 0 := by
        rw [List.countP_eq_zero]
        intro x hx
        rw [late_call (hq pre e post' hs' hc x hx)]
        exact Bool.false_ne_true
      rw [hnone]
      split
      · exact Nat.le_refl _
      · exact Nat.zero_le _

theorem Live.chunk {h : List Happening} {n : Nat} (hl : Live h n) (o : Owner) (k : Nat) :
    Live (h ++ [.chunk o k]) n := by
  intro e he
  rcases List.mem_append.mp he with he | he
  · exact hl e he
  · obtain rfl := List.mem_singleton.mp he
    rfl

/-- The chunks of the `n`-th request were sent in service `k`. -/
def SentIn (h : List Happening) (n k : Nat) : Prop :=
  ∀ o k', .chunk o k' ∈ h → o.session = n → k' = k

theorem mem_call {h : List Happening} {x : Happening} (hx : x.isChunk = false) {o : Owner} {k : Nat}
    (hmem : .chunk o k ∈ h ++ [x]) : .chunk o k ∈ h := by
  rcases List.mem_append.mp hmem with hmem | hmem
  · exact hmem
  · obtain rfl := List.mem_singleton.mp hmem
    exact absurd hx (by simp [Happening.isChunk])

theorem SentIn.call {h : List Happening} {n k : Nat} (hs : SentIn h n k) {x : Happening}
    (hx : x.isChunk = false) : SentIn (h ++ [x]) n k :=
  fun o k' hmem hn => hs o k' (mem_call hx hmem) hn

/-- A chunk more in the same service. -/
theorem SentIn.chunk {h : List Happening} {n k : Nat} (hs : SentIn h n k) (o : Owner) :
    SentIn (h ++ [.chunk o k]) n k := by
  intro o' k' hmem hn
  rcases List.mem_append.mp hmem with hmem | hmem
  · exact hs o' k' hmem hn
  · obtain ⟨-, rfl⟩ := Happening.chunk.inj (List.mem_singleton.mp hmem)
    rfl

/-! ## The invariant -/

/-- The request it is about. -/
def Happening.number : Happening → Nat
  | .request k => k
  | .abort k => k
  | .chunk o _ => o.session

/-- No chunk of the request made last is sent yet. -/
def Fresh (s : Watched) : Prop := ∀ o k, .chunk o k ∈ s.history → o.session ≠ s.issued

/-- With the flag down, the thread is about to serve the request made last. -/
def Going (s : Watched) : Prop :=
  s.tx.dumpAbort = false → s.tx.dumpSem.count = 0 ∧ Live s.history s.issued ∧
    SentIn s.history s.issued s.service

/-- A chunk of the `n`-th request may follow without another look at the flag. -/
def InHand (s : Watched) (n : Nat) : Prop :=
  s.owner = ⟨n, n, n⟩ ∧ n ≤ s.issued ∧ (s.tx.dumpSem.count ≠ 0 → n < s.issued) ∧
    SentIn s.history n s.service ∧ Quiet s.history n ∧
    (s.tx.dumpAbort = false → n = s.issued ∧ s.tx.dumpSem.count = 0 ∧ Live s.history n)

/-- What holds where the thread is. -/
def Phase (s : Watched) : Prop :=
  match s.tx.pc with
  | .idle => True
  | .woken => Fresh s
  | .cleared => Going s
  | .haveSession _ => Going s ∧ (s.tx.dumpAbort = false → s.owner.session = s.issued)
  | .haveOff _ _ =>
      Going s ∧ (s.tx.dumpAbort = false → s.owner.session = s.issued ∧ s.owner.off = s.issued)
  | .draining _ => Going s ∧ (s.tx.dumpAbort = false → s.owner = ⟨s.issued, s.issued, s.issued⟩)
  | .giving _ _ => Going s ∧ (s.tx.dumpAbort = false → s.owner = ⟨s.issued, s.issued, s.issued⟩)
  | .loop _ => Going s ∧ (s.tx.dumpAbort = false → s.owner = ⟨s.issued, s.issued, s.issued⟩)
  | .reading _ => ∃ n, InHand s n
  | .built _ _ => ∃ n, InHand s n
  | .sending _ _ _ => ∃ n, InHand s n

/-- **The invariant.** -/
structure Inv (s : Watched) : Prop where
  honoured : Honoured s.history
  unmixed : Unmixed s.history
  once : ServedOnce s.history
  numbered : ∀ e ∈ s.history, e.number ≤ s.issued
  fresh : s.tx.dumpSem.count ≠ 0 → Fresh s
  phase : Phase s

/-- With the flag up, only the thread's place among the chunks matters. -/
theorem Phase.raised {s s' : Watched} (h : Phase s) (hpc : s'.tx.pc = s.tx.pc)
    (hup : s'.tx.dumpAbort = true) (hfresh : Fresh s → Fresh s')
    (hhand : ∀ n, InHand s n → InHand s' n) : Phase s' := by
  have hnot : ∀ {P : Prop}, (s'.tx.dumpAbort = false → P) := by
    intro P hdown
    rw [hup] at hdown
    exact absurd hdown (by decide)
  unfold Phase at h ⊢
  rw [hpc]
  cases hat : s.tx.pc with
  | idle => exact trivial
  | woken =>
    rw [hat] at h
    exact hfresh h
  | cleared => exact hnot
  | haveSession | haveOff | draining | giving | loop => exact ⟨hnot, hnot⟩
  | reading | built | sending =>
    rw [hat] at h
    exact h.imp hhand

/-- A step that records nothing and gives nothing has only to find its place. -/
theorem Inv.move {s s' : Watched} (h : Inv s) (hh : s'.history = s.history)
    (hi : s'.issued = s.issued) (hsem : s'.tx.dumpSem.count ≤ s.tx.dumpSem.count)
    (hp : Phase s') : Inv s' where
  honoured := by
    rw [hh]
    exact h.honoured
  unmixed := by
    rw [hh]
    exact h.unmixed
  once := by
    rw [hh]
    exact h.once
  numbered := by
    rw [hh, hi]
    exact h.numbered
  fresh := by
    intro hne
    have hfresh := h.fresh (by omega)
    unfold Fresh at *
    rw [hh, hi]
    exact hfresh
  phase := hp

theorem Unmixed.call {h : List Happening} (hu : Unmixed h) {x : Happening}
    (hx : x.isChunk = false) : Unmixed (h ++ [x]) :=
  fun o k hmem => hu o k (mem_call hx hmem)

theorem ServedOnce.call {h : List Happening} (ho : ServedOnce h) {x : Happening}
    (hx : x.isChunk = false) : ServedOnce (h ++ [x]) :=
  fun o k o' k' hmem hmem' => ho o k o' k' (mem_call hx hmem) (mem_call hx hmem')

/-! ## The calls -/

/-- **A request** raises the flag and is the last one made. -/
theorem request_inv {s : Watched} (h : Inv s) (r : DumpJob) :
    Inv { s with
      tx := requested s.tx r
      issued := s.issued + 1
      history := s.history ++ [.request (s.issued + 1)] } := by
  have hfresh : ∀ o k, .chunk o k ∈ s.history ++ [.request (s.issued + 1)] →
      o.session ≠ s.issued + 1 := by
    intro o k hmem
    have hle : o.session ≤ s.issued := h.numbered _ (mem_call rfl hmem)
    omega
  refine ⟨h.honoured.call rfl, h.unmixed.call rfl, h.once.call rfl, ?_, fun _ => hfresh, ?_⟩
  · intro e he
    show e.number ≤ s.issued + 1
    rcases List.mem_append.mp he with he | he
    · exact Nat.le_succ_of_le (h.numbered e he)
    · obtain rfl := List.mem_singleton.mp he
      exact Nat.le_refl _
  · refine h.phase.raised rfl rfl (fun _ => hfresh) ?_
    rintro n ⟨ho, hle, -, hsent, hquiet, -⟩
    exact ⟨ho, Nat.le_succ_of_le hle, fun _ => Nat.lt_succ_of_le hle, hsent.call rfl,
      hquiet.call rfl, fun hdown => Bool.noConfusion (hdown : true = false)⟩

/-- **An abort** raises the flag. -/
theorem abort_inv {s : Watched} (h : Inv s) :
    Inv { s with
      tx := { s.tx with dumpAbort := true }
      history := s.history ++ [.abort s.issued] } := by
  have hfresh : Fresh s → ∀ o k, .chunk o k ∈ s.history ++ [.abort s.issued] →
      o.session ≠ s.issued := fun hf o k hmem => hf o k (mem_call rfl hmem)
  refine ⟨h.honoured.call rfl, h.unmixed.call rfl, h.once.call rfl, ?_,
    fun hne => hfresh (h.fresh hne), ?_⟩
  · intro e he
    rcases List.mem_append.mp he with he | he
    · exact h.numbered e he
    · obtain rfl := List.mem_singleton.mp he
      exact Nat.le_refl _
  · refine h.phase.raised rfl rfl hfresh ?_
    rintro n ⟨ho, hle, hlt, hsent, hquiet, -⟩
    exact ⟨ho, hle, hlt, hsent.call rfl, hquiet.call rfl,
      fun hdown => Bool.noConfusion (hdown : true = false)⟩

/-! ## The thread -/

/-- The state after a step of the thread, the stack or the log. -/
def after (s : Watched) (e : Dump.Event) (tx : DumpTx) : Watched :=
  { s with
    tx := tx
    owner := ownerAfter s e
    service := serviceAfter s e
    history := historyAfter s e }

/-- **One statement of the thread.** -/
theorem run_inv {s : Watched} {tx : DumpTx} (h : Inv s) (hclear : clears s (.dump .run) = true)
    (hs : Dump.runStep s.tx = some tx) : Inv (after s .run tx) := by
  obtain ⟨⟨dumpSem, credits, req, abort, pc, caller, outstanding, sent⟩, issued, owner, service,
    history⟩ := s
  have hphase := h.phase
  cases pc with
  | idle =>
    obtain ⟨t, ht, rfl⟩ := Option.map_eq_some_iff.mp hs
    have hcount : 0 < dumpSem.count ∧ t.count = dumpSem.count - 1 := KSem.take_some ht
    refine h.move rfl rfl ?_ (h.fresh (Nat.ne_of_gt hcount.1))
    show t.count ≤ dumpSem.count
    omega
  | woken =>
    -- the flag goes down: the guard says for whom it was up
    obtain rfl := Option.some.inj hs
    obtain ⟨hzero, hlive⟩ := of_decide_eq_true hclear
    refine h.move rfl rfl (Nat.le_refl _) fun _ => ⟨hzero, hlive, ?_⟩
    exact fun o k hmem hn => absurd hn (hphase o k hmem)
  | cleared =>
    obtain rfl := Option.some.inj hs
    exact h.move rfl rfl (Nat.le_refl _) ⟨hphase, fun _ => rfl⟩
  | haveSession session =>
    obtain rfl := Option.some.inj hs
    exact h.move rfl rfl (Nat.le_refl _) ⟨hphase.1, fun hdown => ⟨hphase.2 hdown, rfl⟩⟩
  | haveOff session off =>
    obtain rfl := Option.some.inj hs
    refine h.move rfl rfl (Nat.le_refl _) ⟨hphase.1, fun hdown => ?_⟩
    obtain ⟨hsession, hoff⟩ := hphase.2 hdown
    show Owner.mk owner.session owner.off issued = ⟨issued, issued, issued⟩
    rw [show owner.session = issued from hsession, show owner.off = issued from hoff]
  | draining j =>
    cases ht : credits.take with
    | some t =>
      simp only [Dump.runStep, ht, Option.some.injEq] at hs
      subst hs
      exact h.move rfl rfl (Nat.le_refl _) hphase
    | none =>
      simp only [Dump.runStep, ht, Option.some.injEq] at hs
      subst hs
      exact h.move rfl rfl (Nat.le_refl _) hphase
  | giving j given =>
    simp only [Dump.runStep] at hs
    split at hs
    · obtain rfl := Option.some.inj hs
      exact h.move rfl rfl (Nat.le_refl _) hphase
    · obtain rfl := Option.some.inj hs
      exact h.move rfl rfl (Nat.le_refl _) hphase
  | loop j =>
    simp only [Dump.runStep] at hs
    split at hs
    · -- the flag is down: a chunk of the request made last comes next
      rename_i hgo
      obtain rfl := Option.some.inj hs
      obtain ⟨hgoing, howner⟩ := hphase
      obtain ⟨hzero, hlive, hsent⟩ := hgoing hgo.2
      refine h.move rfl rfl (Nat.le_refl _) ⟨issued, howner hgo.2, Nat.le_refl _, ?_, hsent,
        hlive.quiet, fun _ => ⟨rfl, hzero, hlive⟩⟩
      exact fun hne => absurd hzero hne
    · obtain rfl := Option.some.inj hs
      exact h.move rfl rfl (Nat.le_refl _) trivial
  | reading j => exact absurd hs (by simp [Dump.runStep])
  | built j c =>
    obtain ⟨t, -, rfl⟩ := Option.map_eq_some_iff.mp hs
    exact h.move rfl rfl (Nat.le_refl _) hphase
  | sending j c tries => exact absurd hs (by simp [Dump.runStep])

/-- **The chunk in hand is sent.** -/
theorem chunk_inv {s : Watched} {n : Nat} (h : Inv s) (hand : InHand s n) {tx : DumpTx}
    (hsem : tx.dumpSem = s.tx.dumpSem) (hflag : tx.dumpAbort = s.tx.dumpAbort)
    (hpc : tx.pc = .idle ∨ ∃ j, tx.pc = .loop j) :
    Inv { s with tx := tx, history := s.history ++ [.chunk s.owner s.service] } := by
  obtain ⟨howner, hle, hlt, hsent, hquiet, hdown⟩ := hand
  rw [howner]
  refine ⟨h.honoured.chunk hquiet _, ?_, ?_, ?_, ?_, ?_⟩
  · intro o k hmem
    rcases List.mem_append.mp hmem with hmem | hmem
    · exact h.unmixed o k hmem
    · obtain ⟨rfl, -⟩ := Happening.chunk.inj (List.mem_singleton.mp hmem)
      exact ⟨rfl, rfl⟩
  · intro o k o' k' hmem hmem' hn
    rcases List.mem_append.mp hmem with hmem | hmem
    · rcases List.mem_append.mp hmem' with hmem' | hmem'
      · exact h.once o k o' k' hmem hmem' hn
      · obtain ⟨rfl, rfl⟩ := Happening.chunk.inj (List.mem_singleton.mp hmem')
        exact hsent o k hmem hn
    · obtain ⟨rfl, rfl⟩ := Happening.chunk.inj (List.mem_singleton.mp hmem)
      rcases List.mem_append.mp hmem' with hmem' | hmem'
      · exact (hsent o' k' hmem' hn.symm).symm
      · obtain ⟨-, rfl⟩ := Happening.chunk.inj (List.mem_singleton.mp hmem')
        rfl
  · intro e he
    rcases List.mem_append.mp he with he | he
    · exact h.numbered e he
    · obtain rfl := List.mem_singleton.mp he
      exact hle
  · intro hne o k hmem
    have hne' : s.tx.dumpSem.count ≠ 0 := by
      rw [← hsem]
      exact hne
    rcases List.mem_append.mp hmem with hmem | hmem
    · exact h.fresh hne' o k hmem
    · obtain ⟨rfl, -⟩ := Happening.chunk.inj (List.mem_singleton.mp hmem)
      exact Nat.ne_of_lt (hlt hne')
  · rcases hpc with hpc | ⟨j, hpc⟩
    · simp only [Phase, hpc]
    · simp only [Phase, hpc]
      have hgo : tx.dumpAbort = false → n = s.issued ∧ tx.dumpSem.count = 0 ∧ Live s.history n := by
        rw [hflag, hsem]
        exact hdown
      constructor
      · intro hf
        obtain ⟨rfl, hzero, hlive⟩ := hgo hf
        exact ⟨hzero, hlive.chunk _ _, hsent.chunk _⟩
      · intro hf
        obtain ⟨rfl, -, -⟩ := hgo hf
        rfl

/-- **The stack's answer.** -/
theorem notify_inv {s : Watched} (h : Inv s) {j : DumpJob} {c : Dump.DumpChunk} {tries : Nat}
    (hpc : s.tx.pc = .sending j c tries) (ret : Dump.NotifyRet) :
    Inv (after s (.notify ret) (Dump.notifyStep s.tx j c tries ret)) := by
  obtain ⟨⟨dumpSem, credits, req, abort, pc, caller, outstanding, sent⟩, issued, owner, service,
    history⟩ := s
  obtain rfl : pc = .sending j c tries := hpc
  obtain ⟨n, hand⟩ := h.phase
  cases ret with
  | accepted =>
    refine chunk_inv h hand rfl rfl ?_
    show (if c.last then DumpPc.idle else .loop _) = .idle ∨
      ∃ j', (if c.last then DumpPc.idle else .loop _) = .loop j'
    split
    · exact Or.inl rfl
    · exact Or.inr ⟨_, rfl⟩
  | busy =>
    by_cases hagain : tries + 1 < 500 ∧ abort = false
    · simp only [Dump.notifyStep, if_pos hagain]
      exact h.move rfl rfl (Nat.le_refl _) ⟨n, hand⟩
    · simp only [Dump.notifyStep, if_neg hagain]
      exact h.move rfl rfl (Nat.le_refl _) trivial
  | failed => exact h.move rfl rfl (Nat.le_refl _) trivial

/-- A step of the thread, the stack or the log. -/
theorem dump_inv {s : Watched} {e : Dump.Event} {tx : DumpTx} (h : Inv s)
    (hclear : clears s (.dump e) = true) (hcall : isCall e = false)
    (hs : Dump.step s.tx e = some tx) : Inv (after s e tx) := by
  have hphase := h.phase
  cases e with
  | request r => exact absurd hcall (by simp [isCall])
  | write => exact absurd hcall (by simp [isCall])
  | abort => exact absurd hcall (by simp [isCall])
  | run => exact run_inv h hclear hs
  | read res =>
    obtain ⟨⟨dumpSem, credits, req, abort, pc, caller, outstanding, sent⟩, issued, owner, service,
      history⟩ := s
    simp only [Dump.step] at hs
    split at hs
    · obtain rfl := Option.some.inj hs
      exact h.move rfl rfl (Nat.le_refl _) hphase
    · obtain rfl := Option.some.inj hs
      exact h.move rfl rfl (Nat.le_refl _) trivial
    · exact absurd hs (by simp)
  | jam =>
    obtain ⟨⟨dumpSem, credits, req, abort, pc, caller, outstanding, sent⟩, issued, owner, service,
      history⟩ := s
    simp only [Dump.step] at hs
    split at hs
    · obtain ⟨-, hs⟩ := Option.ite_none_right_eq_some.mp hs
      obtain rfl := Option.some.inj hs
      exact h.move rfl rfl (Nat.le_refl _) trivial
    · exact absurd hs (by simp)
  | notify ret =>
    simp only [Dump.step] at hs
    split at hs
    · rename_i hpc
      obtain rfl := Option.some.inj hs
      exact notify_inv h hpc ret
    · exact absurd hs (by simp)
  | sentCb =>
    obtain ⟨-, hs⟩ := Option.ite_none_right_eq_some.mp hs
    obtain rfl := Option.some.inj hs
    obtain ⟨⟨dumpSem, credits, req, abort, pc, caller, outstanding, sent⟩, issued, owner, service,
      history⟩ := s
    cases pc with
    | idle => exact h.move rfl rfl (Nat.le_refl _) trivial
    | woken => exact h.move rfl rfl (Nat.le_refl _) hphase
    | cleared => exact h.move rfl rfl (Nat.le_refl _) hphase
    | haveSession session => exact h.move rfl rfl (Nat.le_refl _) hphase
    | haveOff session off => exact h.move rfl rfl (Nat.le_refl _) hphase
    | draining j => exact h.move rfl rfl (Nat.le_refl _) hphase
    | giving j given => exact h.move rfl rfl (Nat.le_refl _) hphase
    | loop j => exact h.move rfl rfl (Nat.le_refl _) hphase
    | reading j => exact h.move rfl rfl (Nat.le_refl _) hphase
    | built j c => exact h.move rfl rfl (Nat.le_refl _) hphase
    | sending j c tries => exact h.move rfl rfl (Nat.le_refl _) hphase

/-- **Step lemma.** -/
theorem step_inv {s s' : Watched} {m : Move} (h : Inv s) (hclear : clears s m = true)
    (hs : Step s m s') : Inv s' := by
  cases m with
  | request r =>
    obtain rfl := Option.some.inj hs
    exact request_inv h r
  | abort =>
    obtain rfl := Option.some.inj hs
    exact abort_inv h
  | dump e =>
    obtain ⟨hcall, hs⟩ := Option.ite_none_left_eq_some.mp hs
    obtain ⟨tx, htx, rfl⟩ := Option.map_eq_some_iff.mp hs
    exact dump_inv h hclear (by simpa using hcall) htx

theorem start_inv {s : Watched} (h : Start s) : Inv s := by
  obtain rfl := h
  refine ⟨?_, ?_, ?_, ?_, ?_, trivial⟩
  · intro pre e post hs
    exact absurd hs (by simp [Watched.cold])
  · exact fun o k hmem => absurd hmem List.not_mem_nil
  · exact fun o k o' k' hmem => absurd hmem List.not_mem_nil
  · exact fun e he => absurd he List.not_mem_nil
  · exact fun _ o k hmem => absurd hmem List.not_mem_nil

/-! ## The promises kept -/

/-- **Cancelling a dump.**  In every interleaving of requests, aborts and the thread's steps in which
    the flag is lowered only for the request just taken, at most one chunk of an older request follows
    a call, no chunk mixes two requests and none is served twice. -/
theorem cancel_kept {s : Watched}
    (h : Reach Start (guarded (fun s m => clears s m = true) Step) s) :
    Honoured s.history ∧ Unmixed s.history ∧ ServedOnce s.history := by
  have hinv : Inv s := by
    refine h.invariant (fun _ h0 => start_inv h0) ?_
    rintro s m s' - hi ⟨hclear, hst⟩
    exact step_inv hi hclear hst
  exact ⟨hinv.honoured, hinv.unmixed, hinv.once⟩

/-- From `dump_sem` to the send loop. -/
def fetch : List Move := List.replicate 9 (.dump .run)

/-- A full chunk. -/
def sendFull : List Move :=
  [.dump .run, .dump (.read (some (List.replicate 232 0))), .dump .run, .dump (.notify .accepted)]

/-- What is left in the record of a run. -/
def recorded (g : Watched → Move → Bool) (ms : List Move) (h : List Happening) : Bool :=
  (ms.foldlM (fun s m => if g s m then step s m else none) Watched.cold).any
    fun s : Watched => decide (s.history = h)

/-- A dump cancelled by a newer request after its first chunk. -/
theorem cancel_kept_newer : ∃ s : Watched,
    (Honoured s.history ∧ Unmixed s.history ∧ ServedOnce s.history) ∧
      s.history = [.request 1, .chunk ⟨1, 1, 1⟩ 1, .request 2, .chunk ⟨2, 2, 2⟩ 2] := by
  have hrun : recorded clears
      ([.request ⟨1, 0, 1000⟩] ++ fetch ++ sendFull ++ [.request ⟨1, 464, 536⟩, .dump .run,
        .dump .run] ++ fetch ++ sendFull)
      [.request 1, .chunk ⟨1, 1, 1⟩ 1, .request 2, .chunk ⟨2, 2, 2⟩ 2] = true := by
    decide +kernel
  obtain ⟨s, hs, hout⟩ := (Option.any_eq_true _ _).mp hrun
  exact ⟨s, cancel_kept (Reach.runGuarded (.start rfl) hs), of_decide_eq_true hout⟩

/-- **A lost abort.**  A request waits, the abort comes before the thread has taken it up, and the
    thread lowers the flag and serves the request. -/
theorem abort_lost : ¬ ∀ s, Reach Start Step s → Honoured s.history := by
  intro hall
  have hrun : recorded (fun _ _ => true)
      ([.request ⟨1, 0, 1000⟩, .abort] ++ fetch ++ sendFull ++ sendFull)
      [.request 1, .abort 1, .chunk ⟨1, 1, 1⟩ 1, .chunk ⟨1, 1, 1⟩ 1] = true := by
    decide +kernel
  obtain ⟨s, hs, hout⟩ := (Option.any_eq_true _ _).mp hrun
  have hh := hall s (Reach.run (fun _ _ _ hst => hst) (.start rfl) hs)
  rw [of_decide_eq_true hout] at hh
  exact absurd (hh [.request 1] (.abort 1) _ rfl) (by decide)

/-- **A request served twice.**  It arrives while the thread, woken by an older one, has not yet
    lowered the flag: the thread reads its fields, and finds `dump_sem` given once more. -/
theorem served_twice : ¬ ∀ s, Reach Start Step s → ServedOnce s.history := by
  intro hall
  have hrun : recorded (fun _ _ => true)
      ([.request ⟨1, 0, 232⟩, .dump .run, .request ⟨2, 0, 232⟩] ++ fetch ++ sendFull.tail ++
        [.dump .run] ++ fetch ++ sendFull)
      [.request 1, .request 2, .chunk ⟨2, 2, 2⟩ 1, .chunk ⟨2, 2, 2⟩ 2] = true := by
    decide +kernel
  obtain ⟨s, hs, hout⟩ := (Option.any_eq_true _ _).mp hrun
  have hh := hall s (Reach.run (fun _ _ _ hst => hst) (.start rfl) hs)
  rw [of_decide_eq_true hout] at hh
  exact absurd (hh ⟨2, 2, 2⟩ 1 ⟨2, 2, 2⟩ 2 (by decide) (by decide) rfl) (by decide)

end Caterpillar.Ble.DumpCancel
