/-
  The reconfiguration handshake of the shared block (common/imu_shared.h): the application core fills
  the four `cfg_*` fields and increments `cfg_seq`; the coprocessor reads `cfg_seq`, then the fields,
  programs the sensor, writes `cfg_status` and echoes the number in `cfg_applied`.

  Nothing protects the fields, so the coprocessor may read some of one update and some of the next.  The
  number saves it: what is echoed was read BEFORE the fields.

  1. `Live s q` — no update was completed since the `q`-th, and none is being written: what was read
     since then is current.
  2. `Flight` — what a call of `apply_config` knows at each of its statements, as long as the number it
     read is live; and outside of a call, as long as the number it echoed last is.
  3. `Inv` — the invariant; `Flight.later` carries it over everything the application core does.
  4. `handshake` — with fewer than 2^32 updates an echoed number is the current one only if it is live.
-/
import Caterpillar.Imu.Sampler

namespace Caterpillar.Imu.Sampler

open Caterpillar.Word Caterpillar.Runs Caterpillar.Sem

/-! ## What is known -/

/-- `cfg_seq` after `n` updates. -/
def seqAfter (n : Nat) : Nat := u32 (1 + n)

/-- Fewer than 2^32 updates have numbers that differ. -/
theorem seqAfter_inj {n m : Nat} (hn : n < 4294967296) (hm : m < 4294967296)
    (h : seqAfter n = seqAfter m) : n = m := by
  unfold seqAfter u32 at h
  omega

/-- No update was completed since the `q`-th, and none is being written. -/
def Live (s : Flpr) (q : Nat) : Prop := q = s.updates ∧ s.app = none

/-- The sensor was last programmed with exactly these values. -/
def Programmed (s : Flpr) (c : SampleCfg) : Prop :=
  s.programmed = some c ∧ s.sensor.regs = c.regs

/-- The first `k` registers are written. -/
def Partly (s : Flpr) (c : SampleCfg) (k : Nat) : Prop :=
  k < 3 ∧ (1 ≤ k → s.programmed = some c ∧ s.sensor.regs.ctrl1Xl = c.regs.ctrl1Xl) ∧
    (2 ≤ k → s.sensor.regs.ctrl2G = c.regs.ctrl2G)

/-- The number `v` read from `cfg_seq` is newer than the `a`-th, and as long as it is live, `P`. -/
def Reads (s : Flpr) (a v : Nat) (P : Prop) : Prop :=
  ∃ q, a < q ∧ q ≤ s.updates ∧ v = seqAfter q ∧ (Live s q → P)

/-- What is known where the loop is, the `a`-th number being the one echoed last. -/
def Flight (s : Flpr) (a : Nat) : FlprPc → Prop
  | .fetch _ v got => Reads s a v (∀ f x, got f = some x → x = s.cfg.get f)
  | .write _ v c k => Reads s a v (c = s.cfg) ∧ Partly s c k
  | .scratch _ v c | .reset _ v c => Reads s a v (c = s.cfg) ∧ Programmed s c
  | .status _ v c ret => Reads s a v (c = s.cfg) ∧ (ret = 0 → Programmed s c)
  | .applied _ v c => Reads s a v (c = s.cfg) ∧ (s.cfgStatus = 0 → Programmed s c)
  | _ => Live s a → s.cfgStatus = 0 → Programmed s s.cfg

/-- The invariant of the handshake. -/
structure Inv (s : Flpr) : Prop where
  few : s.updates < 4294967296
  seq : s.cfgSeq = seqAfter s.updates
  flight : ∃ a, a ≤ s.updates ∧ s.cfgApplied = seqAfter a ∧ Flight s a s.pc

theorem Reads.imp {s s' : Flpr} {a v : Nat} {P Q : Prop} (h : Reads s a v P)
    (hupdates : s.updates ≤ s'.updates)
    (hlive : ∀ q, q ≤ s.updates → Live s' q → Live s q) (hPQ : ∀ q, q ≤ s.updates → Live s' q → P → Q) :
    Reads s' a v Q := by
  obtain ⟨q, haq, hqn, hv, hp⟩ := h
  refine ⟨q, haq, Nat.le_trans hqn hupdates, hv, ?_⟩
  intro hl
  exact hPQ q hqn hl (hp (hlive q hqn hl))

/-- **What the application core does** leaves what is known: it touches the fields only while no number
    is live, and completing an update makes a new one. -/
theorem Flight.later {s s' : Flpr} {a : Nat} {pc : FlprPc} (h : Flight s a pc) (ha : a ≤ s.updates)
    (hupdates : s.updates ≤ s'.updates)
    (hlive : ∀ q, q ≤ s.updates → Live s' q → Live s q ∧ s'.cfg = s.cfg)
    (hprog : s'.programmed = s.programmed) (hregs : s'.sensor.regs = s.sensor.regs)
    (hstatus : s'.cfgStatus = s.cfgStatus) : Flight s' a pc := by
  have hsound : ∀ c, Programmed s' c ↔ Programmed s c := by
    intro c
    unfold Programmed
    rw [hprog, hregs]
  have harg : ∀ {v : Nat} {c : SampleCfg}, Reads s a v (c = s.cfg) → Reads s' a v (c = s'.cfg) := by
    intro v c hr
    refine hr.imp hupdates (fun q hq hl => (hlive q hq hl).1) ?_
    intro q hq hl hc
    rw [(hlive q hq hl).2]
    exact hc
  have hidle : (Live s a → s.cfgStatus = 0 → Programmed s s.cfg) →
      Live s' a → s'.cfgStatus = 0 → Programmed s' s'.cfg := by
    intro hold hl hzero
    obtain ⟨hl', hcfg⟩ := hlive a ha hl
    rw [hsound, hcfg]
    exact hold hl' (hstatus ▸ hzero)
  cases pc with
  | fetch p v got =>
    refine Reads.imp h hupdates (fun q hq hl => (hlive q hq hl).1) ?_
    intro q hq hl hgot
    rw [(hlive q hq hl).2]
    exact hgot
  | write p v c k =>
    obtain ⟨hr, hpart⟩ := h
    refine ⟨harg hr, ?_⟩
    unfold Partly
    rw [hprog, hregs]
    exact hpart
  | scratch p v c =>
    obtain ⟨hr, hp⟩ := h
    exact ⟨harg hr, (hsound c).mpr hp⟩
  | reset p v c =>
    obtain ⟨hr, hp⟩ := h
    exact ⟨harg hr, (hsound c).mpr hp⟩
  | status p v c ret =>
    obtain ⟨hr, hp⟩ := h
    exact ⟨harg hr, fun hret => (hsound c).mpr (hp hret)⟩
  | applied p v c =>
    obtain ⟨hr, hp⟩ := h
    exact ⟨harg hr, fun hzero => (hsound c).mpr (hp (hstatus ▸ hzero))⟩
  | _ => exact hidle h

/-- Where the application core and the loop's own progress are left alone. -/
theorem Inv.frame {s s' : Flpr} (h : Inv s) (hupdates : s'.updates = s.updates)
    (hseq : s'.cfgSeq = s.cfgSeq) (happlied : s'.cfgApplied = s.cfgApplied) (happ : s'.app = s.app)
    (hcfg : s'.cfg = s.cfg) (hprog : s'.programmed = s.programmed)
    (hregs : s'.sensor.regs = s.sensor.regs) (hstatus : s'.cfgStatus = s.cfgStatus)
    (hpc : ∀ a, Flight s a s.pc → Flight s a s'.pc) : Inv s' := by
  obtain ⟨a, ha, hecho, hf⟩ := h.flight
  refine ⟨hupdates ▸ h.few, by rw [hseq, hupdates]; exact h.seq, a, by rw [hupdates]; exact ha,
    happlied.trans hecho, ?_⟩
  refine (hpc a hf).later ha (Nat.le_of_eq hupdates.symm) ?_ hprog hregs hstatus
  rintro q - ⟨hq, hnone⟩
  exact ⟨⟨hq.trans hupdates, happ.symm.trans hnone⟩, hcfg⟩

/-- A field is written, or an update begins. -/
theorem Inv.busy {s s' : Flpr} (h : Inv s) (hupdates : s'.updates = s.updates)
    (hseq : s'.cfgSeq = s.cfgSeq) (happlied : s'.cfgApplied = s.cfgApplied) (happ : s'.app ≠ none)
    (hprog : s'.programmed = s.programmed) (hsensor : s'.sensor = s.sensor)
    (hstatus : s'.cfgStatus = s.cfgStatus) (hpc : s'.pc = s.pc) : Inv s' := by
  obtain ⟨a, ha, hecho, hf⟩ := h.flight
  refine ⟨hupdates ▸ h.few, by rw [hseq, hupdates]; exact h.seq, a, by rw [hupdates]; exact ha,
    happlied.trans hecho, ?_⟩
  rw [hpc]
  refine hf.later ha (Nat.le_of_eq hupdates.symm) ?_ hprog (by rw [hsensor]) hstatus
  rintro q - ⟨-, hnone⟩
  exact absurd hnone happ

/-- **One statement of `session_imu_run_update`.** -/
theorem appStep_inv {s s' : Flpr} (h : Inv s) (hfew : s.updates < 4294967295)
    (hs : appStep s = some s') : Inv s' := by
  unfold appStep at hs
  split at hs
  · exact absurd hs (by simp)
  · rename_i c k happ
    split at hs
    case h_5 =>
      -- the number is incremented: none of the old ones is live
      obtain rfl := Option.some.inj hs
      obtain ⟨a, ha, hecho, hf⟩ := h.flight
      refine ⟨?_, ?_, a, ?_, hecho, ?_⟩
      · show s.updates + 1 < 4294967296
        omega
      · show u32 (s.cfgSeq + 1) = seqAfter (s.updates + 1)
        rw [h.seq]
        unfold seqAfter
        rw [u32_u32_add, Nat.add_assoc]
      · show a ≤ s.updates + 1
        omega
      · refine hf.later ha (Nat.le_succ _) ?_ rfl rfl rfl
        rintro q hq ⟨hq', -⟩
        have hnew : q = s.updates + 1 := hq'
        omega
    all_goals
      obtain rfl := Option.some.inj hs
      exact h.busy rfl rfl rfl (Option.some_ne_none _) rfl rfl rfl rfl

/-- What was fetched is what the block holds. -/
theorem allFetched_get {got : CfgField → Option UInt8} {c : SampleCfg} (h : allFetched got = some c)
    (f : CfgField) : got f = some (c.get f) := by
  unfold allFetched at h
  split at h
  · rename_i o t a g ho ht ha hg
    obtain rfl := Option.some.inj h
    cases f with
    | odr => exact ho
    | content => exact ht
    | accelFs => exact ha
    | gyroFs => exact hg
  · exact absurd h (by simp)

/-- **One statement of the loop.** -/
theorem runStep_inv {s s' : Flpr} (h : Inv s) (hs : runStep s = some s') : Inv s' := by
  obtain ⟨a, ha, hecho, hf⟩ := h.flight
  unfold runStep at hs
  cases hpc : s.pc with
  | ready =>
    rw [hpc] at hf
    simp only [hpc] at hs
    split at hs
    · obtain rfl := Option.some.inj hs
      exact ⟨h.few, h.seq, a, ha, hecho, hf⟩
    · obtain rfl := Option.some.inj hs
      exact ⟨h.few, h.seq, a, ha, hecho, hf⟩
  | test p =>
    rw [hpc] at hf
    simp only [hpc] at hs
    split at hs
    · obtain rfl := Option.some.inj hs
      refine ⟨h.few, h.seq, a, ha, hecho, ?_⟩
      cases p with
      | timeout => exact hf
      | poll => exact hf
    · rename_i hne
      obtain rfl := Option.some.inj hs
      -- the number differs from the one echoed, so it is newer
      have hnew : a ≠ s.updates := by
        rintro rfl
        exact hne (h.seq.trans hecho.symm)
      refine ⟨h.few, h.seq, a, ha, hecho, s.updates, by omega, Nat.le_refl _, h.seq, ?_⟩
      intro _ f x hx
      exact absurd hx (by simp)
  | fetch p v got =>
    rw [hpc] at hf
    simp only [hpc] at hs
    obtain ⟨c, hc, rfl⟩ := Option.map_eq_some_iff.mp hs
    have hargs : Reads s a v (c = s.cfg) := by
      refine Reads.imp hf (Nat.le_refl _) (fun _ _ hl => hl) ?_
      intro q _ _ hgot
      exact SampleCfg.ext_get fun f => hgot f _ (allFetched_get hc f)
    split
    · refine ⟨h.few, h.seq, a, ha, hecho, hargs, ?_, ?_, ?_⟩
      · exact Nat.zero_lt_succ 2
      · intro hone
        exact absurd hone (by decide)
      · intro htwo
        exact absurd htwo (by decide)
    · refine ⟨h.few, h.seq, a, ha, hecho, hargs, ?_⟩
      intro hzero
      exact absurd hzero (by decide)
  | reset p v c =>
    rw [hpc] at hf
    simp only [hpc] at hs
    obtain rfl := Option.some.inj hs
    obtain ⟨hr, hp⟩ := hf
    exact ⟨h.few, h.seq, a, ha, hecho, hr, fun _ => hp⟩
  | status p v c ret =>
    rw [hpc] at hf
    simp only [hpc] at hs
    obtain rfl := Option.some.inj hs
    exact ⟨h.few, h.seq, a, ha, hecho, hf⟩
  | applied p v c =>
    rw [hpc] at hf
    simp only [hpc] at hs
    obtain rfl := Option.some.inj hs
    obtain ⟨⟨q, -, hqn, rfl, hargs⟩, hp⟩ := hf
    refine ⟨h.few, h.seq, q, hqn, rfl, ?_⟩
    have hlast : Live s q → s.cfgStatus = 0 → Programmed s s.cfg := by
      intro hl hzero
      have hsound := hp hzero
      rw [hargs hl] at hsound
      exact hsound
    cases p with
    | timeout => exact hlast
    | poll => exact hlast
  | _ =>
    simp only [hpc] at hs
    exact absurd hs (by simp)

/-- **An SPI transfer returns.** -/
theorem spiStep_inv {s s' : Flpr} {ret : Int} (h : Inv s) (hs : spiStep s ret = some s') : Inv s' := by
  obtain ⟨a, ha, hecho, hf⟩ := h.flight
  unfold spiStep at hs
  cases hpc : s.pc with
  | write p v c k =>
    rw [hpc] at hf
    obtain ⟨hr, hlt, hone, htwo⟩ := hf
    simp only [hpc] at hs
    split at hs
    · rename_i hneg
      obtain rfl := Option.some.inj hs
      refine ⟨h.few, h.seq, a, ha, hecho, hr, ?_⟩
      intro hzero
      omega
    · obtain rfl := Option.some.inj hs
      refine ⟨h.few, h.seq, a, ha, hecho, ?_⟩
      -- by which register it was
      match k, hlt with
      | 0, _ =>
        refine ⟨hr, by decide, fun _ => ⟨rfl, rfl⟩, ?_⟩
        intro hle
        exact absurd hle (by decide)
      | 1, _ => exact ⟨hr, by decide, fun _ => ⟨rfl, (hone (by decide)).2⟩, fun _ => rfl⟩
      | 2, _ =>
        refine ⟨hr, rfl, ?_⟩
        show (⟨s.sensor.regs.ctrl1Xl, s.sensor.regs.ctrl2G, c.regs.int1Ctrl⟩ : Regs) = c.regs
        rw [(hone (by decide)).2, htwo (by decide)]
  | scratch p v c =>
    rw [hpc] at hf
    simp only [hpc] at hs
    split at hs
    · obtain rfl := Option.some.inj hs
      exact ⟨h.few, h.seq, a, ha, hecho, hf⟩
    · obtain rfl := Option.some.inj hs
      exact ⟨h.few, h.seq, a, ha, hecho, hf⟩
  | read =>
    rw [hpc] at hf
    simp only [hpc] at hs
    split at hs
    · obtain rfl := Option.some.inj hs
      exact ⟨h.few, h.seq, a, ha, hecho, hf⟩
    · obtain rfl := Option.some.inj hs
      exact ⟨h.few, h.seq, a, ha, hecho, hf⟩
  | _ =>
    simp only [hpc] at hs
    exact absurd hs (by simp)

/-! ## The handshake -/

/-- The application core has made fewer than 2^32 - 1 updates when it works on one. -/
def fewUpdates (s : Flpr) : Event → Bool
  | .appWrite => decide (s.updates < 4294967295)
  | _ => true

/-- **Step lemma.** -/
theorem step_inv {s s' : Flpr} {e : Event} (h : Inv s) (hfew : fewUpdates s e = true)
    (hs : Step s e s') : Inv s' := by
  obtain ⟨a, ha, hecho, hf⟩ := h.flight
  cases e with
  | take =>
    simp only [Step, step] at hs
    split at hs
    · rename_i hpc
      obtain ⟨t, -, rfl⟩ := Option.map_eq_some_iff.mp hs
      rw [hpc] at hf
      exact ⟨h.few, h.seq, a, ha, hecho, hf⟩
    · exact absurd hs (by simp)
  | timeout =>
    simp only [Step, step] at hs
    split at hs
    · rename_i hpc
      obtain ⟨-, hs⟩ := Option.ite_none_right_eq_some.mp hs
      obtain rfl := Option.some.inj hs
      rw [hpc] at hf
      exact ⟨h.few, h.seq, a, ha, hecho, hf⟩
    · exact absurd hs (by simp)
  | run => exact runStep_inv h hs
  | fetch f =>
    simp only [Step, step] at hs
    split at hs
    · rename_i p v got hpc
      obtain ⟨-, hs⟩ := Option.ite_none_right_eq_some.mp hs
      obtain rfl := Option.some.inj hs
      rw [hpc] at hf
      refine ⟨h.few, h.seq, a, ha, hecho, Reads.imp hf (Nat.le_refl _) (fun _ _ hl => hl) ?_⟩
      intro q _ _ hgot f' x hx
      by_cases hff : f' = f
      · rw [hff, Function.update_self] at hx
        rw [hff, Option.some.inj hx]
      · rw [Function.update_of_ne hff] at hx
        exact hgot f' x hx
    · exact absurd hs (by simp)
  | spi ret =>
    obtain ⟨-, hs⟩ := Option.ite_none_left_eq_some.mp hs
    exact spiStep_inv h hs
  | sample =>
    obtain rfl := Option.some.inj hs
    exact h.frame rfl rfl rfl rfl rfl rfl s.sensor.sample_regs rfl fun _ hf => hf
  | update c =>
    obtain ⟨-, hs⟩ := Option.ite_none_right_eq_some.mp hs
    obtain rfl := Option.some.inj hs
    exact h.busy rfl rfl rfl (Option.some_ne_none _) rfl rfl rfl rfl
  | appWrite => exact appStep_inv h (of_decide_eq_true hfew) hs

/-- The invariant holds once the block is published, whether or not the sensor works. -/
theorem start_inv {s : Flpr} (h : Running s ∨ Parked s) : Inv s := by
  rcases h with ⟨xlda, gda, filledAt, rfl⟩ | ⟨sensor, sem, programmed, ret, hneg, rfl⟩
  · exact ⟨Nat.zero_lt_succ _, rfl, 0, Nat.le_refl _, rfl, fun _ _ => ⟨rfl, rfl⟩⟩
  · refine ⟨Nat.zero_lt_succ _, rfl, 0, Nat.le_refl _, rfl, ?_⟩
    intro _ hzero
    have hret : ret = 0 := hzero
    omega

/-- **The handshake.**  After any interleaving of updates and samplings with fewer than 2^32 updates:
    while no update is being written, a matching number and status zero mean that the sensor was last
    programmed with exactly the current configuration. -/
theorem handshake {s : Flpr}
    (h : Reach (fun s => Running s ∨ Parked s) (guarded (fun s e => fewUpdates s e = true) Step) s)
    (hidle : s.app = none) (hmatch : s.cfgApplied = s.cfgSeq) (hok : s.cfgStatus = 0) :
    s.programmed = some s.cfg ∧ s.sensor.regs = s.cfg.regs := by
  have hinv : Inv s := by
    refine h.invariant ?_ ?_
    · intro s hstart
      exact start_inv hstart
    · rintro s e s' - hinv ⟨hg, hst⟩
      exact step_inv hinv hg hst
  obtain ⟨a, ha, hecho, hf⟩ := hinv.flight
  have hlast : a = s.updates := by
    refine seqAfter_inj (Nat.lt_of_le_of_lt ha hinv.few) hinv.few ?_
    rw [← hecho, hmatch, hinv.seq]
  -- so no call is under way: it would have read a newer number
  have hnewer : ∀ {v : Nat} {P : Prop}, ¬ Reads s a v P := by
    rintro v P ⟨q, haq, hqn, -, -⟩
    omega
  cases hpc : s.pc with
  | fetch p v got =>
    rw [hpc] at hf
    exact absurd hf hnewer
  | write p v c k =>
    rw [hpc] at hf
    exact absurd hf.1 hnewer
  | scratch p v c =>
    rw [hpc] at hf
    exact absurd hf.1 hnewer
  | reset p v c =>
    rw [hpc] at hf
    exact absurd hf.1 hnewer
  | status p v c ret =>
    rw [hpc] at hf
    exact absurd hf.1 hnewer
  | applied p v c =>
    rw [hpc] at hf
    exact absurd hf.1 hnewer
  | _ =>
    rw [hpc] at hf
    exact hf ⟨hlast, hidle⟩ hok

/-- The sensor is switched on. -/
theorem handshake_on : ∃ s : Flpr, s.cfgSeq = 2 ∧ s.programmed = some s.cfg ∧
    s.sensor.regs = s.cfg.regs := by
  have hrun : (firstSample.foldlM (fun s e => if fewUpdates s e then step s e else none) booted).any
      (fun s => decide (s.cfgSeq = 2 ∧ s.app.isNone = true ∧ s.cfgApplied = s.cfgSeq ∧
        s.cfgStatus = 0)) = true := by decide +kernel
  obtain ⟨s, hs, hdone⟩ := (Option.any_eq_true _ _).mp hrun
  obtain ⟨htwo, hidle, hmatch, hok⟩ := of_decide_eq_true hdone
  have hreach : Reach (fun s => Running s ∨ Parked s)
      (guarded (fun s e => fewUpdates s e = true) Step) s :=
    Reach.runGuarded (.start (Or.inl ⟨_, _, _, rfl⟩)) hs
  exact ⟨s, htwo, handshake hreach (Option.isNone_iff_eq_none.mp hidle) hmatch hok⟩

end Caterpillar.Imu.Sampler
