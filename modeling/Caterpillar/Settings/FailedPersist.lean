/-
  Persists that fail (src/settings/settings_store.c, `persist_work_fn`).

  1. `Device.faultStep` — the device of `Persist`, and a persist whose `flash_write` returns an error.
  2. `Faulted` — that device with whether a persist has succeeded (`armed`), whether the last one since
     then or since the boot failed (`failed`), and whether one was aimed at the slot that
     `settings_store_init` would pick (`clobbered`).
  3. `Newest slots g` — the record of generation `g` is in slot `g % 2`, and what passes in the other
     slot is older.  `faulted_sound` keeps it where no persist follows a failed one.
  4. `good_record_kept`, and the failed persist that breaks it.
-/
import Caterpillar.Settings.Persist

namespace Caterpillar.Settings

open Caterpillar.Word Caterpillar.Bytes Caterpillar.Runs

variable (R : Registry) (crc : List UInt8 → UInt32)

/-! ## The device -/

/-- What can happen to a device whose flash writes can fail. -/
inductive FaultEvent where
  | plain (e : Event)
  /-- A persist whose `flash_write` returns an error. -/
  | persistFail

/-- `persist_work_fn` runs. -/
def FaultEvent.attempt : FaultEvent → Bool
  | .plain .persist | .plain (.persistCut _) | .persistFail => true
  | _ => false

/-- One event; a failed write leaves its slot, not the generation. -/
def Device.faultStep : Device → FaultEvent → Option Device
  | d, .plain e => d.step R crc e
  | .on s slots done, .persistFail => some (.on { s with record := persistRec R crc s.record } slots done)
  | .off _ _ _, .persistFail => none

def Device.slots : Device → Nat → StoreRec
  | .on _ slots _ => slots
  | .off slots _ _ => slots

/-- A persist now goes to the slot that a boot would pick. -/
def Device.clobbers : Device → Bool
  | .on s slots _ =>
      (chooseSlot R crc fun k => some (slots k)).any fun c => c.1 = slotOf (persistRec R crc s.record)
  | .off _ _ _ => false

/-- The device, and what is recorded of its persists. -/
structure Faulted where
  dev : Device
  armed : Bool
  failed : Bool
  clobbered : Bool

/-- What an event makes of `failed`. -/
def nextFailed (failed : Bool) : FaultEvent → Bool
  | .persistFail => true
  | .plain .persist | .plain .boot => false
  | _ => failed

/-- The event is a persist that succeeds. -/
def FaultEvent.succeeds : FaultEvent → Bool
  | .plain .persist => true
  | _ => false

def Faulted.step (x : Faulted) (e : FaultEvent) : Option Faulted :=
  (x.dev.faultStep R crc e).map fun d =>
    ⟨d, x.armed || e.succeeds, nextFailed x.failed e,
      x.clobbered || (x.armed && e.attempt && x.dev.clobbers R crc)⟩

/-- The step relation. -/
def FaultedStep (x : Faulted) (e : FaultEvent) (y : Faulted) : Prop := x.step R crc e = some y

/-- A device that is off, whatever its flash holds. -/
def FaultedStart (x : Faulted) : Prop := ∃ slots, x = ⟨.off slots none none, false, false, false⟩

/-- The generation a persist starts from. -/
def Device.generation : Device → Nat
  | .on s _ _ => s.record.generation
  | .off _ _ _ => 0

/-- No persist follows a failed one, once one has succeeded; and the counter is not at its last
    value. -/
def inStep (x : Faulted) (e : FaultEvent) : Bool :=
  !e.attempt || (decide (x.dev.generation < 4294967295) && !(x.armed && x.failed))

/-! ## The two slots -/

/-- What passes is no newer than `g`. -/
def NoNewer (slots : Nat → StoreRec) (g : Nat) : Prop :=
  ∀ k, k < 2 → (slots k).Passes R crc → (slots k).generation ≤ g

/-- The record of generation `g` is where it belongs, and the other slot is older. -/
structure Newest (slots : Nat → StoreRec) (g : Nat) : Prop where
  passes : (slots (g % 2)).Passes R crc
  generation : (slots (g % 2)).generation = g
  older : ∀ k, k < 2 → k ≠ g % 2 → (slots k).Passes R crc → (slots k).generation < g

variable {R crc}

/-- A boot picks it. -/
theorem Newest.chosen {slots : Nat → StoreRec} {g : Nat} (h : Newest R crc slots g) {c : Nat × StoreRec}
    (hc : chooseSlot R crc (fun k => some (slots k)) = some c) : c.1 = g % 2 := by
  obtain ⟨hi, hr, hp, hmax⟩ := chooseSlot_some R crc hc
  obtain hr := Option.some.inj hr
  by_contra hne
  have hlt := h.older c.1 hi hne (hr ▸ hp)
  have hge := hmax (g % 2) (Nat.mod_lt _ (by decide)) _ rfl h.passes
  rw [hr] at hlt
  rw [h.generation] at hge
  omega

theorem Newest.noNewer {slots : Nat → StoreRec} {g : Nat} (h : Newest R crc slots g) :
    NoNewer R crc slots g := by
  intro k hk hp
  by_cases hkg : k = g % 2
  · rw [hkg]
    exact Nat.le_of_eq h.generation
  · exact Nat.le_of_lt (h.older k hk hkg hp)

/-- The other slot may be torn. -/
theorem Newest.torn {slots : Nat → StoreRec} {g : Nat} (h : Newest R crc slots g) {r : StoreRec}
    (hr : ¬ r.Passes R crc) : Newest R crc (Function.update slots ((g + 1) % 2) r) g := by
  have hne : g % 2 ≠ (g + 1) % 2 := by omega
  constructor
  · rw [Function.update_of_ne hne]
    exact h.passes
  · rw [Function.update_of_ne hne]
    exact h.generation
  · intro k hk hkg hp
    by_cases hk' : k = (g + 1) % 2
    · rw [hk', Function.update_self] at hp
      exact absurd hp hr
    · omega

/-- Where the next persist goes. -/
theorem slotOf_persistRec (r : StoreRec) : slotOf (persistRec R crc r) = (r.generation + 1) % 2 := by
  show u32 (r.generation + 1) % 2 = _
  unfold u32
  omega

/-- **A complete write is the newest**, whatever was in the slot before. -/
theorem NoNewer.write {slots : Nat → StoreRec} {r : StoreRec} (h : NoNewer R crc slots r.generation)
    (hm : r.magic = storeMagic) (hg : r.generation < 4294967295) :
    Newest R crc (writeSlot slots (persistRec R crc r)) (r.generation + 1) := by
  have hself : writeSlot slots (persistRec R crc r) ((r.generation + 1) % 2) = persistRec R crc r := by
    unfold writeSlot
    rw [slotOf_persistRec, Function.update_self]
  constructor
  · rw [hself]
    exact persistRec_passes R crc hm
  · rw [hself]
    exact u32_of_lt (by omega)
  · intro k hk hkg hp
    unfold writeSlot at hp ⊢
    rw [slotOf_persistRec, Function.update_of_ne hkg] at hp ⊢
    exact Nat.lt_succ_of_le (h k hk hp)

/-- What a boot takes its generation from. -/
theorem boot_generation (slots : Nat → StoreRec) :
    (settingsStoreInit R crc Store.cold (readable slots)).record.magic = storeMagic ∧
      NoNewer R crc slots (settingsStoreInit R crc Store.cold (readable slots)).record.generation ∧
      ∀ g, Newest R crc slots g →
        (settingsStoreInit R crc Store.cold (readable slots)).record.generation = g := by
  unfold readable
  cases hc : chooseSlot R crc fun k => some (slots k) with
  | none =>
    have hno : ∀ k, k < 2 → ¬ (slots k).Passes R crc := fun k hk => chooseSlot_none R crc hc hk rfl
    rw [settingsStoreInit_none R crc hc]
    refine ⟨rfl, fun k hk hp => absurd hp (hno k hk), fun g hg => ?_⟩
    exact absurd hg.passes (hno _ (Nat.mod_lt _ (by decide)))
  | some c =>
    obtain ⟨hi, hr, hp, hmax⟩ := chooseSlot_some R crc hc
    rw [settingsStoreInit_some R crc hc]
    refine ⟨hp.1, fun k hk hpk => hmax k hk _ rfl hpk, fun g hg => ?_⟩
    have hslot := hg.chosen hc
    rw [hslot] at hr
    show c.2.generation = g
    rw [← Option.some.inj hr, hg.generation]

/-! ## Over runs -/

variable (R crc)

/-- What holds of a device: nothing in flash is newer than the statics, and once armed the newest
    record is in its slot, in step with the statics unless the last persist failed. -/
def Device.InStep (armed failed : Bool) : Device → Prop
  | .on s slots _ => s.record.magic = storeMagic ∧ NoNewer R crc slots s.record.generation ∧
      (armed = true → ∃ g, Newest R crc slots g ∧ (failed = false → s.record.generation = g))
  | .off slots _ _ => armed = true → ∃ g, Newest R crc slots g

/-- **The invariant.** -/
structure Faulted.Sound (x : Faulted) : Prop where
  dev : x.dev.InStep R crc x.armed x.failed
  unclobbered : x.clobbered = false

variable {R crc}

/-- A persist in step does not go to the newest record's slot. -/
theorem Device.InStep.spares {x : Faulted} (h : x.dev.InStep R crc x.armed x.failed) {e : FaultEvent}
    (hin : inStep x e = true) : (x.armed && e.attempt && x.dev.clobbers R crc) = false := by
  cases harm : x.armed with
  | false => rfl
  | true =>
    cases hatt : e.attempt with
    | false => rfl
    | true =>
      simp only [inStep, harm, hatt, Bool.not_true, Bool.false_or, Bool.true_and, Bool.and_eq_true,
        Bool.not_eq_true'] at hin
      cases hdev : x.dev with
      | off slots done cutting => rfl
      | on s slots done =>
        rw [hdev, harm, hin.2] at h
        obtain ⟨g, hnew, hg⟩ := h.2.2 rfl
        rw [Bool.and_true, Bool.true_and, Device.clobbers]
        cases hc : chooseSlot R crc fun k => some (slots k) with
        | none => rfl
        | some c =>
          show decide (c.1 = slotOf (persistRec R crc s.record)) = false
          rw [hnew.chosen hc, slotOf_persistRec, hg rfl]
          exact decide_eq_false (by omega)

/-- A write in step is complete with the newest record. -/
theorem Device.InStep.write {s : Store} {slots : Nat → StoreRec} {done : Option Values}
    {armed failed : Bool} (h : (Device.on s slots done).InStep R crc armed failed)
    (hg : s.record.generation < 4294967295) :
    Newest R crc (writeSlot slots (persistRec R crc s.record)) (s.record.generation + 1) :=
  h.2.1.write h.1 hg

/-- **Step lemma**, of the device. -/
theorem device_inStep {x : Faulted} {e : FaultEvent} {d : Device}
    (h : x.dev.InStep R crc x.armed x.failed) (hin : inStep x e = true)
    (hst : x.dev.faultStep R crc e = some d) :
    d.InStep R crc (x.armed || e.succeeds) (nextFailed x.failed e) := by
  obtain ⟨dev, armed, failed, clobbered⟩ := x
  -- what the guard says of an attempt to persist
  have hgen : e.attempt = true → dev.generation < 4294967295 ∧ (armed = true → failed = false) := by
    intro hatt
    simp only [inStep, hatt, Bool.not_true, Bool.false_or, Bool.and_eq_true, decide_eq_true_eq,
      Bool.not_eq_true', Bool.and_eq_false_iff] at hin
    refine ⟨hin.1, fun harm => ?_⟩
    rcases hin.2 with hno | hno
    · exact absurd harm (by simp [hno])
    · exact hno
  cases dev with
  | on s slots done =>
    cases e with
    -- the slot is as it was, and the counter is ahead of it from here on
    | persistFail =>
      obtain ⟨hlt, -⟩ := hgen rfl
      have hlt : s.record.generation < 4294967295 := hlt
      obtain rfl := Option.some.inj hst
      obtain ⟨hm, hno, harm⟩ := h
      have hmore : (persistRec R crc s.record).generation = s.record.generation + 1 :=
        u32_of_lt (by omega)
      refine ⟨hm, ?_, fun ha => ?_⟩
      · intro k hk hp
        show (slots k).generation ≤ (persistRec R crc s.record).generation
        rw [hmore]
        exact Nat.le_succ_of_le (hno k hk hp)
      · obtain ⟨g, hnew, -⟩ := harm (by simpa [FaultEvent.succeeds] using ha)
        exact ⟨g, hnew, fun hf => Bool.noConfusion hf⟩
    | plain e =>
      cases e with
      | set id value =>
        obtain rfl := Option.some.inj hst
        obtain ⟨v, hset⟩ := settingsSet_record R s id value
        rw [hset]
        show Device.InStep R crc (armed || false) failed _
        rw [Bool.or_false]
        exact h
      | persist =>
        obtain ⟨hlt, -⟩ := hgen rfl
        obtain rfl := Option.some.inj hst
        have hnew := h.write hlt
        have hmore : (persistRec R crc s.record).generation = s.record.generation + 1 :=
          u32_of_lt (Nat.succ_lt_succ hlt)
        refine ⟨h.1, ?_, fun _ => ⟨_, hnew, fun _ => hmore⟩⟩
        show NoNewer R crc (writeSlot slots _) (persistRec R crc s.record).generation
        rw [hmore]
        exact hnew.noNewer
      | cut =>
        obtain rfl := Option.some.inj hst
        intro ha
        obtain ⟨g, hnew, -⟩ := h.2.2 (by simpa [FaultEvent.succeeds] using ha)
        exact ⟨g, hnew⟩
      -- a cut leaves the slot as it was, or written, or torn
      | persistCut t =>
        obtain ⟨hlt, hstep⟩ := hgen rfl
        cases t with
        | old =>
          obtain rfl := Option.some.inj hst
          intro ha
          obtain ⟨g, hnew, -⟩ := h.2.2 (by simpa [FaultEvent.succeeds] using ha)
          exact ⟨g, hnew⟩
        | new =>
          obtain rfl := Option.some.inj hst
          exact fun _ => ⟨_, h.write hlt⟩
        | garbage r =>
          obtain ⟨hno, hst⟩ := Option.ite_none_left_eq_some.mp hst
          obtain rfl := Option.some.inj hst
          intro ha
          have harm : armed = true := by simpa [FaultEvent.succeeds] using ha
          obtain ⟨g, hnew, hg⟩ := h.2.2 harm
          refine ⟨g, ?_⟩
          rw [slotOf_persistRec, hg (hstep harm)]
          exact hnew.torn hno
      | boot => exact absurd hst (by simp [Device.faultStep, Device.step])
  | off slots done cutting =>
    cases e with
    | persistFail => exact absurd hst (by simp [Device.faultStep])
    | plain e =>
      cases e with
      | boot =>
        obtain rfl := Option.some.inj hst
        have hboot : _ ∧ NoNewer R crc slots _ ∧ ∀ g, Newest R crc slots g → _ :=
          boot_generation slots
        obtain ⟨hm, hno, hsame⟩ := hboot
        refine ⟨hm, hno, fun ha => ?_⟩
        obtain ⟨g, hnew⟩ := h (by simpa [FaultEvent.succeeds] using ha)
        exact ⟨g, hnew, fun _ => hsame g hnew⟩
      | set | persist | cut | persistCut =>
        exact absurd hst (by simp [Device.faultStep, Device.step])

/-- **Step lemma.** -/
theorem faulted_sound {x y : Faulted} {e : FaultEvent} (h : x.Sound R crc) (hin : inStep x e = true)
    (hst : FaultedStep R crc x e y) : y.Sound R crc := by
  obtain ⟨d, hd, rfl⟩ := Option.map_eq_some_iff.mp hst
  constructor
  · exact device_inStep h.dev hin hd
  · show (x.clobbered || _) = false
    rw [h.unclobbered, h.dev.spares hin]
    rfl

variable (R crc)

/-- **The last good record is kept**: in every run in which no persist follows a failed one, none goes
    to the slot of the newest valid record once one has succeeded, and a valid record is left at every
    moment, a power cut in a persist included. -/
theorem good_record_kept {x : Faulted}
    (h : Reach FaultedStart (guarded (fun x e => inStep x e = true) (FaultedStep R crc)) x) :
    x.clobbered = false ∧ (x.armed = true → ∃ k, k < 2 ∧ (x.dev.slots k).Passes R crc) := by
  have hsound : x.Sound R crc := by
    refine h.invariant ?_ ?_
    · rintro x ⟨slots, rfl⟩
      exact ⟨fun harm => Bool.noConfusion harm, rfl⟩
    · rintro x e y - hx ⟨hin, hst⟩
      exact faulted_sound hx hin hst
  refine ⟨hsound.unclobbered, fun harm => ?_⟩
  have hdev := hsound.dev
  cases hx : x.dev with
  | on s slots done =>
    rw [hx] at hdev
    obtain ⟨g, hnew, -⟩ := hdev.2.2 harm
    exact ⟨g % 2, Nat.mod_lt _ (by decide), hnew.passes⟩
  | off slots done cutting =>
    rw [hx] at hdev
    obtain ⟨g, hnew⟩ := hdev harm
    exact ⟨g % 2, Nat.mod_lt _ (by decide), hnew.passes⟩

/-- Both slots hold no valid record. -/
def Device.bare (d : Device) : Bool :=
  (List.range 2).all fun k => !decide ((d.slots k).Passes R crc)

/-- A device out of erased flash. -/
def Faulted.erased : Faulted := ⟨.off (fun _ => StoreRec.erased) none none, false, false, false⟩

/-- A persist, one that fails, and after the next boot one that power is cut in. -/
def cutRun : List FaultEvent :=
  [.plain .boot, .plain .persist, .persistFail, .plain .cut, .plain .boot,
    .plain (.persistCut (.garbage StoreRec.erased))]

/-- The record of the persist that succeeded is left. -/
theorem good_record_kept_cut : ∃ x : Faulted,
    Reach FaultedStart (guarded (fun x e => inStep x e = true) (FaultedStep settingsGen crc32Ieee)) x ∧
    (x.clobbered = false ∧
      (x.armed = true → ∃ k, k < 2 ∧ (x.dev.slots k).Passes settingsGen crc32Ieee)) ∧
    x.armed = true := by
  have hrun : (cutRun.foldlM (fun x e => if inStep x e then Faulted.step settingsGen crc32Ieee x e else none)
      Faulted.erased).any (fun x => x.armed) = true := by decide +kernel
  obtain ⟨x, hx, hout⟩ := (Option.any_eq_true _ _).mp hrun
  have hreach : Reach FaultedStart
      (guarded (fun x e => inStep x e = true) (FaultedStep settingsGen crc32Ieee)) x :=
    Reach.runGuarded (.start ⟨_, rfl⟩) hx
  exact ⟨x, hreach, good_record_kept settingsGen crc32Ieee hreach, hout⟩

/-- The same with a persist in between that fails. -/
def failRun : List FaultEvent :=
  [.plain .boot, .plain .persist, .persistFail, .plain (.persistCut (.garbage StoreRec.erased))]

/-- **After a failed persist** the next one goes to the last good record's slot, and a power cut in it
    leaves no valid record. -/
theorem failed_persist_endangers :
    ¬ ∀ x, Reach FaultedStart (FaultedStep settingsGen crc32Ieee) x →
      x.clobbered = false ∧
        (x.armed = true → ∃ k, k < 2 ∧ (x.dev.slots k).Passes settingsGen crc32Ieee) := by
  intro hall
  have hrun : (failRun.foldlM (Faulted.step settingsGen crc32Ieee) Faulted.erased).any
      (fun x => x.armed && x.dev.bare settingsGen crc32Ieee) = true := by decide +kernel
  obtain ⟨x, hx, hout⟩ := (Option.any_eq_true _ _).mp hrun
  obtain ⟨harm, hbare⟩ := Bool.and_eq_true_iff.mp hout
  obtain ⟨k, hk, hp⟩ := (hall x (Reach.run (fun _ _ _ hst => hst) (.start ⟨_, rfl⟩) hx)).2 harm
  have hno := List.all_eq_true.mp hbare k (List.mem_range.mpr hk)
  rw [decide_eq_true hp] at hno
  exact absurd hno (by decide)

end Caterpillar.Settings
