/-
  The settings store (src/settings/settings_store.c), function by function.

  1. `SettingMeta` / `table` — the registry of settings_gen.h; an entry carries the proof that its
     default is in its own range.
  2. `StoreRec` — the record kept in RAM and in the two flash slots, with its bytes and its CRC.
     `crc32_ieee` is the kernel library's, so every definition here takes it as the parameter `crc`.
  3. The functions: `metaFor`, `recCrc`, `loadDefaults`, `settingsStoreInit`, `settingsMax`,
     `settingsGet`, `settingsSet`; and `persist_work_fn` in its steps — `bumpGeneration`, `sealRec`,
     and the write, which goes to the slot `rec.generation % 2`.

  `settings_set` also schedules the work item, 500 ms later; WHEN `persist_work_fn` runs is left to
  the two state machines built on this file.
-/
import Mathlib.Data.List.Pairwise
import Mathlib.Logic.Function.Basic
import Caterpillar.Lib.Word
import Caterpillar.Lib.Bytes

namespace Caterpillar.Settings

open Caterpillar.Word Caterpillar.Bytes

/-! ## The registry -/

/-- `struct setting_meta`. -/
structure SettingMeta where
  id : Nat
  dflt : UInt16
  min : UInt16
  max : UInt16
  inRange : min ≤ dflt ∧ dflt ≤ max

/-- What scripts/generate_settings.py lets through: `SETTINGS_TABLE` with `SETTINGS_MAX_ID`, every
    range holding its default, no id twice. -/
structure Registry where
  table : List SettingMeta
  maxId : Nat
  distinct : table.Pairwise fun m m' => m.id ≠ m'.id
  bounded : ∀ m ∈ table, m.id ≤ maxId

/-- `SETTING_MOTOR_FREQ_HZ`. -/
def settingMotorFreqHz : Nat := 1
/-- `SETTING_MOTOR_VDC_MV`. -/
def settingMotorVdcMv : Nat := 2
/-- `SETTING_IMU_ODR_CODE`. -/
def settingImuOdrCode : Nat := 3
/-- `SETTING_IMU_CONTENT`. -/
def settingImuContent : Nat := 4
/-- `SETTING_IMU_ACCEL_FS`. -/
def settingImuAccelFs : Nat := 5
/-- `SETTING_IMU_GYRO_FS`. -/
def settingImuGyroFs : Nat := 6
/-- `SETTING_PREVIEW_HZ`. -/
def settingPreviewHz : Nat := 7
/-- `SETTING_LED_ENABLED`. -/
def settingLedEnabled : Nat := 8
/-- `SETTING_ROBOT_ID`. -/
def settingRobotId : Nat := 9

/-- The registry of settings_gen.h. -/
def settingsGen : Registry where
  table :=
    [⟨settingMotorFreqHz, 150, 4, 1000, by decide⟩,
     ⟨settingMotorVdcMv, 3100, 750, 4200, by decide⟩,
     ⟨settingImuOdrCode, 7, 1, 10, by decide⟩,
     ⟨settingImuContent, 3, 1, 3, by decide⟩,
     ⟨settingImuAccelFs, 0, 0, 3, by decide⟩,
     ⟨settingImuGyroFs, 0, 0, 3, by decide⟩,
     ⟨settingPreviewHz, 0, 0, 6660, by decide⟩,
     ⟨settingLedEnabled, 1, 0, 1, by decide⟩,
     ⟨settingRobotId, 0, 0, 20, by decide⟩]
  maxId := 9
  distinct := by decide
  bounded := by decide

variable (R : Registry)

/-- `meta_for`. -/
def metaFor (id : Nat) : Option SettingMeta := R.table.find? fun m => m.id = id

theorem metaFor_mem {id : Nat} {m : SettingMeta} (h : metaFor R id = some m) :
    m ∈ R.table ∧ m.id = id := by
  refine ⟨List.mem_of_find?_eq_some h, ?_⟩
  simpa using List.find?_some h

/-! ## The record -/

/-- Setting values by id. -/
abbrev Values := Nat → UInt16

/-- `struct store_rec`. -/
structure StoreRec where
  magic : UInt32
  generation : Nat
  values : Values
  crc : UInt32

/-- `STORE_MAGIC`, "CSET". -/
def storeMagic : UInt32 := 0x54455343

/-- The bytes in front of the `crc` field, which is aligned to a word: an odd number of values leaves
    two bytes of padding. -/
def StoreRec.bytes (r : StoreRec) : List UInt8 :=
  le32 r.magic ++ le32 (UInt32.ofNat r.generation) ++
    ((List.range (R.maxId + 1)).flatMap fun id => le16 (r.values id)) ++
    if (R.maxId + 1) % 2 = 1 then [0, 0] else []

variable (crc : List UInt8 → UInt32)

/-- `rec_crc`. -/
def recCrc (r : StoreRec) : UInt32 := crc (r.bytes R)

/-- The test `settings_store_init` makes of a slot. -/
def StoreRec.Passes (r : StoreRec) : Prop := r.magic = storeMagic ∧ r.crc = recCrc R crc r

instance (r : StoreRec) : Decidable (r.Passes R crc) :=
  inferInstanceAs (Decidable (r.magic = storeMagic ∧ r.crc = recCrc R crc r))

/-- Erased flash. -/
def StoreRec.erased : StoreRec := ⟨0xFFFFFFFF, 0xFFFFFFFF, fun _ => 0xFFFF, 0xFFFFFFFF⟩

theorem StoreRec.erased_fails : ¬ StoreRec.erased.Passes R crc :=
  fun h => absurd h.1 (by decide)

/-! ## `persist_work_fn` -/

/-- `rec.generation++`. -/
def bumpGeneration (r : StoreRec) : StoreRec := { r with generation := u32 (r.generation + 1) }

/-- `rec.crc = rec_crc(&rec)`. -/
def sealRec (r : StoreRec) : StoreRec := { r with crc := recCrc R crc r }

/-- The slot a record is written to. -/
def slotOf (r : StoreRec) : Nat := r.generation % 2

/-! ## `settings_store_init` -/

/-- The values of `load_defaults`. -/
def defaultValues : Values :=
  R.table.foldl (fun v m => Function.update v m.id m.dflt) fun _ => 0

/-- `load_defaults`, over the static record. -/
def loadDefaults (r : StoreRec) : StoreRec :=
  { r with values := defaultValues R, magic := storeMagic, generation := 0 }

/-- One iteration of the clamping loop. -/
def clampSetting (v : Values) (m : SettingMeta) : Values :=
  if v m.id < m.min ∨ v m.id > m.max then Function.update v m.id m.dflt else v

/-- `a_ok` and `b_ok`: the record of a slot, if it could be read and passes. -/
def goodRec (slot : Option StoreRec) : Option StoreRec := slot.filter fun r => r.Passes R crc

/-- The slot taken over, if any, with its record. -/
def chooseSlot (read : Nat → Option StoreRec) : Option (Nat × StoreRec) :=
  match goodRec R crc (read 0), goodRec R crc (read 1) with
  | some a, some b => if a.generation ≥ b.generation then some (0, a) else some (1, b)
  | some a, none => some (0, a)
  | none, some b => some (1, b)
  | none, none => none

/-- The statics of settings_store.c. -/
structure Store where
  record : StoreRec
  loaded : Bool

/-- The statics at reset. -/
def Store.cold : Store := ⟨⟨0, 0, fun _ => 0, 0⟩, false⟩

/-- `settings_store_init`.  `flash` is `none` when the flash device is not ready; a slot is `none`
    when reading it fails. -/
def settingsStoreInit (s : Store) (flash : Option (Nat → Option StoreRec)) : Store :=
  match flash with
  | none => ⟨loadDefaults R s.record, true⟩
  | some read =>
      match chooseSlot R crc read with
      | none => ⟨loadDefaults R s.record, true⟩
      | some (_, r) => ⟨{ r with values := R.table.foldl clampSetting r.values }, true⟩

@[simp] theorem settingsStoreInit_none {s : Store} {read : Nat → Option StoreRec}
    (h : chooseSlot R crc read = none) :
    settingsStoreInit R crc s (some read) = ⟨loadDefaults R s.record, true⟩ := by
  simp [settingsStoreInit, h]

@[simp] theorem settingsStoreInit_some {s : Store} {read : Nat → Option StoreRec} {i : Nat}
    {r : StoreRec} (h : chooseSlot R crc read = some (i, r)) :
    settingsStoreInit R crc s (some read) =
      ⟨{ r with values := R.table.foldl clampSetting r.values }, true⟩ := by
  simp [settingsStoreInit, h]

/-! ## Access -/

/-- `settings_max`. -/
def settingsMax (id : Nat) : UInt16 :=
  match metaFor R id with
  | some m => m.max
  | none => 0

/-- `settings_get`. -/
def settingsGet (s : Store) (id : Nat) : UInt16 :=
  match metaFor R id with
  | none => 0
  | some m => if s.loaded then s.record.values id else m.dflt

/-- `CLAMP`. -/
def clamp (value lo hi : UInt16) : UInt16 :=
  if value ≤ lo then lo else if value < hi then value else hi

/-- `settings_set`. -/
def settingsSet (s : Store) (id : Nat) (value : UInt16) : Store :=
  match metaFor R id with
  | none => s
  | some m =>
      if s.loaded then
        if s.record.values id = clamp value m.min m.max then s
        else { s with record :=
          { s.record with values := Function.update s.record.values id (clamp value m.min m.max) } }
      else s

/-! ## Every value in its range -/

/-- Every setting is within the range of its registry entry. -/
def InRange (v : Values) : Prop := ∀ m ∈ R.table, m.min ≤ v m.id ∧ v m.id ≤ m.max

instance (v : Values) : Decidable (InRange R v) :=
  inferInstanceAs (Decidable (∀ m ∈ R.table, m.min ≤ v m.id ∧ v m.id ≤ m.max))

/-- An id names one entry. -/
theorem Registry.eq_of_id {m m' : SettingMeta} (hm : m ∈ R.table) (hm' : m' ∈ R.table)
    (hid : m.id = m'.id) : m = m' := by
  by_contra hne
  have hsymm : Std.Symm fun m m' : SettingMeta => m.id ≠ m'.id := ⟨fun _ _ h => h.symm⟩
  exact R.distinct.forall hm hm' hne hid

/-- An update at the id of one entry is in range if the new value is in that entry's range. -/
theorem InRange.update {v : Values} (h : InRange R v) {m : SettingMeta} (hm : m ∈ R.table)
    {x : UInt16} (hx : m.min ≤ x ∧ x ≤ m.max) : InRange R (Function.update v m.id x) := by
  intro m' hm'
  by_cases hid : m'.id = m.id
  · rw [R.eq_of_id hm' hm hid, Function.update_self]
    exact hx
  · rw [Function.update_of_ne hid]
    exact h m' hm'

/-- `CLAMP` lands in the range. -/
theorem clamp_range {value lo hi : UInt16} (h : lo ≤ hi) :
    lo ≤ clamp value lo hi ∧ clamp value lo hi ≤ hi := by
  unfold clamp
  split
  · exact ⟨UInt16.le_refl lo, h⟩
  · rename_i hlo
    split
    · rename_i hhi
      exact ⟨UInt16.le_of_lt (UInt16.not_le.mp hlo), UInt16.le_of_lt hhi⟩
    · exact ⟨h, UInt16.le_refl hi⟩

/-- A range is never empty: it holds the default. -/
theorem SettingMeta.min_le_max (m : SettingMeta) : m.min ≤ m.max :=
  UInt16.le_trans m.inRange.1 m.inRange.2

/-! Both loops over the table, of `load_defaults` and of the clamping, treat each entry's value by
itself. -/

section Loops

variable {step : Values → SettingMeta → Values}
  (hstep : ∀ v m id, m.id ≠ id → step v m id = v id)
include hstep

/-- A loop over entries with other ids leaves a value alone. -/
theorem foldl_other {l : List SettingMeta} {id : Nat} (h : ∀ m ∈ l, m.id ≠ id) (v : Values) :
    (l.foldl step v) id = v id := by
  induction l generalizing v with
  | nil => rfl
  | cons m l ih =>
    rw [List.foldl_cons, ih (fun m' hm' => h m' (by simp [hm'])), hstep v m id (h m (by simp))]

/-- What an iteration makes of its own value, the loop leaves there. -/
theorem foldl_entry {l : List SettingMeta} (hl : l.Pairwise fun m m' => m.id ≠ m'.id)
    {m : SettingMeta} (hm : m ∈ l) {P : UInt16 → Prop} (hP : ∀ v, P (step v m m.id)) (v : Values) :
    P ((l.foldl step v) m.id) := by
  induction l generalizing v with
  | nil => exact absurd hm (by simp)
  | cons m₀ l ih =>
    obtain ⟨hhead, htail⟩ := List.pairwise_cons.mp hl
    rw [List.foldl_cons]
    rcases List.mem_cons.mp hm with rfl | hm
    · rw [foldl_other hstep fun m' hm' => (hhead m' hm').symm]
      exact hP v
    · exact ih htail hm _

end Loops

/-- Every default passes its own check. -/
theorem defaultValues_inRange : InRange R (defaultValues R) := by
  intro m hm
  refine foldl_entry (P := fun x => m.min ≤ x ∧ x ≤ m.max) ?_ R.distinct hm (fun v => ?_) fun _ => 0
  · exact fun v m id hne => Function.update_of_ne hne.symm _ _
  · rw [Function.update_self]
    exact m.inRange

/-- `settings_set` keeps every value in range. -/
theorem settingsSet_inRange {s : Store} (h : InRange R s.record.values) (id : Nat)
    (value : UInt16) : InRange R (settingsSet R s id value).record.values := by
  unfold settingsSet
  cases hm : metaFor R id with
  | none => exact h
  | some m =>
    obtain ⟨hmem, hid⟩ := metaFor_mem R hm
    dsimp only
    split
    · split
      · exact h
      · rw [← hid]
        exact h.update R hmem (clamp_range m.min_le_max)
    · exact h

/-- `settings_set` changes the values and nothing else. -/
theorem settingsSet_record (s : Store) (id : Nat) (value : UInt16) :
    ∃ v, settingsSet R s id value = { s with record := { s.record with values := v } } := by
  unfold settingsSet
  cases metaFor R id with
  | none => exact ⟨s.record.values, rfl⟩
  | some m =>
    dsimp only
    split
    · split
      · exact ⟨s.record.values, rfl⟩
      · exact ⟨_, rfl⟩
    · exact ⟨s.record.values, rfl⟩

/-- A value in its range is not clamped. -/
theorem clamp_of_range {value lo hi : UInt16} (hlo : lo ≤ value) (hhi : value ≤ hi) :
    clamp value lo hi = value := by
  unfold clamp
  split
  · rename_i hle
    exact UInt16.le_antisymm hlo hle
  · split
    · rfl
    · rename_i hlt
      exact UInt16.le_antisymm (UInt16.not_lt.mp hlt) hhi

/-- A loaded store reads back the clamped value. -/
theorem settingsGet_set {s : Store} (hl : s.loaded = true) {id : Nat} {m : SettingMeta}
    (hm : metaFor R id = some m) (value : UInt16) :
    settingsGet R (settingsSet R s id value) id = clamp value m.min m.max := by
  unfold settingsSet settingsGet
  simp only [hm, hl, if_true]
  split
  · rename_i hsame
    exact hsame
  · simp only [if_true, Function.update_self]

/-- A loaded store reads back a value in its range. -/
theorem settingsGet_set_self {s : Store} (hl : s.loaded = true) {id : Nat} {m : SettingMeta}
    (hm : metaFor R id = some m) {value : UInt16} (hlo : m.min ≤ value) (hhi : value ≤ m.max) :
    settingsGet R (settingsSet R s id value) id = value := by
  rw [settingsGet_set R hl hm]
  exact clamp_of_range hlo hhi

/-- `settings_set` changes the one setting. -/
theorem settingsGet_set_ne (s : Store) {id id' : Nat} (h : id' ≠ id) (value : UInt16) :
    settingsGet R (settingsSet R s id value) id' = settingsGet R s id' := by
  unfold settingsSet
  cases metaFor R id with
  | none => rfl
  | some m =>
    dsimp only
    split
    · rename_i hl
      split
      · rfl
      · unfold settingsGet
        dsimp only
        rw [Function.update_of_ne h]
    · rfl

/-- Values in range pass the clamping loop of a boot unchanged. -/
theorem clampSetting_inRange {v : Values} (h : InRange R v) :
    R.table.foldl clampSetting v = v := by
  have hfold : ∀ l : List SettingMeta, (∀ m ∈ l, m ∈ R.table) → l.foldl clampSetting v = v := by
    intro l
    induction l with
    | nil => intro _; rfl
    | cons m l ih =>
      intro hl
      obtain ⟨hlo, hhi⟩ := h m (hl m (by simp))
      have hkeep : clampSetting v m = v := by
        refine if_neg ?_
        rintro (hlt | hgt)
        · exact absurd hlo (UInt16.not_le.mpr hlt)
        · exact absurd hhi (UInt16.not_le.mpr hgt)
      rw [List.foldl_cons, hkeep]
      exact ih fun m' hm' => hl m' (by simp [hm'])
  exact hfold R.table fun m hm => hm

/-- The clamping loop brings any record into range. -/
theorem foldl_clampSetting (v : Values) : InRange R (R.table.foldl clampSetting v) := by
  intro m hm
  refine foldl_entry (P := fun x => m.min ≤ x ∧ x ≤ m.max) ?_ R.distinct hm (fun v => ?_) v
  · intro v m id hne
    unfold clampSetting
    split
    · exact Function.update_of_ne hne.symm _ _
    · rfl
  · unfold clampSetting
    split
    · rw [Function.update_self]
      exact m.inRange
    · rename_i hin
      rw [not_or] at hin
      exact ⟨UInt16.not_lt.mp hin.1, UInt16.not_lt.mp hin.2⟩

/-- A store that a boot has loaded. -/
structure Store.Loaded (s : Store) : Prop where
  loaded : s.loaded = true
  inRange : InRange R s.record.values

/-- **Every boot loads settings in range**, whatever the flash holds and however its reads end. -/
theorem settingsStoreInit_loaded (s : Store) (flash : Option (Nat → Option StoreRec)) :
    (settingsStoreInit R crc s flash).Loaded R := by
  unfold settingsStoreInit
  cases flash with
  | none => exact ⟨rfl, defaultValues_inRange R⟩
  | some read =>
    dsimp only
    cases chooseSlot R crc read with
    | none => exact ⟨rfl, defaultValues_inRange R⟩
    | some c => exact ⟨rfl, foldl_clampSetting R _⟩

theorem Store.Loaded.set {s : Store} (h : s.Loaded R) (id : Nat) (value : UInt16) :
    (settingsSet R s id value).Loaded R := by
  obtain ⟨v, hv⟩ := settingsSet_record R s id value
  have hin := settingsSet_inRange R h.inRange id value
  refine ⟨?_, hin⟩
  rw [hv]
  exact h.loaded

/-- A loaded store reads every registered setting within its range. -/
theorem Store.Loaded.get {s : Store} (h : s.Loaded R) {id : Nat} {m : SettingMeta}
    (hm : metaFor R id = some m) : m.min ≤ settingsGet R s id ∧ settingsGet R s id ≤ m.max := by
  obtain ⟨hmem, rfl⟩ := metaFor_mem R hm
  have hget : settingsGet R s m.id = s.record.values m.id := by
    unfold settingsGet
    rw [hm]
    exact if_pos h.loaded
  rw [hget]
  exact h.inRange m hmem

/-! ## Choosing a slot -/

theorem goodRec_some {slot : Option StoreRec} {r : StoreRec} :
    goodRec R crc slot = some r ↔ slot = some r ∧ r.Passes R crc := by
  simp [goodRec, Option.filter_eq_some_iff]

theorem goodRec_none {slot : Option StoreRec} (h : goodRec R crc slot = none) {r : StoreRec}
    (hr : slot = some r) : ¬ r.Passes R crc := by
  intro hp
  rw [(goodRec_some R crc).mpr ⟨hr, hp⟩] at h
  exact absurd h (by simp)

/-- The chosen slot passes, and no passing slot has a higher generation. -/
theorem chooseSlot_some {read : Nat → Option StoreRec} {i : Nat} {r : StoreRec}
    (h : chooseSlot R crc read = some (i, r)) :
    i < 2 ∧ read i = some r ∧ r.Passes R crc ∧
      ∀ k, k < 2 → ∀ r', read k = some r' → r'.Passes R crc → r'.generation ≤ r.generation := by
  unfold chooseSlot at h
  cases ha : goodRec R crc (read 0) with
  | none =>
    have hno := fun r' => goodRec_none R crc ha (r := r')
    cases hb : goodRec R crc (read 1) with
    | none => simp [ha, hb] at h
    | some b =>
      obtain ⟨hb1, hb2⟩ := (goodRec_some R crc).mp hb
      simp only [ha, hb, Option.some.injEq, Prod.mk.injEq] at h
      obtain ⟨rfl, rfl⟩ := h
      refine ⟨by decide, hb1, hb2, fun k hk r' hr' hp => ?_⟩
      match k, hk with
      | 0, _ => exact absurd hp (hno r' hr')
      | 1, _ =>
        obtain rfl := Option.some.inj (hr'.symm.trans hb1)
        exact Nat.le_refl _
  | some a =>
    obtain ⟨ha1, ha2⟩ := (goodRec_some R crc).mp ha
    cases hb : goodRec R crc (read 1) with
    | none =>
      simp only [ha, hb, Option.some.injEq, Prod.mk.injEq] at h
      obtain ⟨rfl, rfl⟩ := h
      refine ⟨by decide, ha1, ha2, fun k hk r' hr' hp => ?_⟩
      match k, hk with
      | 0, _ =>
        obtain rfl := Option.some.inj (hr'.symm.trans ha1)
        exact Nat.le_refl _
      | 1, _ => exact absurd hp (goodRec_none R crc hb hr')
    | some b =>
      obtain ⟨hb1, hb2⟩ := (goodRec_some R crc).mp hb
      -- both slots pass: the comparison of generations decides
      have hgen : ∀ k, k < 2 → ∀ r', read k = some r' → r' = a ∨ r' = b := by
        intro k hk r' hr'
        match k, hk with
        | 0, _ => exact Or.inl (Option.some.inj (hr'.symm.trans ha1))
        | 1, _ => exact Or.inr (Option.some.inj (hr'.symm.trans hb1))
      simp only [ha, hb] at h
      split at h
      · rename_i hge
        obtain ⟨rfl, rfl⟩ := Prod.mk.inj (Option.some.inj h)
        refine ⟨by decide, ha1, ha2, fun k hk r' hr' _ => ?_⟩
        rcases hgen k hk r' hr' with rfl | rfl
        · exact Nat.le_refl _
        · exact hge
      · rename_i hlt
        obtain ⟨rfl, rfl⟩ := Prod.mk.inj (Option.some.inj h)
        refine ⟨by decide, hb1, hb2, fun k hk r' hr' _ => ?_⟩
        rcases hgen k hk r' hr' with rfl | rfl
        · omega
        · exact Nat.le_refl _

/-- If a readable slot passes, one is chosen. -/
theorem chooseSlot_none {read : Nat → Option StoreRec} (h : chooseSlot R crc read = none) {k : Nat}
    (hk : k < 2) {r : StoreRec} (hr : read k = some r) : ¬ r.Passes R crc := by
  unfold chooseSlot at h
  cases ha : goodRec R crc (read 0) with
  | none =>
    cases hb : goodRec R crc (read 1) with
    | none =>
      match k, hk with
      | 0, _ => exact goodRec_none R crc ha hr
      | 1, _ => exact goodRec_none R crc hb hr
    | some b => simp [ha, hb] at h
  | some a =>
    cases hb : goodRec R crc (read 1) with
    | none => simp [ha, hb] at h
    | some b =>
      simp only [ha, hb] at h
      split at h <;> exact absurd h (by simp)

end Caterpillar.Settings
