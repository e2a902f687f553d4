/-
  The generator of the registry (scripts/generate_settings.py), and what its two outputs have to do with
  each other.

  One list of settings (settings.yml) becomes the firmware's table (settings_gen.h) and the limits the
  host checks against (protocol_limits.py).  The firmware's table is C: an id is a `uint8_t` there, the
  three values are `uint16_t`.

  1. **Program** — `checkEntry`, `checkAll`: the loop over the entries, which stops at the first that
     lacks a key or has a bad range; `generate`: the duplicate check, and the outputs.
  2. **What is accepted** — `generate_ok_iff`.  The generator never asks whether an id fits the
     byte it is put in.
  3. **Result** (`limits_are_stored`) — where the ids do fit, the table is a registry, and for every name
     in the host's limits there is a setting that starts at the default given there and that
     `settings_set` stores unchanged exactly if the value is within the limits given there.

  The yml file is taken as parsed.
-/
import Caterpillar.Lib.Dict
import Caterpillar.Settings.Range

namespace Caterpillar.Settings.Generate

open Caterpillar.Dict

/-! ## The program -/

/-- An entry of settings.yml: the keys it has. -/
structure YmlEntry where
  id : Option Int
  name : Option String
  dflt : Option Int
  min : Option Int
  max : Option Int
  desc : Option String
  deriving DecidableEq

/-- An entry that passed. -/
structure Setting where
  id : Int
  name : String
  dflt : Int
  min : Int
  max : Int
  desc : String
  range : 0 ≤ min ∧ min ≤ dflt ∧ dflt ≤ max ∧ max ≤ 0xFFFF
  deriving DecidableEq

/-- How the generator ends without output. -/
inductive GenError where
  | missing (key : String) (s : YmlEntry)
  | badRange (name : String)
  | duplicateIds
  /-- `max` of no ids. -/
  | emptyMax
  deriving DecidableEq

/-- The text it ends with, up to the entry it prints. -/
def GenError.text : GenError → String
  | .missing key _ => "settings.yml: entry missing '" ++ key ++ "': "
  | .badRange name => "settings.yml: bad range for " ++ name
  | .duplicateIds => "settings.yml: duplicate ids"
  | .emptyMax => "max() arg is an empty sequence"

/-- One turn of the loop over the entries. -/
def checkEntry (s : YmlEntry) : Except GenError Setting :=
  match s.id with
  | none => .error (.missing "id" s)
  | some id =>
  match s.name with
  | none => .error (.missing "name" s)
  | some name =>
  match s.dflt with
  | none => .error (.missing "default" s)
  | some dflt =>
  match s.min with
  | none => .error (.missing "min" s)
  | some min =>
  match s.max with
  | none => .error (.missing "max" s)
  | some max =>
  match s.desc with
  | none => .error (.missing "desc" s)
  | some desc =>
      if h : 0 ≤ min ∧ min ≤ dflt ∧ dflt ≤ max ∧ max ≤ 0xFFFF then .ok ⟨id, name, dflt, min, max, desc, h⟩
      else .error (.badRange name)

/-- The loop. -/
def checkAll : List YmlEntry → Except GenError (List Setting)
  | [] => .ok []
  | s :: rest =>
      match checkEntry s with
      | .error e => .error e
      | .ok t =>
          match checkAll rest with
          | .error e => .error e
          | .ok ts => .ok (t :: ts)

/-- A value as the table's `uint16_t`. -/
theorem toNat_ofInt {x : Int} (h0 : 0 ≤ x) (h1 : x ≤ 0xFFFF) : ((UInt16.ofInt x).toNat : Int) = x := by
  have hmod : x % 2 ^ 16 = x := Int.emod_eq_of_lt h0 (by omega)
  rw [UInt16.ofInt, hmod, UInt16.toNat_ofNat_of_lt' (by show x.toNat < 65536; omega)]
  omega

theorem ofInt_le {x y : Int} (h0 : 0 ≤ x) (hxy : x ≤ y) (h1 : y ≤ 0xFFFF) :
    UInt16.ofInt x ≤ UInt16.ofInt y := by
  have hx := toNat_ofInt h0 (by omega)
  have hy := toNat_ofInt (by omega) h1
  rw [UInt16.le_iff_toNat_le]
  omega

/-- A row of `SETTINGS_TABLE`, as C takes it. -/
def Setting.row (s : Setting) : SettingMeta where
  id := (UInt8.ofInt s.id).toNat
  dflt := UInt16.ofInt s.dflt
  min := UInt16.ofInt s.min
  max := UInt16.ofInt s.max
  inRange := by
    obtain ⟨h0, hmin, hmax, h1⟩ := s.range
    exact ⟨ofInt_le h0 hmin (by omega), ofInt_le (by omega) hmax h1⟩

/-- Minimum, maximum and default of a name, as the host has them. -/
structure Limit where
  min : Int
  max : Int
  dflt : Int
  deriving DecidableEq

/-- The outputs. -/
structure Artifacts where
  settings : List Setting
  /-- `SETTINGS_MAX_ID`. -/
  maxId : Int

/-- `SETTINGS_TABLE`. -/
def Artifacts.table (a : Artifacts) : List SettingMeta := a.settings.map Setting.row

/-- `LIMITS`: of two entries with one name the later stands. -/
def Artifacts.limits (a : Artifacts) : List (String × Limit) :=
  a.settings.foldl (fun d s => setItem d s.name ⟨s.min, s.max, s.dflt⟩) []

/-- `main`. -/
def generate (yml : List YmlEntry) : Except GenError Artifacts :=
  match checkAll yml with
  | .error e => .error e
  | .ok settings =>
      let ids := settings.map Setting.id
      if ¬ ids.Nodup then .error .duplicateIds
      else
        match ids.max? with
        | none => .error .emptyMax
        | some maxId => .ok ⟨settings, maxId⟩

/-! ## What is accepted -/

/-- The entry has every key, and this is what it says. -/
def YmlEntry.Says (s : YmlEntry) (t : Setting) : Prop :=
  s = ⟨some t.id, some t.name, some t.dflt, some t.min, some t.max, some t.desc⟩

theorem checkEntry_ok_iff {s : YmlEntry} {t : Setting} : checkEntry s = .ok t ↔ s.Says t := by
  obtain ⟨id, name, dflt, min, max, desc⟩ := s
  obtain ⟨id', name', dflt', min', max', desc', hrange⟩ := t
  constructor
  · intro h
    rw [checkEntry] at h
    cases id with
    | none => exact absurd h (by simp)
    | some id =>
    cases name with
    | none => exact absurd h (by simp)
    | some name =>
    cases dflt with
    | none => exact absurd h (by simp)
    | some dflt =>
    cases min with
    | none => exact absurd h (by simp)
    | some min =>
    cases max with
    | none => exact absurd h (by simp)
    | some max =>
    cases desc with
    | none => exact absurd h (by simp)
    | some desc =>
      dsimp only at h
      split at h
      · obtain ⟨rfl, rfl, rfl, rfl, rfl, rfl⟩ := Setting.mk.inj (Except.ok.inj h)
        rfl
      · exact absurd h (by simp)
  · intro h
    obtain ⟨rfl, rfl, rfl, rfl, rfl, rfl⟩ := YmlEntry.mk.inj h
    exact dif_pos hrange

/-- The loop lets through what every entry says. -/
theorem checkAll_ok_iff {yml : List YmlEntry} {ts : List Setting} :
    checkAll yml = .ok ts ↔ List.Forall₂ YmlEntry.Says yml ts := by
  induction yml generalizing ts with
  | nil =>
    rw [checkAll, List.forall₂_nil_left_iff]
    constructor
    · intro h
      exact (Except.ok.inj h).symm
    · rintro rfl
      rfl
  | cons s yml ih =>
    rw [checkAll, List.forall₂_cons_left_iff]
    constructor
    · intro h
      cases hs : checkEntry s with
      | error e =>
        rw [hs] at h
        exact absurd h (by simp)
      | ok t =>
        cases hrest : checkAll yml with
        | error e =>
          rw [hs, hrest] at h
          exact absurd h (by simp)
        | ok us =>
          rw [hs, hrest] at h
          exact ⟨t, us, checkEntry_ok_iff.mp hs, ih.mp hrest, (Except.ok.inj h).symm⟩
    · rintro ⟨t, us, hs, hrest, rfl⟩
      rw [checkEntry_ok_iff.mpr hs, ih.mpr hrest]

/-- **What the generator accepts**: entries that say everything, with ranges that hold their default
    and fit 16 bits, and ids that differ; at least one. -/
theorem generate_ok_iff {yml : List YmlEntry} {a : Artifacts} :
    generate yml = .ok a ↔ List.Forall₂ YmlEntry.Says yml a.settings ∧
      (a.settings.map Setting.id).Nodup ∧ (a.settings.map Setting.id).max? = some a.maxId := by
  obtain ⟨settings, maxId⟩ := a
  rw [← checkAll_ok_iff, generate]
  cases hall : checkAll yml with
  | error e =>
    constructor
    · intro h
      exact absurd h (by simp)
    · rintro ⟨h, -⟩
      exact absurd h (by simp)
  | ok ts =>
    dsimp only
    constructor
    · intro h
      split at h
      · exact absurd h (by simp)
      · rename_i hnodup
        split at h
        · exact absurd h (by simp)
        · rename_i m hmax
          obtain ⟨rfl, rfl⟩ := Artifacts.mk.inj (Except.ok.inj h)
          exact ⟨rfl, not_not.mp hnodup, hmax⟩
    · rintro ⟨hts, hnodup, hmax⟩
      obtain rfl := Except.ok.inj hts
      rw [if_neg (not_not_intro hnodup), hmax]

/-! ## The table is a registry -/

/-- Every id fits the byte it is put in. -/
def Artifacts.IdsFit (a : Artifacts) : Prop := ∀ s ∈ a.settings, 0 ≤ s.id ∧ s.id ≤ 0xFF

theorem Setting.row_id {s : Setting} (h : 0 ≤ s.id ∧ s.id ≤ 0xFF) : (s.row.id : Int) = s.id := by
  have hmod : s.id % 2 ^ 8 = s.id := Int.emod_eq_of_lt h.1 (by omega)
  show (((UInt8.ofInt s.id).toNat : Nat) : Int) = s.id
  rw [UInt8.ofInt, hmod, UInt8.toNat_ofNat_of_lt' (by show s.id.toNat < 256; omega)]
  omega

/-- Rows with ids that fit differ where the ids do. -/
theorem rows_distinct {ss : List Setting} (hfit : ∀ s ∈ ss, 0 ≤ s.id ∧ s.id ≤ 0xFF)
    (hnodup : (ss.map Setting.id).Nodup) :
    (ss.map Setting.row).Pairwise fun m m' => m.id ≠ m'.id := by
  refine List.pairwise_map.mpr ((List.pairwise_map.mp hnodup).imp_of_mem fun {s t} hs ht hne heq => ?_)
  have hs' := Setting.row_id (hfit s hs)
  have ht' := Setting.row_id (hfit t ht)
  rw [heq] at hs'
  exact hne (hs'.symm.trans ht')

/-- The firmware built with the table. -/
theorem exists_registry {yml : List YmlEntry} {a : Artifacts} (h : generate yml = .ok a)
    (hfit : a.IdsFit) : ∃ R : Registry, R.table = a.table ∧ (R.maxId : Int) = a.maxId := by
  obtain ⟨-, hnodup, hmax⟩ := generate_ok_iff.mp h
  obtain ⟨hmem, hle⟩ := List.max?_eq_some_iff.mp hmax
  obtain ⟨s, hs, hid⟩ := List.mem_map.mp hmem
  have hpos : 0 ≤ a.maxId := by
    rw [← hid]
    exact (hfit s hs).1
  refine ⟨⟨a.table, a.maxId.toNat, rows_distinct hfit hnodup, fun m hm => ?_⟩, rfl, by
    show (a.maxId.toNat : Int) = a.maxId
    omega⟩
  obtain ⟨t, ht, rfl⟩ := List.mem_map.mp hm
  have hrow := Setting.row_id (hfit t ht)
  have hbound := hle t.id (List.mem_map_of_mem ht)
  omega

/-! ## The limits are the table's -/

/-- What a name has in the host's limits is some setting's of that name. -/
theorem limits_mem (a : Artifacts) {name : String} {l : Limit} (h : lookup a.limits name = some l) :
    ∃ s ∈ a.settings, s.name = name ∧ l = ⟨s.min, s.max, s.dflt⟩ := by
  have hfold : ∀ (ts : List Setting) (d : List (String × Limit)), (∀ t ∈ ts, t ∈ a.settings) →
      (∀ n l, lookup d n = some l → ∃ s ∈ a.settings, s.name = n ∧ l = ⟨s.min, s.max, s.dflt⟩) →
      ∀ n l, lookup (ts.foldl (fun d s => setItem d s.name ⟨s.min, s.max, s.dflt⟩) d) n = some l →
        ∃ s ∈ a.settings, s.name = n ∧ l = ⟨s.min, s.max, s.dflt⟩ := by
    intro ts
    induction ts with
    | nil => exact fun _ _ hd => hd
    | cons t ts ih =>
      intro d hts hd
      refine ih _ (fun u hu => hts u (List.mem_cons_of_mem _ hu)) fun n l hl => ?_
      rw [lookup_setItem] at hl
      split at hl
      · rename_i hn
        exact ⟨t, hts t List.mem_cons_self, hn.symm, (Option.some.inj hl).symm⟩
      · exact hd n l hl
  exact hfold a.settings [] (fun _ ht => ht) (fun _ _ hl => absurd hl (by simp [lookup])) name l h

/-- `CLAMP` leaves what is within. -/
theorem clamp_eq_iff {value lo hi : UInt16} (h : lo ≤ hi) :
    clamp value lo hi = value ↔ lo ≤ value ∧ value ≤ hi := by
  constructor
  · intro heq
    rw [← heq]
    exact clamp_range h
  · rintro ⟨hlo, hhi⟩
    exact clamp_of_range hlo hhi

/-- **The limits the host checks against are the ones the firmware stores by**, whatever settings.yml
    says, as long as the ids fit. -/
theorem limits_are_stored {yml : List YmlEntry} {a : Artifacts} (h : generate yml = .ok a)
    (hfit : a.IdsFit) :
    ∃ R : Registry, R.table = a.table ∧ (R.maxId : Int) = a.maxId ∧
      ∀ name l, lookup a.limits name = some l → ∃ id : Nat,
        (∃ s ∈ a.settings, s.name = name ∧ s.id = id) ∧
        (∀ r, ((settingsGet R ⟨loadDefaults R r, true⟩ id).toNat : Int) = l.dflt) ∧
        ∀ (s : Store) (v : UInt16), s.loaded = true →
          (settingsGet R (settingsSet R s id v) id = v ↔ l.min ≤ v.toNat ∧ (v.toNat : Int) ≤ l.max) := by
  obtain ⟨R, htable, hmax⟩ := exists_registry h hfit
  refine ⟨R, htable, hmax, fun name l hl => ?_⟩
  obtain ⟨s, hs, hname, rfl⟩ := limits_mem a hl
  obtain ⟨h0, hmin, hhi, h1⟩ := s.range
  have hmem : s.row ∈ R.table := by
    rw [htable]
    exact List.mem_map_of_mem hs
  have hmeta := metaFor_self R hmem
  have hlo : (s.row.min.toNat : Int) = s.min := toNat_ofInt h0 (by omega)
  have hup : (s.row.max.toNat : Int) = s.max := toNat_ofInt (by omega) h1
  refine ⟨s.row.id, ⟨s, hs, hname, (Setting.row_id (hfit s hs)).symm⟩, fun r => ?_, fun st v hloaded => ?_⟩
  · have hdflt : (loadDefaults R r).values s.row.id = s.row.dflt := by
      refine foldl_entry (P := fun x => x = s.row.dflt) ?_ R.distinct hmem (fun v => ?_) fun _ => 0
      · exact fun v m id hne => Function.update_of_ne hne.symm _ _
      · exact Function.update_self ..
    rw [settingsGet, hmeta]
    show ((((loadDefaults R r).values s.row.id).toNat : Nat) : Int) = s.dflt
    rw [hdflt]
    exact toNat_ofInt (by omega) (by omega)
  · rw [settingsGet_set R hloaded hmeta, clamp_eq_iff s.row.min_le_max, UInt16.le_iff_toNat_le,
      UInt16.le_iff_toNat_le]
    dsimp only
    omega

/-- An id that does not fit is accepted all the same, and lands in the table as another. -/
example : (generate [⟨some 256, some "trim", some 0, some 0, some 9, some ""⟩]).toOption.map
    (fun a => (a.table.map SettingMeta.id, a.maxId)) = some ([0], 256) := rfl

/-! ## The settings of this repository -/

/-- settings.yml. -/
def settingsYml : List YmlEntry :=
  [⟨some 1, some "motor_freq_hz", some 150, some 4, some 1000, some "PWM drive frequency [Hz]"⟩,
   ⟨some 2, some "motor_vdc_mv", some 3100, some 750, some 4200,
     some "Motor rail voltage target [mV] (digipot, tap-quantized)"⟩,
   ⟨some 3, some "imu_odr_code", some 7, some 1, some 10,
     some "IMU ODR code (1=12.5 Hz .. 10=6.66 kHz)"⟩,
   ⟨some 4, some "imu_content", some 3, some 1, some 3,
     some "IMU content mask (bit0 accel, bit1 gyro)"⟩,
   ⟨some 5, some "imu_accel_fs", some 0, some 0, some 3,
     some "Accel full-scale (0=±2g 1=±4g 2=±8g 3=±16g)"⟩,
   ⟨some 6, some "imu_gyro_fs", some 0, some 0, some 3,
     some "Gyro full-scale (0=±250 1=±500 2=±1000 3=±2000 dps)"⟩,
   ⟨some 7, some "preview_hz", some 0, some 0, some 6660,
     some "Live-stream rate cap [Hz] (0 = auto/link budget)"⟩,
   ⟨some 8, some "led_enabled", some 1, some 0, some 1, some "Heartbeat LED on/off"⟩,
   ⟨some 9, some "robot_id", some 0, some 0, some 20,
     some "Fleet robot number (0 = unassigned; advertised as Cat-NN, unassigned robots show Cat-XXXX from the chip id)"⟩]

/-- What the generator makes of it. -/
def artifacts : Artifacts where
  settings :=
    [⟨1, "motor_freq_hz", 150, 4, 1000, "PWM drive frequency [Hz]", by decide⟩,
     ⟨2, "motor_vdc_mv", 3100, 750, 4200,
       "Motor rail voltage target [mV] (digipot, tap-quantized)", by decide⟩,
     ⟨3, "imu_odr_code", 7, 1, 10, "IMU ODR code (1=12.5 Hz .. 10=6.66 kHz)", by decide⟩,
     ⟨4, "imu_content", 3, 1, 3, "IMU content mask (bit0 accel, bit1 gyro)", by decide⟩,
     ⟨5, "imu_accel_fs", 0, 0, 3, "Accel full-scale (0=±2g 1=±4g 2=±8g 3=±16g)", by decide⟩,
     ⟨6, "imu_gyro_fs", 0, 0, 3, "Gyro full-scale (0=±250 1=±500 2=±1000 3=±2000 dps)", by decide⟩,
     ⟨7, "preview_hz", 0, 0, 6660, "Live-stream rate cap [Hz] (0 = auto/link budget)", by decide⟩,
     ⟨8, "led_enabled", 1, 0, 1, "Heartbeat LED on/off", by decide⟩,
     ⟨9, "robot_id", 0, 0, 20,
       "Fleet robot number (0 = unassigned; advertised as Cat-NN, unassigned robots show Cat-XXXX from the chip id)", by decide⟩]
  maxId := 9

/-- protocol_limits.py. -/
def protocolLimits : List (String × Limit) :=
  [("motor_freq_hz", ⟨4, 1000, 150⟩), ("motor_vdc_mv", ⟨750, 4200, 3100⟩), ("imu_odr_code", ⟨1, 10, 7⟩),
   ("imu_content", ⟨1, 3, 3⟩), ("imu_accel_fs", ⟨0, 3, 0⟩), ("imu_gyro_fs", ⟨0, 3, 0⟩),
   ("preview_hz", ⟨0, 6660, 0⟩), ("led_enabled", ⟨0, 1, 1⟩), ("robot_id", ⟨0, 20, 0⟩)]

theorem artifacts_generated : generate settingsYml = .ok artifacts := rfl

/-- The files of the repository are what the generator makes of its settings.yml. -/
theorem artifacts_checked_in : artifacts.table = settingsGen.table ∧ artifacts.limits = protocolLimits :=
  ⟨rfl, by decide +kernel⟩

theorem limits_are_stored_here :
    ∃ R : Registry, R.table = settingsGen.table ∧ (R.maxId : Int) = 9 ∧
      ∀ name l, lookup artifacts.limits name = some l → ∃ id : Nat,
        (∃ s ∈ artifacts.settings, s.name = name ∧ s.id = id) ∧
        (∀ r, ((settingsGet R ⟨loadDefaults R r, true⟩ id).toNat : Int) = l.dflt) ∧
        ∀ (s : Store) (v : UInt16), s.loaded = true →
          (settingsGet R (settingsSet R s id v) id = v ↔ l.min ≤ v.toNat ∧ (v.toNat : Int) ≤ l.max) :=
  limits_are_stored artifacts_generated (show ∀ s ∈ artifacts.settings, _ by decide)

end Caterpillar.Settings.Generate
