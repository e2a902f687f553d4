/-
  Settings in range, over every sequence of calls.

  Consumers index tables and divide by what `settings_get` returns, unchecked.  Values enter from the
  flash slots, from the defaults and from callers of `settings_set`.

  1. `StoreCall` / `Store.run` — the calls of settings_store.c in any order, from reset on; the slots
     and the way their reads end are chosen anew at every `settings_store_init`.
  2. `Store.Safe` — once loaded, every value is in range.  Before that `settings_get` falls back to the
     default of the entry, so the record may hold anything.
  3. `settings_in_range` — what `settings_get` returns after any calls, and what one more
     `settings_set` changes.
-/
import Mathlib.Data.List.Induction
import Caterpillar.Settings.Store
import Caterpillar.Lib.Bytes

namespace Caterpillar.Settings

open Caterpillar.Bytes

variable (R : Registry) (crc : List UInt8 → UInt32)

/-! ## Calls -/

/-- What may be called, and the work item. -/
inductive StoreCall where
  /-- `settings_store_init`: `flash` is `none` when the device is not ready, a slot `none` when
      reading it fails. -/
  | init (flash : Option (Nat → Option StoreRec))
  /-- `settings_set`. -/
  | set (id : Nat) (value : UInt16)
  /-- `persist_work_fn`, of which the statics see the generation and the CRC. -/
  | persist

/-- One call. -/
def Store.call (s : Store) : StoreCall → Store
  | .init flash => settingsStoreInit R crc s flash
  | .set id value => settingsSet R s id value
  | .persist => { s with record := sealRec R crc (bumpGeneration s.record) }

/-- The statics after the calls. -/
def Store.run (calls : List StoreCall) : Store := calls.foldl (Store.call R crc) Store.cold

theorem run_snoc (calls : List StoreCall) (c : StoreCall) :
    Store.run R crc (calls ++ [c]) = Store.call R crc (Store.run R crc calls) c := by
  unfold Store.run
  rw [List.foldl_append]
  rfl

/-! ## The invariant -/

/-- A loaded store is in range. -/
def Store.Safe (s : Store) : Prop := s.loaded = true → InRange R s.record.values

theorem cold_safe : Store.cold.Safe R := fun h => Bool.noConfusion h

/-- `settings_set` and the work item leave `loaded` alone. -/
theorem call_loaded {s : Store} (h : s.loaded = true) (c : StoreCall) :
    (Store.call R crc s c).loaded = true := by
  cases c with
  | init flash => exact (settingsStoreInit_loaded R crc s flash).loaded
  | set id value =>
    obtain ⟨v, hv⟩ := settingsSet_record R s id value
    show (settingsSet R s id value).loaded = true
    rw [hv]
    exact h
  | persist => exact h

/-- **Step lemma.** -/
theorem call_safe {s : Store} (h : s.Safe R) (c : StoreCall) : (Store.call R crc s c).Safe R := by
  cases c with
  | init flash =>
    intro _
    exact (settingsStoreInit_loaded R crc s flash).inRange
  | set id value =>
    intro hl
    obtain ⟨v, hv⟩ := settingsSet_record R s id value
    have hl' : (settingsSet R s id value).loaded = true := hl
    rw [hv] at hl'
    exact settingsSet_inRange R (h hl') id value
  | persist => exact h

/-- **Run lemma.** -/
theorem run_safe (calls : List StoreCall) : (Store.run R crc calls).Safe R := by
  induction calls using List.reverseRecOn with
  | nil => exact cold_safe R
  | append_singleton calls c ih =>
    rw [run_snoc]
    exact call_safe R crc ih c

/-- Whatever is called after a boot, the store stays loaded. -/
theorem run_loaded {calls : List StoreCall} {flash : Option (Nat → Option StoreRec)}
    (h : StoreCall.init flash ∈ calls) : (Store.run R crc calls).loaded = true := by
  induction calls using List.reverseRecOn with
  | nil => exact absurd h (by simp)
  | append_singleton calls c ih =>
    rw [run_snoc]
    rcases List.mem_append.mp h with hin | hlast
    · exact call_loaded R crc (ih hin) c
    · obtain rfl := List.mem_singleton.mp hlast
      exact (settingsStoreInit_loaded R crc _ flash).loaded

/-! ## What `settings_get` returns -/

/-- The lookup finds every entry of the table. -/
theorem metaFor_self {m : SettingMeta} (hm : m ∈ R.table) : metaFor R m.id = some m := by
  cases hfind : metaFor R m.id with
  | none =>
    have hno := List.find?_eq_none.mp hfind m hm
    simp at hno
  | some m' =>
    obtain ⟨hm', hid⟩ := metaFor_mem R hfind
    rw [R.eq_of_id hm' hm hid]

theorem metaFor_unknown {id : Nat} (h : ∀ m ∈ R.table, m.id ≠ id) : metaFor R id = none := by
  refine List.find?_eq_none.mpr ?_
  intro m hm
  simpa using h m hm

/-- A safe store reads every entry within its range, loaded or not. -/
theorem Store.Safe.get {s : Store} (h : s.Safe R) {m : SettingMeta} (hm : m ∈ R.table) :
    m.min ≤ settingsGet R s m.id ∧ settingsGet R s m.id ≤ m.max := by
  by_cases hl : s.loaded = true
  · have hloaded : s.Loaded R := ⟨hl, h hl⟩
    exact hloaded.get R (metaFor_self R hm)
  · unfold settingsGet
    rw [metaFor_self R hm]
    dsimp only
    rw [if_neg hl]
    exact m.inRange

/-- **Settings are always in range**: after any calls, from any contents of the flash and however its
    reads end, every registered setting reads within its range and every other id as 0; and once booted,
    setting a registered id sets that one, clamped, and no other. -/
theorem settings_in_range (calls : List StoreCall) :
    (∀ m ∈ R.table, m.min ≤ settingsGet R (Store.run R crc calls) m.id ∧
      settingsGet R (Store.run R crc calls) m.id ≤ m.max) ∧
    (∀ id, (∀ m ∈ R.table, m.id ≠ id) → settingsGet R (Store.run R crc calls) id = 0) ∧
    ((∃ flash, StoreCall.init flash ∈ calls) → ∀ m ∈ R.table, ∀ value,
      settingsGet R (Store.run R crc (calls ++ [.set m.id value])) m.id = clamp value m.min m.max ∧
      ∀ id, id ≠ m.id → settingsGet R (Store.run R crc (calls ++ [.set m.id value])) id =
        settingsGet R (Store.run R crc calls) id) := by
  refine ⟨fun m hm => (run_safe R crc calls).get R hm, ?_, ?_⟩
  · intro id hid
    unfold settingsGet
    rw [metaFor_unknown R hid]
  · rintro ⟨flash, hboot⟩ m hm value
    have hl := run_loaded R crc hboot
    rw [run_snoc]
    refine ⟨settingsGet_set R hl (metaFor_self R hm) value, fun id hne => ?_⟩
    exact settingsGet_set_ne R _ hne value

/-- A slot whose CRC is right and whose values are all 65535. -/
def StoreRec.hostile : StoreRec :=
  sealRec settingsGen crc32Ieee ⟨storeMagic, 0xFFFFFFFF, fun _ => 0xFFFF, 0⟩

/-- Booted from a hostile slot and set out of range: the PWM frequency is the largest allowed one and
    the ODR code its default. -/
theorem settings_in_range_hostile :
    let calls := [StoreCall.set 3 0, .init (some fun _ => some StoreRec.hostile), .persist, .set 3 99]
    let s := Store.run settingsGen crc32Ieee (calls ++ [.set 1 5000])
    (4 ≤ settingsGet settingsGen s 1 ∧ settingsGet settingsGen s 1 ≤ 1000) ∧
      settingsGet settingsGen s 1 = 1000 ∧ settingsGet settingsGen s 200 = 0 := by
  intro calls s
  obtain ⟨-, -, hset⟩ := settings_in_range settingsGen crc32Ieee calls
  obtain ⟨hrange, hunknown, -⟩ := settings_in_range settingsGen crc32Ieee (calls ++ [.set 1 5000])
  have hm : (⟨1, 150, 4, 1000, by decide⟩ : SettingMeta) ∈ settingsGen.table := by
    simp [settingsGen, settingMotorFreqHz]
  refine ⟨hrange _ hm, ?_, hunknown 200 (by decide)⟩
  have hboot : ∃ flash, StoreCall.init flash ∈ calls :=
    ⟨some fun _ => some StoreRec.hostile, by simp [calls]⟩
  rw [(hset hboot _ hm 5000).1]
  decide

end Caterpillar.Settings
