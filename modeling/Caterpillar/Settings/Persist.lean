/-
  Settings across power cuts, with every persist undisturbed.

  1. `Device` — the store with its two slots; a persist is one step here, and a power cut in the
     middle of its flash write leaves its slot as it was, complete, or failing the check (`Torn`).
     Beside the code's state the device carries what was persisted: the values of the last completed
     persist, and those of the persist power was last cut in.
  2. `Holds slots g kept` — **the invariant**: the record of generation `g` is in slot `g % 2`, passes
     the check and holds `kept`; what passes in the other slot is older.  With nothing kept yet, no
     slot passes and `g = 0`.
  3. `device_sound` — one step keeps it; `boot_takes` — a boot takes over exactly the record kept.
  4. `settings_survive` — over every run, by `Reach.invariant`.
-/
import Caterpillar.Lib.Runs
import Caterpillar.Settings.Store

namespace Caterpillar.Settings

open Caterpillar.Word Caterpillar.Bytes Caterpillar.Runs

variable (R : Registry) (crc : List UInt8 → UInt32)

/-! ## The device -/

/-- The record a persist writes. -/
def persistRec (r : StoreRec) : StoreRec := sealRec R crc (bumpGeneration r)

/-- A complete write of a record to its slot. -/
def writeSlot (slots : Nat → StoreRec) (r : StoreRec) : Nat → StoreRec :=
  Function.update slots (slotOf r) r

/-- Flash whose slots can both be read. -/
def readable (slots : Nat → StoreRec) : Option (Nat → Option StoreRec) := some fun k => some (slots k)

/-- What a power cut in the middle of a persist leaves in the slot being written. -/
inductive Torn where
  | old
  | new
  | garbage (g : StoreRec)

/-- A powered device with the values of its last completed persist; or its flash, with those and
    with the values power was last cut in, and whether these had reached the flash in full. -/
inductive Device where
  | on (s : Store) (slots : Nat → StoreRec) (done : Option Values)
  | off (slots : Nat → StoreRec) (done : Option Values) (cutting : Option (Values × Bool))

/-- The values of the last persist whose record is complete in flash. -/
def kept (done : Option Values) (cutting : Option (Values × Bool)) : Option Values :=
  match cutting with
  | some (v, true) => some v
  | _ => done

/-- What can happen to a device. -/
inductive Event where
  | set (id : Nat) (value : UInt16)
  | persist
  /-- Power is cut while no persist runs. -/
  | cut
  /-- Power is cut in the flash write of a persist. -/
  | persistCut (t : Torn)
  | boot

/-- One event; `none` where it cannot happen. -/
def Device.step : Device → Event → Option Device
  | .on s slots done, .set id value => some (.on (settingsSet R s id value) slots done)
  | .on s slots _, .persist =>
      let r := persistRec R crc s.record
      some (.on { s with record := r } (writeSlot slots r) (some r.values))
  | .on _ slots done, .cut => some (.off slots done none)
  | .on s slots done, .persistCut t =>
      let r := persistRec R crc s.record
      match t with
      | .old => some (.off slots done (some (r.values, false)))
      | .new => some (.off (writeSlot slots r) done (some (r.values, true)))
      | .garbage g =>
          if g.Passes R crc then none
          else some (.off (Function.update slots (slotOf r) g) done (some (r.values, false)))
  | .off slots done cutting, .boot =>
      some (.on (settingsStoreInit R crc Store.cold (readable slots)) slots (kept done cutting))
  | _, _ => none

/-- The step relation of the device. -/
def DeviceStep (d : Device) (e : Event) (d' : Device) : Prop := d.step R crc e = some d'

/-- A device with two invalid slots. -/
def Blank (d : Device) : Prop :=
  ∃ slots, d = .off slots none none ∧ ∀ k, k < 2 → ¬ (slots k).Passes R crc

/-- The generation counter does not reach its last value. -/
def Fresh : Device → Event → Prop
  | .on s _ _, .persist => s.record.generation < 4294967295
  | .on s _ _, .persistCut _ => s.record.generation < 4294967295
  | _, _ => True

/-! ## The two slots -/

/-- The record of generation `g` is where it belongs and holds `kept`; the other slot is older. -/
def Holds (slots : Nat → StoreRec) (g : Nat) : Option Values → Prop
  | none => g = 0 ∧ ∀ k, k < 2 → ¬ (slots k).Passes R crc
  | some v => (slots (g % 2)).Passes R crc ∧ (slots (g % 2)).generation = g ∧
      (slots (g % 2)).values = v ∧ InRange R v ∧
      ∀ k, k < 2 → k ≠ g % 2 → (slots k).Passes R crc → (slots k).generation < g

/-- Whatever is kept, the slot the next record goes to holds nothing that is needed. -/
theorem Holds.other {slots : Nat → StoreRec} {g : Nat} {v : Option Values}
    (h : Holds R crc slots g v) {r : StoreRec} (hr : ¬ r.Passes R crc) :
    Holds R crc (Function.update slots ((g + 1) % 2) r) g v := by
  have hne : g % 2 ≠ (g + 1) % 2 := by omega
  cases v with
  | none =>
    refine ⟨h.1, fun k hk => ?_⟩
    by_cases hk' : k = (g + 1) % 2
    · rw [hk', Function.update_self]
      exact hr
    · rw [Function.update_of_ne hk']
      exact h.2 k hk
  | some v =>
    obtain ⟨h1, h2, h3, h4, h5⟩ := h
    refine ⟨?_, ?_, ?_, h4, fun k hk hkg hp => ?_⟩
    · rw [Function.update_of_ne hne]; exact h1
    · rw [Function.update_of_ne hne]; exact h2
    · rw [Function.update_of_ne hne]; exact h3
    · have hk' : k = (g + 1) % 2 := by omega
      rw [hk', Function.update_self] at hp
      exact absurd hp hr

/-- A sealed record with the right magic passes the check. -/
theorem persistRec_passes {r : StoreRec} (h : r.magic = storeMagic) :
    (persistRec R crc r).Passes R crc :=
  ⟨h, rfl⟩

/-- **A complete write moves on**: the new record is kept, the one it leaves behind is older. -/
theorem Holds.write {slots : Nat → StoreRec} {v : Option Values} {r : StoreRec}
    (h : Holds R crc slots r.generation v) (hm : r.magic = storeMagic) (hv : InRange R r.values)
    (hg : r.generation < 4294967295) :
    Holds R crc (writeSlot slots (persistRec R crc r)) (r.generation + 1) (some r.values) := by
  have hgen : (persistRec R crc r).generation = r.generation + 1 := u32_of_lt (by omega)
  have hslot : slotOf (persistRec R crc r) = (r.generation + 1) % 2 := by
    unfold slotOf
    rw [hgen]
  have hself : writeSlot slots (persistRec R crc r) ((r.generation + 1) % 2) =
      persistRec R crc r := by
    unfold writeSlot
    rw [hslot, Function.update_self]
  refine ⟨?_, ?_, ?_, hv, fun k hk hkg hp => ?_⟩
  · rw [hself]; exact persistRec_passes R crc hm
  · rw [hself]; exact hgen
  · rw [hself]; rfl
  · unfold writeSlot at hp ⊢
    rw [hslot, Function.update_of_ne hkg] at hp ⊢
    have hk' : k = r.generation % 2 := by omega
    rw [hk'] at hp ⊢
    cases v with
    | none => exact absurd hp (h.2 _ (Nat.mod_lt _ (by decide)))
    | some v =>
      have hold := h.2.1
      omega

/-- **A boot takes over the record kept.** -/
theorem boot_takes {slots : Nat → StoreRec} {g : Nat} {v : Option Values}
    (h : Holds R crc slots g v) (s : Store) :
    (settingsStoreInit R crc s (readable slots)).loaded = true ∧
      (settingsStoreInit R crc s (readable slots)).record.magic = storeMagic ∧
      (settingsStoreInit R crc s (readable slots)).record.generation = g ∧
      (settingsStoreInit R crc s (readable slots)).record.values = v.getD (defaultValues R) ∧
      InRange R (v.getD (defaultValues R)) ∧
      ∀ i r, chooseSlot R crc (fun k => some (slots k)) = some (i, r) → i = g % 2 := by
  unfold readable
  cases v with
  | none =>
    obtain ⟨hg, hno⟩ := h
    cases hc : chooseSlot R crc fun k => some (slots k) with
    | none =>
      rw [settingsStoreInit_none R crc hc]
      exact ⟨rfl, rfl, hg.symm, rfl, defaultValues_inRange R, by simp⟩
    | some c =>
      obtain ⟨hi, hri, hp, -⟩ := chooseSlot_some R crc hc
      rw [← Option.some.inj hri] at hp
      exact absurd hp (hno c.1 hi)
  | some v =>
    obtain ⟨hp, hg, hv, hin, hothers⟩ := h
    cases hc : chooseSlot R crc fun k => some (slots k) with
    | none => exact absurd hp (chooseSlot_none R crc hc (Nat.mod_lt _ (by decide)) rfl)
    | some c =>
      obtain ⟨hi, hri, hpi, hmax⟩ := chooseSlot_some R crc hc
      have hr : slots c.1 = c.2 := Option.some.inj hri
      -- the other slot is older, so it is not the one chosen
      have hslot : c.1 = g % 2 := by
        by_contra hne
        have hlt := hothers c.1 hi hne (by rw [hr]; exact hpi)
        have hge := hmax (g % 2) (Nat.mod_lt _ (by decide)) _ rfl hp
        rw [hr] at hlt
        omega
      rw [hslot] at hr
      rw [hr] at hp hg hv
      rw [settingsStoreInit_some R crc hc]
      refine ⟨rfl, hp.1, hg, ?_, hin, fun i r hir => ?_⟩
      · show R.table.foldl clampSetting c.2.values = v
        rw [hv, clampSetting_inRange R hin]
      · obtain rfl := Option.some.inj hir
        exact hslot

/-! ## Over runs -/

/-- The invariant of a device. -/
def Device.Sound : Device → Prop
  | .on s slots done => s.loaded = true ∧ s.record.magic = storeMagic ∧
      InRange R s.record.values ∧ s.record.generation < 4294967296 ∧
      Holds R crc slots s.record.generation done
  | .off slots done cutting => ∃ g, g < 4294967296 ∧ Holds R crc slots g (kept done cutting)

/-- **Step lemma.** -/
theorem device_sound {d d' : Device} {e : Event} (h : d.Sound R crc) (hG : Fresh d e)
    (hst : DeviceStep R crc d e d') : d'.Sound R crc := by
  cases d with
  | on s slots done =>
    obtain ⟨hl, hm, hv, hg, hh⟩ := h
    cases e with
    | set id value =>
      obtain rfl := Option.some.inj hst
      obtain ⟨v, hset⟩ := settingsSet_record R s id value
      have hin := settingsSet_inRange R hv id value
      rw [hset] at hin
      show Device.Sound R crc (.on (settingsSet R s id value) slots done)
      rw [hset]
      exact ⟨hl, hm, hin, hg, hh⟩
    | persist =>
      have hlt : s.record.generation < 4294967295 := hG
      have hgen : (persistRec R crc s.record).generation = s.record.generation + 1 :=
        u32_of_lt (by omega)
      obtain rfl := Option.some.inj hst
      refine ⟨hl, hm, hv, ?_, ?_⟩
      · show (persistRec R crc s.record).generation < 4294967296
        omega
      · show Holds R crc (writeSlot slots (persistRec R crc s.record))
          (persistRec R crc s.record).generation (some s.record.values)
        rw [hgen]
        exact hh.write R crc hm hv hlt
    | cut =>
      obtain rfl := Option.some.inj hst
      exact ⟨s.record.generation, hg, hh⟩
    | persistCut t =>
      have hlt : s.record.generation < 4294967295 := hG
      have hslot : slotOf (persistRec R crc s.record) = (s.record.generation + 1) % 2 := by
        unfold slotOf
        rw [show (persistRec R crc s.record).generation = s.record.generation + 1 from
          u32_of_lt (by omega)]
      cases t with
      | old =>
        obtain rfl := Option.some.inj hst
        exact ⟨s.record.generation, hg, hh⟩
      | new =>
        obtain rfl := Option.some.inj hst
        exact ⟨s.record.generation + 1, by omega, hh.write R crc hm hv hlt⟩
      | garbage g =>
        have hst' : (if g.Passes R crc then none else some (Device.off
          (Function.update slots (slotOf (persistRec R crc s.record)) g) done
          (some ((persistRec R crc s.record).values, false)))) = some d' := hst
        split at hst'
        · exact absurd hst' (by simp)
        · rename_i hno
          obtain rfl := Option.some.inj hst'
          refine ⟨s.record.generation, hg, ?_⟩
          rw [hslot]
          exact hh.other R crc hno
    | boot => exact absurd hst (by simp [DeviceStep, Device.step])
  | off slots done cutting =>
    obtain ⟨g, hg, hh⟩ := h
    cases e with
    | boot =>
      obtain rfl := Option.some.inj hst
      obtain ⟨h1, h2, h3, h4, h5, -⟩ := boot_takes R crc hh Store.cold
      refine ⟨h1, h2, ?_, ?_, ?_⟩
      · rw [h4]; exact h5
      · rw [h3]; exact hg
      · rw [h3]; exact hh
    | set id value => exact absurd hst (by simp [DeviceStep, Device.step])
    | persist => exact absurd hst (by simp [DeviceStep, Device.step])
    | cut => exact absurd hst (by simp [DeviceStep, Device.step])
    | persistCut t => exact absurd hst (by simp [DeviceStep, Device.step])

/-- **Settings survive power cuts.**  After any run of sets, persists, power cuts and reboots that
    starts with two invalid slots, a boot loads the values of the last persist whose record is
    complete in flash — the last one completed, or the one power was cut in — and the next persist,
    whatever is set before it, goes to the other slot. -/
theorem settings_survive {slots : Nat → StoreRec} {done : Option Values}
    {cutting : Option (Values × Bool)}
    (h : Reach (Blank R crc) (guarded Fresh (DeviceStep R crc)) (.off slots done cutting)) :
    (settingsStoreInit R crc Store.cold (readable slots)).record.values =
        (kept done cutting).getD (defaultValues R) ∧
      ((settingsStoreInit R crc Store.cold (readable slots)).record.values = done.getD (defaultValues R) ∨
        ∃ landed, cutting =
          some ((settingsStoreInit R crc Store.cold (readable slots)).record.values, landed)) ∧
      ∀ i r v, chooseSlot R crc (fun k => some (slots k)) = some (i, r) → slotOf (persistRec R crc
        { (settingsStoreInit R crc Store.cold (readable slots)).record with values := v }) ≠ i := by
  have hsound : (Device.off slots done cutting).Sound R crc := by
    refine Reach.invariant (I := Device.Sound R crc) ?_ ?_ h
    · rintro d ⟨slots, rfl, hno⟩
      exact ⟨0, by decide, rfl, hno⟩
    · rintro d e d' - hd ⟨hg, hst⟩
      exact device_sound R crc hd hg hst
  obtain ⟨g, hg, hh⟩ := hsound
  obtain ⟨-, -, hgen, hvals, -, hslot⟩ := boot_takes R crc hh Store.cold
  refine ⟨hvals, ?_, fun i r v hi => ?_⟩
  · rw [hvals]
    match cutting with
    | none => exact Or.inl rfl
    | some (w, true) => exact Or.inr ⟨true, rfl⟩
    | some (w, false) => exact Or.inl rfl
  · rw [hslot i r hi]
    show u32 ((settingsStoreInit R crc Store.cold (readable slots)).record.generation + 1) % 2 ≠ g % 2
    rw [hgen]
    unfold u32
    omega

/-- Out of erased flash: robot 5 is persisted, power is cut in the write that makes it robot 7, and the
    next boot comes up as robot 5. -/
theorem settings_survive_torn : ∃ slots done cutting,
    Reach (Blank settingsGen crc32Ieee)
        (guarded Fresh (DeviceStep settingsGen crc32Ieee)) (.off slots done cutting) ∧
      (settingsStoreInit settingsGen crc32Ieee Store.cold (readable slots)).record.values
        settingRobotId = 5 := by
  have h0 : Reach (Blank settingsGen crc32Ieee) (guarded Fresh (DeviceStep settingsGen crc32Ieee))
      (.off (fun _ => StoreRec.erased) none none) :=
    .start ⟨_, rfl, fun _ _ => StoreRec.erased_fails settingsGen crc32Ieee⟩
  have h1 := h0.next (a := Event.boot) ⟨trivial, rfl⟩
  have h2 := h1.next (a := Event.set settingRobotId 5) ⟨trivial, rfl⟩
  have h3 := h2.next (a := Event.persist) ⟨by show _ < _; decide +kernel, rfl⟩
  have h4 := h3.next (a := Event.set settingRobotId 7) ⟨trivial, rfl⟩
  have h5 := h4.next (a := Event.persistCut (.garbage StoreRec.erased))
    ⟨by show _ < _; decide +kernel,
      if_neg (t := none) (StoreRec.erased_fails settingsGen crc32Ieee)⟩
  refine ⟨_, _, _, h5, ?_⟩
  rw [(settings_survive settingsGen crc32Ieee h5).1]
  decide +kernel

end Caterpillar.Settings
