/-
  A persist with settings changing underneath it.

  `persist_work_fn` hands the LIVE record to `flash_write`, which waits for a radio timeslot before
  it copies; `settings_set` may run in between, from any thread.

  1. `Machine` / `Device` — the store, its slots and how far the work item has come (`Phase`): it
     increments the generation, computes the CRC, and copies the record field by field.  Besides the
     code's state there are the record as the CRC saw it, whether a value changed since the work item
     began, and whether some work item has completed without such a change (`armed`).
  2. `Copied` — the first `n` fields of a slot are those of a record; all of them make it pass
     (`Copied.passes`).
  3. `Machine.Sound` — **the invariant**: the slot that is NOT being written passes, and what is
     being written is the record its CRC was computed over.
  4. `last_record_kept` — over runs that copy every value as the CRC saw it, once armed some slot
     passes at every moment; `last_record_lost` — in general it does not.
-/
import Caterpillar.Lib.Runs
import Caterpillar.Settings.Store

namespace Caterpillar.Settings.Overlap

open Caterpillar.Word Caterpillar.Bytes Caterpillar.Runs

variable (R : Registry) (crc : List UInt8 → UInt32)

/-! ## The machine -/

/-- How far `persist_work_fn` has come. -/
inductive Phase where
  | idle
  /-- `rec.generation` is incremented, the CRC not yet computed. -/
  | bumped
  /-- In `flash_write`, with `n` fields copied. -/
  | copying (n : Nat)

/-- A powered device. -/
structure Machine where
  store : Store
  slots : Nat → StoreRec
  phase : Phase
  /-- The work item is scheduled. -/
  scheduled : Bool
  /-- The record as the CRC was computed over it. -/
  sealed : StoreRec
  /-- A value changed since the work item began. -/
  touched : Bool
  /-- Some work item has completed with no value changing meanwhile. -/
  armed : Bool

/-- A powered device, or its flash. -/
inductive Device where
  | on (m : Machine)
  | off (slots : Nat → StoreRec) (armed : Bool)

/-- The two slots. -/
def Device.slots : Device → Nat → StoreRec
  | .on m => m.slots
  | .off slots _ => slots

/-- Some work item has completed with no value changing meanwhile. -/
def Device.armed : Device → Bool
  | .on m => m.armed
  | .off _ armed => armed

/-- What can happen to a device. -/
inductive Event where
  | set (id : Nat) (value : UInt16)
  /-- `rec.generation++`. -/
  | bump
  /-- `rec.crc = rec_crc(&rec)`. -/
  | checksum
  /-- `flash_write` copies the next field. -/
  | copy
  /-- `flash_write` returns. -/
  | finish
  /-- Power is cut between two fields, or while no work item runs. -/
  | cut
  /-- Power is cut within a field: the slot being written is left failing the check. -/
  | tear (g : StoreRec)
  | boot

/-- `settings_set` finds a registered id whose value differs. -/
def changes (s : Store) (id : Nat) (value : UInt16) : Bool :=
  match metaFor R id with
  | none => false
  | some m => s.loaded && decide (s.record.values id ≠ clamp value m.min m.max)

/-- The fields of a record: the two header words, the values, the CRC. -/
def fields : Nat := R.maxId + 3

/-- Field `n` of the live record copied to a slot. -/
def copyField (r : StoreRec) (n : Nat) (slot : StoreRec) : StoreRec :=
  match n with
  | 0 => { slot with magic := r.magic, generation := r.generation }
  | id + 1 =>
      if id ≤ R.maxId then { slot with values := Function.update slot.values id (r.values id) }
      else { slot with crc := r.crc }

/-- `settings_set`, from whichever thread. -/
def Machine.set (m : Machine) (id : Nat) (value : UInt16) : Machine :=
  { m with
    store := settingsSet R m.store id value
    scheduled := m.scheduled || changes R m.store id value
    touched := m.touched || changes R m.store id value }

/-- The work item starts. -/
def Machine.bump (m : Machine) : Machine :=
  { m with
    store := { m.store with record := bumpGeneration m.store.record }
    phase := .bumped
    scheduled := false
    touched := false }

/-- The CRC is computed. -/
def Machine.checksum (m : Machine) : Machine :=
  { m with
    store := { m.store with record := sealRec R crc m.store.record }
    phase := .copying 0
    sealed := sealRec R crc m.store.record }

/-- Field `n` is copied. -/
def Machine.copy (m : Machine) (n : Nat) : Machine :=
  let slot := slotOf m.store.record
  { m with
    slots := Function.update m.slots slot (copyField R m.store.record n (m.slots slot))
    phase := .copying (n + 1) }

/-- One event; `none` where it cannot happen. -/
def Device.step : Device → Event → Option Device
  | .on m, .set id value => some (.on (m.set R id value))
  | .on m, .bump =>
      match m.phase with
      | .idle => if m.scheduled then some (.on m.bump) else none
      | _ => none
  | .on m, .checksum =>
      match m.phase with
      | .bumped => some (.on (m.checksum R crc))
      | _ => none
  | .on m, .copy =>
      match m.phase with
      | .copying n => if n < fields R then some (.on (m.copy R n)) else none
      | _ => none
  | .on m, .finish =>
      match m.phase with
      | .copying n =>
          if n < fields R then none
          else some (.on { m with phase := .idle, armed := m.armed || !m.touched })
      | _ => none
  | .on m, .cut => some (.off m.slots m.armed)
  | .on m, .tear g =>
      match m.phase with
      | .copying _ =>
          if g.Passes R crc then none
          else some (.off (Function.update m.slots (slotOf m.store.record) g) m.armed)
      | _ => none
  | .off slots armed, .boot =>
      some (.on
        { store := settingsStoreInit R crc Store.cold (some fun k => some (slots k))
          slots
          phase := .idle
          scheduled := false
          sealed := Store.cold.record
          touched := false
          armed })
  | _, _ => none

/-- The step relation of the device. -/
def DeviceStep (d : Device) (e : Event) (d' : Device) : Prop := d.step R crc e = some d'

/-- A slot that passes holds a generation that belongs there. -/
def InPlace (slots : Nat → StoreRec) : Prop :=
  ∀ k, k < 2 → (slots k).Passes R crc → slotOf (slots k) = k

/-- A device before its first boot with this firmware. -/
def Fresh (d : Device) : Prop := ∃ slots, d = .off slots false ∧ InPlace R crc slots

/-- Once armed, every value is copied to flash as it was when the CRC was computed. -/
def matched : Device → Event → Bool
  | .on m, .copy =>
      match m.phase with
      | .copying (id + 1) =>
          !m.armed || decide (R.maxId < id) || m.store.record.values id == m.sealed.values id
      | _ => true
  | _, _ => true

/-- The runs in which it is. -/
def Matched (d : Device) (e : Event) : Prop := matched R d e = true

theorem Matched.copied {m : Machine} (h : Matched R (.on m) .copy) {id : Nat}
    (hp : m.phase = .copying (id + 1)) (ha : m.armed = true) (hid : id ≤ R.maxId) :
    m.store.record.values id = m.sealed.values id := by
  have hlt : ¬ R.maxId < id := by omega
  simpa [Matched, matched, hp, ha, hlt] using h

/-! ## Copying a record -/

/-- Records that agree in front of the CRC have the same bytes there. -/
theorem bytes_congr {r r' : StoreRec} (hm : r.magic = r'.magic)
    (hg : r.generation = r'.generation) (hv : ∀ id, id ≤ R.maxId → r.values id = r'.values id) :
    r.bytes R = r'.bytes R := by
  have hvalues : ((List.range (R.maxId + 1)).flatMap fun id => le16 (r.values id)) =
      (List.range (R.maxId + 1)).flatMap fun id => le16 (r'.values id) := by
    rw [List.flatMap_def, List.flatMap_def]
    congr 1
    refine List.map_congr_left fun id hid => ?_
    rw [hv id (Nat.le_of_lt_succ (List.mem_range.mp hid))]
  unfold StoreRec.bytes
  rw [hm, hg, hvalues]

/-- The first `n` fields of `slot` are those of `r`. -/
structure Copied (n : Nat) (r slot : StoreRec) : Prop where
  header : 0 < n → slot.magic = r.magic ∧ slot.generation = r.generation
  values : ∀ id, id ≤ R.maxId → id + 1 < n → slot.values id = r.values id
  crc : R.maxId + 2 < n → slot.crc = r.crc

theorem Copied.zero (r slot : StoreRec) : Copied R 0 r slot :=
  ⟨fun h => absurd h (by decide), fun _ _ h => absurd h (by omega), fun h => absurd h (by omega)⟩

/-- One more field. -/
theorem Copied.succ {n : Nat} {r slot live : StoreRec} (h : Copied R n r slot)
    (hm : live.magic = r.magic) (hg : live.generation = r.generation) (hc : live.crc = r.crc)
    (hv : ∀ id, n = id + 1 → id ≤ R.maxId → live.values id = r.values id) :
    Copied R (n + 1) r (copyField R live n slot) := by
  cases n with
  | zero => exact ⟨fun _ => ⟨hm, hg⟩, fun _ _ h => absurd h (by omega), fun h => absurd h (by omega)⟩
  | succ k =>
    by_cases hk : k ≤ R.maxId
    · have hfield : copyField R live (k + 1) slot =
          { slot with values := Function.update slot.values k (live.values k) } := if_pos hk
      rw [hfield]
      refine ⟨fun _ => h.header (by omega), fun id hid hlt => ?_, fun hlt => absurd hlt (by omega)⟩
      rcases Nat.lt_or_ge id k with hlt' | hge
      · show Function.update slot.values k (live.values k) id = r.values id
        rw [Function.update_of_ne (by omega)]
        exact h.values id hid (by omega)
      · obtain rfl : id = k := by omega
        show Function.update slot.values id (live.values id) id = r.values id
        rw [Function.update_self]
        exact hv id rfl hid
    · have hfield : copyField R live (k + 1) slot = { slot with crc := live.crc } := if_neg hk
      rw [hfield]
      exact ⟨fun _ => h.header (by omega), fun id hid hlt => h.values id hid (by omega), fun _ => hc⟩

/-- **A record copied in full passes.** -/
theorem Copied.passes {n : Nat} {r slot : StoreRec} (h : Copied R n r slot) (hn : fields R ≤ n)
    (hm : r.magic = storeMagic) (hc : r.crc = recCrc R crc r) : slot.Passes R crc := by
  unfold fields at hn
  obtain ⟨hmagic, hgen⟩ := h.header (by omega)
  constructor
  · rw [hmagic, hm]
  · have hbytes : slot.bytes R = r.bytes R :=
      bytes_congr R hmagic hgen fun id hid => h.values id hid (by omega)
    rw [h.crc (by omega), hc]
    show crc (r.bytes R) = crc (slot.bytes R)
    rw [hbytes]

/-! ## The invariant -/

/-- The slot a record is not written to. -/
def otherSlot (r : StoreRec) : Nat := (r.generation + 1) % 2

theorem otherSlot_ne (r : StoreRec) : otherSlot r ≠ slotOf r := by
  unfold otherSlot slotOf
  omega

/-- What holds of the slots in each phase. -/
def PhaseSound (m : Machine) : Phase → Prop
  | .idle => m.armed = true → (m.slots (slotOf m.store.record)).Passes R crc
  | .bumped => m.armed = true → (m.slots (otherSlot m.store.record)).Passes R crc
  | .copying n =>
      (m.armed = true → (m.slots (otherSlot m.store.record)).Passes R crc) ∧
      m.sealed.crc = recCrc R crc m.sealed ∧
      m.store.record = { m.sealed with values := m.store.record.values } ∧
      (m.touched = false → m.store.record.values = m.sealed.values) ∧
      (0 < n → (m.slots (slotOf m.store.record)).generation = m.store.record.generation) ∧
      (m.armed = true ∨ m.touched = false →
        Copied R n m.sealed (m.slots (slotOf m.store.record)))

/-- The invariant of a powered device. -/
structure Machine.Sound (m : Machine) : Prop where
  magic : m.store.record.magic = storeMagic
  inPlace : InPlace R crc m.slots
  phase : PhaseSound R crc m m.phase

/-- The invariant of a device. -/
def Device.Sound : Device → Prop
  | .on m => m.Sound R crc
  | .off slots armed =>
      InPlace R crc slots ∧ (armed = true → ∃ k, k < 2 ∧ (slots k).Passes R crc)

/-- Once armed, some slot passes: in a work item the one not being written. -/
theorem Machine.Sound.passes {m : Machine} (h : m.Sound R crc) (ha : m.armed = true) :
    ∃ k, k < 2 ∧ (m.slots k).Passes R crc := by
  have hphase := h.phase
  cases hp : m.phase with
  | idle =>
    rw [hp] at hphase
    exact ⟨slotOf m.store.record, Nat.mod_lt _ (by decide), hphase ha⟩
  | bumped =>
    rw [hp] at hphase
    exact ⟨otherSlot m.store.record, Nat.mod_lt _ (by decide), hphase ha⟩
  | copying n =>
    rw [hp] at hphase
    exact ⟨otherSlot m.store.record, Nat.mod_lt _ (by decide), hphase.1 ha⟩

/-- Rewriting one slot keeps the slots in place if what it then holds belongs there or fails. -/
theorem InPlace.update {slots : Nat → StoreRec} (h : InPlace R crc slots) {j : Nat} {r : StoreRec}
    (hr : r.Passes R crc → slotOf r = j) : InPlace R crc (Function.update slots j r) := by
  intro k hk hp
  by_cases hkj : k = j
  · subst hkj
    rw [Function.update_self] at hp ⊢
    exact hr hp
  · rw [Function.update_of_ne hkj] at hp ⊢
    exact h k hk hp

/-! ## One step -/

/-- A `settings_set` that finds nothing to change leaves the store alone. -/
theorem settingsSet_of_not_changes {s : Store} {id : Nat} {value : UInt16}
    (h : changes R s id value = false) : settingsSet R s id value = s := by
  unfold settingsSet
  unfold changes at h
  cases hm : metaFor R id with
  | none => rfl
  | some m =>
    rw [hm] at h
    dsimp only at h ⊢
    split
    · rename_i hl
      refine if_pos ?_
      simpa [hl] using h
    · rfl

theorem Machine.Sound.set {m : Machine} (h : m.Sound R crc) (id : Nat) (value : UInt16) :
    (m.set R id value).Sound R crc := by
  cases hc : changes R m.store id value with
  | false =>
    have hsame : m.set R id value = m := by
      unfold Machine.set
      rw [settingsSet_of_not_changes R hc, hc, Bool.or_false, Bool.or_false]
    rw [hsame]
    exact h
  | true =>
    obtain ⟨v, hv⟩ := settingsSet_record R m.store id value
    have hset : m.set R id value =
        { m with
          store := { m.store with record := { m.store.record with values := v } }
          scheduled := true
          touched := true } := by
      unfold Machine.set
      rw [hv, hc, Bool.or_true, Bool.or_true]
    rw [hset]
    refine ⟨h.magic, h.inPlace, ?_⟩
    have hphase := h.phase
    show PhaseSound R crc _ m.phase
    cases hp : m.phase with
    | idle =>
      rw [hp] at hphase
      exact hphase
    | bumped =>
      rw [hp] at hphase
      exact hphase
    | copying n =>
      rw [hp] at hphase
      obtain ⟨hother, hseal, hlive, -, hgen, hcopied⟩ := hphase
      refine ⟨hother, hseal, ?_, fun ht => absurd ht (by simp), hgen, ?_⟩
      · show { m.store.record with values := v } = { m.sealed with values := v }
        rw [hlive]
      · -- touched from here on: what was copied before matters only if armed
        rintro (ha | ht)
        · exact hcopied (Or.inl ha)
        · exact absurd ht (by simp)

theorem Machine.Sound.bump {m : Machine} (h : m.Sound R crc) (hp : m.phase = .idle) :
    m.bump.Sound R crc := by
  refine ⟨h.magic, h.inPlace, ?_⟩
  have hphase := h.phase
  rw [hp] at hphase
  intro ha
  -- what was the record's own slot is now the other one
  have hslot : otherSlot (bumpGeneration m.store.record) = slotOf m.store.record := by
    show (u32 (m.store.record.generation + 1) + 1) % 2 = m.store.record.generation % 2
    unfold u32
    omega
  show (m.slots (otherSlot (bumpGeneration m.store.record))).Passes R crc
  rw [hslot]
  exact hphase ha

theorem Machine.Sound.checksum {m : Machine} (h : m.Sound R crc) (hp : m.phase = .bumped) :
    (m.checksum R crc).Sound R crc := by
  refine ⟨h.magic, h.inPlace, ?_⟩
  have hphase := h.phase
  rw [hp] at hphase
  exact ⟨hphase, rfl, rfl, fun _ => rfl, fun h0 => absurd h0 (by decide), fun _ => Copied.zero R _ _⟩

/-- The generation a slot holds once the header is copied. -/
theorem copyField_generation {live slot : StoreRec} {n : Nat}
    (h : 0 < n → slot.generation = live.generation) :
    (copyField R live n slot).generation = live.generation := by
  cases n with
  | zero => rfl
  | succ id =>
    unfold copyField
    dsimp only
    split
    · exact h (by omega)
    · exact h (by omega)

theorem Machine.Sound.copy {m : Machine} {n : Nat} (h : m.Sound R crc) (hp : m.phase = .copying n)
    (hG : Matched R (.on m) .copy) : (m.copy R n).Sound R crc := by
  have hphase := h.phase
  rw [hp] at hphase
  obtain ⟨hother, hseal, hlive, hsame, hgen, hcopied⟩ := hphase
  have hgen' := copyField_generation R (n := n) hgen
  refine ⟨h.magic, h.inPlace.update R crc fun _ => ?_, ?_⟩
  · show (copyField R m.store.record n _).generation % 2 = m.store.record.generation % 2
    rw [hgen']
  refine ⟨fun ha => ?_, hseal, hlive, hsame, fun _ => ?_, fun hor => ?_⟩
  · show (Function.update m.slots (slotOf m.store.record) _ (otherSlot m.store.record)).Passes R crc
    rw [Function.update_of_ne (otherSlot_ne _)]
    exact hother ha
  · show (Function.update m.slots (slotOf m.store.record) _ (slotOf m.store.record)).generation =
      m.store.record.generation
    rw [Function.update_self]
    exact hgen'
  · show Copied R (n + 1) m.sealed
      (Function.update m.slots (slotOf m.store.record) _ (slotOf m.store.record))
    rw [Function.update_self]
    refine (hcopied hor).succ R ?_ ?_ ?_ fun id hid hle => ?_
    · rw [hlive]
    · rw [hlive]
    · rw [hlive]
    · rcases hor with ha | ht
      · exact hG.copied R (hid ▸ hp) ha hle
      · rw [hsame ht]

theorem Machine.Sound.finish {m : Machine} {n : Nat} (h : m.Sound R crc)
    (hp : m.phase = .copying n) (hn : fields R ≤ n) :
    Machine.Sound R crc { m with phase := .idle, armed := m.armed || !m.touched } := by
  have hphase := h.phase
  rw [hp] at hphase
  obtain ⟨-, hseal, hlive, -, -, hcopied⟩ := hphase
  refine ⟨h.magic, h.inPlace, fun ha => ?_⟩
  have hor : m.armed = true ∨ m.touched = false := by
    simpa using ha
  refine (hcopied hor).passes R crc hn ?_ hseal
  have hmagic := h.magic
  rw [hlive] at hmagic
  exact hmagic

/-- A power cut leaves the slots in place, and armed, with one that passes. -/
theorem Machine.Sound.cut {m : Machine} (h : m.Sound R crc) :
    Device.Sound R crc (.off m.slots m.armed) :=
  ⟨h.inPlace, fun ha => h.passes R crc ha⟩

theorem Machine.Sound.tear {m : Machine} {n : Nat} {g : StoreRec} (h : m.Sound R crc)
    (hp : m.phase = .copying n) (hg : ¬ g.Passes R crc) :
    Device.Sound R crc (.off (Function.update m.slots (slotOf m.store.record) g) m.armed) := by
  have hphase := h.phase
  rw [hp] at hphase
  constructor
  · exact h.inPlace.update R crc fun hpass => absurd hpass hg
  · intro ha
    refine ⟨otherSlot m.store.record, Nat.mod_lt _ (by decide), ?_⟩
    rw [Function.update_of_ne (otherSlot_ne _)]
    exact hphase.1 ha

/-- A boot resumes from a slot that passes, if there is one. -/
theorem boot_sound {slots : Nat → StoreRec} {armed : Bool}
    (h : Device.Sound R crc (.off slots armed)) (m : Machine)
    (hs : m.store = settingsStoreInit R crc Store.cold (some fun k => some (slots k)))
    (hslots : m.slots = slots) (hp : m.phase = .idle) (ha : m.armed = armed) :
    m.Sound R crc := by
  obtain ⟨hplace, hpass⟩ := h
  cases hc : chooseSlot R crc fun k => some (slots k) with
  | none =>
    rw [settingsStoreInit_none R crc hc] at hs
    refine ⟨by rw [hs]; rfl, by rw [hslots]; exact hplace, ?_⟩
    rw [hp]
    intro harmed
    obtain ⟨k, hk, hkpass⟩ := hpass (ha ▸ harmed)
    exact absurd hkpass (chooseSlot_none R crc hc hk rfl)
  | some c =>
    rw [settingsStoreInit_some R crc hc] at hs
    obtain ⟨hi, hr, hcpass, -⟩ := chooseSlot_some R crc hc
    have hr' : slots c.1 = c.2 := Option.some.inj hr
    have hslot : slotOf c.2 = c.1 := by
      rw [← hr']
      exact hplace c.1 hi (by rw [hr']; exact hcpass)
    refine ⟨by rw [hs]; exact hcpass.1, by rw [hslots]; exact hplace, ?_⟩
    rw [hp]
    intro _
    rw [hslots, hs]
    show (slots (slotOf c.2)).Passes R crc
    rw [hslot, hr']
    exact hcpass

/-- **Step lemma.** -/
theorem device_sound {d d' : Device} {e : Event} (h : d.Sound R crc) (hG : Matched R d e)
    (hst : DeviceStep R crc d e d') : d'.Sound R crc := by
  unfold DeviceStep Device.step at hst
  cases d with
  | off slots armed =>
    cases e with
    | boot =>
      obtain rfl := Option.some.inj hst
      exact boot_sound R crc h _ rfl rfl rfl rfl
    | set | bump | checksum | copy | finish | cut | tear => exact absurd hst (by simp)
  | on m =>
    have hm : m.Sound R crc := h
    cases e with
    | boot => exact absurd hst (by simp)
    | set id value =>
      obtain rfl := Option.some.inj hst
      exact hm.set R crc id value
    | cut =>
      obtain rfl := Option.some.inj hst
      exact hm.cut R crc
    | bump =>
      cases hp : m.phase with
      | bumped | copying => simp [hp] at hst
      | idle =>
        simp only [hp] at hst
        split at hst
        · obtain rfl := Option.some.inj hst
          exact hm.bump R crc hp
        · exact absurd hst (by simp)
    | checksum =>
      cases hp : m.phase with
      | idle | copying => simp [hp] at hst
      | bumped =>
        simp only [hp] at hst
        obtain rfl := Option.some.inj hst
        exact hm.checksum R crc hp
    | copy =>
      cases hp : m.phase with
      | idle | bumped => simp [hp] at hst
      | copying n =>
        simp only [hp] at hst
        split at hst
        · obtain rfl := Option.some.inj hst
          exact hm.copy R crc hp hG
        · exact absurd hst (by simp)
    | finish =>
      cases hp : m.phase with
      | idle | bumped => simp [hp] at hst
      | copying n =>
        simp only [hp] at hst
        split at hst
        · exact absurd hst (by simp)
        · rename_i hn
          obtain rfl := Option.some.inj hst
          exact hm.finish R crc hp (Nat.le_of_not_lt hn)
    | tear g =>
      cases hp : m.phase with
      | idle | bumped => simp [hp] at hst
      | copying n =>
        simp only [hp] at hst
        split at hst
        · exact absurd hst (by simp)
        · rename_i hg
          obtain rfl := Option.some.inj hst
          exact hm.tear R crc hp hg

/-! ## Over runs -/

/-- **The last valid record is kept** in every run that copies each value as the CRC saw it: once a
    work item has completed undisturbed, some slot passes at every moment, and a boot finds it. -/
theorem last_record_kept {d : Device}
    (h : Reach (Fresh R crc) (guarded (Matched R) (DeviceStep R crc)) d) (ha : d.armed = true) :
    (∃ k, k < 2 ∧ (d.slots k).Passes R crc) ∧
      (chooseSlot R crc fun k => some (d.slots k)).isSome = true := by
  have hsound : d.Sound R crc := by
    refine Reach.invariant (I := Device.Sound R crc) ?_ ?_ h
    · rintro d ⟨slots, rfl, hplace⟩
      exact ⟨hplace, fun ha => absurd ha (by simp)⟩
    · rintro d e d' - hd ⟨hG, hst⟩
      exact device_sound R crc hd hG hst
  have hpass : ∃ k, k < 2 ∧ (d.slots k).Passes R crc := by
    cases d with
    | on m => exact Machine.Sound.passes R crc hsound ha
    | off slots armed => exact hsound.2 ha
  refine ⟨hpass, ?_⟩
  obtain ⟨k, hk, hkpass⟩ := hpass
  cases hc : chooseSlot R crc fun k => some (d.slots k) with
  | none => exact absurd hkpass (chooseSlot_none R crc hc hk rfl)
  | some c => rfl

/-- A first power-up: erased flash. -/
def erasedDevice : Device := .off (fun _ => StoreRec.erased) false

theorem erasedDevice_fresh : Fresh settingsGen crc32Ieee erasedDevice :=
  ⟨_, rfl, fun _ _ hp => absurd hp (StoreRec.erased_fails settingsGen crc32Ieee)⟩

/-- A work item from its start to its end, with `between` after the CRC and before the copy. -/
def workItem (between : List Event) : List Event :=
  [.bump, .checksum] ++ between ++ List.replicate (fields settingsGen) .copy ++ [.finish]

/-- A work item that copies what the CRC saw may be cut anywhere: here in the last field, with a
    change that was taken back. -/
theorem last_record_kept_torn : ∃ d, Reach (Fresh settingsGen crc32Ieee)
      (guarded (Matched settingsGen) (DeviceStep settingsGen crc32Ieee)) d ∧ d.armed = true ∧
      ∃ k, k < 2 ∧ (d.slots k).Passes settingsGen crc32Ieee := by
  let events : List Event := [.boot, .set settingRobotId 5] ++ workItem [] ++
    [.set settingRobotId 7, .bump, .checksum, .set settingRobotId 8, .set settingRobotId 7] ++
    List.replicate 11 .copy ++ [.tear StoreRec.erased]
  have hrun : (events.foldlM (fun d e => if matched settingsGen d e then
      d.step settingsGen crc32Ieee e else none) erasedDevice).any (fun d => d.armed) = true := by
    decide +kernel
  obtain ⟨d, hd, ha⟩ := (Option.any_eq_true ..).mp hrun
  have hreach : Reach (Fresh settingsGen crc32Ieee)
      (guarded (Matched settingsGen) (DeviceStep settingsGen crc32Ieee)) d :=
    Reach.runGuarded (.start erasedDevice_fresh) hd
  exact ⟨d, hreach, ha, (last_record_kept settingsGen crc32Ieee hreach ha).1⟩

/-- **In general it is lost.**  Robot 5 is persisted undisturbed; robot 7 is persisted with a change to
    8 between CRC and copy, which leaves slot 0 failing the check; the work item that change
    scheduled goes to slot 1, and power is cut after its header. -/
theorem last_record_lost : ∃ d, Reach (Fresh settingsGen crc32Ieee)
      (DeviceStep settingsGen crc32Ieee) d ∧ d.armed = true ∧
      ∀ k, k < 2 → ¬ (d.slots k).Passes settingsGen crc32Ieee := by
  let events : List Event := [.boot, .set settingRobotId 5] ++ workItem [] ++
    [.set settingRobotId 7] ++ workItem [.set settingRobotId 8] ++ [.bump, .checksum, .copy, .cut]
  have hrun : (events.foldlM (Device.step settingsGen crc32Ieee) erasedDevice).any (fun d =>
      d.armed && decide (¬ (d.slots 0).Passes settingsGen crc32Ieee ∧
        ¬ (d.slots 1).Passes settingsGen crc32Ieee)) = true := by
    decide +kernel
  obtain ⟨d, hd, hlost⟩ := (Option.any_eq_true ..).mp hrun
  rw [Bool.and_eq_true, decide_eq_true_eq] at hlost
  obtain ⟨ha, h0, h1⟩ := hlost
  refine ⟨d, Reach.run (f := Device.step settingsGen crc32Ieee) (fun _ _ _ hst => hst)
    (.start erasedDevice_fresh) hd, ha, fun k hk => ?_⟩
  match k, hk with
  | 0, _ => exact h0
  | 1, _ => exact h1

end Caterpillar.Settings.Overlap
