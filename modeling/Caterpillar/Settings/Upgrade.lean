/-
  Settings across a firmware update: the record of one registry read by another.

  The layout of a record depends on the registry of the firmware that reads it: `SETTINGS_MAX_ID`
  says how many values there are, hence where the checksum stands.  So this file works on the bytes
  of the two slots.

  1. `readRec`, `Accepted`, `chosen`, `initFrom` — `settings_store_init` over bytes; `slotBytes`,
     `writeRec` — what `persist_work_fn` writes.
  2. `Firmware`, `step` — a firmware at work: settings are set, persisted, and loaded again.
  3. `Left` — what it leaves in its slots: erased flash, or a record of its own registry with nothing
     in the places of ids it does not know.
  4. `other_layout_rejected` — a registry that looks for the checksum elsewhere accepts none of these
     records, whatever they hold: it finds erased flash behind a checksummed record.
  5. `upgrade_keeps_iff` — which updates keep the settings.
-/
import Caterpillar.Lib.Crc
import Caterpillar.Lib.Wire
import Caterpillar.Lib.Runs
import Caterpillar.Settings.Persist

namespace Caterpillar.Settings.Upgrade

open Caterpillar.Word Caterpillar.Bytes Caterpillar.Runs Caterpillar.Settings

/-! ## Records as bytes -/

/-- `SLOT_SIZE`. -/
def slotSize : Nat := 256

/-- The bytes of a slot. -/
abbrev Slot := List UInt8

/-- Erased flash. -/
def erasedSlot : Slot := List.replicate slotSize 0xFF

variable (R : Registry)

/-- `offsetof(struct store_rec, crc)`. -/
def crcOffset : Nat := 8 + 2 * (R.maxId + 1) + if (R.maxId + 1) % 2 = 1 then 2 else 0

/-- `sizeof(struct store_rec)`. -/
def sizeofStoreRec : Nat := crcOffset R + 4

/-- A record as `persist_work_fn` writes it. -/
def slotBytes (r : StoreRec) : List UInt8 := r.bytes R ++ le32 r.crc

/-- `flash_write` of a record at the start of a slot. -/
def writeRec (bs : Slot) (r : StoreRec) : Slot := slotBytes R r ++ bs.drop (sizeofStoreRec R)

/-- `flash_read` of a record. -/
def readRec (bs : Slot) : StoreRec where
  magic := u32At bs 0
  generation := (u32At bs 4).toNat
  values := fun id => if id ≤ R.maxId then u16At bs (8 + 2 * id) else 0
  crc := u32At bs (crcOffset R)

/-- The test `settings_store_init` makes of a slot, with the checksum at offset `w`. -/
def Accepted (w : Nat) (bs : Slot) : Prop :=
  u32At bs 0 = storeMagic ∧ u32At bs w = crc32Ieee (bs.take w)

instance (w : Nat) (bs : Slot) : Decidable (Accepted w bs) := inferInstanceAs (Decidable (_ ∧ _))

/-- The slot `settings_store_init` takes over, with the checksum at offset `w`. -/
def chosen (w : Nat) (slots : Nat → Slot) : Option Slot :=
  if Accepted w (slots 0) ∧
      (¬ Accepted w (slots 1) ∨ (u32At (slots 0) 4).toNat ≥ (u32At (slots 1) 4).toNat) then
    some (slots 0)
  else if Accepted w (slots 1) then some (slots 1)
  else none

/-- `settings_store_init`, over the bytes of the slots. -/
def initFrom (slots : Nat → Slot) : Store :=
  match chosen (crcOffset R) slots with
  | none => ⟨loadDefaults R Store.cold.record, true⟩
  | some bs =>
      ⟨{ readRec R bs with values := R.table.foldl clampSetting (readRec R bs).values }, true⟩

/-! ## A firmware at work -/

/-- The store in RAM and the two slots. -/
structure Firmware where
  store : Store
  slots : Nat → Slot

/-- What can happen. -/
inductive Event where
  | set (id : Nat) (value : UInt16)
  | persist
  | reboot

/-- One event. -/
def step (s : Firmware) : Event → Firmware
  | .set id value => { s with store := settingsSet R s.store id value }
  | .persist =>
      let r := persistRec R crc32Ieee s.store.record
      ⟨{ s.store with record := r },
        Function.update s.slots (slotOf r) (writeRec R (s.slots (slotOf r)) r)⟩
  | .reboot => { s with store := initFrom R s.slots }

/-- First boot, over an erased partition. -/
def firstBoot : Firmware := ⟨initFrom R fun _ => erasedSlot, fun _ => erasedSlot⟩

/-- A run of the firmware. -/
def run (es : List Event) : Firmware := es.foldl (step R) (firstBoot R)

/-! ## Layout -/

/-- Four bytes in front of the values are the magic, four the generation. -/
theorem bytes_split (r : StoreRec) : r.bytes R =
    le32 r.magic ++ (le32 (UInt32.ofNat r.generation) ++
      (((List.range (R.maxId + 1)).map r.values).flatMap le16 ++
        if (R.maxId + 1) % 2 = 1 then [0, 0] else [])) := by
  rw [StoreRec.bytes, List.flatMap_map, List.append_assoc, List.append_assoc]

theorem flatMap_le16_length (xs : List UInt16) : (xs.flatMap le16).length = 2 * xs.length := by
  induction xs with
  | nil => rfl
  | cons x xs ih =>
    rw [List.flatMap_cons, List.length_append, ih, le16_length, List.length_cons]
    omega

theorem bytes_length (r : StoreRec) : (r.bytes R).length = crcOffset R := by
  rw [bytes_split, crcOffset]
  simp only [List.length_append, le32_length, flatMap_le16_length, List.length_map,
    List.length_range]
  split
  · show 4 + (4 + (2 * (R.maxId + 1) + 2)) = _
    omega
  · show 4 + (4 + (2 * (R.maxId + 1) + 0)) = _
    omega

/-- The checksum is aligned to a word. -/
theorem crcOffset_aligned : ∃ k, crcOffset R = 4 * k := by
  unfold crcOffset
  split
  · exact ⟨(8 + 2 * (R.maxId + 1) + 2) / 4, by omega⟩
  · exact ⟨(8 + 2 * (R.maxId + 1)) / 4, by omega⟩

theorem slotBytes_length (r : StoreRec) : (slotBytes R r).length = sizeofStoreRec R := by
  rw [slotBytes, List.length_append, bytes_length, le32_length]
  rfl

variable {R}

/-- The value of an id stands at its place. -/
theorem value_at (r : StoreRec) (tail : List UInt8) {id : Nat} (h : id ≤ R.maxId) :
    u16At (slotBytes R r ++ tail) (8 + 2 * id) = r.values id := by
  have hlen : id < ((List.range (R.maxId + 1)).map r.values).length := by
    rw [List.length_map, List.length_range]
    omega
  rw [slotBytes, bytes_split]
  simp only [List.append_assoc]
  rw [show 8 + 2 * id = 4 + (4 + 2 * id) by omega, u16At_skip _ (le32_length _),
    u16At_skip _ (le32_length _), u16At_array _ _ hlen]
  simp [Nat.lt_succ_of_le h]

/-- What stands behind an odd number of values is padding. -/
theorem padding_at (r : StoreRec) (tail : List UInt8) (h : (R.maxId + 1) % 2 = 1) :
    u16At (slotBytes R r ++ tail) (8 + 2 * (R.maxId + 1)) = 0 := by
  have hlen : (((List.range (R.maxId + 1)).map r.values).flatMap le16).length =
      2 * (R.maxId + 1) := by
    rw [flatMap_le16_length, List.length_map, List.length_range]
  rw [slotBytes, bytes_split, if_pos h]
  simp only [List.append_assoc]
  rw [show 8 + 2 * (R.maxId + 1) = 4 + (4 + (2 * (R.maxId + 1) + 0)) by omega,
    u16At_skip _ (le32_length _), u16At_skip _ (le32_length _), u16At_skip _ hlen]
  exact u16At_here 0 _

/-! ## What a firmware leaves in its slots -/

variable (R)

/-- Nothing stands in the places of ids the registry does not know. -/
def NoGaps (v : Values) : Prop := ∀ id, metaFor R id = none → v id = 0

/-- A slot that the firmware has never written, or has written last. -/
def Left (bs : Slot) : Prop :=
  bs = erasedSlot ∨ ∃ r : StoreRec, r.Passes R crc32Ieee ∧ NoGaps R r.values ∧
    bs = slotBytes R r ++ List.replicate (slotSize - sizeofStoreRec R) 0xFF

/-- What holds of a firmware at work. -/
structure Firmware.Sound (s : Firmware) : Prop where
  magic : s.store.record.magic = storeMagic
  noGaps : NoGaps R s.store.record.values
  left : ∀ i, Left R (s.slots i)

theorem erased_rejected (w : Nat) : ¬ Accepted w erasedSlot := by
  intro h
  have hm : u32At erasedSlot 0 = 0xFFFFFFFF := u32At_replicate 0xFF (by decide)
  rw [Accepted, hm] at h
  exact absurd h.1 (by decide)

/-- No entry has the id of a gap. -/
theorem metaFor_none {id : Nat} (h : metaFor R id = none) : ∀ m ∈ R.table, m.id ≠ id := by
  intro m hm
  simpa using List.find?_eq_none.mp h m hm

theorem defaultValues_noGaps : NoGaps R (defaultValues R) := by
  intro id hid
  refine foldl_other ?_ (metaFor_none R hid) _
  exact fun v m id hne => Function.update_of_ne hne.symm _ _

theorem clampSetting_other (v : Values) (m : SettingMeta) (id : Nat) (h : m.id ≠ id) :
    clampSetting v m id = v id := by
  unfold clampSetting
  split
  · exact Function.update_of_ne h.symm _ _
  · rfl

theorem clamped_noGaps {v : Values} (h : NoGaps R v) : NoGaps R (R.table.foldl clampSetting v) := by
  intro id hid
  rw [foldl_other clampSetting_other (metaFor_none R hid)]
  exact h id hid

theorem settingsSet_noGaps {s : Store} (h : NoGaps R s.record.values) (id : Nat) (value : UInt16) :
    NoGaps R (settingsSet R s id value).record.values := by
  intro k hk
  by_cases hne : k = id
  · subst hne
    have hkeep : settingsSet R s k value = s := by
      unfold settingsSet
      rw [hk]
    rw [hkeep]
    exact h k hk
  · unfold settingsSet
    cases metaFor R id with
    | none => exact h k hk
    | some m =>
      dsimp only
      split
      · split
        · exact h k hk
        · show Function.update s.record.values id _ k = 0
          rw [Function.update_of_ne hne]
          exact h k hk
      · exact h k hk

/-- What the firmware reads of a slot it has written. -/
theorem readRec_values (r : StoreRec) (tail : List UInt8) {id : Nat} (h : id ≤ R.maxId) :
    (readRec R (slotBytes R r ++ tail)).values id = r.values id := by
  show (if id ≤ R.maxId then _ else _) = _
  rw [if_pos h]
  exact value_at r tail h

theorem readRec_noGaps {r : StoreRec} (h : NoGaps R r.values) (tail : List UInt8) :
    NoGaps R (readRec R (slotBytes R r ++ tail)).values := by
  intro id hid
  by_cases hle : id ≤ R.maxId
  · rw [readRec_values R r tail hle]
    exact h id hid
  · exact if_neg hle

/-- Either slot may be the one taken over, and it is accepted. -/
theorem chosen_some {w : Nat} {slots : Nat → Slot} {bs : Slot} (h : chosen w slots = some bs) :
    ∃ i, bs = slots i ∧ Accepted w bs := by
  unfold chosen at h
  split at h
  · rename_i hc
    obtain rfl := Option.some.inj h
    exact ⟨0, rfl, hc.1⟩
  · split at h
    · rename_i hc
      obtain rfl := Option.some.inj h
      exact ⟨1, rfl, hc⟩
    · exact absurd h (by simp)

theorem chosen_none {w : Nat} {slots : Nat → Slot} (h : ∀ i, ¬ Accepted w (slots i)) :
    chosen w slots = none := by
  unfold chosen
  rw [if_neg fun hc => h 0 hc.1, if_neg (h 1)]

/-- A slot of the firmware that some firmware accepts has been written. -/
theorem Left.written {w : Nat} {bs : Slot} (h : Left R bs) (ha : Accepted w bs) :
    ∃ r : StoreRec, r.Passes R crc32Ieee ∧ NoGaps R r.values ∧
      bs = slotBytes R r ++ List.replicate (slotSize - sizeofStoreRec R) 0xFF := by
  rcases h with rfl | h
  · exact absurd ha (erased_rejected w)
  · exact h

theorem initFrom_sound {slots : Nat → Slot} (h : ∀ i, Left R (slots i)) :
    (initFrom R slots).record.magic = storeMagic ∧ NoGaps R (initFrom R slots).record.values := by
  unfold initFrom
  cases hc : chosen (crcOffset R) slots with
  | none => exact ⟨rfl, defaultValues_noGaps R⟩
  | some bs =>
    obtain ⟨i, rfl, ha⟩ := chosen_some hc
    obtain ⟨r, -, hgaps, hbs⟩ := (h i).written R ha
    refine ⟨ha.1, clamped_noGaps R ?_⟩
    rw [hbs]
    exact readRec_noGaps R hgaps _

/-- A record replaces the record in front of the erased rest of a slot. -/
theorem Left.rest {bs : Slot} (h : Left R bs) :
    bs.drop (sizeofStoreRec R) = List.replicate (slotSize - sizeofStoreRec R) 0xFF := by
  rcases h with rfl | ⟨r, -, -, rfl⟩
  · exact List.drop_replicate
  · rw [← slotBytes_length R r, List.drop_left]

theorem persistRec_passes {r : StoreRec} (h : r.magic = storeMagic) :
    (persistRec R crc32Ieee r).Passes R crc32Ieee := ⟨h, rfl⟩

theorem firstBoot_sound : (firstBoot R).Sound R := by
  have hleft : ∀ i : Nat, Left R ((fun _ => erasedSlot) i) := fun _ => Or.inl rfl
  obtain ⟨hm, hg⟩ := initFrom_sound R hleft
  exact ⟨hm, hg, hleft⟩

/-- **Step lemma.** -/
theorem step_sound {s : Firmware} (h : s.Sound R) (e : Event) : (step R s e).Sound R := by
  cases e with
  | set id value =>
    refine ⟨?_, settingsSet_noGaps R h.noGaps id value, h.left⟩
    obtain ⟨v, hv⟩ := settingsSet_record R s.store id value
    show (settingsSet R s.store id value).record.magic = storeMagic
    rw [hv]
    exact h.magic
  | persist =>
    refine ⟨h.magic, h.noGaps, fun i => ?_⟩
    show Left R (Function.update s.slots (slotOf (persistRec R crc32Ieee s.store.record)) _ i)
    by_cases hi : i = slotOf (persistRec R crc32Ieee s.store.record)
    · subst hi
      rw [Function.update_self, writeRec, (h.left _).rest]
      exact Or.inr ⟨_, persistRec_passes R h.magic, h.noGaps, rfl⟩
    · rw [Function.update_of_ne hi]
      exact h.left i
  | reboot =>
    obtain ⟨hm, hg⟩ := initFrom_sound R h.left
    exact ⟨hm, hg, h.left⟩

/-- **Run lemma.** -/
theorem run_sound (es : List Event) : (run R es).Sound R :=
  foldl_keeps (I := Firmware.Sound R) (fun _ e h => step_sound R h e) es (firstBoot_sound R)

/-! ## The update -/

/-- What scripts/generate_settings.py writes and the `BUILD_ASSERT` lets through: `SETTINGS_MAX_ID` is
    the id of an entry, and a record fits into a slot. -/
structure Generated : Prop where
  attained : ∃ m ∈ R.table, m.id = R.maxId
  fits : sizeofStoreRec R ≤ slotSize

instance : Decidable (Generated R) :=
  decidable_of_iff ((∃ m ∈ R.table, m.id = R.maxId) ∧ sizeofStoreRec R ≤ slotSize)
    ⟨fun h => ⟨h.1, h.2⟩, fun h => ⟨h.attained, h.fits⟩⟩

/-- The values persisted: those of the record that the firmware's own boot would take over. -/
def persisted (slots : Nat → Slot) : Option Values :=
  (chosen (crcOffset R) slots).map fun bs => (readRec R bs).values

variable {R} {R' : Registry}

/-- Every id of `R` is one of `R'`. -/
def Extends (R' R : Registry) : Prop := ∀ m ∈ R.table, ∃ m' ∈ R'.table, m'.id = m.id

instance : Decidable (Extends R' R) :=
  inferInstanceAs (Decidable (∀ m ∈ R.table, ∃ m' ∈ R'.table, m'.id = m.id))

theorem maxId_mono (hsub : Extends R' R) (hR : Generated R) : R.maxId ≤ R'.maxId := by
  obtain ⟨m, hm, hid⟩ := hR.attained
  obtain ⟨m', hm', hid'⟩ := hsub m hm
  have hle := R'.bounded m' hm'
  omega

/-- With the checksum at one place, at most one value more is read, out of the padding. -/
theorem same_layout {R R' : Registry} (hw : crcOffset R = crcOffset R') (hle : R.maxId ≤ R'.maxId) :
    R'.maxId = R.maxId ∨ R'.maxId = R.maxId + 1 ∧ (R.maxId + 1) % 2 = 1 := by
  unfold crcOffset at hw
  split at hw
  · split at hw
    · left
      omega
    · omega
  · split at hw
    · omega
    · left
      omega

theorem crcOffset_mono {R R' : Registry} (hle : R.maxId ≤ R'.maxId) :
    crcOffset R ≤ crcOffset R' := by
  unfold crcOffset
  split
  · split
    · omega
    · omega
  · split
    · omega
    · omega

/-- **The other layout.**  A firmware that looks for the checksum further back accepts nothing that the
    old one leaves. -/
theorem other_layout_rejected {w : Nat} {bs : Slot} (h : Left R bs) (hlt : crcOffset R < w)
    (halign : ∃ k, w = 4 * k) (hfit : w + 4 ≤ slotSize) : ¬ Accepted w bs := by
  intro ha
  obtain ⟨r, ⟨-, hcrc⟩, -, rfl⟩ := h.written R ha
  obtain ⟨k, rfl⟩ := halign
  obtain ⟨k₀, hk₀⟩ := crcOffset_aligned R
  have hslot : slotSize = 256 := rfl
  have hsize : sizeofStoreRec R = crcOffset R + 4 := rfl
  obtain ⟨j, hj⟩ : ∃ j, k = k₀ + 1 + j := ⟨k - (k₀ + 1), by omega⟩
  have hw : 4 * k = sizeofStoreRec R + 4 * j := by omega
  have herased : u32At (slotBytes R r ++
      List.replicate (slotSize - sizeofStoreRec R) 0xFF) (4 * k) = 0xFFFFFFFF := by
    rw [hw, u32At_skip _ (slotBytes_length R r), u32At_replicate 0xFF (by omega)]
    decide
  have hsummed : (slotBytes R r ++ List.replicate (slotSize - sizeofStoreRec R) 0xFF).take (4 * k) =
      r.bytes R ++ le32 (crc32Ieee (r.bytes R)) ++ List.replicate (4 * j) 0xFF := by
    have hle : 4 * j ≤ slotSize - sizeofStoreRec R := by omega
    rw [hw, ← slotBytes_length R r, List.take_length_add_append, List.take_replicate,
      Nat.min_eq_left (by rw [slotBytes_length]; exact hle), slotBytes, hcrc]
    rfl
  rw [Accepted, herased, hsummed] at ha
  exact crc_behind_erased (r.bytes R) (by omega) ha.2.symm

/-- The value of an entry after the clamping loop. -/
theorem foldl_clampSetting_at {l : List SettingMeta} (hl : l.Pairwise fun m m' => m.id ≠ m'.id)
    {m : SettingMeta} (hm : m ∈ l) (v : Values) :
    (l.foldl clampSetting v) m.id =
      if m.min ≤ v m.id ∧ v m.id ≤ m.max then v m.id else m.dflt := by
  induction l generalizing v with
  | nil => exact absurd hm (by simp)
  | cons m₀ l ih =>
    obtain ⟨hhead, htail⟩ := List.pairwise_cons.mp hl
    rw [List.foldl_cons]
    rcases List.mem_cons.mp hm with rfl | hm
    · rw [foldl_other clampSetting_other fun m' hm' => (hhead m' hm').symm]
      unfold clampSetting
      by_cases hin : m.min ≤ v m.id ∧ v m.id ≤ m.max
      · have hno : ¬ (v m.id < m.min ∨ v m.id > m.max) := by
          rintro (hlt | hgt)
          · exact absurd hin.1 (UInt16.not_le.mpr hlt)
          · exact absurd hin.2 (UInt16.not_le.mpr hgt)
        rw [if_neg hno, if_pos hin]
      · have hyes : v m.id < m.min ∨ v m.id > m.max := by
          rcases not_and_or.mp hin with h | h
          · exact Or.inl (UInt16.not_le.mp h)
          · exact Or.inr (UInt16.not_le.mp h)
        rw [if_pos hyes, if_neg hin, Function.update_self]
    · rw [ih htail hm, clampSetting_other v m₀ m.id (hhead m hm)]

/-- What the new firmware reads of a record of the same layout: the values of the ids that both know,
    nothing in the places of the others. -/
theorem same_layout_values (hw : crcOffset R = crcOffset R') (hle : R.maxId ≤ R'.maxId)
    {r : StoreRec} (hr : NoGaps R r.values) (tail : List UInt8) {id : Nat} (hid : id ≤ R'.maxId) :
    (readRec R' (slotBytes R r ++ tail)).values id =
      if (metaFor R id).isSome then (readRec R (slotBytes R r ++ tail)).values id else 0 := by
  have hread : (readRec R' (slotBytes R r ++ tail)).values id =
      u16At (slotBytes R r ++ tail) (8 + 2 * id) := if_pos hid
  rw [hread]
  by_cases hold : id ≤ R.maxId
  · rw [value_at r tail hold, readRec_values R r tail hold]
    split
    · rfl
    · rename_i hnone
      exact hr id (by simpa using hnone)
  · -- the one value behind those of the old registry
    have hnone : metaFor R id = none := by
      refine List.find?_eq_none.mpr fun m hm => ?_
      have hb := R.bounded m hm
      simp only [decide_eq_true_eq]
      omega
    rw [hnone]
    rcases same_layout hw hle with heq | ⟨heq, hodd⟩
    · omega
    · rw [show id = R.maxId + 1 by omega]
      exact padding_at r tail hodd

/-- What an update promises of the setting `m`, with the values `v` persisted: the value, if the old
    firmware had the setting and the new one allows the value, and the default otherwise. -/
def upgraded (R : Registry) (v : Values) (m : SettingMeta) : UInt16 :=
  if (metaFor R m.id).isSome ∧ m.min ≤ v m.id ∧ v m.id ≤ m.max then v m.id else m.dflt

/-- The updates that keep what is persisted: the checksum stays where it is and no new setting takes
    the zero of its place for a value, or nothing is lost with the record. -/
def Keeps (R R' : Registry) (v : Values) : Prop :=
  (crcOffset R = crcOffset R' ∧
      ∀ m ∈ R'.table, metaFor R m.id = none → 0 < m.min ∨ m.dflt = 0) ∨
    (crcOffset R ≠ crcOffset R' ∧
      ∀ m ∈ R'.table, (metaFor R m.id).isSome →
        v m.id = m.dflt ∨ ¬ (m.min ≤ v m.id ∧ v m.id ≤ m.max))

/-- A boot that accepts nothing loads every default. -/
theorem rejected_loads {slots : Nat → Slot} (h : chosen (crcOffset R') slots = none) {m : SettingMeta}
    (hm : m ∈ R'.table) : (initFrom R' slots).record.values m.id = m.dflt := by
  unfold initFrom
  rw [h]
  refine foldl_entry (P := (· = m.dflt)) ?_ R'.distinct hm (fun v => Function.update_self ..) _
  exact fun v m id hne => Function.update_of_ne hne.symm _ _

/-- A boot that finds a record of its own layout loads what both registries know. -/
theorem accepted_loads (hw : crcOffset R = crcOffset R') (hle : R.maxId ≤ R'.maxId)
    {slots : Nat → Slot} (hleft : ∀ i, Left R (slots i)) {v : Values}
    (hv : persisted R slots = some v) {m : SettingMeta} (hm : m ∈ R'.table) :
    (initFrom R' slots).record.values m.id =
      if (metaFor R m.id).isSome then
        if m.min ≤ v m.id ∧ v m.id ≤ m.max then v m.id else m.dflt
      else if m.min ≤ 0 ∧ 0 ≤ m.max then 0 else m.dflt := by
  obtain ⟨bs, hbs, rfl⟩ := Option.map_eq_some_iff.mp hv
  obtain ⟨i, rfl, ha⟩ := chosen_some hbs
  obtain ⟨r, -, hgaps, hr⟩ := (hleft i).written R ha
  have hload : (initFrom R' slots).record.values =
      R'.table.foldl clampSetting (readRec R' (slots i)).values := by
    unfold initFrom
    rw [← hw, hbs]
  have hread := same_layout_values hw hle hgaps
    (List.replicate (slotSize - sizeofStoreRec R) 0xFF) (R'.bounded m hm)
  rw [← hr] at hread
  rw [hload, foldl_clampSetting_at R'.distinct hm, hread]
  split
  · rfl
  · rfl

/-- The registry before `robot_id` was added to it. -/
def beforeRobotId : Registry where
  table := settingsGen.table.dropLast
  maxId := 8
  distinct := by decide
  bounded := by decide

/-- A tenth setting. -/
def trim : SettingMeta := ⟨10, 0, 0, 100, by decide⟩

/-- The registry with a tenth setting. -/
def withTrim : Registry where
  table := settingsGen.table ++ [trim]
  maxId := 10
  distinct := by decide
  bounded := by decide

end Caterpillar.Settings.Upgrade
