/-
  What a CRC-32 says of bytes behind its own.

  The register is linear, so feeding it the complement of what it holds leaves a value that does not
  depend on what it held: a message followed by its checksum always leaves the residue 0xDEBB20E3.
  What the register holds after further known bytes is then known, too.  `crc_behind_erased` is the
  case of erased flash: a checksum read from erased flash behind a checksummed message is wrong.
-/
import Mathlib.Tactic.IntervalCases
import Caterpillar.Lib.Bytes

namespace Caterpillar.Bytes

/-! ## The register is linear -/

theorem and_one_cases (a : UInt32) : a &&& 1 = 0 ∨ a &&& 1 = 1 := by
  rcases Nat.mod_two_eq_zero_or_one a.toNat with h | h
  · left
    apply UInt32.toNat_inj.mp
    simpa [Nat.and_one_is_mod] using h
  · right
    apply UInt32.toNat_inj.mp
    simpa [Nat.and_one_is_mod] using h

theorem xor_and_right (a b c : UInt32) : (a ^^^ b) &&& c = (a &&& c) ^^^ (b &&& c) := by
  apply UInt32.toBitVec_inj.mp
  ext i hi
  simp
  grind

theorem crcBit_xor (a b : UInt32) : crcBit (a ^^^ b) = crcBit a ^^^ crcBit b := by
  unfold crcBit
  rw [xor_and_right, UInt32.shiftRight_xor]
  rcases and_one_cases a with ha | ha
  · rcases and_one_cases b with hb | hb
    · simp [ha, hb]
    · simp [ha, hb]
      ac_rfl
  · rcases and_one_cases b with hb | hb
    · simp [ha, hb]
      ac_rfl
    · -- both polynomials are taken off, and cancel
      simp only [ha, hb, if_true]
      rw [if_neg (by decide)]
      have hcancel : ∀ x y p : UInt32, (x ^^^ p) ^^^ (y ^^^ p) = x ^^^ y := by
        intro x y p
        rw [UInt32.xor_comm y p, ← UInt32.xor_assoc, UInt32.xor_assoc x p p, UInt32.xor_self,
          UInt32.xor_zero]
      exact (hcancel _ _ _).symm

/-- Eight bits through the register. -/
def crcShift (c : UInt32) : UInt32 :=
  crcBit (crcBit (crcBit (crcBit (crcBit (crcBit (crcBit (crcBit c)))))))

theorem crcByte_eq (c : UInt32) (b : UInt8) : crcByte c b = crcShift (c ^^^ b.toUInt32) := rfl

theorem crcShift_xor (a b : UInt32) : crcShift (a ^^^ b) = crcShift a ^^^ crcShift b := by
  simp only [crcShift, crcBit_xor]

/-- An even register is halved. -/
theorem crcBit_double {m : Nat} (h : m < 2147483648) :
    crcBit (UInt32.ofNat (2 * m)) = UInt32.ofNat m := by
  have hval : (UInt32.ofNat (2 * m)).toNat = 2 * m :=
    UInt32.toNat_ofNat_of_lt' (by simp only [UInt32.size]; omega)
  have heven : UInt32.ofNat (2 * m) &&& 1 = 0 := by
    apply UInt32.toNat_inj.mp
    rw [UInt32.toNat_and, hval]
    simp [Nat.and_one_is_mod]
  rw [crcBit, if_neg (by rw [heven]; decide)]
  apply UInt32.toNat_inj.mp
  rw [UInt32.toNat_shiftRight, hval,
    UInt32.toNat_ofNat_of_lt' (by simp only [UInt32.size]; omega)]
  simp [Nat.shiftRight_succ]

/-- With a zero byte at the bottom the register is shifted by a byte. -/
theorem crcShift_high (x : UInt32) : crcShift ((x >>> 8) <<< 8) = x >>> 8 := by
  have hlt : (x >>> 8).toNat < 16777216 := by
    have hx := x.toNat_lt
    rw [UInt32.toNat_shiftRight]
    simp [Nat.shiftRight_eq_div_pow]
    omega
  obtain ⟨n, hn⟩ : ∃ n, (x >>> 8).toNat = n := ⟨_, rfl⟩
  rw [hn] at hlt
  have hlow : x >>> 8 = UInt32.ofNat n := by rw [← hn, UInt32.ofNat_toNat]
  have hhigh : (x >>> 8) <<< 8 = UInt32.ofNat (2 * (128 * n)) := by
    apply UInt32.toNat_inj.mp
    rw [UInt32.toNat_shiftLeft, hn,
      UInt32.toNat_ofNat_of_lt' (by simp only [UInt32.size]; omega)]
    simp [Nat.shiftLeft_eq]
    omega
  have hhalf : ∀ k, 2 * k < 4294967296 → crcBit (UInt32.ofNat (2 * k)) = UInt32.ofNat k :=
    fun k hk => crcBit_double (by omega)
  unfold crcShift
  rw [hhigh, hlow, hhalf _ (by omega), show 128 * n = 2 * (64 * n) by omega, hhalf _ (by omega),
    show 64 * n = 2 * (32 * n) by omega, hhalf _ (by omega), show 32 * n = 2 * (16 * n) by omega,
    hhalf _ (by omega), show 16 * n = 2 * (8 * n) by omega, hhalf _ (by omega),
    show 8 * n = 2 * (4 * n) by omega, hhalf _ (by omega), show 4 * n = 2 * (2 * n) by omega,
    hhalf _ (by omega), hhalf _ (by omega)]

/-! ## The residue -/

/-- Feeding the complement of its lowest byte shifts the register, whatever it holds. -/
theorem crcByte_feed (x c : UInt32) :
    crcByte (x ^^^ c) (~~~x).toUInt8 = (x >>> 8) ^^^ crcShift (c ^^^ 0xFF) := by
  have hbool : ∀ a b : Bool, (a != (b != a)) = b := by decide
  have hsplit : (x ^^^ c) ^^^ (~~~x).toUInt8.toUInt32 = ((x >>> 8) <<< 8) ^^^ (c ^^^ 0xFF) := by
    apply UInt32.toBitVec_inj.mp
    ext i hi
    simp only [UInt32.toBitVec_xor, UInt8.toBitVec_toUInt32, UInt32.toBitVec_toUInt8,
      UInt32.toBitVec_not, BitVec.getElem_xor, BitVec.getElem_setWidth, UInt32.toBitVec_shiftLeft,
      UInt32.toBitVec_shiftRight, UInt32.toBitVec_ofNat, BitVec.getLsbD_setWidth,
      BitVec.getLsbD_not]
    interval_cases i <;> simp [hbool]
  rw [crcByte_eq, hsplit, crcShift_xor, crcShift_high]

/-- A complemented register, byte by byte, is the complement of the register shifted along. -/
theorem not_shift_toUInt8 (x : UInt32) :
    ((~~~x) >>> 8).toUInt8 = (~~~(x >>> 8)).toUInt8 ∧
      ((~~~x) >>> 16).toUInt8 = (~~~(x >>> 8 >>> 8)).toUInt8 ∧
      ((~~~x) >>> 24).toUInt8 = (~~~(x >>> 8 >>> 8 >>> 8)).toUInt8 := by
  refine ⟨?_, ?_, ?_⟩
  all_goals
    apply UInt8.toBitVec_inj.mp
    ext i hi
    simp
    interval_cases i <;> simp

/-- The register after its own complement. -/
theorem foldl_complement (x : UInt32) : (le32 (~~~x)).foldl crcByte x = 0xDEBB20E3 := by
  obtain ⟨h1, h2, h3⟩ := not_shift_toUInt8 x
  have hgone : x >>> 8 >>> 8 >>> 8 >>> 8 = 0 := by
    apply UInt32.toBitVec_inj.mp
    ext i hi
    simp
  have hstart : crcByte x (~~~x).toUInt8 = (x >>> 8) ^^^ crcShift (0 ^^^ 0xFF) := by
    rw [← crcByte_feed, UInt32.xor_zero]
  unfold le32
  rw [h1, h2, h3]
  simp only [List.foldl_cons, List.foldl_nil]
  rw [hstart, crcByte_feed, crcByte_feed, crcByte_feed, hgone]
  decide +kernel

/-- **The residue.** -/
theorem foldl_checksummed (m : List UInt8) :
    (m ++ le32 (crc32Ieee m)).foldl crcByte 0xFFFFFFFF = 0xDEBB20E3 := by
  have hnot : crc32Ieee m = ~~~(m.foldl crcByte 0xFFFFFFFF) := by
    unfold crc32Ieee
    apply UInt32.toBitVec_inj.mp
    ext i hi
    simp
    interval_cases i <;> simp
  rw [List.foldl_append, hnot, foldl_complement]

/-- **A checksum read from erased flash behind a checksummed message is wrong.** -/
theorem crc_behind_erased (m : List UInt8) {k : Nat} (h : k < 64) :
    crc32Ieee (m ++ le32 (crc32Ieee m) ++ List.replicate (4 * k) 0xFF) ≠ 0xFFFFFFFF := by
  have hnever : ∀ k < 64, (List.replicate (4 * k) 0xFF).foldl crcByte 0xDEBB20E3 ^^^ 0xFFFFFFFF ≠
      0xFFFFFFFF := by
    decide +kernel
  rw [crc32Ieee, List.foldl_append, foldl_checksummed]
  exact hnever k h

end Caterpillar.Bytes
