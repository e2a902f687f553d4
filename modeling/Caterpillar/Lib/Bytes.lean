/-
  Words as bytes: the little-endian image of a field, and the CRC-32 over a byte string.

  The Cortex-M33 is little-endian, so the memory image of a structure is the concatenation of the
  little-endian images of its fields.  `sysGetLe16` and `sysGetLe32` read a field back.  `crc32Ieee`
  is the reflected CRC-32 of IEEE 802.3 (polynomial 0xEDB88320, preset and final complement
  0xFFFFFFFF), one bit at a time.
-/
import Mathlib.Tactic.Common

namespace Caterpillar.Bytes

/-- Little-endian bytes of a 16-bit field. -/
def le16 (x : UInt16) : List UInt8 := [x.toUInt8, (x >>> 8).toUInt8]

/-- Little-endian bytes of a 32-bit field. -/
def le32 (x : UInt32) : List UInt8 :=
  [x.toUInt8, (x >>> 8).toUInt8, (x >>> 16).toUInt8, (x >>> 24).toUInt8]

/-- `sys_get_le16`. -/
def sysGetLe16 (lo hi : UInt8) : UInt16 := lo.toUInt16 ||| hi.toUInt16 <<< 8

/-- `sys_get_le32`. -/
def sysGetLe32 (b0 b1 b2 b3 : UInt8) : UInt32 :=
  b0.toUInt32 ||| b1.toUInt32 <<< 8 ||| b2.toUInt32 <<< 16 ||| b3.toUInt32 <<< 24

/-- A word reads back from its bytes. -/
theorem sysGetLe16_le16 (x : UInt16) : sysGetLe16 x.toUInt8 (x >>> 8).toUInt8 = x := by
  apply UInt16.toBitVec_inj.mp
  ext i hi
  simp [sysGetLe16, -UInt16.toUInt16_toUInt8]
  grind

theorem sysGetLe32_le32 (x : UInt32) :
    sysGetLe32 x.toUInt8 (x >>> 8).toUInt8 (x >>> 16).toUInt8 (x >>> 24).toUInt8 = x := by
  apply UInt32.toBitVec_inj.mp
  ext i hi
  simp [sysGetLe32, -UInt32.toUInt32_toUInt8]
  grind

@[simp] theorem le16_length (x : UInt16) : (le16 x).length = 2 := rfl

@[simp] theorem le32_length (x : UInt32) : (le32 x).length = 4 := rfl

/-- One bit through the reflected CRC-32 register. -/
def crcBit (c : UInt32) : UInt32 := if c &&& 1 = 1 then (c >>> 1) ^^^ 0xEDB88320 else c >>> 1

/-- One byte through the register. -/
def crcByte (c : UInt32) (b : UInt8) : UInt32 :=
  crcBit (crcBit (crcBit (crcBit (crcBit (crcBit (crcBit (crcBit (c ^^^ b.toUInt32))))))))

/-- `crc32_ieee`. -/
def crc32Ieee (bs : List UInt8) : UInt32 := bs.foldl crcByte 0xFFFFFFFF ^^^ 0xFFFFFFFF

/-- The check value of the CRC catalogue, over the digits 1 to 9. -/
example : crc32Ieee [0x31, 0x32, 0x33, 0x34, 0x35, 0x36, 0x37, 0x38, 0x39] = 0xCBF43926 := by
  decide +kernel

end Caterpillar.Bytes
