/-
  The raw sample record `struct imu_sample` (common/imu_shared.h), 16 bytes.

  The same record travels through every stage of the firmware: the coprocessor writes it field by
  field into the shared ring, the pump copies it field by field out again, the log stages it and
  stores its 16 bytes in flash.  Accordingly there are two readings of a record here:

  * as eight 16-bit FIELDS, copied one at a time (`copyField`, `copyUpto`) — what an interleaving
    of the two cores sees; and
  * as sixteen little-endian BYTES (`bytes`, `recordBytes`) — what the flash and a dump see.
-/
import Caterpillar.Lib.Bytes

namespace Caterpillar.Imu

open Caterpillar.Bytes

/-- `struct asm330lhh_raw`: a reading of the sensor. -/
structure Asm330lhhRaw where
  ax : Int16
  ay : Int16
  az : Int16
  gx : Int16
  gy : Int16
  gz : Int16
  tempRaw : Int16
  deriving DecidableEq

/-- `struct imu_sample`: raw sensor LSB, and the low 16 bits of the sampled count. -/
structure ImuSample where
  ax : Int16
  ay : Int16
  az : Int16
  gx : Int16
  gy : Int16
  gz : Int16
  tempRaw : Int16
  seq16 : UInt16
  deriving DecidableEq, Repr, Inhabited

/-- `REC_SIZE`: `sizeof(struct imu_sample)`. -/
def recSize : Nat := 16

/-! ## A record as eight fields -/

/-- Number of fields of a record. -/
def fieldCount : Nat := 8

/-- One assignment `dst->field = src->field` of the field-by-field copies, in source order. -/
def copyField (j : Nat) (src dst : ImuSample) : ImuSample :=
  match j with
  | 0 => { dst with ax := src.ax }
  | 1 => { dst with ay := src.ay }
  | 2 => { dst with az := src.az }
  | 3 => { dst with gx := src.gx }
  | 4 => { dst with gy := src.gy }
  | 5 => { dst with gz := src.gz }
  | 6 => { dst with tempRaw := src.tempRaw }
  | 7 => { dst with seq16 := src.seq16 }
  | _ => dst

/-- The first `n` assignments of the copy. -/
def copyUpto : Nat → ImuSample → ImuSample → ImuSample
  | 0, _, dst => dst
  | n + 1, src, dst => copyField n src (copyUpto n src dst)

@[simp] theorem copyUpto_zero (src dst : ImuSample) : copyUpto 0 src dst = dst := rfl

/-- A completed copy owes nothing to what was there before. -/
@[simp] theorem copyUpto_all (src dst : ImuSample) : copyUpto fieldCount src dst = src := by
  simp only [fieldCount, copyUpto, copyField]

/-! ## A record as sixteen bytes -/

/-- Memory image of a record. -/
def ImuSample.bytes (s : ImuSample) : List UInt8 :=
  le16 s.ax.toUInt16 ++ le16 s.ay.toUInt16 ++ le16 s.az.toUInt16 ++
  le16 s.gx.toUInt16 ++ le16 s.gy.toUInt16 ++ le16 s.gz.toUInt16 ++
  le16 s.tempRaw.toUInt16 ++ le16 s.seq16

@[simp] theorem ImuSample.bytes_length (s : ImuSample) : s.bytes.length = 16 := rfl

/-- Concatenated memory images of a run of records. -/
def recordBytes (l : List ImuSample) : List UInt8 := l.flatMap ImuSample.bytes

@[simp] theorem recordBytes_nil : recordBytes [] = [] := rfl

theorem recordBytes_cons (s : ImuSample) (l : List ImuSample) :
    recordBytes (s :: l) = s.bytes ++ recordBytes l := rfl

@[simp] theorem recordBytes_append (l m : List ImuSample) :
    recordBytes (l ++ m) = recordBytes l ++ recordBytes m := List.flatMap_append

@[simp] theorem recordBytes_length (l : List ImuSample) : (recordBytes l).length = 16 * l.length := by
  induction l with
  | nil => rfl
  | cons s l ih =>
    simp only [recordBytes, List.flatMap_cons, List.length_append, List.length_cons,
      ImuSample.bytes_length] at ih ⊢
    omega

/-- Cutting at a record boundary cuts the byte stream at the same place. -/
theorem recordBytes_take (l : List ImuSample) (n : Nat) :
    recordBytes (l.take n) = (recordBytes l).take (16 * n) := by
  induction l generalizing n with
  | nil => simp
  | cons s l ih =>
    cases n with
    | zero => simp
    | succ n =>
      have hk : 16 * (n + 1) = s.bytes.length + 16 * n := by rw [ImuSample.bytes_length]; omega
      rw [List.take_succ_cons, recordBytes_cons, recordBytes_cons, ih n, hk,
        List.take_length_add_append]

theorem recordBytes_drop (l : List ImuSample) (n : Nat) :
    recordBytes (l.drop n) = (recordBytes l).drop (16 * n) := by
  induction l generalizing n with
  | nil => simp
  | cons s l ih =>
    cases n with
    | zero => simp
    | succ n =>
      have hk : 16 * (n + 1) = s.bytes.length + 16 * n := by rw [ImuSample.bytes_length]; omega
      rw [List.drop_succ_cons, recordBytes_cons, ih n, hk, List.drop_length_add_append]

/-- Byte `b` of record `k` sits at offset `16 * k + b`. -/
theorem recordBytes_at {l : List ImuSample} {k b : Nat} {x : ImuSample} (hk : l[k]? = some x)
    (hb : b < 16) : (recordBytes l)[16 * k + b]? = x.bytes[b]? := by
  obtain ⟨hlt, hx⟩ := List.getElem?_eq_some_iff.mp hk
  have hcons : l.drop k = x :: l.drop (k + 1) := by rw [List.drop_eq_getElem_cons hlt, hx]
  rw [← List.getElem?_drop, ← recordBytes_drop, hcons, recordBytes_cons,
    List.getElem?_append_left (by rw [ImuSample.bytes_length]; exact hb)]

end Caterpillar.Imu
