/-
  Two ways to write a layout down: as stores at offsets into a buffer, the way C fills a packet, and
  as a format, the way Python's `struct` packs and unpacks one.

  1. `Field` — a word of either signedness, with its bytes, its value and its format character.
     `pack` and `unpackFrom` are those of `struct`, little-endian and unaligned; over the same fields
     they are inverse (`pack_fields`, `unpack_fields`).
  2. `Buffer`, `Tiles` — stores that tile a range, each where the one before ended, leave there just
     the fields stored (`slice_stores`), whatever the buffer held before.
-/
import Caterpillar.Lib.Wire
import Mathlib.Algebra.GroupWithZero.Nat

namespace Caterpillar.Bytes

/-! ## Fields and formats -/

/-- A format character: `B`, `b`, `H`, `h` and `I`. -/
inductive Code where
  | B
  | b
  | H
  | h
  | I
  deriving DecidableEq

/-- Its bytes. -/
def Code.size : Code → Nat
  | .B => 1
  | .b => 1
  | .H => 2
  | .h => 2
  | .I => 4

/-- The values it takes. -/
def Code.InRange : Code → Int → Prop
  | .B, v => 0 ≤ v ∧ v ≤ 255
  | .b, v => -128 ≤ v ∧ v ≤ 127
  | .H, v => 0 ≤ v ∧ v ≤ 65535
  | .h, v => -32768 ≤ v ∧ v ≤ 32767
  | .I, v => 0 ≤ v ∧ v ≤ 4294967295

instance (c : Code) (v : Int) : Decidable (c.InRange v) := by
  cases c <;> exact inferInstanceAs (Decidable (_ ∧ _))

/-- The bytes of a value it takes. -/
def Code.bytes (c : Code) (v : Int) : List UInt8 :=
  match c with
  | .B => [UInt8.ofNat v.toNat]
  | .b => [(Int8.ofInt v).toUInt8]
  | .H => le16 (UInt16.ofNat v.toNat)
  | .h => le16 (Int16.ofInt v).toUInt16
  | .I => le32 (UInt32.ofNat v.toNat)

/-- The value at an offset. -/
def Code.read (c : Code) (bs : List UInt8) (k : Nat) : Int :=
  match c with
  | .B => (u8At bs k).toNat
  | .b => (u8At bs k).toInt8.toInt
  | .H => (u16At bs k).toNat
  | .h => (u16At bs k).toInt16.toInt
  | .I => (u32At bs k).toNat

/-- A format, as counts and characters; `<4BH` is `[(4, .B), (1, .H)]`. -/
def codes (f : List (Nat × Code)) : List Code := f.flatMap fun nc => List.replicate nc.1 nc.2

/-- `struct.calcsize`. -/
def calcsize (f : List Code) : Nat := (f.map Code.size).sum

theorem calcsize_append (f g : List Code) : calcsize (f ++ g) = calcsize f + calcsize g := by
  rw [calcsize, List.map_append, List.sum_append]
  rfl

/-- `struct.pack`: as many values as the format has characters, each in its range. -/
def pack : List Code → List Int → Option (List UInt8)
  | [], [] => some []
  | c :: f, v :: vs => if c.InRange v then (pack f vs).map (c.bytes v ++ ·) else none
  | _, _ => none

/-- The values from offset `k` on. -/
def readFields : List Code → List UInt8 → Nat → List Int
  | [], _, _ => []
  | c :: f, bs, k => c.read bs k :: readFields f bs (k + c.size)

/-- `struct.unpack_from`: the buffer has to reach far enough. -/
def unpackFrom (f : List Code) (bs : List UInt8) (k : Nat) : Option (List Int) :=
  if k + calcsize f ≤ bs.length then some (readFields f bs k) else none

/-- A word of the machine. -/
inductive Field where
  | u8 (x : UInt8)
  | i8 (x : Int8)
  | u16 (x : UInt16)
  | i16 (x : Int16)
  | u32 (x : UInt32)

/-- Its format character. -/
def Field.code : Field → Code
  | .u8 _ => .B
  | .i8 _ => .b
  | .u16 _ => .H
  | .i16 _ => .h
  | .u32 _ => .I

/-- Its image in memory. -/
def Field.bytes : Field → List UInt8
  | .u8 x => [x]
  | .i8 x => [x.toUInt8]
  | .u16 x => le16 x
  | .i16 x => le16 x.toUInt16
  | .u32 x => le32 x

/-- Its value. -/
def Field.value : Field → Int
  | .u8 x => x.toNat
  | .i8 x => x.toInt
  | .u16 x => x.toNat
  | .i16 x => x.toInt
  | .u32 x => x.toNat

@[simp] theorem Field.bytes_length (x : Field) : x.bytes.length = x.code.size := by
  cases x <;> rfl

/-- A value fits its format character. -/
theorem Field.inRange (x : Field) : x.code.InRange x.value := by
  cases x with
  | u8 x => exact ⟨Int.natCast_nonneg _, Int.ofNat_le.mpr (Nat.le_of_lt_succ x.toNat_lt)⟩
  | i8 x => exact ⟨x.le_toInt, Int.le_of_lt_add_one x.toInt_lt⟩
  | u16 x => exact ⟨Int.natCast_nonneg _, Int.ofNat_le.mpr (Nat.le_of_lt_succ x.toNat_lt)⟩
  | i16 x => exact ⟨x.le_toInt, Int.le_of_lt_add_one x.toInt_lt⟩
  | u32 x => exact ⟨Int.natCast_nonneg _, Int.ofNat_le.mpr (Nat.le_of_lt_succ x.toNat_lt)⟩

/-- It packs to its image. -/
theorem Field.code_bytes (x : Field) : x.code.bytes x.value = x.bytes := by
  cases x with
  | u8 x => exact congrArg (fun y => [y]) UInt8.ofNat_toNat
  | i8 x => exact congrArg (fun y : Int8 => [y.toUInt8]) (Int8.ofInt_toInt x)
  | u16 x => exact congrArg le16 UInt16.ofNat_toNat
  | i16 x => exact congrArg (fun y : Int16 => le16 y.toUInt16) (Int16.ofInt_toInt x)
  | u32 x => exact congrArg le32 UInt32.ofNat_toNat

/-- It reads back from its image. -/
theorem Field.code_read (x : Field) (post : List UInt8) :
    x.code.read (x.bytes ++ post) 0 = x.value := by
  cases x with
  | u8 x => rfl
  | i8 x => rfl
  | u16 x => exact congrArg (fun y : UInt16 => (y.toNat : Int)) (u16At_here x post)
  | i16 x => exact congrArg (fun y : UInt16 => y.toInt16.toInt) (u16At_here x.toUInt16 post)
  | u32 x => exact congrArg (fun y : UInt32 => (y.toNat : Int)) (u32At_here x post)

theorem Code.read_skip (c : Code) {pre : List UInt8} (bs : List UInt8) {n : Nat}
    (h : pre.length = n) : c.read (pre ++ bs) n = c.read bs 0 := by
  cases c with
  | B => exact congrArg (fun y : UInt8 => (y.toNat : Int)) (u8At_skip bs h 0)
  | b => exact congrArg (fun y : UInt8 => y.toInt8.toInt) (u8At_skip bs h 0)
  | H => exact congrArg (fun y : UInt16 => (y.toNat : Int)) (u16At_skip bs h 0)
  | h => exact congrArg (fun y : UInt16 => y.toInt16.toInt) (u16At_skip bs h 0)
  | I => exact congrArg (fun y : UInt32 => (y.toNat : Int)) (u32At_skip bs h 0)

/-- Fields pack to their images, one behind the other. -/
theorem pack_fields (fs : List Field) :
    pack (fs.map Field.code) (fs.map Field.value) = some (fs.flatMap Field.bytes) := by
  induction fs with
  | nil => rfl
  | cons x fs ih =>
    show (if x.code.InRange x.value then
      (pack (fs.map Field.code) (fs.map Field.value)).map (x.code.bytes x.value ++ ·)
      else none) = _
    rw [if_pos x.inRange, ih, x.code_bytes]
    rfl

theorem fields_length (fs : List Field) :
    (fs.flatMap Field.bytes).length = calcsize (fs.map Field.code) := by
  induction fs with
  | nil => rfl
  | cons x fs ih =>
    rw [List.flatMap_cons, List.length_append, ih, Field.bytes_length]
    rfl

theorem readFields_fields (fs : List Field) {pre : List UInt8} (post : List UInt8) {n : Nat}
    (h : pre.length = n) :
    readFields (fs.map Field.code) (pre ++ (fs.flatMap Field.bytes ++ post)) n =
      fs.map Field.value := by
  induction fs generalizing pre n with
  | nil => rfl
  | cons x fs ih =>
    have hfirst : x.code.read (pre ++ (x.bytes ++ (fs.flatMap Field.bytes ++ post))) n = x.value :=
      (x.code.read_skip _ h).trans (x.code_read _)
    have hpre : (pre ++ x.bytes).length = n + x.code.size := by
      rw [List.length_append, Field.bytes_length, h]
    have hrest := ih hpre
    rw [List.append_assoc] at hrest
    rw [List.flatMap_cons, List.append_assoc]
    exact congrArg₂ List.cons hfirst hrest

/-- **Fields unpack to their values**, whatever is in front of them and behind them. -/
theorem unpack_fields (fs : List Field) {pre : List UInt8} (post : List UInt8) {n : Nat}
    (h : pre.length = n) :
    unpackFrom (fs.map Field.code) (pre ++ (fs.flatMap Field.bytes ++ post)) n =
      some (fs.map Field.value) := by
  have hlen : n + calcsize (fs.map Field.code) ≤
      (pre ++ (fs.flatMap Field.bytes ++ post)).length := by
    rw [List.length_append, List.length_append, fields_length]
    omega
  rw [unpackFrom, if_pos hlen, readFields_fields fs post h]

/-! ## Stores -/

/-- The bytes of a buffer, by offset. -/
def Buffer := Nat → UInt8

/-- The `n` bytes from offset `k` on. -/
def Buffer.slice (s : Buffer) (k n : Nat) : List UInt8 := (List.range n).map fun i => s (k + i)

/-- The buffer once `bs` is stored from offset `k` on. -/
def Buffer.store (s : Buffer) (k : Nat) (bs : List UInt8) : Buffer := fun i =>
  if k ≤ i ∧ i < k + bs.length then bs.getD (i - k) 0 else s i

/-- Fields stored one after the other, each at its offset. -/
def Buffer.stores (s : Buffer) (ws : List (Nat × Field)) : Buffer :=
  ws.foldl (fun s w => s.store w.1 w.2.bytes) s

/-- The format of the fields stored. -/
def formatOf (ws : List (Nat × Field)) : List Code := ws.map fun w => w.2.code

/-- The images of the fields stored, in order. -/
def imageOf (ws : List (Nat × Field)) : List UInt8 := ws.flatMap fun w => w.2.bytes

/-- Each store begins where the one before ended, the first at `k`. -/
def Tiles : Nat → List (Nat × Field) → Prop
  | _, [] => True
  | k, (j, x) :: ws => j = k ∧ Tiles (k + x.code.size) ws

theorem formatOf_eq (ws : List (Nat × Field)) :
    formatOf ws = (ws.map Prod.snd).map Field.code := by
  rw [List.map_map]
  rfl

theorem imageOf_eq (ws : List (Nat × Field)) :
    imageOf ws = (ws.map Prod.snd).flatMap Field.bytes := by
  rw [List.flatMap_map]
  rfl

@[simp] theorem slice_length (s : Buffer) (k n : Nat) : (s.slice k n).length = n := by
  rw [Buffer.slice, List.length_map, List.length_range]

/-- A slice only sees its own range. -/
theorem slice_congr {s t : Buffer} {k n : Nat} (h : ∀ i, k ≤ i → i < k + n → s i = t i) :
    s.slice k n = t.slice k n := by
  refine List.map_congr_left fun i hi => ?_
  have hlt := List.mem_range.mp hi
  exact h (k + i) (Nat.le_add_right k i) (Nat.add_lt_add_left hlt k)

theorem slice_append (s : Buffer) (k m n : Nat) :
    s.slice k (m + n) = s.slice k m ++ s.slice (k + m) n := by
  have hsplit : s.slice k (m + n) =
      s.slice k m ++ ((List.range n).map (m + ·)).map fun i => s (k + i) := by
    simp only [Buffer.slice, List.range_add, List.map_append]
  rw [hsplit, List.map_map]
  refine congrArg _ (List.map_congr_left fun i _ => ?_)
  exact congrArg s (Nat.add_assoc k m i).symm

theorem store_here (s : Buffer) (k : Nat) (bs : List UInt8) :
    (s.store k bs).slice k bs.length = bs := by
  refine List.ext_getElem (slice_length _ _ _) fun i hi hi' => ?_
  have hin : k ≤ k + i ∧ k + i < k + bs.length := ⟨Nat.le_add_right k i, by omega⟩
  have hat : ((s.store k bs).slice k bs.length)[i] = s.store k bs (k + i) := by
    simp only [Buffer.slice, List.getElem_map, List.getElem_range]
  rw [hat, Buffer.store, if_pos hin, Nat.add_sub_cancel_left, List.getD_eq_getElem _ _ hi']

theorem store_apart (s : Buffer) {k i : Nat} {bs : List UInt8} (h : i < k ∨ k + bs.length ≤ i) :
    s.store k bs i = s i :=
  if_neg (by omega)

/-- Stores leave alone what is in front of them and what is behind them. -/
theorem stores_apart {ws : List (Nat × Field)} {k i : Nat} (s : Buffer) (ht : Tiles k ws)
    (h : i < k ∨ k + calcsize (formatOf ws) ≤ i) : s.stores ws i = s i := by
  induction ws generalizing s k with
  | nil => rfl
  | cons w ws ih =>
    obtain ⟨j, x⟩ := w
    obtain ⟨rfl, ht⟩ := ht
    have hsize : calcsize (formatOf ((j, x) :: ws)) = x.code.size + calcsize (formatOf ws) := rfl
    have hlen := x.bytes_length
    calc (s.stores ((j, x) :: ws)) i = s.store j x.bytes i := ih _ ht (by omega)
      _ = s i := store_apart s (by omega)

/-- **Stores that tile a range** leave there what they stored. -/
theorem slice_stores {ws : List (Nat × Field)} {k n : Nat} (s : Buffer) (ht : Tiles k ws)
    (hn : calcsize (formatOf ws) = n) : (s.stores ws).slice k n = imageOf ws := by
  subst hn
  induction ws generalizing s k with
  | nil => rfl
  | cons w ws ih =>
    obtain ⟨j, x⟩ := w
    obtain ⟨rfl, ht⟩ := ht
    have hfront : (s.stores ((j, x) :: ws)).slice j x.code.size = x.bytes := by
      have hhere := store_here s j x.bytes
      rw [Field.bytes_length] at hhere
      refine (slice_congr fun i _ hi => ?_).trans hhere
      exact stores_apart _ ht (Or.inl hi)
    have hback : (s.stores ((j, x) :: ws)).slice (j + x.code.size) (calcsize (formatOf ws)) =
        imageOf ws :=
      ih _ ht
    calc (s.stores ((j, x) :: ws)).slice j (calcsize (formatOf ((j, x) :: ws)))
        = (s.stores ((j, x) :: ws)).slice j x.code.size ++
            (s.stores ((j, x) :: ws)).slice (j + x.code.size) (calcsize (formatOf ws)) :=
          slice_append _ _ _ _
      _ = x.bytes ++ imageOf ws := by rw [hfront, hback]
      _ = imageOf ((j, x) :: ws) := rfl

end Caterpillar.Bytes
