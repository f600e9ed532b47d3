import Mathlib.Data.String.Basic
import Ssix.CryptoNote.Types

/-!
# BinarySerializer — varints, byte strings and arrays on a byte stream

`DB::serialize` and `DB::deserialize` hand a `RawBlock` to `BinaryOutputStreamSerializer` and
`BinaryInputStreamSerializer`, which are not among the sources. They are modelled from the codec
description of the spec (§4.1): integers are varints (7-bit groups, least significant first, high
bit set on every byte but the last), byte strings and sequences carry a varint length prefix, and
decoding fails on truncation, on an overlong varint and on a length prefix that exceeds the
remaining input. A reader takes the bytes it needs from the front of the stream and returns the
rest unread.

Results, each for every value and every stream suffix:
* `readVarint_writeVarint`, `readBinary_writeBinary`, `readArray_writeArray`: reading what was
  written gives the value back and leaves the suffix untouched.
* `writeVarint_of_readVarint`, `writeBinary_of_readBinary`, `writeArray_of_readArray`: whatever a
  reader accepts is the writer's encoding of the value read, followed by the unread suffix; the
  readers accept only canonical encodings.
-/

namespace Ssix
namespace Serialization

open CryptoNote

/-! ## Varints -/

/-- Modelled from the spec: the varint writer of the binary serializer, seven bits a byte, least
significant group first, the high bit marking that another byte follows. -/
def writeVarint (n : Nat) : List UInt8 :=
  if n < 128 then [UInt8.ofNat n] else UInt8.ofNat (n % 128 + 128) :: writeVarint (n / 128)
termination_by n
decreasing_by omega

/-- Modelled from the spec: the varint reader. It fails on a stream that ends inside the varint,
and on an overlong varint, one whose continuation bytes are followed by a zero group. -/
def readVarint : List UInt8 → Option (Nat × List UInt8)
  | [] => none
  | b :: rest =>
      if b.toNat < 128 then some (b.toNat, rest)
      else
        match readVarint rest with
        | some (m, r) => if m = 0 then none else some (b.toNat - 128 + 128 * m, r)
        | none => none

theorem writeVarint_of_lt {n : Nat} (h : n < 128) : writeVarint n = [UInt8.ofNat n] := by
  rw [writeVarint, if_pos h]

theorem writeVarint_of_le {n : Nat} (h : 128 ≤ n) :
    writeVarint n = UInt8.ofNat (n % 128 + 128) :: writeVarint (n / 128) := by
  rw [writeVarint, if_neg (by omega)]

theorem readVarint_writeVarint (n : Nat) (rest : List UInt8) :
    readVarint (writeVarint n ++ rest) = some (n, rest) := by
  induction n using Nat.strongRecOn with
  | ind n ih =>
      by_cases h : n < 128
      · simp [writeVarint_of_lt h, readVarint, UInt8.toNat_ofNat_of_lt (by omega : n < 256), h]
      · have hbyte := UInt8.toNat_ofNat_of_lt (by omega : n % 128 + 128 < 256)
        have hpos : n / 128 ≠ 0 := by omega
        simp only [writeVarint_of_le (by omega : 128 ≤ n), List.cons_append, readVarint, hbyte,
          ih (n / 128) (by omega), hpos, if_false]
        simp only [show ¬ n % 128 + 128 < 128 by omega, if_false, Option.some.injEq,
          Prod.mk.injEq, and_true]
        omega

/-- Every varint the reader accepts is the writer's encoding of its value. -/
theorem writeVarint_of_readVarint {s rest : List UInt8} {n : Nat}
    (h : readVarint s = some (n, rest)) : s = writeVarint n ++ rest := by
  induction s generalizing n with
  | nil => simp [readVarint] at h
  | cons b s ih =>
      have hb := b.toNat_lt
      simp only [readVarint] at h
      split at h
      · rename_i hsmall
        simp only [Option.some.injEq, Prod.mk.injEq] at h
        obtain ⟨rfl, rfl⟩ := h
        rw [writeVarint_of_lt hsmall, List.singleton_append]
        congr
        exact UInt8.ext (UInt8.toNat_ofNat_of_lt (show b.toNat < 256 by omega)).symm
      · rename_i hbig
        split at h
        · rename_i m r hm
          split at h
          · cases h
          · rename_i hm0
            simp only [Option.some.injEq, Prod.mk.injEq] at h
            obtain ⟨rfl, rfl⟩ := h
            rw [writeVarint_of_le (by omega), ih hm, List.cons_append]
            have hdiv : (b.toNat - 128 + 128 * m) / 128 = m := by omega
            have hbyte : UInt8.ofNat ((b.toNat - 128 + 128 * m) % 128 + 128) = b :=
              UInt8.ext (by rw [UInt8.toNat_ofNat_of_lt (show _ % 128 + 128 < 256 by omega)]; omega)
            rw [hdiv, hbyte]
        · cases h

/-! ## Byte strings -/

/-- Modelled from the spec: a `BinaryArray` field is its length as a varint, then its bytes. -/
def writeBinary (bytes : BinaryArray) : List UInt8 :=
  writeVarint bytes.length ++ bytes

/-- Modelled from the spec: reading a `BinaryArray` fails when the length prefix exceeds the
remaining input. -/
def readBinary (s : List UInt8) : Option (BinaryArray × List UInt8) :=
  match readVarint s with
  | some (len, r) => if len ≤ r.length then some (r.take len, r.drop len) else none
  | none => none

theorem readBinary_writeBinary (bytes : BinaryArray) (rest : List UInt8) :
    readBinary (writeBinary bytes ++ rest) = some (bytes, rest) := by
  simp [readBinary, writeBinary, List.append_assoc, readVarint_writeVarint]

theorem writeBinary_of_readBinary {s rest : List UInt8} {bytes : BinaryArray}
    (h : readBinary s = some (bytes, rest)) : s = writeBinary bytes ++ rest := by
  simp only [readBinary] at h
  split at h
  · rename_i len r hr
    split at h
    · rename_i hlen
      simp only [Option.some.injEq, Prod.mk.injEq] at h
      obtain ⟨rfl, rfl⟩ := h
      rw [writeVarint_of_readVarint hr, writeBinary, List.length_take, Nat.min_eq_left hlen,
        List.append_assoc, List.take_append_drop]
    · cases h
  · cases h

/-! ## Arrays of byte strings -/

/-- Modelled from the spec: an array is its element count as a varint, then each element. -/
def writeArray (items : List BinaryArray) : List UInt8 :=
  writeVarint items.length ++ (items.map writeBinary).flatten

/-- Reads `count` byte strings one after the other. -/
def readItems : Nat → List UInt8 → Option (List BinaryArray × List UInt8)
  | 0, s => some ([], s)
  | count + 1, s =>
      match readBinary s with
      | some (item, r) =>
          match readItems count r with
          | some (items, r') => some (item :: items, r')
          | none => none
      | none => none

/-- Modelled from the spec: reading an array reads the count, then that many elements. -/
def readArray (s : List UInt8) : Option (List BinaryArray × List UInt8) :=
  match readVarint s with
  | some (count, r) => readItems count r
  | none => none

theorem readItems_writeItems (items : List BinaryArray) (rest : List UInt8) :
    readItems items.length ((items.map writeBinary).flatten ++ rest) = some (items, rest) := by
  induction items with
  | nil => rfl
  | cons item items ih =>
      simp [readItems, List.append_assoc, readBinary_writeBinary, ih]

theorem writeItems_of_readItems {count : Nat} {s rest : List UInt8} {items : List BinaryArray}
    (h : readItems count s = some (items, rest)) :
    items.length = count ∧ s = (items.map writeBinary).flatten ++ rest := by
  induction count generalizing s items with
  | zero =>
      simp only [readItems, Option.some.injEq, Prod.mk.injEq] at h
      obtain ⟨rfl, rfl⟩ := h
      simp
  | succ count ih =>
      simp only [readItems] at h
      split at h
      · rename_i item r hitem
        split at h
        · rename_i items' r' hitems
          simp only [Option.some.injEq, Prod.mk.injEq] at h
          obtain ⟨rfl, rfl⟩ := h
          obtain ⟨hlen, rfl⟩ := ih hitems
          simp [hlen, writeBinary_of_readBinary hitem, List.append_assoc]
        · cases h
      · cases h

theorem readArray_writeArray (items : List BinaryArray) (rest : List UInt8) :
    readArray (writeArray items ++ rest) = some (items, rest) := by
  simp [readArray, writeArray, List.append_assoc, readVarint_writeVarint, readItems_writeItems]

theorem writeArray_of_readArray {s rest : List UInt8} {items : List BinaryArray}
    (h : readArray s = some (items, rest)) : s = writeArray items ++ rest := by
  simp only [readArray] at h
  split at h
  · rename_i count r hr
    obtain ⟨hlen, rfl⟩ := writeItems_of_readItems h
    rw [writeVarint_of_readVarint hr, writeArray, hlen, List.append_assoc]
  · cases h

end Serialization
end Ssix
