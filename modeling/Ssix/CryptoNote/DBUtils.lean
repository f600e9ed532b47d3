import Ssix.Serialization.BinarySerializer

/-!
# DBUtils — the stored form of a `RawBlock`

`DB::serialize(value, name)` runs the binary serializer over the block blob (field `raw_block`) and
then over the transaction blobs (field `raw_txs`). `DB::deserialize(serialized, value, name)`
opens a stream over `serialized` and reads the same two fields in the same order. The binary
serializer writes no field names, and neither function reads `name`.

Results:
* `deserialize_serialize`: every `RawBlock` comes back from its stored form.
* `deserialize_accepts_trailing_bytes`: `deserialize` never checks that it reached the end of the
  stream, so a stored record followed by any bytes is accepted too.
* `serialize_prefix_of_deserialize`: what `deserialize` accepts is the canonical encoding of the
  block it returns, followed by the bytes it left unread.
-/

namespace Ssix
namespace CryptoNote
namespace DB

open Serialization

/-- `DB::serialize(value, name)`. -/
def serialize (value : RawBlock) : List UInt8 :=
  writeBinary value.block ++ writeArray value.transactions

/-- The two reads of `DB::deserialize`, with the part of the stream they leave unread. -/
def deserializeStream (serialized : List UInt8) : Option (RawBlock × List UInt8) :=
  match readBinary serialized with
  | some (block, r) =>
      match readArray r with
      | some (transactions, r') => some ({ block := block, transactions := transactions }, r')
      | none => none
  | none => none

/-- `DB::deserialize(serialized, value, name)`: `some value` where it returns normally, `none`
where the binary serializer throws. -/
def deserialize (serialized : List UInt8) : Option RawBlock :=
  (deserializeStream serialized).map Prod.fst

theorem deserializeStream_serialize (value : RawBlock) (rest : List UInt8) :
    deserializeStream (serialize value ++ rest) = some (value, rest) := by
  simp [deserializeStream, serialize, List.append_assoc, readBinary_writeBinary,
    readArray_writeArray]

/-- Round trip of the stored block record: block bytes, transaction count, order and bytes all
come back, for blobs of every length and content. -/
theorem deserialize_serialize (value : RawBlock) : deserialize (serialize value) = some value := by
  have h := deserializeStream_serialize value []
  rw [List.append_nil] at h
  simp [deserialize, h]

theorem serialize_of_deserializeStream {serialized rest : List UInt8} {value : RawBlock}
    (h : deserializeStream serialized = some (value, rest)) :
    serialized = serialize value ++ rest := by
  simp only [deserializeStream] at h
  split at h
  · rename_i block r hblock
    split at h
    · rename_i transactions r' htxs
      simp only [Option.some.injEq, Prod.mk.injEq] at h
      obtain ⟨rfl, rfl⟩ := h
      rw [writeBinary_of_readBinary hblock, writeArray_of_readArray htxs, serialize,
        List.append_assoc]
    · cases h
  · cases h

/-- An empty block record followed by one stray byte is accepted, and does not re-encode to the
bytes it was read from. -/
theorem deserialize_accepts_trailing_bytes :
    ¬ ∀ (serialized : List UInt8) (value : RawBlock),
      deserialize serialized = some value → serialize value = serialized := by
  intro h
  have hread : deserialize [0, 0, 0] = some { block := [], transactions := [] } := by decide
  have hwrite : serialize { block := [], transactions := [] } = [0, 0] := by
    simp [serialize, writeBinary, writeArray, writeVarint_of_lt]
  simpa [hwrite] using h _ _ hread

/-- Every record `deserialize` accepts is the canonical encoding of its block followed by the bytes
it never read. -/
theorem serialize_prefix_of_deserialize (serialized : List UInt8) (value : RawBlock)
    (h : deserialize serialized = some value) :
    ∃ rest, deserializeStream serialized = some (value, rest) ∧
      serialized = serialize value ++ rest := by
  simp only [deserialize, Option.map_eq_some'] at h
  obtain ⟨⟨value', rest⟩, hs, rfl⟩ := h
  exact ⟨rest, hs, serialize_of_deserializeStream hs⟩

theorem serialize_prefix_of_deserialize_trailing :
    deserialize [0, 0, 0] = some { block := [], transactions := [] } ∧
      ∃ rest, deserializeStream [0, 0, 0] = some ({ block := [], transactions := [] }, rest) ∧
        [0, 0, 0] = serialize { block := [], transactions := [] } ++ rest :=
  ⟨by decide, serialize_prefix_of_deserialize _ _ (by decide)⟩

end DB
end CryptoNote
end Ssix
