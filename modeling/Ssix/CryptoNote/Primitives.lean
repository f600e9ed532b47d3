import Mathlib.Data.List.Sort
import Ssix.CryptoNote.Types

/-!
# Primitives — what `constructTransaction` and `lookup_acc_outs` call outside the sources

The transaction builder and the output scanner call the elliptic-curve primitives of `crypto.h`,
`getObjectHash`, `addTransactionPublicKeyToExtra` and `std::sort`, none of which is among the
sources. They are black boxes here, gathered in one structure:

* a primitive that returns `bool` and writes an out-parameter is `Option`-valued;
* `std::sort` with the comparator `de1.amount < de2.amount` is any function that returns a
  permutation of its input ordered by amount; which of the equal-amount orders it picks is left
  open, and every theorem holds for all of them;
* `lookup_acc_outs` ignores two result flags and then reads a local the failed primitive never
  wrote; `uninitKeyDerivation` and `uninitPublicKey` stand for those indeterminate values.

`DiffieHellman` is the one law the scanner needs of the primitives, and `toyPrimitives` is a
computable instance that satisfies it, used to run the model on concrete inputs.
-/

namespace Ssix
namespace CryptoNote

/-- The external functions the wallet-side code of `CryptoNoteFormatUtils.cpp` calls. -/
structure Primitives where
  /-- `generate_key_derivation(key1, key2, derivation)`. -/
  generateKeyDerivation : PublicKey → SecretKey → Option KeyDerivation
  /-- `derive_public_key(derivation, output_index, base, derived_key)`. -/
  derivePublicKey : KeyDerivation → Nat → PublicKey → Option PublicKey
  /-- `derive_secret_key(derivation, output_index, base, derived_key)`. -/
  deriveSecretKey : KeyDerivation → Nat → SecretKey → SecretKey
  /-- `generate_key_image(pub, sec, image)`. -/
  generateKeyImage : PublicKey → SecretKey → KeyImage
  /-- `secret_key_to_public_key(sec, pub)`. -/
  secretKeyToPublicKey : SecretKey → Option PublicKey
  /-- `hash_to_scalar(data, length, res)`. -/
  hashToScalar : List UInt8 → SecretKey
  /-- The signature `generate_ring_signature(prefix_hash, image, pubs, sec, sec_index, sigs)`
  writes at position `j` of `sigs`. -/
  generateRingSignature : Hash → KeyImage → List PublicKey → SecretKey → Nat → Nat → Signature
  /-- `getObjectHash(tx.inputs)`. -/
  inputsHash : List TransactionInput → Hash
  /-- `getObjectHash(prefix, hash)` of a `TransactionPrefix`. -/
  prefixHash : TransactionPrefix → Hash
  /-- `addTransactionPublicKeyToExtra(tx.extra, tx_pub_key)`. -/
  addTransactionPublicKeyToExtra : List UInt8 → PublicKey → List UInt8
  /-- `CURRENT_TRANSACTION_VERSION`. -/
  currentTransactionVersion : UInt8
  /-- `std::sort` of the destinations by amount. -/
  sortByAmount : List TransactionDestinationEntry → List TransactionDestinationEntry
  sortByAmount_perm : ∀ l, (sortByAmount l).Perm l
  sortByAmount_sorted : ∀ l, (sortByAmount l).Sorted (fun a b => a.amount ≤ b.amount)
  /-- The indeterminate value of an uninitialised `KeyDerivation` local. -/
  uninitKeyDerivation : KeyDerivation
  /-- The indeterminate value of an uninitialised `PublicKey` local. -/
  uninitPublicKey : PublicKey

/-- Diffie-Hellman symmetry: for key pairs `(a, A)` and `(r, R)`, deriving from `A` with `r` and
from `R` with `a` both succeed and agree. -/
def DiffieHellman (P : Primitives) : Prop :=
  ∀ a r A R, P.secretKeyToPublicKey a = some A → P.secretKeyToPublicKey r = some R →
    (P.generateKeyDerivation A r).isSome ∧ P.generateKeyDerivation A r = P.generateKeyDerivation R a

/-! ## A computable instance -/

/-- Destinations ordered by amount. -/
def amountLE (a b : TransactionDestinationEntry) : Prop := a.amount ≤ b.amount

instance : DecidableRel amountLE := fun a b => inferInstanceAs (Decidable (a.amount ≤ b.amount))

instance : IsTotal TransactionDestinationEntry amountLE :=
  ⟨fun a b => UInt64.le_total a.amount b.amount⟩

instance : IsTrans TransactionDestinationEntry amountLE :=
  ⟨fun _ _ _ => UInt64.le_trans⟩

/-- Byte-wise sums as the group law: a public key is its secret key's bytes, and a derivation
adds a public key to a secret key, so Diffie-Hellman symmetry is commutativity. The other
primitives concatenate their arguments, and the sort is insertion sort. -/
def toyPrimitives : Primitives where
  generateKeyDerivation A r := some ⟨List.zipWith (· + ·) A.data r.data⟩
  derivePublicKey d i B := some ⟨d.data ++ UInt8.ofNat i :: B.data⟩
  deriveSecretKey d i b := ⟨d.data ++ UInt8.ofNat i :: b.data⟩
  generateKeyImage P s := ⟨P.data ++ s.data⟩
  secretKeyToPublicKey s := some ⟨s.data⟩
  hashToScalar bytes := ⟨bytes⟩
  generateRingSignature _ _ _ _ _ j := ⟨[UInt8.ofNat j]⟩
  inputsHash _ := ⟨[]⟩
  prefixHash _ := ⟨[]⟩
  addTransactionPublicKeyToExtra extra key := extra ++ 1 :: key.data
  currentTransactionVersion := 1
  sortByAmount := List.insertionSort amountLE
  sortByAmount_perm := List.perm_insertionSort amountLE
  sortByAmount_sorted := List.sorted_insertionSort amountLE
  uninitKeyDerivation := ⟨[]⟩
  uninitPublicKey := ⟨[]⟩

theorem diffieHellman_toyPrimitives : DiffieHellman toyPrimitives := by
  intro a r A R hA hR
  simp only [toyPrimitives, Option.some.injEq] at hA hR
  subst hA hR
  simp only [toyPrimitives, Option.isSome_some, Option.some.injEq, KeyDerivation.mk.injEq,
    true_and]
  rw [List.zipWith_comm]
  simp only [add_comm]

end CryptoNote
end Ssix
