import Mathlib.Data.UInt

/-!
# Types — the transaction data model of `CryptoNoteFormatUtils.cpp`

The records that `CryptoNoteFormatUtils.cpp`, `DBUtils.cpp` and the wallet-side builder read and
write. Machine integers keep the widths of the C++ fields (`uint64_t` amounts, `uint32_t` global
output indices, `uint8_t` versions); `size_t` counters and indices are `Nat`, since no vector
reaches `2^64` entries.

Keys, hashes and signatures are fixed-size byte blobs that only the cryptographic primitives look
inside; here they carry their raw bytes and are compared for equality only.

Fields that no modelled function reads are left out (`MultisignatureInput.signatureCount`).
-/

namespace Ssix
namespace CryptoNote

/-- A serialized object: `BinaryArray` is `std::vector<uint8_t>`. -/
abbrev BinaryArray := List UInt8

/-! ## Cryptographic blobs -/

/-- `Crypto::Hash`, 32 raw bytes. -/
structure Hash where
  data : List UInt8
  deriving DecidableEq, Repr

/-- `Crypto::PublicKey`, a curve point as 32 raw bytes. -/
structure PublicKey where
  data : List UInt8
  deriving DecidableEq, Repr

/-- `Crypto::SecretKey`, a scalar as 32 raw bytes. -/
structure SecretKey where
  data : List UInt8
  deriving DecidableEq, Repr

/-- `Crypto::KeyDerivation`, the shared secret of a Diffie-Hellman exchange. -/
structure KeyDerivation where
  data : List UInt8
  deriving DecidableEq, Repr

/-- `Crypto::KeyImage`, the linkable tag of a spent output. -/
structure KeyImage where
  data : List UInt8
  deriving DecidableEq, Repr

/-- `Crypto::Signature`, one ring member's 64-byte signature. -/
structure Signature where
  data : List UInt8
  deriving DecidableEq, Repr

/-- `KeyPair`. -/
structure KeyPair where
  publicKey : PublicKey
  secretKey : SecretKey
  deriving DecidableEq, Repr

/-- `AccountPublicAddress`. -/
structure AccountPublicAddress where
  spendPublicKey : PublicKey
  viewPublicKey : PublicKey
  deriving DecidableEq, Repr

/-- `AccountKeys`. -/
structure AccountKeys where
  address : AccountPublicAddress
  spendSecretKey : SecretKey
  viewSecretKey : SecretKey
  deriving DecidableEq, Repr

/-! ## Inputs and outputs -/

/-- `KeyInput`: a ring spend; `outputIndexes` are stored relative. -/
structure KeyInput where
  amount : UInt64
  outputIndexes : List UInt32
  keyImage : KeyImage
  deriving DecidableEq, Repr

/-- `MultisignatureInput`, without the `signatureCount` field no modelled function reads. -/
structure MultisignatureInput where
  amount : UInt64
  outputIndex : UInt32
  deriving DecidableEq, Repr

/-- `TransactionInput`, the `boost::variant<BaseInput, KeyInput, MultisignatureInput>`. -/
inductive TransactionInput where
  | base (blockIndex : UInt32)
  | key (input : KeyInput)
  | multisignature (input : MultisignatureInput)
  deriving DecidableEq, Repr

/-- `MultisignatureOutput`. -/
structure MultisignatureOutput where
  keys : List PublicKey
  requiredSignatureCount : UInt8
  deriving DecidableEq, Repr

/-- `TransactionOutputTarget`, the `boost::variant<KeyOutput, MultisignatureOutput>`. -/
inductive TransactionOutputTarget where
  | key (key : PublicKey)
  | multisignature (output : MultisignatureOutput)
  deriving DecidableEq, Repr

/-- `TransactionOutput`. -/
structure TransactionOutput where
  amount : UInt64
  target : TransactionOutputTarget
  deriving DecidableEq, Repr

/-! ## Transactions and blocks -/

/-- `TransactionPrefix`: the signed part of a transaction. -/
structure TransactionPrefix where
  version : UInt8
  unlockTime : UInt64
  inputs : List TransactionInput
  outputs : List TransactionOutput
  extra : List UInt8
  deriving DecidableEq, Repr

/-- `Transaction`: the prefix and one signature group per input. -/
structure Transaction extends TransactionPrefix where
  signatures : List (List Signature)
  deriving DecidableEq, Repr

/-- `RawBlock`: a block blob and the blobs of its transactions. -/
structure RawBlock where
  block : BinaryArray
  transactions : List BinaryArray
  deriving DecidableEq, Repr

/-! ## Wallet-side construction records -/

/-- `TransactionSourceEntry`: one real output to spend, hidden among `outputs`, the ring of
`(global index, output key)` pairs. -/
structure TransactionSourceEntry where
  outputs : List (UInt32 × PublicKey)
  realOutput : Nat
  realTransactionPublicKey : PublicKey
  realOutputIndexInTransaction : Nat
  amount : UInt64
  deriving DecidableEq, Repr

/-- `TransactionDestinationEntry`: an amount paid to an address. -/
structure TransactionDestinationEntry where
  amount : UInt64
  addr : AccountPublicAddress
  deriving DecidableEq, Repr

end CryptoNote
end Ssix
