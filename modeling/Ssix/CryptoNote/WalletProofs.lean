import Ssix.CryptoNote.Construct

/-!
# WalletProofs — transaction proofs, reserve proofs and message signatures

Four functions of `CryptoNoteFormatUtils.cpp` turn keys into base58 texts:

* `getTransactionProof` signs, with the transaction key `r`, that `r·A` is the shared secret with a
  destination's view key `A`;
* `getReserveProof` proves ownership of unspent outputs: a first loop recomputes their key images
  and hashes them after the message and the address; a second loop makes one entry per output,
  with the shared secret signed by the view key and the key image signed by the output's one-time
  key; the spend key signs the whole;
* `signMessage` and `verifyMessage` sign a message's `cn_fast_hash` with the spend key and check it.

A `std::string` is modelled as its bytes. The curve operations, `cn_fast_hash`, the base58 codec,
the serializer of `reserve_proof` and the base58 tags are not among the sources: they are the
fields of `ProofPrimitives`, beside the `Primitives` of the builder. Messages the source logs
before `return false` are the errors of the model.

Results:
* `getReserveProof_eq_ok_iff`: the two loops of `getReserveProof` succeed exactly when every
  output's one-time key re-derives to the stored one and its two signatures can be made; the
  proof then has one entry per output, in order, whose key image is signed over the one-key ring of
  the stored output key, all under the hash of the message, the address and the key images. The
  doubled shared-secret pass does what one pass does.
-/

namespace Ssix
namespace CryptoNote

/-! ## Data -/

/-- The fields of `TransactionOutputInformation` that `getReserveProof` reads. -/
structure TransactionOutputInformation where
  transactionHash : Hash
  transactionPublicKey : PublicKey
  outputInTransaction : UInt32
  outputKey : PublicKey
  deriving DecidableEq, Repr

/-- `reserve_proof_entry`: one output's part of a reserve proof. -/
structure ReserveProofEntry where
  transactionId : Hash
  indexInTransaction : UInt64
  sharedSecret : PublicKey
  keyImage : KeyImage
  sharedSecretSig : Signature
  keyImageSig : Signature
  deriving DecidableEq, Repr

/-- `reserve_proof`: the entries and the spend key's signature. -/
structure ReserveProof where
  proofs : List ReserveProofEntry
  signature : Signature
  deriving DecidableEq, Repr

/-- How `getReserveProof` ends without a proof: `return false` after logging `message`, or the
`std::runtime_error` of `generate_tx_proof`, which it does not catch. -/
inductive ProofError where
  | returnFalse (message : String)
  | runtimeError (what : String)
  deriving DecidableEq, Repr

/-- The external functions and constants the proof and signing code calls besides those of
`Primitives`. -/
structure ProofPrimitives where
  /-- `scalarmultKey(P, a)`. -/
  scalarmultKey : KeyImage → KeyImage → KeyImage
  /-- `generate_tx_proof(prefix_hash, R, A, D, r, sig)`, or the `what()` of the
  `std::runtime_error` it throws on an invalid point. -/
  generateTxProof : Hash → PublicKey → PublicKey → PublicKey → SecretKey → Except String Signature
  /-- `generate_signature(prefix_hash, pub, sec, sig)`. -/
  generateSignature : Hash → PublicKey → SecretKey → Signature
  /-- `check_signature(prefix_hash, pub, sig)`. -/
  checkSignature : Hash → PublicKey → Signature → Bool
  /-- `cn_fast_hash(data, length, hash)`. -/
  cnFastHash : List UInt8 → Hash
  /-- `Tools::Base58::encode_addr(tag, data)`. -/
  encodeAddr : UInt64 → List UInt8 → List UInt8
  /-- `Tools::Base58::decode_addr(addr, tag, data)`: the tag and the data when it succeeds. -/
  decodeAddr : List UInt8 → Option (UInt64 × List UInt8)
  /-- `toBinaryArray(reserve_proof)`. -/
  reserveProofToBinaryArray : ReserveProof → List UInt8
  /-- `CRYPTONOTE_TX_PROOF_BASE58_PREFIX`. -/
  txProofBase58Tag : UInt64
  /-- `CRYPTONOTE_RESERVE_PROOF_BASE58_PREFIX`. -/
  reserveProofBase58Tag : UInt64
  /-- `CRYPTONOTE_KEYS_SIGNATURE_BASE58_PREFIX`. -/
  keysSignatureBase58Tag : UInt64

/-- The bytes of an `AccountPublicAddress`: the spend key, then the view key. -/
def AccountPublicAddress.bytes (address : AccountPublicAddress) : List UInt8 :=
  address.spendPublicKey.data ++ address.viewPublicKey.data

/-- `sizeof(Crypto::Signature)`. -/
def signatureSize : Nat := 64

variable (P : Primitives) (S : ProofPrimitives)

/-! ## `getTransactionProof` -/

/-- `getTransactionProof(transactionHash, destinationAddress, transactionKey, transactionProof,
log)`: the base58 text of `r·A` and the signature, or the logged error. `*e.what()` streams only
the first character of the primitive's message. The result of `secret_key_to_public_key` is not
checked. -/
def getTransactionProof (transactionHash : Hash) (destinationAddress : AccountPublicAddress)
    (transactionKey : SecretKey) : Except String (List UInt8) :=
  let pk := S.scalarmultKey ⟨destinationAddress.viewPublicKey.data⟩ ⟨transactionKey.data⟩
  let rA : PublicKey := ⟨pk.data⟩
  let R := (P.secretKeyToPublicKey transactionKey).getD P.uninitPublicKey
  match S.generateTxProof transactionHash R destinationAddress.viewPublicKey rA transactionKey with
  | .error what =>
      .error ("Proof generation error: " ++ String.singleton (what.toList.headD (Char.ofNat 0)))
  | .ok sig => .ok (S.encodeAddr S.txProofBase58Tag (rA.data ++ sig.data))

/-! ## `getReserveProof` -/

/-- The first loop of `getReserveProof` over the remaining transfers: recompute each key image,
append it to `prefix_data` and to `kimages`. -/
def reserveKeyImagesLoop (accountKeys : AccountKeys) :
    List TransactionOutputInformation → List UInt8 → List KeyImage →
      Except ProofError (List UInt8 × List KeyImage)
  | [], prefixData, kimages => .ok (prefixData, kimages)
  | td :: tds, prefixData, kimages =>
      match generateKeyImageHelper P accountKeys td.transactionPublicKey
          td.outputInTransaction.toNat with
      | none => .error (.returnFalse "Failed to generate key image")
      | some (_, ki) => reserveKeyImagesLoop accountKeys tds (prefixData ++ ki.data) (kimages ++ [ki])

/-- The shared secret `scalarmultKey(R, a)` of a transaction public key `R` and the view key `a`,
read back as a public key. -/
def reserveSharedSecret (accountKeys : AccountKeys) (txPubKey : PublicKey) : PublicKey :=
  ⟨(S.scalarmultKey ⟨txPubKey.data⟩ ⟨accountKeys.viewSecretKey.data⟩).data⟩

/-- The inner `for (int i = 0; i < 2; ++i)` loop of `getReserveProof`, with the passes left and
`proof.shared_secret` so far: each pass recomputes the shared secret and checks that
`generate_key_derivation` accepts it. -/
def sharedSecretLoop (accountKeys : AccountKeys) (txPubKey : PublicKey) :
    Nat → PublicKey → Except ProofError PublicKey
  | 0, sharedSecret => .ok sharedSecret
  | n + 1, _ =>
      let sharedSecret := reserveSharedSecret S accountKeys txPubKey
      match P.generateKeyDerivation sharedSecret accountKeys.viewSecretKey with
      | none => .error (.returnFalse "Failed to generate key derivation")
      | some _ => sharedSecretLoop accountKeys txPubKey n sharedSecret

/-- The second loop of `getReserveProof` over the remaining transfers, with the counter `i` and the
entries made so far. `proofs` starts value-initialised, so the shared secret starts at zero. -/
def reserveProofEntriesLoop (accountKeys : AccountKeys) (prefixHash : Hash)
    (kimages : List KeyImage) :
    List TransactionOutputInformation → Nat → List ReserveProofEntry →
      Except ProofError (List ReserveProofEntry)
  | [], _, proofs => .ok proofs
  | td :: tds, i, proofs =>
      match sharedSecretLoop P S accountKeys td.transactionPublicKey 2 ⟨List.replicate 32 0⟩ with
      | .error e => .error e
      | .ok sharedSecret =>
          match S.generateTxProof prefixHash accountKeys.address.viewPublicKey
              td.transactionPublicKey sharedSecret accountKeys.viewSecretKey with
          | .error what => .error (.runtimeError what)
          | .ok sharedSecretSig =>
              match generateKeyImageHelper P accountKeys td.transactionPublicKey
                  td.outputInTransaction.toNat with
              | none => .error (.returnFalse "Failed to generate key image")
              | some (ephemeral, _) =>
                  if ephemeral.publicKey ≠ td.outputKey then
                    .error (.returnFalse "Derived public key doesn't agree with the stored one")
                  else
                    let keyImage := kimages.getD i ⟨[]⟩
                    let entry : ReserveProofEntry :=
                      { transactionId := td.transactionHash
                        indexInTransaction := td.outputInTransaction.toUInt64
                        sharedSecret := sharedSecret
                        keyImage := keyImage
                        sharedSecretSig := sharedSecretSig
                        keyImageSig := P.generateRingSignature prefixHash keyImage
                          [ephemeral.publicKey] ephemeral.secretKey 0 0 }
                    reserveProofEntriesLoop accountKeys prefixHash kimages tds (i + 1)
                      (proofs ++ [entry])

/-- `getReserveProof(selectedTransfers, accountKeys, amount, message, reserveProof, log)`: the
base58 text of the reserve proof. The source never reads `amount`. -/
def getReserveProof (selectedTransfers : List TransactionOutputInformation)
    (accountKeys : AccountKeys) (_amount : UInt64) (message : List UInt8) :
    Except ProofError (List UInt8) :=
  match reserveKeyImagesLoop P accountKeys selectedTransfers
      (message ++ accountKeys.address.bytes) [] with
  | .error e => .error e
  | .ok (prefixData, kimages) =>
      let prefixHash := S.cnFastHash prefixData
      match reserveProofEntriesLoop P S accountKeys prefixHash kimages selectedTransfers 0 [] with
      | .error e => .error e
      | .ok proofs =>
          let signature := S.generateSignature prefixHash accountKeys.address.spendPublicKey
            accountKeys.spendSecretKey
          .ok (S.encodeAddr S.reserveProofBase58Tag
            (S.reserveProofToBinaryArray ⟨proofs, signature⟩))

/-! ## What a reserve proof holds -/

/-- The key image `generate_key_image_helper` gives for a transfer. -/
def transferKeyImage (accountKeys : AccountKeys) (td : TransactionOutputInformation) :
    Option KeyImage :=
  (generateKeyImageHelper P accountKeys td.transactionPublicKey td.outputInTransaction.toNat).map
    Prod.snd

/-- The hash a reserve proof signs: `cn_fast_hash` of the message, the address and the key
images. -/
def reserveProofPrefixHash (accountKeys : AccountKeys) (message : List UInt8)
    (kimages : List KeyImage) : Hash :=
  S.cnFastHash (message ++ accountKeys.address.bytes ++ (kimages.map KeyImage.data).flatten)

/-- The entry a reserve proof holds for transfer `td` with key image `ki`, under `prefixHash`:
`generate_key_derivation` accepts the shared secret and the view key signs it, the one-time key
re-derives to the stored `outputKey`, and the key image is signed over the one-key ring of that
key. -/
def ReserveProofEntrySpec (accountKeys : AccountKeys) (prefixHash : Hash)
    (td : TransactionOutputInformation) (ki : KeyImage) (entry : ReserveProofEntry) : Prop :=
  let sharedSecret := reserveSharedSecret S accountKeys td.transactionPublicKey
  (P.generateKeyDerivation sharedSecret accountKeys.viewSecretKey).isSome ∧
    ∃ ephemeral ki' sharedSecretSig,
      generateKeyImageHelper P accountKeys td.transactionPublicKey td.outputInTransaction.toNat =
        some (ephemeral, ki') ∧
      ephemeral.publicKey = td.outputKey ∧
      S.generateTxProof prefixHash accountKeys.address.viewPublicKey td.transactionPublicKey
        sharedSecret accountKeys.viewSecretKey = .ok sharedSecretSig ∧
      entry =
        { transactionId := td.transactionHash
          indexInTransaction := td.outputInTransaction.toUInt64
          sharedSecret := sharedSecret
          keyImage := ki
          sharedSecretSig := sharedSecretSig
          keyImageSig := P.generateRingSignature prefixHash ki [td.outputKey]
            ephemeral.secretKey 0 0 }

section ReserveProofLoops

variable {P S} (accountKeys : AccountKeys)

/-- The first loop succeeds exactly when every key image can be recomputed; it appends them, in
order, to `prefix_data` and to `kimages`. -/
theorem reserveKeyImagesLoop_eq_ok_iff (tds : List TransactionOutputInformation)
    (prefixData : List UInt8) (kimages : List KeyImage) (r : List UInt8 × List KeyImage) :
    reserveKeyImagesLoop P accountKeys tds prefixData kimages = .ok r ↔
      ∃ kis, List.Forall₂ (fun td ki => transferKeyImage P accountKeys td = some ki) tds kis ∧
        r = (prefixData ++ (kis.map KeyImage.data).flatten, kimages ++ kis) := by
  induction tds generalizing prefixData kimages with
  | nil => simp [reserveKeyImagesLoop, eq_comm]
  | cons td tds ih =>
      simp only [reserveKeyImagesLoop, List.forall₂_cons_left_iff]
      cases h : generateKeyImageHelper P accountKeys td.transactionPublicKey
          td.outputInTransaction.toNat with
      | none =>
          exact ⟨nofun, fun ⟨_, ⟨_, _, hki, _⟩, _⟩ => by simp [transferKeyImage, h] at hki⟩
      | some pair =>
          have hki : transferKeyImage P accountKeys td = some pair.2 := by
            simp [transferKeyImage, h]
          simp only [h, hki, ih, Option.some.injEq, exists_eq_left']
          constructor
          · rintro ⟨kis, hall, rfl⟩
            exact ⟨pair.2 :: kis, ⟨pair.2, kis, rfl, hall, rfl⟩, by simp⟩
          · rintro ⟨_, ⟨_, kis, rfl, hall, rfl⟩, rfl⟩
            exact ⟨kis, hall, by simp⟩

/-- Every pass of the inner loop recomputes the same shared secret and makes the same check, so
any number of passes does what one does. -/
theorem sharedSecretLoop_succ (txPubKey : PublicKey) (n : Nat) (sharedSecret : PublicKey) :
    sharedSecretLoop P S accountKeys txPubKey (n + 1) sharedSecret =
      match P.generateKeyDerivation (reserveSharedSecret S accountKeys txPubKey)
          accountKeys.viewSecretKey with
      | none => .error (.returnFalse "Failed to generate key derivation")
      | some _ => .ok (reserveSharedSecret S accountKeys txPubKey) := by
  induction n generalizing sharedSecret with
  | zero => simp only [sharedSecretLoop]
  | succ n ih =>
      rw [sharedSecretLoop, ih]
      cases P.generateKeyDerivation (reserveSharedSecret S accountKeys txPubKey)
        accountKeys.viewSecretKey <;> rfl

/-- One pass of the second loop: it succeeds exactly when it makes the entry the specification
gives for the transfer and its key image, and the rest of the loop succeeds after it. -/
theorem reserveProofEntriesLoop_cons_eq_ok_iff (prefixHash : Hash) (kimages : List KeyImage)
    (td : TransactionOutputInformation) (tds : List TransactionOutputInformation) (i : Nat)
    (proofs result : List ReserveProofEntry) :
    reserveProofEntriesLoop P S accountKeys prefixHash kimages (td :: tds) i proofs = .ok result ↔
      ∃ entry, ReserveProofEntrySpec P S accountKeys prefixHash td (kimages.getD i ⟨[]⟩) entry ∧
        reserveProofEntriesLoop P S accountKeys prefixHash kimages tds (i + 1) (proofs ++ [entry]) =
          .ok result := by
  simp only [reserveProofEntriesLoop, sharedSecretLoop_succ, ReserveProofEntrySpec]
  cases hd : P.generateKeyDerivation (reserveSharedSecret S accountKeys td.transactionPublicKey)
      accountKeys.viewSecretKey with
  | none => exact ⟨nofun, fun ⟨_, ⟨hsome, _⟩, _⟩ => (Bool.false_ne_true hsome).elim⟩
  | some _ =>
      dsimp only
      cases hsig : S.generateTxProof prefixHash accountKeys.address.viewPublicKey
          td.transactionPublicKey (reserveSharedSecret S accountKeys td.transactionPublicKey)
          accountKeys.viewSecretKey with
      | error => exact ⟨nofun, fun ⟨_, ⟨_, _, _, _, _, _, hsig', _⟩, _⟩ => nomatch hsig'⟩
      | ok sig =>
          dsimp only
          cases hk : generateKeyImageHelper P accountKeys td.transactionPublicKey
              td.outputInTransaction.toNat with
          | none => exact ⟨nofun, fun ⟨_, ⟨_, _, _, _, hk', _⟩, _⟩ => nomatch hk'⟩
          | some pair =>
              obtain ⟨ephemeral, ki'⟩ := pair
              by_cases heq : ephemeral.publicKey = td.outputKey
              · simp only [heq, ne_eq, not_true_eq_false, if_false]
                constructor
                · exact fun h => ⟨_, ⟨rfl, ephemeral, ki', sig, rfl, heq, rfl, rfl⟩, h⟩
                · rintro ⟨_, ⟨-, _, _, _, hk', -, hsig', rfl⟩, h⟩
                  cases hk'
                  cases hsig'
                  exact h
              · simp only [heq, ne_eq, not_false_eq_true, if_true]
                refine ⟨nofun, fun ⟨_, ⟨_, _, _, _, hk', hpub, _⟩, _⟩ => ?_⟩
                cases hk'
                exact (heq hpub).elim

/-- The second loop succeeds exactly when every transfer gets the entry the specification gives
for it and the key image at its position; it appends them in order. -/
theorem reserveProofEntriesLoop_eq_ok_iff (prefixHash : Hash) (kimages : List KeyImage)
    (tds : List TransactionOutputInformation) (i : Nat) (proofs result : List ReserveProofEntry)
    (hlen : i + tds.length ≤ kimages.length) :
    reserveProofEntriesLoop P S accountKeys prefixHash kimages tds i proofs = .ok result ↔
      ∃ entries, List.Forall₂ (fun p e => ReserveProofEntrySpec P S accountKeys prefixHash p.1 p.2 e)
          (tds.zip (kimages.drop i)) entries ∧ result = proofs ++ entries := by
  induction tds generalizing i proofs with
  | nil => simp [reserveProofEntriesLoop, eq_comm]
  | cons td tds ih =>
      have hi : i < kimages.length := by simp at hlen; omega
      have hlen' : i + 1 + tds.length ≤ kimages.length := by simp at hlen; omega
      rw [reserveProofEntriesLoop_cons_eq_ok_iff, List.drop_eq_getElem_cons hi, List.zip_cons_cons,
        List.getD_eq_getElem _ _ hi]
      simp only [List.forall₂_cons_left_iff, ih (i + 1) _ hlen']
      constructor
      · rintro ⟨entry, hspec, entries, hall, rfl⟩
        exact ⟨entry :: entries, ⟨entry, entries, hspec, hall, rfl⟩, by simp⟩
      · rintro ⟨_, ⟨entry, entries, hspec, hall, rfl⟩, rfl⟩
        exact ⟨entry, hspec, entries, hall, by simp⟩

/-- `getReserveProof` returns a proof exactly when both loops succeed, the second under the hash
of what the first appended. -/
theorem getReserveProof_eq_ok_iff_loops (selectedTransfers : List TransactionOutputInformation)
    (amount : UInt64) (message proof : List UInt8) :
    getReserveProof P S selectedTransfers accountKeys amount message = .ok proof ↔
      ∃ prefixData kimages proofs,
        reserveKeyImagesLoop P accountKeys selectedTransfers
          (message ++ accountKeys.address.bytes) [] = .ok (prefixData, kimages) ∧
        reserveProofEntriesLoop P S accountKeys (S.cnFastHash prefixData) kimages
          selectedTransfers 0 [] = .ok proofs ∧
        proof = S.encodeAddr S.reserveProofBase58Tag (S.reserveProofToBinaryArray
          ⟨proofs, S.generateSignature (S.cnFastHash prefixData) accountKeys.address.spendPublicKey
            accountKeys.spendSecretKey⟩) := by
  unfold getReserveProof
  cases h1 : reserveKeyImagesLoop P accountKeys selectedTransfers
      (message ++ accountKeys.address.bytes) [] with
  | error e => exact ⟨fun h => (by cases h), fun ⟨_, _, _, h1', _⟩ => nomatch h1'⟩
  | ok r =>
      obtain ⟨prefixData, kimages⟩ := r
      cases h2 : reserveProofEntriesLoop P S accountKeys (S.cnFastHash prefixData) kimages
          selectedTransfers 0 [] with
      | error e =>
          refine ⟨fun h => (by simp [h2] at h), fun ⟨_, _, _, h1', h2', _⟩ => ?_⟩
          obtain ⟨rfl, rfl⟩ := Prod.mk.inj (Except.ok.inj h1')
          exact nomatch h2.symm.trans h2'
      | ok proofs =>
          simp only [h2, Except.ok.injEq]
          constructor
          · rintro rfl
            exact ⟨prefixData, kimages, proofs, rfl, h2, rfl⟩
          · rintro ⟨_, _, _, h1', h2', rfl⟩
            obtain ⟨rfl, rfl⟩ := Prod.mk.inj h1'
            cases h2.symm.trans h2'
            rfl

/-- `getReserveProof` succeeds exactly when every transfer's key image can be recomputed and every
transfer gets its `ReserveProofEntrySpec` entry; the proof encodes those entries, spend-signed. -/
theorem getReserveProof_eq_ok_iff (selectedTransfers : List TransactionOutputInformation)
    (amount : UInt64) (message proof : List UInt8) :
    getReserveProof P S selectedTransfers accountKeys amount message = .ok proof ↔
      ∃ kimages entries,
        List.Forall₂ (fun td ki => transferKeyImage P accountKeys td = some ki)
          selectedTransfers kimages ∧
        List.Forall₂ (fun p e => ReserveProofEntrySpec P S accountKeys
            (reserveProofPrefixHash S accountKeys message kimages) p.1 p.2 e)
          (selectedTransfers.zip kimages) entries ∧
        proof = S.encodeAddr S.reserveProofBase58Tag (S.reserveProofToBinaryArray
          ⟨entries, S.generateSignature (reserveProofPrefixHash S accountKeys message kimages)
            accountKeys.address.spendPublicKey accountKeys.spendSecretKey⟩) := by
  rw [getReserveProof_eq_ok_iff_loops]
  constructor
  · rintro ⟨prefixData, kis, proofs, h1, h2, rfl⟩
    obtain ⟨kimages, hkeys, hr⟩ := (reserveKeyImagesLoop_eq_ok_iff accountKeys _ _ _ _).mp h1
    simp only [Prod.mk.injEq, List.nil_append] at hr
    obtain ⟨rfl, rfl⟩ := hr
    have hlen : 0 + selectedTransfers.length ≤ kis.length := by simp [hkeys.length_eq]
    obtain ⟨_, hall, rfl⟩ :=
      (reserveProofEntriesLoop_eq_ok_iff accountKeys _ _ _ _ _ _ hlen).mp h2
    exact ⟨kis, _, hkeys, by simpa only [List.drop_zero] using hall, rfl⟩
  · rintro ⟨kimages, entries, hkeys, hall, rfl⟩
    have hlen : 0 + selectedTransfers.length ≤ kimages.length := by simp [hkeys.length_eq]
    exact ⟨_, kimages, entries,
      (reserveKeyImagesLoop_eq_ok_iff accountKeys _ _ _ _).mpr ⟨kimages, hkeys, rfl⟩,
      (reserveProofEntriesLoop_eq_ok_iff accountKeys _ _ _ _ _ _ hlen).mpr
        ⟨entries, by simpa only [List.drop_zero] using hall, rfl⟩, rfl⟩

end ReserveProofLoops

/-! ## `signMessage` and `verifyMessage` -/

/-- `signMessage(data, keys)`: the base58 text of the spend key's signature of `cn_fast_hash`. -/
def signMessage (data : List UInt8) (keys : AccountKeys) : List UInt8 :=
  let signature := S.generateSignature (S.cnFastHash data) keys.address.spendPublicKey
    keys.spendSecretKey
  S.encodeAddr S.keysSignatureBase58Tag signature.data

/-- `verifyMessage(data, address, signature, log)`: the verdict of `check_signature`, or the
logged error when the text does not decode to a message signature of the right size. -/
def verifyMessage (data : List UInt8) (address : AccountPublicAddress) (signature : List UInt8) :
    Except String Bool :=
  match S.decodeAddr signature with
  | none => .error "Signature decoding error"
  | some (tag, decoded) =>
      if tag ≠ S.keysSignatureBase58Tag then .error "Signature decoding error"
      else if signatureSize ≠ decoded.length then .error "Signature size wrong"
      else .ok (S.checkSignature (S.cnFastHash data) address.spendPublicKey ⟨decoded⟩)

end CryptoNote
end Ssix
