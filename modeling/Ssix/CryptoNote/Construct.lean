import Ssix.CryptoNote.Offsets
import Ssix.CryptoNote.Primitives

/-!
# Construct — the wallet-side transaction builder

`constructTransaction` fills a transaction in three loops: one `KeyInput` per source, with its key
image and relative ring offsets; one `KeyOutput` per destination, in amount order, keyed by a
one-time key derived at `output_index`; and one ring signature per source. Between them it derives
the transaction key pair and checks `summary_outs_money > summary_inputs_money` on the two
wrapping `uint64_t` totals.

Each loop is a structural recursion over the rest of its vector, carrying the locals the loop
updates. A run ends in `.ok (tx, tx_key)` where the source returns `true`, in
`.error .returnFalse` where it returns `false`, and in `.error .outOfRange` where it would index
past the end of a vector or apply `boost::get<KeyInput>` to another alternative. The `assert`s of
`generate_key_image_helper` are off, as in a release build; the partly filled `tx` a failed run
leaves behind is not modelled.

Each loop has its spec lemma, and `constructTransaction_ok` takes a successful run apart into its
loops; the theorems about runs are assembled from these. `fillInputs_eq_ok_iff` and
`fillOutputs_isOk_iff` say exactly when the first two loops succeed, each from a lemma on one pass,
and `fillSignatures_isOk` that the third cannot fail once the inputs and contexts line up.
-/

namespace Ssix
namespace CryptoNote

variable (P : Primitives)

/-- How a run of `constructTransaction` stops short of `return true`. -/
inductive Abort where
  /-- A check failed and the function returned `false`. -/
  | returnFalse
  /-- An index past the end of a vector, or a failed `boost::get`. -/
  | outOfRange
  deriving DecidableEq, Repr

/-! ## Helpers of the builder -/

/-- `generate_key_image_helper(ack, tx_public_key, real_output_index, in_ephemeral, ki)`: the
one-time key pair of the real output and its key image. -/
def generateKeyImageHelper (ack : AccountKeys) (txPublicKey : PublicKey) (realOutputIndex : Nat) :
    Option (KeyPair × KeyImage) :=
  match P.generateKeyDerivation txPublicKey ack.viewSecretKey with
  | none => none
  | some recvDerivation =>
      match P.derivePublicKey recvDerivation realOutputIndex ack.address.spendPublicKey with
      | none => none
      | some publicKey =>
          let secretKey := P.deriveSecretKey recvDerivation realOutputIndex ack.spendSecretKey
          some (⟨publicKey, secretKey⟩, P.generateKeyImage publicKey secretKey)

/-- `generateDeterministicTransactionKeys(inputsHash, viewSecretKey, generatedKeys)`. -/
def generateDeterministicTransactionKeys (inputsHash : Hash) (viewSecretKey : SecretKey) :
    Option KeyPair :=
  let secretKey := P.hashToScalar (viewSecretKey.data ++ inputsHash.data)
  (P.secretKeyToPublicKey secretKey).map fun publicKey => ⟨publicKey, secretKey⟩

/-- `generateDeterministicTransactionKeys(tx, viewSecretKey, generatedKeys)`: the key pair derived
from the hash of the transaction's inputs. -/
def Transaction.generateDeterministicTransactionKeys (tx : Transaction)
    (viewSecretKey : SecretKey) : Option KeyPair :=
  CryptoNote.generateDeterministicTransactionKeys P (P.inputsHash tx.inputs) viewSecretKey

/-- The `KeyInput` the inputs loop builds for a source: its amount, its key image and the ring's
global indices made relative. -/
def sourceInput (src : TransactionSourceEntry) (img : KeyImage) : KeyInput where
  amount := src.amount
  outputIndexes := absoluteOutputOffsetsToRelative (src.outputs.map Prod.fst)
  keyImage := img

/-! ## The three loops -/

/-- The `fill inputs` loop over the remaining sources, with `in_contexts`,
`summary_inputs_money` and `tx.inputs` as built so far. -/
def fillInputs (sender : AccountKeys) :
    List TransactionSourceEntry → List KeyPair → UInt64 → List TransactionInput →
      Except Abort (List KeyPair × UInt64 × List TransactionInput)
  | [], inContexts, money, inputs => .ok (inContexts, money, inputs)
  | src :: srcs, inContexts, money, inputs =>
      if src.realOutput ≥ src.outputs.length then .error .returnFalse
      else
        match generateKeyImageHelper P sender src.realTransactionPublicKey
            src.realOutputIndexInTransaction with
        | none => .error .returnFalse
        | some (inEphemeral, img) =>
            match src.outputs[src.realOutput]? with
            | none => .error .outOfRange
            | some realEntry =>
                if inEphemeral.publicKey ≠ realEntry.2 then .error .returnFalse
                else
                  fillInputs sender srcs (inContexts ++ [inEphemeral]) (money + src.amount)
                    (inputs ++ [.key (sourceInput src img)])

/-- The `fill outputs` loop over the remaining sorted destinations, with `output_index`,
`summary_outs_money` and `tx.outputs` as built so far. -/
def fillOutputs (txSecretKey : SecretKey) :
    List TransactionDestinationEntry → Nat → UInt64 → List TransactionOutput →
      Except Abort (UInt64 × List TransactionOutput)
  | [], _, money, outputs => .ok (money, outputs)
  | dst :: dsts, outputIndex, money, outputs =>
      if ¬ dst.amount > 0 then .error .returnFalse
      else
        match P.generateKeyDerivation dst.addr.viewPublicKey txSecretKey with
        | none => .error .returnFalse
        | some derivation =>
            match P.derivePublicKey derivation outputIndex dst.addr.spendPublicKey with
            | none => .error .returnFalse
            | some outEphPublicKey =>
                fillOutputs txSecretKey dsts (outputIndex + 1) (money + dst.amount)
                  (outputs ++ [{ amount := dst.amount, target := .key outEphPublicKey }])

/-- The ring signatures loop over the remaining sources, with the counter `i` and
`tx.signatures` as built so far. Each group is `src.outputs.size()` signatures long. -/
def fillSignatures (txPrefixHash : Hash) (inputs : List TransactionInput)
    (inContexts : List KeyPair) :
    List TransactionSourceEntry → Nat → List (List Signature) → Except Abort (List (List Signature))
  | [], _, signatures => .ok signatures
  | src :: srcs, i, signatures =>
      match inputs[i]?, inContexts[i]? with
      | some (.key input), some inEphemeral =>
          let keys := src.outputs.map Prod.snd
          let sigs := (List.range src.outputs.length).map
            (P.generateRingSignature txPrefixHash input.keyImage keys inEphemeral.secretKey
              src.realOutput)
          fillSignatures txPrefixHash inputs inContexts srcs (i + 1) (signatures ++ [sigs])
      | _, _ => .error .outOfRange

/-- `constructTransaction(sender_account_keys, sources, destinations, extra, tx, unlock_time,
tx_key, log)`: the transaction and `tx_key` where the source returns `true`. -/
def constructTransaction (senderAccountKeys : AccountKeys) (sources : List TransactionSourceEntry)
    (destinations : List TransactionDestinationEntry) (extra : List UInt8) (unlockTime : UInt64) :
    Except Abort (Transaction × SecretKey) :=
  match fillInputs P senderAccountKeys sources [] 0 [] with
  | .error e => .error e
  | .ok (inContexts, summaryInputsMoney, inputs) =>
      match generateDeterministicTransactionKeys P (P.inputsHash inputs)
          senderAccountKeys.viewSecretKey with
      | none => .error .returnFalse
      | some txkey =>
          let extra := P.addTransactionPublicKeyToExtra extra txkey.publicKey
          match fillOutputs P txkey.secretKey (P.sortByAmount destinations) 0 0 [] with
          | .error e => .error e
          | .ok (summaryOutsMoney, outputs) =>
              if summaryOutsMoney > summaryInputsMoney then .error .returnFalse
              else
                let pre : TransactionPrefix :=
                  { version := P.currentTransactionVersion, unlockTime := unlockTime,
                    inputs := inputs, outputs := outputs, extra := extra }
                match fillSignatures P (P.prefixHash pre) inputs inContexts sources 0 [] with
                | .error e => .error e
                | .ok signatures => .ok ({ pre with signatures := signatures }, txkey.secretKey)

/-! ## The inputs loop -/

theorem fillInputs_ne_outOfRange (sender : AccountKeys) (srcs : List TransactionSourceEntry)
    (inContexts : List KeyPair) (money : UInt64) (inputs : List TransactionInput) :
    fillInputs P sender srcs inContexts money inputs ≠ .error .outOfRange := by
  induction srcs generalizing inContexts money inputs with
  | nil => simp [fillInputs]
  | cons src srcs ih =>
      simp only [fillInputs]
      split
      · simp
      · rename_i hlt
        split
        · simp
        · simp only [List.getElem?_eq_getElem (Nat.lt_of_not_ge hlt)]
          split
          · simp
          · exact ih _ _ _

/-- A completed inputs loop appended one context and one `KeyInput` per source and added their
amounts in wrapping arithmetic. -/
theorem fillInputs_ok {sender : AccountKeys} {srcs : List TransactionSourceEntry}
    {inContexts inContexts' : List KeyPair} {money money' : UInt64}
    {inputs inputs' : List TransactionInput}
    (h : fillInputs P sender srcs inContexts money inputs = .ok (inContexts', money', inputs')) :
    ∃ newContexts newInputs, inContexts' = inContexts ++ newContexts ∧
      inputs' = inputs ++ newInputs ∧ newContexts.length = srcs.length ∧
      List.Forall₂ (fun src input => ∃ img, input = .key (sourceInput src img)) srcs newInputs ∧
      money' = (srcs.map TransactionSourceEntry.amount).foldl (· + ·) money := by
  induction srcs generalizing inContexts money inputs with
  | nil =>
      simp only [fillInputs, Except.ok.injEq, Prod.mk.injEq] at h
      obtain ⟨rfl, rfl, rfl⟩ := h
      exact ⟨[], [], by simp, by simp, rfl, .nil, rfl⟩
  | cons src srcs ih =>
      simp only [fillInputs] at h
      split at h
      · cases h
      · split at h
        · cases h
        · rename_i inEphemeral img _
          split at h
          · cases h
          · split at h
            · cases h
            · obtain ⟨newContexts, newInputs, rfl, rfl, hlen, hall, rfl⟩ := ih h
              exact ⟨inEphemeral :: newContexts, .key (sourceInput src img) :: newInputs,
                by simp, by simp, by simp [hlen], .cons ⟨img, rfl⟩ hall, rfl⟩

/-- A source the sender can spend, with the one-time key pair and key image the inputs loop
derives for it: `generate_key_image_helper` succeeds, the real output is in the ring, and its key
is the derived one-time public key. -/
def SpendableSource (sender : AccountKeys) (src : TransactionSourceEntry)
    (key : KeyPair × KeyImage) : Prop :=
  generateKeyImageHelper P sender src.realTransactionPublicKey src.realOutputIndexInTransaction =
      some key ∧
    ∃ realEntry, src.outputs[src.realOutput]? = some realEntry ∧ key.1.publicKey = realEntry.2

/-- One pass of the inputs loop succeeds exactly when its source is spendable, and the loop then
goes on with that source's key pair, amount and `KeyInput` appended. -/
theorem fillInputs_cons_eq_ok_iff {sender : AccountKeys} {src : TransactionSourceEntry}
    {srcs : List TransactionSourceEntry} {inContexts : List KeyPair} {money : UInt64}
    {inputs : List TransactionInput} {r : List KeyPair × UInt64 × List TransactionInput} :
    fillInputs P sender (src :: srcs) inContexts money inputs = .ok r ↔
      ∃ key, SpendableSource P sender src key ∧
        fillInputs P sender srcs (inContexts ++ [key.1]) (money + src.amount)
          (inputs ++ [.key (sourceInput src key.2)]) = .ok r := by
  simp only [fillInputs]
  by_cases hlt : src.realOutput < src.outputs.length
  · rw [if_neg (Nat.not_le.mpr hlt), List.getElem?_eq_getElem hlt]
    cases hk : generateKeyImageHelper P sender src.realTransactionPublicKey
        src.realOutputIndexInTransaction with
    | none => exact ⟨nofun, fun ⟨_, ⟨hk', _⟩, _⟩ => nomatch hk.symm.trans hk'⟩
    | some key =>
        obtain ⟨ephemeral, img⟩ := key
        dsimp only
        have hkey {key} (hk' : generateKeyImageHelper P sender src.realTransactionPublicKey
            src.realOutputIndexInTransaction = some key) : key = (ephemeral, img) :=
          Option.some.inj (hk'.symm.trans hk)
        by_cases heq : ephemeral.publicKey = src.outputs[src.realOutput].2
        · simp only [heq, ne_eq, not_true_eq_false, if_false]
          constructor
          · exact fun h => ⟨(ephemeral, img), ⟨hk, _, List.getElem?_eq_getElem hlt, heq⟩, h⟩
          · rintro ⟨key, ⟨hk', -⟩, h⟩
            obtain rfl := hkey hk'
            exact h
        · rw [if_pos (by exact heq)]
          refine ⟨nofun, fun ⟨key, ⟨hk', _, hreal, hpub⟩, _⟩ => (heq ?_).elim⟩
          obtain rfl := hkey hk'
          rw [List.getElem?_eq_getElem hlt, Option.some.injEq] at hreal
          exact hreal ▸ hpub
  · rw [if_pos (Nat.le_of_not_lt hlt)]
    refine ⟨nofun, fun ⟨_, ⟨_, _, hreal, _⟩, _⟩ => ?_⟩
    rw [List.getElem?_eq_none (Nat.le_of_not_lt hlt)] at hreal
    cases hreal

/-- The inputs loop succeeds exactly when every source is spendable; it then appends their
one-time key pairs and their `KeyInput`s in order and adds their amounts. -/
theorem fillInputs_eq_ok_iff {sender : AccountKeys} {srcs : List TransactionSourceEntry}
    {inContexts : List KeyPair} {money : UInt64} {inputs : List TransactionInput}
    {r : List KeyPair × UInt64 × List TransactionInput} :
    fillInputs P sender srcs inContexts money inputs = .ok r ↔
      ∃ keys, List.Forall₂ (SpendableSource P sender) srcs keys ∧
        r = (inContexts ++ keys.map Prod.fst,
          (srcs.map TransactionSourceEntry.amount).foldl (· + ·) money,
          inputs ++ (srcs.zip keys).map fun p => .key (sourceInput p.1 p.2.2)) := by
  induction srcs generalizing inContexts money inputs with
  | nil => simp [fillInputs, eq_comm]
  | cons src srcs ih =>
      simp only [fillInputs_cons_eq_ok_iff, ih, List.forall₂_cons_left_iff]
      constructor
      · rintro ⟨key, hsrc, keys, hall, rfl⟩
        exact ⟨key :: keys, ⟨key, keys, hsrc, hall, rfl⟩, by simp⟩
      · rintro ⟨_, ⟨key, keys, hsrc, hall, rfl⟩, rfl⟩
        exact ⟨key, hsrc, keys, hall, by simp⟩

/-! ## The outputs loop -/

/-- `o` is the output the outputs loop builds for `dst` at `output_index`: a key output of the
destination's positive amount, keyed by `derive_public_key` at that index from the derivation of
the destination's view key with the transaction secret key. -/
def BuiltOutput (txSecretKey : SecretKey) (dst : TransactionDestinationEntry) (outputIndex : Nat)
    (o : TransactionOutput) : Prop :=
  0 < dst.amount ∧ ∃ derivation key,
    P.generateKeyDerivation dst.addr.viewPublicKey txSecretKey = some derivation ∧
      P.derivePublicKey derivation outputIndex dst.addr.spendPublicKey = some key ∧
      o = { amount := dst.amount, target := .key key }

theorem fillOutputs_ne_outOfRange (txSecretKey : SecretKey) (dsts : List TransactionDestinationEntry)
    (outputIndex : Nat) (money : UInt64) (outputs : List TransactionOutput) :
    fillOutputs P txSecretKey dsts outputIndex money outputs ≠ .error .outOfRange := by
  induction dsts generalizing outputIndex money outputs with
  | nil => simp [fillOutputs]
  | cons dst dsts ih =>
      simp only [fillOutputs]
      split
      · simp
      · split
        · simp
        · split
          · simp
          · exact ih _ _ _

/-- A completed outputs loop appended one `BuiltOutput` per destination at consecutive
`output_index` values and added their amounts in wrapping arithmetic. -/
theorem fillOutputs_ok {txSecretKey : SecretKey} {dsts : List TransactionDestinationEntry}
    {outputIndex : Nat} {money money' : UInt64} {outputs outputs' : List TransactionOutput}
    (h : fillOutputs P txSecretKey dsts outputIndex money outputs = .ok (money', outputs')) :
    ∃ newOutputs, outputs' = outputs ++ newOutputs ∧ newOutputs.length = dsts.length ∧
      (∀ (j : Nat) (hj : j < dsts.length) (hj' : j < newOutputs.length),
        BuiltOutput P txSecretKey dsts[j] (outputIndex + j) newOutputs[j]) ∧
      money' = (dsts.map TransactionDestinationEntry.amount).foldl (· + ·) money := by
  induction dsts generalizing outputIndex money outputs with
  | nil =>
      simp only [fillOutputs, Except.ok.injEq, Prod.mk.injEq] at h
      obtain ⟨rfl, rfl⟩ := h
      exact ⟨[], by simp, rfl, fun j hj => absurd hj (by simp), rfl⟩
  | cons dst dsts ih =>
      simp only [fillOutputs] at h
      split at h
      · cases h
      · rename_i hpos
        split at h
        · cases h
        · rename_i derivation hd
          split at h
          · cases h
          · rename_i key hk
            obtain ⟨newOutputs, rfl, hlen, hall, rfl⟩ := ih h
            refine ⟨{ amount := dst.amount, target := .key key } :: newOutputs, by simp,
              by simp [hlen], fun j hj hj' => ?_, rfl⟩
            cases j with
            | zero => exact ⟨by simpa using hpos, derivation, key, hd, hk, rfl⟩
            | succ j =>
                have := hall j (by simpa using hj) (by simpa using hj')
                simpa [Nat.add_assoc, Nat.add_comm 1 j] using this

/-- One pass of the outputs loop succeeds exactly when its destination gets a `BuiltOutput`, and
the loop then goes on with that output appended. -/
theorem fillOutputs_cons_isOk_iff {txSecretKey : SecretKey} {dst : TransactionDestinationEntry}
    {dsts : List TransactionDestinationEntry} {outputIndex : Nat} {money : UInt64}
    {outputs : List TransactionOutput} :
    (∃ r, fillOutputs P txSecretKey (dst :: dsts) outputIndex money outputs = .ok r) ↔
      ∃ o, BuiltOutput P txSecretKey dst outputIndex o ∧
        ∃ r, fillOutputs P txSecretKey dsts (outputIndex + 1) (money + dst.amount)
          (outputs ++ [o]) = .ok r := by
  simp only [fillOutputs]
  by_cases hpos : dst.amount > 0
  · rw [if_neg (not_not.mpr hpos)]
    cases hd : P.generateKeyDerivation dst.addr.viewPublicKey txSecretKey with
    | none => exact ⟨nofun, fun ⟨_, ⟨_, _, _, hd', _⟩, _⟩ => nomatch hd.symm.trans hd'⟩
    | some derivation =>
        dsimp only
        cases hk : P.derivePublicKey derivation outputIndex dst.addr.spendPublicKey with
        | none =>
            refine ⟨nofun, fun ⟨_, ⟨_, _, _, hd', hk', _⟩, _⟩ => ?_⟩
            cases hd.symm.trans hd'
            exact nomatch hk.symm.trans hk'
        | some key =>
            dsimp only
            refine ⟨fun h => ⟨_, ⟨hpos, derivation, key, hd, hk, rfl⟩, h⟩, ?_⟩
            rintro ⟨_, ⟨-, _, _, hd', hk', rfl⟩, h⟩
            cases hd.symm.trans hd'
            cases hk.symm.trans hk'
            exact h
  · rw [if_pos hpos]
    exact ⟨nofun, fun ⟨_, ⟨hpos', _⟩, _⟩ => (hpos hpos').elim⟩

theorem forall_getElem_cons_iff {α : Type} {p : Nat → α → Prop} {a : α} {l : List α} :
    (∀ (j : Nat) (hj : j < (a :: l).length), p j (a :: l)[j]) ↔
      p 0 a ∧ ∀ (j : Nat) (hj : j < l.length), p (j + 1) l[j] := by
  refine ⟨fun h => ⟨h 0 (by simp), fun j hj => h (j + 1) (by simpa using hj)⟩, ?_⟩
  rintro ⟨h0, h⟩ (_ | j) hj
  exacts [h0, h j (by simpa using hj)]

/-- The outputs loop succeeds exactly when every destination has a `BuiltOutput` at its
`output_index`: a positive amount, a derivation from its view key and a derived one-time key. -/
theorem fillOutputs_isOk_iff {txSecretKey : SecretKey} {dsts : List TransactionDestinationEntry}
    {outputIndex : Nat} {money : UInt64} {outputs : List TransactionOutput} :
    (∃ r, fillOutputs P txSecretKey dsts outputIndex money outputs = .ok r) ↔
      ∀ (j : Nat) (hj : j < dsts.length),
        ∃ o, BuiltOutput P txSecretKey dsts[j] (outputIndex + j) o := by
  induction dsts generalizing outputIndex money outputs with
  | nil => exact ⟨fun _ _ hj => absurd hj (Nat.not_lt_zero _), fun _ => ⟨_, rfl⟩⟩
  | cons dst dsts ih =>
      refine (fillOutputs_cons_isOk_iff P).trans (Iff.trans ?_ (@forall_getElem_cons_iff _
        (fun j dst => ∃ o, BuiltOutput P txSecretKey dst (outputIndex + j) o) dst dsts).symm)
      simp only [ih, exists_and_right, Nat.add_zero, Nat.add_right_comm _ 1, ← Nat.add_assoc]

/-! ## The signatures loop -/

/-- The signatures loop runs to the end over sources whose inputs and contexts are in place. -/
theorem fillSignatures_isOk {txPrefixHash : Hash} {inputs : List TransactionInput}
    {inContexts : List KeyPair} (srcs : List TransactionSourceEntry) (i : Nat)
    (signatures : List (List Signature))
    (hin : ∀ j < srcs.length,
      (∃ input, inputs[i + j]? = some (.key input)) ∧ i + j < inContexts.length) :
    ∃ signatures', fillSignatures P txPrefixHash inputs inContexts srcs i signatures =
      .ok signatures' := by
  induction srcs generalizing i signatures with
  | nil => exact ⟨_, rfl⟩
  | cons src srcs ih =>
      obtain ⟨⟨input, hinput⟩, hctx⟩ := hin 0 (by simp)
      simp only [Nat.add_zero] at hinput hctx
      simp only [fillSignatures, hinput, List.getElem?_eq_getElem hctx]
      exact ih (i + 1) _ fun j hj => by
        simpa [Nat.add_assoc, Nat.add_comm 1 j] using hin (j + 1) (by simpa using hj)

theorem fillSignatures_ne_outOfRange {txPrefixHash : Hash} {inputs : List TransactionInput}
    {inContexts : List KeyPair} (srcs : List TransactionSourceEntry) (i : Nat)
    (signatures : List (List Signature))
    (hin : ∀ j < srcs.length,
      (∃ input, inputs[i + j]? = some (.key input)) ∧ i + j < inContexts.length) :
    fillSignatures P txPrefixHash inputs inContexts srcs i signatures ≠ .error .outOfRange := by
  obtain ⟨_, h⟩ := fillSignatures_isOk P srcs i signatures hin
  rw [h]
  exact nofun

/-- A completed signatures loop appended one group per source, as long as the source's ring. -/
theorem fillSignatures_ok {txPrefixHash : Hash} {inputs : List TransactionInput}
    {inContexts : List KeyPair} {srcs : List TransactionSourceEntry} {i : Nat}
    {signatures signatures' : List (List Signature)}
    (h : fillSignatures P txPrefixHash inputs inContexts srcs i signatures = .ok signatures') :
    ∃ newSigs, signatures' = signatures ++ newSigs ∧
      List.Forall₂ (fun src sigs => sigs.length = src.outputs.length) srcs newSigs := by
  induction srcs generalizing i signatures with
  | nil =>
      simp only [fillSignatures, Except.ok.injEq] at h
      exact ⟨[], by simp [h], .nil⟩
  | cons src srcs ih =>
      simp only [fillSignatures] at h
      split at h
      · obtain ⟨newSigs, rfl, hall⟩ := ih h
        exact ⟨_ :: newSigs, (List.append_cons _ _ _).symm,
          .cons (by rw [List.length_map, List.length_range]) hall⟩
      · cases h

/-! ## Whole runs -/

/-- A successful run, taken apart into its three loops, the key derivation and the money check. -/
theorem constructTransaction_ok {sender : AccountKeys} {sources : List TransactionSourceEntry}
    {destinations : List TransactionDestinationEntry} {extra : List UInt8} {unlockTime : UInt64}
    {tx : Transaction} {txKey : SecretKey}
    (h : constructTransaction P sender sources destinations extra unlockTime = .ok (tx, txKey)) :
    ∃ inContexts summaryInputsMoney txkey summaryOutsMoney,
      fillInputs P sender sources [] 0 [] = .ok (inContexts, summaryInputsMoney, tx.inputs) ∧
      generateDeterministicTransactionKeys P (P.inputsHash tx.inputs) sender.viewSecretKey =
        some txkey ∧
      txKey = txkey.secretKey ∧
      fillOutputs P txkey.secretKey (P.sortByAmount destinations) 0 0 [] =
        .ok (summaryOutsMoney, tx.outputs) ∧
      ¬ summaryOutsMoney > summaryInputsMoney ∧
      fillSignatures P (P.prefixHash tx.toTransactionPrefix) tx.inputs inContexts sources 0 [] =
        .ok tx.signatures ∧
      tx.toTransactionPrefix =
        { version := P.currentTransactionVersion, unlockTime := unlockTime, inputs := tx.inputs,
          outputs := tx.outputs, extra := P.addTransactionPublicKeyToExtra extra txkey.publicKey } := by
  simp only [constructTransaction] at h
  split at h
  · cases h
  · rename_i inContexts summaryInputsMoney inputs hin
    split at h
    · cases h
    · rename_i txkey hkey
      split at h
      · cases h
      · rename_i summaryOutsMoney outputs hout
        split at h
        · cases h
        · rename_i hle
          split at h
          · cases h
          · rename_i signatures hsig
            simp only [Except.ok.injEq, Prod.mk.injEq] at h
            obtain ⟨rfl, rfl⟩ := h
            exact ⟨inContexts, summaryInputsMoney, txkey, summaryOutsMoney, hin, hkey, rfl, hout,
              hle, hsig, rfl⟩

theorem forall₂_sourceInput_getElem? {srcs : List TransactionSourceEntry}
    {inputs : List TransactionInput}
    (h : List.Forall₂ (fun src input => ∃ img, input = .key (sourceInput src img)) srcs inputs)
    (i : Nat) (hi : i < srcs.length) :
    ∃ img, inputs[i]? = some (.key (sourceInput srcs[i] img)) := by
  obtain ⟨hlen, hall⟩ := List.forall₂_iff_get.mp h
  obtain ⟨img, himg⟩ := hall i hi (hlen ▸ hi)
  exact ⟨img, by rw [List.getElem?_eq_getElem (hlen ▸ hi)]; simpa using himg⟩

/-- No run indexes past the end of a vector or applies `boost::get<KeyInput>` to another input
kind. -/
theorem constructTransaction_ne_outOfRange (sender : AccountKeys)
    (sources : List TransactionSourceEntry) (destinations : List TransactionDestinationEntry)
    (extra : List UInt8) (unlockTime : UInt64) :
    constructTransaction P sender sources destinations extra unlockTime ≠ .error .outOfRange := by
  simp only [constructTransaction]
  split
  · rename_i e he
    rintro ⟨⟩
    exact fillInputs_ne_outOfRange P _ _ _ _ _ he
  · rename_i inContexts summaryInputsMoney inputs hin
    obtain ⟨newContexts, newInputs, rfl, rfl, hlen, hall, -⟩ := fillInputs_ok P hin
    split
    · simp
    · split
      · rename_i e he
        rintro ⟨⟩
        exact fillOutputs_ne_outOfRange P _ _ _ _ _ he
      · split
        · simp
        · split
          · rename_i e he
            rintro ⟨⟩
            refine fillSignatures_ne_outOfRange P sources 0 [] (fun j hj => ?_) he
            obtain ⟨img, himg⟩ := forall₂_sourceInput_getElem? hall j hj
            exact ⟨⟨_, by simpa using himg⟩, by simpa [hlen] using hj⟩
          · simp

end CryptoNote
end Ssix
