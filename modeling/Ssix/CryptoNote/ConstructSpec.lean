import Ssix.CryptoNote.Construct

/-!
# ConstructSpec — what a run of `constructTransaction` builds

Results, for every choice of the primitives and of `std::sort`'s order among equal amounts:
* `constructTransaction_shape`: no run indexes out of range, and a successful run has one
  `KeyInput` and one signature group per source, each input carrying the source's amount and a
  ring whose absolute offsets are the source's global indices, each group as long as the ring, and
  one positive `KeyOutput` per destination, sorted by amount.
* `constructTransaction_isOk_iff`: the builder succeeds exactly when every source is spendable by
  the sender, the deterministic key pair exists, every destination gets its output, and the
  wrapping money check passes; the signing loop never fails after these.
* `constructTransaction_wraps_outs_money`: the money check compares wrapping totals, so two
  destinations whose amounts wrap past `2^64` pass it; the transaction built pays out more than its
  input, and `checkMoneyOverflow` rejects it.
-/

namespace Ssix
namespace CryptoNote

variable (P : Primitives)

/-! ## The outputs of a run -/

theorem builtOutputs_amounts {txSecretKey : SecretKey} {dsts : List TransactionDestinationEntry}
    {outputIndex : Nat} {outputs : List TransactionOutput} (hlen : outputs.length = dsts.length)
    (hall : ∀ (j : Nat) (hj : j < dsts.length) (hj' : j < outputs.length),
      BuiltOutput P txSecretKey dsts[j] (outputIndex + j) outputs[j]) :
    outputs.map TransactionOutput.amount = dsts.map TransactionDestinationEntry.amount := by
  refine List.ext_getElem (by simp [hlen]) fun j h₁ h₂ => ?_
  obtain ⟨-, derivation, key, -, -, he⟩ := hall j (by simpa using h₂) (by simpa using h₁)
  simp [he]

theorem builtOutputs_keyOutputs {txSecretKey : SecretKey} {dsts : List TransactionDestinationEntry}
    {outputIndex : Nat} {outputs : List TransactionOutput} (hlen : outputs.length = dsts.length)
    (hall : ∀ (j : Nat) (hj : j < dsts.length) (hj' : j < outputs.length),
      BuiltOutput P txSecretKey dsts[j] (outputIndex + j) outputs[j]) :
    ∀ o ∈ outputs, (∃ key, o.target = .key key) ∧ 0 < o.amount := by
  intro o ho
  obtain ⟨j, hj, rfl⟩ := List.mem_iff_getElem.mp ho
  obtain ⟨hpos, -, key, -, -, he⟩ := hall j (hlen ▸ hj) hj
  exact ⟨⟨key, by rw [he]⟩, by rw [he]; exact hpos⟩

/-! ## The shape of a built transaction -/

/-- No run indexes out of range, and a built transaction has one `KeyInput` and one signature
group per source, and positive `KeyOutput`s carrying the destinations' amounts in order. -/
theorem constructTransaction_shape (sender : AccountKeys) (sources : List TransactionSourceEntry)
    (destinations : List TransactionDestinationEntry) (extra : List UInt8) (unlockTime : UInt64) :
    constructTransaction P sender sources destinations extra unlockTime ≠ .error .outOfRange ∧
      ∀ tx txKey,
        constructTransaction P sender sources destinations extra unlockTime = .ok (tx, txKey) →
        tx.inputs.length = sources.length ∧ tx.signatures.length = sources.length ∧
        (∀ (i : Nat) (hi : i < sources.length), ∃ input : KeyInput,
          tx.inputs[i]? = some (.key input) ∧ input.amount = sources[i].amount ∧
          relativeOutputOffsetsToAbsolute input.outputIndexes = sources[i].outputs.map Prod.fst ∧
          tx.signatures[i]?.map List.length = some sources[i].outputs.length) ∧
        (∀ o ∈ tx.outputs, (∃ key, o.target = .key key) ∧ 0 < o.amount) ∧
        (tx.outputs.map TransactionOutput.amount).Perm
          (destinations.map TransactionDestinationEntry.amount) ∧
        (tx.outputs.map TransactionOutput.amount).Sorted (· ≤ ·) := by
  refine ⟨constructTransaction_ne_outOfRange P _ _ _ _ _, fun tx txKey h => ?_⟩
  obtain ⟨inContexts, _, txkey, _, hin, -, -, hout, -, hsig, -⟩ := constructTransaction_ok P h
  obtain ⟨_, newInputs, -, hinputs, -, hall, -⟩ := fillInputs_ok P hin
  obtain ⟨newOutputs, houtputs, hlenOut, hbuilt, -⟩ := fillOutputs_ok P hout
  obtain ⟨newSigs, hsigs, hgroups⟩ := fillSignatures_ok P hsig
  rw [List.nil_append] at hinputs houtputs hsigs
  have hamounts := builtOutputs_amounts P hlenOut hbuilt
  refine ⟨by rw [hinputs, hall.length_eq], by rw [hsigs, hgroups.length_eq], fun i hi => ?_,
    by simpa [houtputs] using builtOutputs_keyOutputs P hlenOut hbuilt, ?_, ?_⟩
  · obtain ⟨img, himg⟩ := forall₂_sourceInput_getElem? hall i hi
    obtain ⟨hlenSig, hsigAll⟩ := List.forall₂_iff_get.mp hgroups
    refine ⟨sourceInput sources[i] img, by rw [hinputs, himg], rfl,
      (offsets_roundtrip _ []).1, ?_⟩
    rw [hsigs, List.getElem?_eq_getElem (hlenSig ▸ hi)]
    simpa using hsigAll i hi (hlenSig ▸ hi)
  · rw [houtputs, hamounts]
    exact (P.sortByAmount_perm destinations).map _
  · rw [houtputs, hamounts]
    exact (P.sortByAmount_sorted destinations).map _ fun _ _ h => h

/-! ## When the builder succeeds -/

/-- `constructTransaction` succeeds exactly when every source is spendable, the key pair exists,
every destination gets its output, and the wrapping money check passes. -/
theorem constructTransaction_isOk_iff (sender : AccountKeys) (sources : List TransactionSourceEntry)
    (destinations : List TransactionDestinationEntry) (extra : List UInt8) (unlockTime : UInt64) :
    (∃ r, constructTransaction P sender sources destinations extra unlockTime = .ok r) ↔
      ∃ keys, List.Forall₂ (SpendableSource P sender) sources keys ∧
        ∃ txkey, generateDeterministicTransactionKeys P
            (P.inputsHash ((sources.zip keys).map fun p => .key (sourceInput p.1 p.2.2)))
            sender.viewSecretKey = some txkey ∧
          (∀ (j : Nat) (hj : j < (P.sortByAmount destinations).length),
            ∃ o, BuiltOutput P txkey.secretKey (P.sortByAmount destinations)[j] j o) ∧
          ¬ ((P.sortByAmount destinations).map TransactionDestinationEntry.amount).foldl (· + ·) 0 >
            (sources.map TransactionSourceEntry.amount).foldl (· + ·) 0 := by
  constructor
  · rintro ⟨⟨tx, txKey⟩, h⟩
    obtain ⟨_, _, txkey, _, hin, hkey, -, hout, hle, -, -⟩ := constructTransaction_ok P h
    obtain ⟨keys, hall, hr⟩ := (fillInputs_eq_ok_iff P).mp hin
    simp only [Prod.mk.injEq, List.nil_append] at hr
    obtain ⟨-, rfl, hinputs⟩ := hr
    obtain ⟨-, -, -, -, rfl⟩ := fillOutputs_ok P hout
    refine ⟨keys, hall, txkey, hinputs ▸ hkey, fun j hj => ?_, hle⟩
    simpa only [Nat.zero_add] using (fillOutputs_isOk_iff P).mp ⟨_, hout⟩ j hj
  · rintro ⟨keys, hall, txkey, hkey, houts, hle⟩
    have hlen := hall.length_eq
    have hin : fillInputs P sender sources [] 0 [] =
        .ok (keys.map Prod.fst, (sources.map TransactionSourceEntry.amount).foldl (· + ·) 0,
          (sources.zip keys).map fun p => .key (sourceInput p.1 p.2.2)) :=
      (fillInputs_eq_ok_iff P).mpr ⟨keys, hall, by simp⟩
    obtain ⟨⟨summaryOutsMoney, outputs⟩, hout⟩ :
        ∃ r, fillOutputs P txkey.secretKey (P.sortByAmount destinations) 0 0 [] = .ok r :=
      (fillOutputs_isOk_iff P).mpr fun j hj => by simpa only [Nat.zero_add] using houts j hj
    obtain ⟨-, -, -, -, rfl⟩ := fillOutputs_ok P hout
    have halign : ∀ j < sources.length,
        (∃ input, ((sources.zip keys).map fun p =>
            TransactionInput.key (sourceInput p.1 p.2.2))[0 + j]? = some (.key input)) ∧
          0 + j < (keys.map Prod.fst).length := fun j hj =>
      ⟨⟨_, by rw [Nat.zero_add, List.getElem?_map, List.getElem?_eq_getElem (by simp; omega),
        List.getElem_zip]; rfl⟩, by simp; omega⟩
    obtain ⟨signatures, hsig⟩ := @fillSignatures_isOk P
      (P.prefixHash
        { version := P.currentTransactionVersion, unlockTime := unlockTime,
          inputs := (sources.zip keys).map fun p => .key (sourceInput p.1 p.2.2),
          outputs := outputs, extra := P.addTransactionPublicKeyToExtra extra txkey.publicKey })
      _ _ sources 0 [] halign
    exact ⟨_, by simp only [constructTransaction, hin, hkey, hout, if_neg hle, hsig]; rfl⟩

/-! ## The money check on wrapping totals -/

/-- The sender of the sample runs: secret keys `[1]` and `[2]`, with their `toyPrimitives` public
keys as address. -/
def sampleSender : AccountKeys where
  address := { spendPublicKey := ⟨[2]⟩, viewPublicKey := ⟨[1]⟩ }
  spendSecretKey := ⟨[2]⟩
  viewSecretKey := ⟨[1]⟩

/-- A spendable output of `amount` for `sampleSender`, hidden in a ring of two: under
`toyPrimitives` its one-time key is `[4, 0, 2]`. -/
def sampleSource (amount : UInt64) : TransactionSourceEntry where
  outputs := [(7, ⟨[9]⟩), (12, ⟨[4, 0, 2]⟩)]
  realOutput := 1
  realTransactionPublicKey := ⟨[3]⟩
  realOutputIndexInTransaction := 0
  amount := amount

/-- Payments of `2^64 - 1` and `2` to a third party. -/
def wrappingDestinations : List TransactionDestinationEntry :=
  [{ amount := 18446744073709551615, addr := ⟨⟨[5]⟩, ⟨[6]⟩⟩ },
   { amount := 2, addr := ⟨⟨[5]⟩, ⟨[6]⟩⟩ }]

/-- Outputs of `2` and `2^64 - 1` from an input of `5` wrap `summary_outs_money` to `1`: the run
succeeds, `checkMoneyOverflow` rejects its transaction, and `get_tx_fee` reports `4`. -/
theorem constructTransaction_wraps_outs_money :
    (constructTransaction toyPrimitives sampleSender [sampleSource 5] wrappingDestinations [] 0).map
        (fun r => (exactSum (inputAmounts r.1.toTransactionPrefix),
          exactSum (outputAmounts r.1.toTransactionPrefix),
          checkMoneyOverflow r.1.toTransactionPrefix, getTxFee? r.1)) =
      .ok (5, 2 ^ 64 + 1, false, some 4) := by
  rfl

end CryptoNote
end Ssix
