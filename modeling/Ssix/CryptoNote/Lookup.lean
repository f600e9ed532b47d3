import Ssix.CryptoNote.ConstructSpec

/-!
# Lookup — finding one's own outputs in a transaction

`lookup_acc_outs(acc, tx, tx_pub_key, outs, money_transfered)` derives the shared secret of the
transaction key and the account's view key, then walks the outputs with two counters:
`outputIndex`, the position of the output, and `keyIndex`, the position of the one-time key,
which moves past every key of a multisignature output. A key output is the account's when
`derive_public_key` at `keyIndex` gives its key.

Results:
* `lookupAccOutsLoop_outs`, `lookupAccOutsLoop_sorted`, `lookupAccOutsLoop_mem`: the scanner
  only appends to `outs`, what it appends ascends strictly, and, on a list of key outputs, it
  appends every position whose key it recognises.
* `lookupAccOuts_eq_ownedOutputs`: on every transaction, multisignature outputs included, the
  scanner appends the positions of exactly the outputs whose key derives at the key index reached
  there (`ownedOutputs`), and `money_transfered` is their exact total modulo `2^64`.
* `lookupAccOuts_finds_constructed_outputs`: under Diffie-Hellman symmetry, scanning a transaction
  built by `constructTransaction` with the public key of its `tx_key` finds every output paid to
  the account's address. The builder's `output_index` and the scanner's `keyIndex` agree because
  the builder writes only key outputs.
-/

namespace Ssix
namespace CryptoNote

variable (P : Primitives)

/-- `is_out_to_acc(acc, out_key, derivation, keyIndex)`. The result of `derive_public_key` is not
checked: when it fails, `pk` keeps the indeterminate value of the uninitialised local. -/
def isOutToAcc (acc : AccountKeys) (outKey : PublicKey) (derivation : KeyDerivation)
    (keyIndex : Nat) : Bool :=
  (P.derivePublicKey derivation keyIndex acc.address.spendPublicKey).getD P.uninitPublicKey == outKey

/-- The output loop of `lookup_acc_outs` over the remaining outputs, with `keyIndex`,
`outputIndex`, `outs` and `money_transfered` as updated so far. -/
def lookupAccOutsLoop (acc : AccountKeys) (derivation : KeyDerivation) :
    List TransactionOutput → Nat → Nat → List Nat → UInt64 → List Nat × UInt64
  | [], _, _, outs, money => (outs, money)
  | o :: os, keyIndex, outputIndex, outs, money =>
      match o.target with
      | .key key =>
          if isOutToAcc P acc key derivation keyIndex then
            lookupAccOutsLoop acc derivation os (keyIndex + 1) (outputIndex + 1)
              (outs ++ [outputIndex]) (money + o.amount)
          else lookupAccOutsLoop acc derivation os (keyIndex + 1) (outputIndex + 1) outs money
      | .multisignature output =>
          lookupAccOutsLoop acc derivation os (keyIndex + output.keys.length) (outputIndex + 1)
            outs money

/-- `lookup_acc_outs(acc, tx, tx_pub_key, outs, money_transfered)`, which always returns `true`:
`outs` with the positions of the account's outputs appended, and `money_transfered`. The result of
`generate_key_derivation` is not checked either. -/
def lookupAccOuts (acc : AccountKeys) (tx : Transaction) (txPubKey : PublicKey) (outs : List Nat) :
    List Nat × UInt64 :=
  let derivation :=
    (P.generateKeyDerivation txPubKey acc.viewSecretKey).getD P.uninitKeyDerivation
  lookupAccOutsLoop P acc derivation tx.outputs 0 0 outs 0

section Loop

variable {P} (acc : AccountKeys) (derivation : KeyDerivation)

/-- The scanner only appends to `outs`, and what it appends depends neither on `outs` nor on
`money_transfered`. -/
theorem lookupAccOutsLoop_outs (os : List TransactionOutput) (keyIndex outputIndex : Nat)
    (outs : List Nat) (money : UInt64) :
    (lookupAccOutsLoop P acc derivation os keyIndex outputIndex outs money).1 =
      outs ++ (lookupAccOutsLoop P acc derivation os keyIndex outputIndex [] 0).1 := by
  induction os generalizing keyIndex outputIndex outs money with
  | nil => simp [lookupAccOutsLoop]
  | cons o os ih =>
      rcases htarget : o.target with key | output
      · by_cases hit : isOutToAcc P acc key derivation keyIndex = true
        · simp only [lookupAccOutsLoop, htarget, hit, if_true, List.nil_append]
          rw [ih _ _ (outs ++ _), ih _ _ [_], List.append_assoc, List.singleton_append]
        · simp only [lookupAccOutsLoop, htarget, hit, Bool.false_eq_true, if_false]
          exact ih _ _ _ _
      · simp only [lookupAccOutsLoop, htarget]
        exact ih _ _ _ _

/-- The positions the scanner appends ascend strictly from `outputIndex`. -/
theorem lookupAccOutsLoop_sorted (os : List TransactionOutput) (keyIndex outputIndex : Nat) :
    (lookupAccOutsLoop P acc derivation os keyIndex outputIndex [] 0).1.Sorted (· < ·) ∧
      ∀ x ∈ (lookupAccOutsLoop P acc derivation os keyIndex outputIndex [] 0).1, outputIndex ≤ x := by
  induction os generalizing keyIndex outputIndex with
  | nil => simp [lookupAccOutsLoop]
  | cons o os ih =>
      rcases htarget : o.target with key | output
      · obtain ⟨hsorted, hge⟩ := ih (keyIndex + 1) (outputIndex + 1)
        by_cases hit : isOutToAcc P acc key derivation keyIndex = true
        · simp only [lookupAccOutsLoop, htarget, hit, if_true, List.nil_append]
          rw [lookupAccOutsLoop_outs, List.singleton_append]
          exact ⟨List.sorted_cons.mpr ⟨hge, hsorted⟩,
            by simpa using fun x hx => Nat.le_of_succ_le (hge x hx)⟩
        · simp only [lookupAccOutsLoop, htarget, hit, Bool.false_eq_true, if_false]
          exact ⟨hsorted, fun x hx => Nat.le_of_succ_le (hge x hx)⟩
      · obtain ⟨hsorted, hge⟩ := ih (keyIndex + output.keys.length) (outputIndex + 1)
        simp only [lookupAccOutsLoop, htarget]
        exact ⟨hsorted, fun x hx => Nat.le_of_succ_le (hge x hx)⟩

/-- On a list of key outputs the scanner appends every position whose one-time key it recognises
at the matching `keyIndex`. -/
theorem lookupAccOutsLoop_mem {os : List TransactionOutput}
    (hkeys : ∀ o ∈ os, ∃ key, o.target = .key key) (keyIndex outputIndex j : Nat)
    (hj : j < os.length) (key : PublicKey) (hkey : os[j].target = .key key)
    (hrec : isOutToAcc P acc key derivation (keyIndex + j) = true) :
    outputIndex + j ∈ (lookupAccOutsLoop P acc derivation os keyIndex outputIndex [] 0).1 := by
  induction os generalizing keyIndex outputIndex j with
  | nil => simp at hj
  | cons o os ih =>
      obtain ⟨key₀, htarget⟩ := hkeys o (List.mem_cons_self _ _)
      cases j with
      | zero =>
          simp only [List.getElem_cons_zero, htarget, TransactionOutputTarget.key.injEq] at hkey
          subst hkey
          rw [Nat.add_zero] at hrec
          simp only [lookupAccOutsLoop, htarget, hrec, if_true, List.nil_append]
          rw [lookupAccOutsLoop_outs]
          simp
      | succ j =>
          have hfound := ih (fun o' ho' => hkeys o' (List.mem_cons_of_mem _ ho')) (keyIndex + 1)
            (outputIndex + 1) j (by simpa using hj) (by simpa using hkey)
            (by rwa [Nat.add_right_comm])
          rw [Nat.add_right_comm] at hfound
          simp only [lookupAccOutsLoop, htarget]
          split <;> rw [lookupAccOutsLoop_outs] <;> exact List.mem_append_right _ hfound

end Loop

/-! ## The scanner, output by output -/

/-- The one-time keys an output carries, which `lookup_acc_outs` moves `keyIndex` past: one for a
key output, `keys.size()` for a multisignature output. -/
def keySlots (o : TransactionOutput) : Nat :=
  match o.target with
  | .key _ => 1
  | .multisignature output => output.keys.length

/-- The key index the scanner has reached at position `j`, from `keyIndex` at position `0`. -/
def keyIndexAt (os : List TransactionOutput) (keyIndex j : Nat) : Nat :=
  keyIndex + ((os.take j).map keySlots).sum

/-- The output at a position of `os` is the account's: a key output whose key is the one
`derive_public_key` gives at the key index reached there. -/
def ownsOutput (acc : AccountKeys) (derivation : KeyDerivation) (os : List TransactionOutput)
    (keyIndex : Nat) (entry : Nat × TransactionOutput) : Bool :=
  match entry.2.target with
  | .key key => isOutToAcc P acc key derivation (keyIndexAt os keyIndex entry.1)
  | .multisignature _ => false

/-- The account's outputs among `os`, with their positions, in order. -/
def ownedOutputs (acc : AccountKeys) (derivation : KeyDerivation) (os : List TransactionOutput)
    (keyIndex : Nat) : List (Nat × TransactionOutput) :=
  os.enum.filter (ownsOutput P acc derivation os keyIndex)

section Owned

variable {P} (acc : AccountKeys) (derivation : KeyDerivation)

theorem keyIndexAt_cons_succ (o : TransactionOutput) (os : List TransactionOutput)
    (keyIndex j : Nat) :
    keyIndexAt (o :: os) keyIndex (j + 1) = keyIndexAt os (keyIndex + keySlots o) j := by
  simp [keyIndexAt, Nat.add_assoc]

/-- Past the first output, ownership is read in the rest of the list, from the key index after
the first output's slots. -/
theorem ownedOutputs_cons (o : TransactionOutput) (os : List TransactionOutput) (keyIndex : Nat) :
    ownedOutputs P acc derivation (o :: os) keyIndex =
      (if ownsOutput P acc derivation (o :: os) keyIndex (0, o) then [(0, o)] else []) ++
        (ownedOutputs P acc derivation os (keyIndex + keySlots o)).map (Prod.map (· + 1) id) := by
  have htail : ownsOutput P acc derivation (o :: os) keyIndex ∘ Prod.map (· + 1) id =
      ownsOutput P acc derivation os (keyIndex + keySlots o) := by
    funext entry
    simp [ownsOutput, keyIndexAt_cons_succ]
  rw [ownedOutputs, List.enum_cons', List.filter_cons, List.filter_map, htail]
  split <;> rfl

/-- The output loop appends the positions of exactly the account's outputs, in order, and adds
exactly their amounts. -/
theorem lookupAccOutsLoop_eq_owned (os : List TransactionOutput) (keyIndex outputIndex : Nat)
    (outs : List Nat) (money : UInt64) :
    lookupAccOutsLoop P acc derivation os keyIndex outputIndex outs money =
      (outs ++ (ownedOutputs P acc derivation os keyIndex).map (outputIndex + ·.1),
        ((ownedOutputs P acc derivation os keyIndex).map (·.2.amount)).foldl (· + ·) money) := by
  induction os generalizing keyIndex outputIndex outs money with
  | nil => simp [lookupAccOutsLoop, ownedOutputs]
  | cons o os ih =>
      have hshift : (fun e : Nat × TransactionOutput => outputIndex + e.1) ∘ Prod.map (· + 1) id =
          fun e => outputIndex + 1 + e.1 := by
        funext e
        simp only [Function.comp_apply, Prod.map_fst]
        omega
      rw [ownedOutputs_cons]
      rcases htarget : o.target with key | output
      · by_cases hit : isOutToAcc P acc key derivation keyIndex = true
        · have hown : ownsOutput P acc derivation (o :: os) keyIndex (0, o) = true := by
            simpa [ownsOutput, htarget, keyIndexAt] using hit
          simp only [lookupAccOutsLoop, htarget, hit, if_true, hown, ih, keySlots, List.map_append,
            List.map_map, hshift, List.singleton_append, List.map_cons, List.map_nil,
            List.foldl_cons, List.append_assoc, Nat.add_zero]
          rfl
        · have hown : ownsOutput P acc derivation (o :: os) keyIndex (0, o) = false := by
            simpa [ownsOutput, htarget, keyIndexAt] using hit
          simp only [lookupAccOutsLoop, htarget, hit, Bool.false_eq_true, if_false, hown, ih,
            keySlots, List.map_append, List.map_map, hshift, List.nil_append]
          rfl
      · have hown : ownsOutput P acc derivation (o :: os) keyIndex (0, o) = false := by
          simp [ownsOutput, htarget]
        simp only [lookupAccOutsLoop, htarget, hown, ih, keySlots, List.map_append, List.map_map,
          hshift, List.nil_append, Bool.false_eq_true, if_false]
        rfl

/-- `lookup_acc_outs` appends the positions of exactly the account's outputs, in increasing order,
and `money_transfered` is their exact total modulo `2^64`. -/
theorem lookupAccOuts_eq_ownedOutputs (tx : Transaction) (txPubKey : PublicKey)
    (outs : List Nat) :
    let owned := ownedOutputs P acc
      ((P.generateKeyDerivation txPubKey acc.viewSecretKey).getD P.uninitKeyDerivation) tx.outputs 0
    (lookupAccOuts P acc tx txPubKey outs).1 = outs ++ owned.map Prod.fst ∧
      (lookupAccOuts P acc tx txPubKey outs).2.toNat =
        exactSum (owned.map (·.2.amount)) % UInt64.size := by
  simp [lookupAccOuts, lookupAccOutsLoop_eq_owned, toNat_foldl_add]

end Owned

/-- Every output `constructTransaction` pays to an account is among the strictly ascending
positions `lookup_acc_outs` appends for it. -/
theorem lookupAccOuts_finds_constructed_outputs (hdh : DiffieHellman P) (acc : AccountKeys)
    (hacc : P.secretKeyToPublicKey acc.viewSecretKey = some acc.address.viewPublicKey)
    (sender : AccountKeys) (sources : List TransactionSourceEntry)
    (destinations : List TransactionDestinationEntry) (extra : List UInt8) (unlockTime : UInt64)
    (tx : Transaction) (txKey : SecretKey)
    (h : constructTransaction P sender sources destinations extra unlockTime = .ok (tx, txKey))
    (txPubKey : PublicKey) (hpub : P.secretKeyToPublicKey txKey = some txPubKey)
    (outs : List Nat) :
    ∃ appended, (lookupAccOuts P acc tx txPubKey outs).1 = outs ++ appended ∧
      appended.Sorted (· < ·) ∧
      ∀ (j : Nat) (hj : j < (P.sortByAmount destinations).length),
        (P.sortByAmount destinations)[j].addr = acc.address → j ∈ appended := by
  obtain ⟨_, _, txkey, _, -, -, rfl, hout, -⟩ := constructTransaction_ok P h
  obtain ⟨newOutputs, houtputs, hlen, hbuilt, -⟩ := fillOutputs_ok P hout
  rw [List.nil_append] at houtputs
  obtain ⟨-, hsymm⟩ := hdh _ _ _ _ hacc hpub
  refine ⟨_, lookupAccOutsLoop_outs acc _ tx.outputs 0 0 outs 0,
    (lookupAccOutsLoop_sorted acc _ tx.outputs 0 0).1, fun j hj haddr => ?_⟩
  obtain ⟨-, derivation, key, hd, hk, he⟩ := hbuilt j hj (hlen ▸ hj)
  rw [haddr] at hd hk
  have hderiv : (P.generateKeyDerivation txPubKey acc.viewSecretKey).getD P.uninitKeyDerivation =
      derivation := by
    rw [← hsymm, hd, Option.getD_some]
  have hkeys : ∀ o ∈ tx.outputs, ∃ key, o.target = .key key := fun o ho =>
    (builtOutputs_keyOutputs P hlen hbuilt o (houtputs ▸ ho)).1
  have hj' : j < tx.outputs.length := by rw [houtputs, hlen]; exact hj
  simpa using lookupAccOutsLoop_mem acc _ hkeys 0 0 j hj' key (by simp [houtputs, he]) (by
    rw [hderiv, isOutToAcc, hk]
    simp)

/-- Payments of `6` to a third party and of `3` back to `sampleSender`. -/
def changeDestinations : List TransactionDestinationEntry :=
  [{ amount := 6, addr := ⟨⟨[5]⟩, ⟨[6]⟩⟩ }, { amount := 3, addr := sampleSender.address }]

/-- The transaction and `tx_key` of the run spending `sampleSource 10` into
`changeDestinations`. -/
def changeRun : Transaction × SecretKey :=
  match constructTransaction toyPrimitives sampleSender [sampleSource 10] changeDestinations [] 0 with
  | .ok r => r
  | .error _ => (⟨⟨0, 0, [], [], []⟩, []⟩, ⟨[]⟩)

/-- The change run has the shape of every built transaction. -/
theorem constructTransaction_shape_changeRun :
    constructTransaction toyPrimitives sampleSender [sampleSource 10] changeDestinations [] 0 =
        .ok (changeRun.1, changeRun.2) ∧
      changeRun.1.inputs.length = [sampleSource 10].length ∧
      changeRun.1.signatures.length = [sampleSource 10].length ∧
      (∀ (i : Nat) (hi : i < [sampleSource 10].length), ∃ input : KeyInput,
        changeRun.1.inputs[i]? = some (.key input) ∧ input.amount = [sampleSource 10][i].amount ∧
        relativeOutputOffsetsToAbsolute input.outputIndexes =
          [sampleSource 10][i].outputs.map Prod.fst ∧
        changeRun.1.signatures[i]?.map List.length = some [sampleSource 10][i].outputs.length) ∧
      (∀ o ∈ changeRun.1.outputs, (∃ key, o.target = .key key) ∧ 0 < o.amount) ∧
      (changeRun.1.outputs.map TransactionOutput.amount).Perm
        (changeDestinations.map TransactionDestinationEntry.amount) ∧
      (changeRun.1.outputs.map TransactionOutput.amount).Sorted (· ≤ ·) :=
  have h : constructTransaction toyPrimitives sampleSender [sampleSource 10] changeDestinations [] 0 =
      .ok (changeRun.1, changeRun.2) := rfl
  ⟨h, (constructTransaction_shape toyPrimitives sampleSender [sampleSource 10] changeDestinations
    [] 0).2 _ _ h⟩

theorem lookupAccOuts_finds_change :
    DiffieHellman toyPrimitives ∧
      toyPrimitives.secretKeyToPublicKey sampleSender.viewSecretKey =
        some sampleSender.address.viewPublicKey ∧
      constructTransaction toyPrimitives sampleSender [sampleSource 10] changeDestinations [] 0 =
        .ok (changeRun.1, changeRun.2) ∧
      toyPrimitives.secretKeyToPublicKey changeRun.2 = some ⟨[1]⟩ ∧
      ∃ appended, (lookupAccOuts toyPrimitives sampleSender changeRun.1 ⟨[1]⟩ []).1 = [] ++ appended ∧
        appended.Sorted (· < ·) ∧
        ∀ (j : Nat) (hj : j < (toyPrimitives.sortByAmount changeDestinations).length),
          (toyPrimitives.sortByAmount changeDestinations)[j].addr = sampleSender.address →
            j ∈ appended :=
  ⟨diffieHellman_toyPrimitives, rfl, rfl, rfl,
    lookupAccOuts_finds_constructed_outputs toyPrimitives diffieHellman_toyPrimitives sampleSender
      rfl sampleSender [sampleSource 10] changeDestinations [] 0 changeRun.1 changeRun.2 rfl ⟨[1]⟩
      rfl []⟩

end CryptoNote
end Ssix
