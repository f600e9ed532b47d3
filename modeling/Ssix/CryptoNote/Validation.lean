import Ssix.CryptoNote.Lookup

/-!
# Validation — the validator's checks, and what they say of built transactions

The node validates a transaction's prefix with a family of checks from the same file as the
builder: `checkInputTypesSupported` refuses every input that is neither a `KeyInput` nor a
`MultisignatureInput`; `checkOutsValid` checks each output by its target kind;
`checkMultisignatureInputsDiff` refuses two multisignature inputs that spend the same output; and
`checkMoneyOverflow` (in `Money`) refuses a prefix whose exact input or output total passes `2^64`,
after which `get_tx_fee` reads the fee. `constructTransaction` runs none of them: its own money
check compares the two wrapping totals `summary_outs_money` and `summary_inputs_money`.

Results:
* `checkOutsValid_eq_ok_iff`: `checkOutsValid` accepts exactly the prefixes whose key outputs have
  a nonzero amount and a key that passes `check_key`, and whose multisignature outputs need no
  more signatures than they have keys, all passing `check_key`. The multisignature branch reads no
  amount: `checkOutsValid_accepts_zero_multisignature`.
* `checkMultisignatureInputsDiff_iff`: the `std::set` loop accepts exactly the prefixes whose
  multisignature inputs spend pairwise distinct `(amount, outputIndex)` pairs.

For every choice of the primitives and of `std::sort`'s order among equal amounts:
* `constructTransaction_money`: a built transaction has only `KeyInput`s, carrying the sources'
  amounts in order, its outputs carry the sorted destinations' amounts, and its wrapping output
  total does not exceed its wrapping input total. That is all the builder's money check promises.
* `constructTransaction_fee_of_totals_lt`: when the sources' and the destinations' exact totals
  both stay below `2^64`, the two wrapping totals are exact, so a built transaction passes
  `checkMoneyOverflow`, pays out no more than it spends, and `get_tx_fee` returns the exact
  difference. Without the bounds neither holds in general (see `ConstructSpec`).
* `constructTransaction_checks`: a built transaction passes `checkMultisignatureInputsDiff`, and
  passes `checkOutsValid` exactly when `check_key` accepts its one-time keys.
-/

namespace Ssix
namespace CryptoNote

/-! ## Input kinds -/

/-- The input kinds `checkInputTypesSupported` lets through. -/
def isSupportedInputType : TransactionInput → Bool
  | .key _ => true
  | .multisignature _ => true
  | .base _ => false

/-- `checkInputTypesSupported(tx)`: `false` at the first input that is neither a `KeyInput` nor a
`MultisignatureInput`. -/
def checkInputTypesSupported (tx : TransactionPrefix) : Bool :=
  tx.inputs.all isSupportedInputType

/-! ## Output checks -/

/-- The checks `checkOutsValid` makes on one output, with the text it writes to `*error` at the
first that fails: a `KeyOutput` needs a nonzero amount and a key that passes `check_key`; a
`MultisignatureOutput` needs `requiredSignatureCount <= keys.size()` and keys that all pass
`check_key`. The multisignature branch reads no amount. -/
def checkOutValid (checkKey : PublicKey → Bool) (out : TransactionOutput) : Except String Unit :=
  match out.target with
  | .key key =>
      if out.amount = 0 then .error "Zero amount ouput"
      else if !checkKey key then .error "Output with invalid key"
      else .ok ()
  | .multisignature output =>
      if output.requiredSignatureCount.toNat > output.keys.length then
        .error "Multisignature output with invalid required signature count"
      else if !output.keys.all checkKey then .error "Multisignature output with invalid public key"
      else .ok ()

/-- `checkOutsValid(tx, error)`, with `check_key` as a parameter: `.error e` where it returns
`false` after writing `e` to `*error`. `TransactionOutputTarget` has two alternatives, so its
`Output with invalid type` branch is never reached. -/
def checkOutsValid (checkKey : PublicKey → Bool) (tx : TransactionPrefix) : Except String Unit :=
  tx.outputs.forM (checkOutValid checkKey)

/-- What `checkOutsValid` asks of one output. -/
def OutputValid (checkKey : PublicKey → Bool) (out : TransactionOutput) : Prop :=
  match out.target with
  | .key key => 0 < out.amount ∧ checkKey key = true
  | .multisignature output =>
      output.requiredSignatureCount.toNat ≤ output.keys.length ∧ ∀ key ∈ output.keys, checkKey key = true

theorem checkOutValid_eq_ok_iff (checkKey : PublicKey → Bool) (out : TransactionOutput) :
    checkOutValid checkKey out = .ok () ↔ OutputValid checkKey out := by
  unfold checkOutValid OutputValid
  split
  · by_cases h0 : out.amount = 0 <;> simp [h0, uint64_pos_iff_ne_zero]
  · rename_i output _
    rw [← Nat.not_lt, ← List.all_eq_true]
    by_cases hcount : output.keys.length < output.requiredSignatureCount.toNat
    · simp [hcount]
    · cases output.keys.all checkKey <;> simp [hcount]

/-- `checkOutsValid` accepts exactly the prefixes all of whose outputs pass their checks. -/
theorem checkOutsValid_eq_ok_iff (checkKey : PublicKey → Bool) (tx : TransactionPrefix) :
    checkOutsValid checkKey tx = .ok () ↔ ∀ out ∈ tx.outputs, OutputValid checkKey out := by
  simp only [checkOutsValid, ← checkOutValid_eq_ok_iff]
  induction tx.outputs with
  | nil => simp [pure, Except.pure]
  | cons out outs ih =>
      cases h : checkOutValid checkKey out <;> simp [h, ih, bind, Except.bind]

/-- A prefix whose one output is a multisignature output of amount `0`, with no keys and no
required signature. -/
def zeroMultisignatureTx : TransactionPrefix where
  version := 1
  unlockTime := 0
  inputs := []
  outputs := [{ amount := 0, target := .multisignature { keys := [], requiredSignatureCount := 0 } }]
  extra := []

/-- The multisignature branch of `checkOutsValid` has no counterpart of the `KeyOutput` branch's
`Zero amount ouput` check: a zero-amount multisignature output passes, whatever `check_key` says. -/
theorem checkOutsValid_accepts_zero_multisignature (checkKey : PublicKey → Bool) :
    checkOutsValid checkKey zeroMultisignatureTx = .ok () ∧
      ∃ out ∈ zeroMultisignatureTx.outputs, out.amount = 0 :=
  ⟨rfl, _, List.mem_singleton_self _, rfl⟩

/-! ## Multisignature inputs -/

/-- The `(amount, outputIndex)` pair a `MultisignatureInput` spends; the other kinds have none. -/
def multisignatureUsage : TransactionInput → Option (UInt64 × UInt32)
  | .multisignature input => some (input.amount, input.outputIndex)
  | _ => none

/-- The loop of `checkMultisignatureInputsDiff` over the remaining inputs. The `std::set`
`inputsUsage` is the list of the pairs inserted so far: `insert(...).second` is `false` exactly
when the pair is among them. -/
def checkMultisignatureInputsDiffLoop :
    List (UInt64 × UInt32) → List TransactionInput → Bool
  | _, [] => true
  | inputsUsage, inv :: invs =>
      match multisignatureUsage inv with
      | some usage =>
          if usage ∈ inputsUsage then false
          else checkMultisignatureInputsDiffLoop (usage :: inputsUsage) invs
      | none => checkMultisignatureInputsDiffLoop inputsUsage invs

/-- `checkMultisignatureInputsDiff(tx)`. -/
def checkMultisignatureInputsDiff (tx : TransactionPrefix) : Bool :=
  checkMultisignatureInputsDiffLoop [] tx.inputs

/-- The loop accepts iff the pairs still to come are distinct and none was inserted before. -/
theorem checkMultisignatureInputsDiffLoop_iff (inputsUsage : List (UInt64 × UInt32))
    (invs : List TransactionInput) :
    checkMultisignatureInputsDiffLoop inputsUsage invs = true ↔
      (invs.filterMap multisignatureUsage).Nodup ∧
        ∀ usage ∈ invs.filterMap multisignatureUsage, usage ∉ inputsUsage := by
  induction invs generalizing inputsUsage with
  | nil => simp [checkMultisignatureInputsDiffLoop]
  | cons inv invs ih =>
      cases husage : multisignatureUsage inv with
      | none => simp [checkMultisignatureInputsDiffLoop, husage, ih]
      | some usage =>
          by_cases hmem : usage ∈ inputsUsage
          · simp [checkMultisignatureInputsDiffLoop, husage, hmem]
          · simp only [checkMultisignatureInputsDiffLoop, husage, hmem, if_false, ih,
              List.filterMap_cons]
            generalize invs.filterMap multisignatureUsage = us
            rw [List.forall_mem_cons, List.nodup_cons]
            simp only [List.mem_cons, not_or]
            constructor
            · rintro ⟨hnodup, hfresh⟩
              exact ⟨⟨fun h => (hfresh usage h).1 rfl, hnodup⟩, hmem,
                fun u hu => (hfresh u hu).2⟩
            · rintro ⟨⟨hnew, hnodup⟩, -, hfresh⟩
              exact ⟨hnodup, fun u hu => ⟨fun h => hnew (h ▸ hu), hfresh u hu⟩⟩

/-- `checkMultisignatureInputsDiff` accepts exactly the prefixes whose multisignature inputs spend
pairwise distinct `(amount, outputIndex)` pairs. -/
theorem checkMultisignatureInputsDiff_iff (tx : TransactionPrefix) :
    checkMultisignatureInputsDiff tx = true ↔ (tx.inputs.filterMap multisignatureUsage).Nodup := by
  simp [checkMultisignatureInputsDiff, checkMultisignatureInputsDiffLoop_iff]

/-! ## The inputs of a built transaction -/

section SourceInputs

variable {srcs : List TransactionSourceEntry} {inputs : List TransactionInput}

theorem forall₂_sourceInput_inputAmounts
    (h : List.Forall₂ (fun src input => ∃ img, input = .key (sourceInput src img)) srcs inputs) :
    inputs.map inputAmount = srcs.map TransactionSourceEntry.amount := by
  induction h with
  | nil => rfl
  | cons hhead _ ih =>
      obtain ⟨img, rfl⟩ := hhead
      simp [ih, inputAmount, sourceInput]

/-- The inputs loop builds nothing but `KeyInput`s. -/
theorem forall₂_sourceInput_key
    (h : List.Forall₂ (fun src input => ∃ img, input = .key (sourceInput src img)) srcs inputs) :
    ∀ input ∈ inputs, ∃ keyInput, input = .key keyInput := by
  induction h with
  | nil => simp
  | cons hhead _ ih =>
      obtain ⟨img, rfl⟩ := hhead
      simpa using ih

theorem forall₂_sourceInput_supported
    (h : List.Forall₂ (fun src input => ∃ img, input = .key (sourceInput src img)) srcs inputs) :
    inputs.all isSupportedInputType = true :=
  List.all_eq_true.mpr fun input hin => by
    obtain ⟨_, rfl⟩ := forall₂_sourceInput_key h input hin
    rfl

theorem forall₂_sourceInput_multisignatureUsage
    (h : List.Forall₂ (fun src input => ∃ img, input = .key (sourceInput src img)) srcs inputs) :
    inputs.filterMap multisignatureUsage = [] :=
  List.filterMap_eq_nil_iff.mpr fun input hin => by
    obtain ⟨_, rfl⟩ := forall₂_sourceInput_key h input hin
    rfl

end SourceInputs

/-! ## The money of a built transaction -/

variable (P : Primitives)

/-- A built transaction has only supported inputs, carrying the sources' amounts, outputs carrying
the sorted destinations' amounts, and wrapping totals that passed the builder's check. -/
theorem constructTransaction_money {sender : AccountKeys} {sources : List TransactionSourceEntry}
    {destinations : List TransactionDestinationEntry} {extra : List UInt8} {unlockTime : UInt64}
    {tx : Transaction} {txKey : SecretKey}
    (h : constructTransaction P sender sources destinations extra unlockTime = .ok (tx, txKey)) :
    checkInputTypesSupported tx.toTransactionPrefix = true ∧
      inputAmounts tx.toTransactionPrefix = sources.map TransactionSourceEntry.amount ∧
      outputAmounts tx.toTransactionPrefix =
        (P.sortByAmount destinations).map TransactionDestinationEntry.amount ∧
      ¬ (outputAmounts tx.toTransactionPrefix).foldl (· + ·) 0 >
        (inputAmounts tx.toTransactionPrefix).foldl (· + ·) 0 := by
  obtain ⟨_, _, _, _, hin, -, -, hout, hle, -, -⟩ := constructTransaction_ok P h
  obtain ⟨_, newInputs, -, hinputs, -, hall, rfl⟩ := fillInputs_ok P hin
  obtain ⟨newOutputs, houtputs, hlen, hbuilt, rfl⟩ := fillOutputs_ok P hout
  rw [List.nil_append] at hinputs houtputs
  have hinAmounts : inputAmounts tx.toTransactionPrefix = sources.map TransactionSourceEntry.amount :=
    by rw [inputAmounts, hinputs, forall₂_sourceInput_inputAmounts hall]
  have houtAmounts : outputAmounts tx.toTransactionPrefix =
      (P.sortByAmount destinations).map TransactionDestinationEntry.amount := by
    rw [outputAmounts, houtputs, builtOutputs_amounts P hlen hbuilt]
  refine ⟨?_, hinAmounts, houtAmounts, ?_⟩
  · rw [checkInputTypesSupported, hinputs]
    exact forall₂_sourceInput_supported hall
  · rwa [hinAmounts, houtAmounts]

/-- When both exact totals stay below `2^64`, a built transaction passes `checkMoneyOverflow` and
`get_tx_fee` returns the exact difference. -/
theorem constructTransaction_fee_of_totals_lt {sender : AccountKeys}
    {sources : List TransactionSourceEntry} {destinations : List TransactionDestinationEntry}
    {extra : List UInt8} {unlockTime : UInt64} {tx : Transaction} {txKey : SecretKey}
    (h : constructTransaction P sender sources destinations extra unlockTime = .ok (tx, txKey))
    (hin : exactSum (sources.map TransactionSourceEntry.amount) < 2 ^ 64)
    (hout : exactSum (destinations.map TransactionDestinationEntry.amount) < 2 ^ 64) :
    checkMoneyOverflow tx.toTransactionPrefix = true ∧
      exactSum (destinations.map TransactionDestinationEntry.amount) ≤
        exactSum (sources.map TransactionSourceEntry.amount) ∧
      ∃ fee, getTxFee? tx = some fee ∧
        fee.toNat = exactSum (sources.map TransactionSourceEntry.amount) -
          exactSum (destinations.map TransactionDestinationEntry.amount) := by
  obtain ⟨-, hinAmounts, houtAmounts, hcheck⟩ := constructTransaction_money P h
  have hperm : exactSum (outputAmounts tx.toTransactionPrefix) =
      exactSum (destinations.map TransactionDestinationEntry.amount) := by
    rw [houtAmounts]
    exact (((P.sortByAmount_perm destinations).map _).map UInt64.toNat).sum_eq
  rw [← hinAmounts] at hin ⊢
  rw [← hperm] at hout ⊢
  have hle : exactSum (outputAmounts tx.toTransactionPrefix) ≤
      exactSum (inputAmounts tx.toTransactionPrefix) := by
    rw [gt_iff_lt, uint64_lt_iff, toNat_foldl_add_of_lt hin, toNat_foldl_add_of_lt hout] at hcheck
    omega
  have hmoney : checkMoneyOverflow tx.toTransactionPrefix = true :=
    (checkMoneyOverflow_iff _).mpr ⟨hin, hout⟩
  obtain ⟨fee, hfee⟩ := Option.isSome_iff_exists.mp ((getTxFee?_isSome_iff hmoney).mpr hle)
  exact ⟨hmoney, hle, fee, hfee, (getTxFee?_eq_some hmoney hfee).1⟩

/-- The change run of `Lookup` spends `10` into `6` and `3`: its transaction passes
`checkMoneyOverflow` and pays a fee of `1`. -/
theorem constructTransaction_fee_of_changeRun :
    constructTransaction toyPrimitives sampleSender [sampleSource 10] changeDestinations [] 0 =
        .ok (changeRun.1, changeRun.2) ∧
      exactSum ([sampleSource 10].map TransactionSourceEntry.amount) < 2 ^ 64 ∧
      exactSum (changeDestinations.map TransactionDestinationEntry.amount) < 2 ^ 64 ∧
      checkMoneyOverflow changeRun.1.toTransactionPrefix = true ∧
      exactSum (changeDestinations.map TransactionDestinationEntry.amount) ≤
        exactSum ([sampleSource 10].map TransactionSourceEntry.amount) ∧
      ∃ fee, getTxFee? changeRun.1 = some fee ∧
        fee.toNat = exactSum ([sampleSource 10].map TransactionSourceEntry.amount) -
          exactSum (changeDestinations.map TransactionDestinationEntry.amount) :=
  have h : constructTransaction toyPrimitives sampleSender [sampleSource 10] changeDestinations [] 0 =
      .ok (changeRun.1, changeRun.2) := rfl
  ⟨h, by decide, by decide,
    constructTransaction_fee_of_totals_lt toyPrimitives h (by decide) (by decide)⟩

/-- A built transaction passes `checkMultisignatureInputsDiff`, and passes `checkOutsValid` exactly
when `check_key` accepts its one-time keys. -/
theorem constructTransaction_checks {sender : AccountKeys}
    {sources : List TransactionSourceEntry} {destinations : List TransactionDestinationEntry}
    {extra : List UInt8} {unlockTime : UInt64} {tx : Transaction} {txKey : SecretKey}
    (h : constructTransaction P sender sources destinations extra unlockTime = .ok (tx, txKey))
    (checkKey : PublicKey → Bool) :
    (checkOutsValid checkKey tx.toTransactionPrefix = .ok () ↔
      ∀ out ∈ tx.outputs, ∀ key, out.target = .key key → checkKey key = true) ∧
      checkMultisignatureInputsDiff tx.toTransactionPrefix = true := by
  obtain ⟨_, _, _, _, hin, -, -, hout, -, -, -⟩ := constructTransaction_ok P h
  obtain ⟨_, newInputs, -, hinputs, -, hall, -⟩ := fillInputs_ok P hin
  obtain ⟨newOutputs, houtputs, hlen, hbuilt, -⟩ := fillOutputs_ok P hout
  rw [List.nil_append] at hinputs houtputs
  have hkeys := builtOutputs_keyOutputs P hlen hbuilt
  refine ⟨(checkOutsValid_eq_ok_iff checkKey _).trans (forall₂_congr fun out hmem => ?_), ?_⟩
  · obtain ⟨⟨key, hkey⟩, hpos⟩ := hkeys out (houtputs ▸ hmem)
    simp [OutputValid, hkey, hpos]
  · rw [checkMultisignatureInputsDiff_iff, hinputs, forall₂_sourceInput_multisignatureUsage hall]
    exact List.nodup_nil

/-- The change run of `Lookup`, checked with a `check_key` that accepts the keys of three bytes. -/
theorem constructTransaction_checks_changeRun :
    constructTransaction toyPrimitives sampleSender [sampleSource 10] changeDestinations [] 0 =
        .ok (changeRun.1, changeRun.2) ∧
      (checkOutsValid (fun key => key.data.length == 3) changeRun.1.toTransactionPrefix = .ok () ↔
        ∀ out ∈ changeRun.1.outputs, ∀ key, out.target = .key key →
          (fun key : PublicKey => key.data.length == 3) key = true) ∧
      checkMultisignatureInputsDiff changeRun.1.toTransactionPrefix = true :=
  have h : constructTransaction toyPrimitives sampleSender [sampleSource 10] changeDestinations [] 0 =
      .ok (changeRun.1, changeRun.2) := rfl
  ⟨h, constructTransaction_checks toyPrimitives h _⟩

end CryptoNote
end Ssix
