import Mathlib
import Ssix.CryptoNote.Types

/-!
# Money — the `uint64_t` amount loops of `CryptoNoteFormatUtils.cpp`

Four loops of the source add amounts in wrapping `uint64_t` arithmetic: `get_tx_fee`,
`getInputsMoneyAmount`, `get_outs_money_amount`, and the two overflow checks `checkInputsOverflow`
and `checkOutsOverflow`, which test `money > amount + money` before each addition.

Results:
* `toNat_foldl_add`: a wrapping sum is the exact sum modulo `2^64`.
* `checkOverflowFrom_iff`: the wrap test accepts exactly the lists whose exact sum fits in 64
  bits, so `checkInputsOverflow` and `checkOutsOverflow` decide that question.
* under `checkMoneyOverflow`, `get_tx_fee` succeeds iff the exact input total covers the exact
  output total, and its fee is their exact difference.
-/

namespace Ssix
namespace CryptoNote

/-! ## Exact sums and the 64-bit wrap -/

/-- The sum of the amounts in `Nat`, with no wrap-around. -/
def exactSum (amounts : List UInt64) : Nat :=
  (amounts.map UInt64.toNat).sum

@[simp] theorem exactSum_nil : exactSum [] = 0 := rfl

@[simp] theorem exactSum_cons (a : UInt64) (amounts : List UInt64) :
    exactSum (a :: amounts) = a.toNat + exactSum amounts := by
  simp [exactSum]

theorem uint64_lt_iff {a b : UInt64} : a < b ↔ a.toNat < b.toNat := Iff.rfl

theorem uint64_le_iff {a b : UInt64} : a ≤ b ↔ a.toNat ≤ b.toNat := Iff.rfl

theorem uint64_pos_iff_ne_zero {a : UInt64} : 0 < a ↔ a ≠ 0 := by
  rw [uint64_lt_iff, UInt64.toNat_zero, Nat.pos_iff_ne_zero]
  exact ⟨fun h h0 => h (h0 ▸ UInt64.toNat_zero),
    fun h h0 => h (UInt64.toNat.inj (h0.trans UInt64.toNat_zero.symm))⟩

/-- The source's wrap test: `b > a + b` holds exactly when `a + b` overflowed. -/
theorem add_lt_self_iff (a b : UInt64) : a + b < b ↔ UInt64.size ≤ a.toNat + b.toNat := by
  rw [uint64_lt_iff, UInt64.toNat_add]
  have := a.toNat_lt
  have := b.toNat_lt
  simp only [UInt64.size]
  omega

/-- Accumulating `acc += a` over a list computes the exact sum modulo `2^64`. -/
theorem toNat_foldl_add (acc : UInt64) (amounts : List UInt64) :
    (amounts.foldl (· + ·) acc).toNat = (acc.toNat + exactSum amounts) % UInt64.size := by
  induction amounts generalizing acc with
  | nil => simp [Nat.mod_eq_of_lt acc.toNat_lt]
  | cons a amounts ih =>
      rw [List.foldl_cons, ih, UInt64.toNat_add, exactSum_cons, Nat.mod_add_mod, Nat.add_assoc]

/-- A wrapping sum from `0` that does not reach `2^64` is exact. -/
theorem toNat_foldl_add_of_lt {amounts : List UInt64} (h : exactSum amounts < UInt64.size) :
    (amounts.foldl (· + ·) 0).toNat = exactSum amounts := by
  rw [toNat_foldl_add, UInt64.toNat_zero, Nat.zero_add, Nat.mod_eq_of_lt h]

/-! ## Input amounts -/

/-- The `amount = 0; if (KeyInput) ... else if (MultisignatureInput) ...` prologue shared by
`getInputsMoneyAmount` and `checkInputsOverflow`: coinbase inputs count `0`. -/
def inputAmount : TransactionInput → UInt64
  | .base _ => 0
  | .key input => input.amount
  | .multisignature input => input.amount

/-- The amounts the input loops add up, one per input. -/
def inputAmounts (tx : TransactionPrefix) : List UInt64 :=
  tx.inputs.map inputAmount

/-- The amounts the output loops add up, one per output. -/
def outputAmounts (tx : TransactionPrefix) : List UInt64 :=
  tx.outputs.map TransactionOutput.amount

/-! ## The wrapping sums -/

/-- `getInputsMoneyAmount(tx, money)`, which always returns `true`: the wrapping input total. -/
def getInputsMoneyAmount (tx : Transaction) : UInt64 :=
  tx.inputs.foldl (fun money input => money + inputAmount input) 0

/-- `get_outs_money_amount(tx)`: the wrapping output total. -/
def getOutsMoneyAmount (tx : Transaction) : UInt64 :=
  tx.outputs.foldl (fun outputsAmount o => outputsAmount + o.amount) 0

theorem getInputsMoneyAmount_eq (tx : Transaction) :
    getInputsMoneyAmount tx = (inputAmounts tx.toTransactionPrefix).foldl (· + ·) 0 := by
  simp [getInputsMoneyAmount, inputAmounts, List.foldl_map]

theorem getOutsMoneyAmount_eq (tx : Transaction) :
    getOutsMoneyAmount tx = (outputAmounts tx.toTransactionPrefix).foldl (· + ·) 0 := by
  simp [getOutsMoneyAmount, outputAmounts, List.foldl_map]

/-! ## `get_tx_fee` -/

/-- One pass of the input loop of `get_tx_fee`, which adds nothing for a coinbase input. -/
def txFeeInputStep (amountIn : UInt64) : TransactionInput → UInt64
  | .key input => amountIn + input.amount
  | .multisignature input => amountIn + input.amount
  | .base _ => amountIn

/-- The `amount_in` that `get_tx_fee` accumulates. -/
def txFeeAmountIn (tx : Transaction) : UInt64 :=
  tx.inputs.foldl txFeeInputStep 0

/-- The `amount_out` that `get_tx_fee` accumulates. -/
def txFeeAmountOut (tx : Transaction) : UInt64 :=
  tx.outputs.foldl (fun amountOut o => amountOut + o.amount) 0

/-- `get_tx_fee(tx, fee)`: `some fee` where the source returns `true` after writing `fee`,
`none` where it returns `false` and leaves `fee` alone. -/
def getTxFee? (tx : Transaction) : Option UInt64 :=
  if txFeeAmountIn tx ≥ txFeeAmountOut tx then some (txFeeAmountIn tx - txFeeAmountOut tx)
  else none

/-- `get_tx_fee(tx)`: the fee, or `0` when `get_tx_fee(tx, fee)` fails. -/
def getTxFee (tx : Transaction) : UInt64 :=
  (getTxFee? tx).getD 0

theorem txFeeInputStep_eq (amountIn : UInt64) (input : TransactionInput) :
    txFeeInputStep amountIn input = amountIn + inputAmount input := by
  cases input <;> simp [txFeeInputStep, inputAmount]

/-- Skipping coinbase inputs and adding `0` for them give the same `amount_in`. -/
theorem txFeeAmountIn_eq (tx : Transaction) : txFeeAmountIn tx = getInputsMoneyAmount tx := by
  simp only [txFeeAmountIn, getInputsMoneyAmount, funext₂ txFeeInputStep_eq]

theorem txFeeAmountOut_eq (tx : Transaction) : txFeeAmountOut tx = getOutsMoneyAmount tx := rfl

/-! ## The overflow checks -/

/-- The loop shared by `checkInputsOverflow` and `checkOutsOverflow`, from the running total
`money`: each amount is refused when `money > amount + money`, else added. -/
def checkOverflowFrom (money : UInt64) : List UInt64 → Bool
  | [] => true
  | amount :: amounts =>
      if money > amount + money then false else checkOverflowFrom (money + amount) amounts

/-- `checkInputsOverflow(tx)`. -/
def checkInputsOverflow (tx : TransactionPrefix) : Bool :=
  checkOverflowFrom 0 (tx.inputs.map inputAmount)

/-- `checkOutsOverflow(tx)`. -/
def checkOutsOverflow (tx : TransactionPrefix) : Bool :=
  checkOverflowFrom 0 (tx.outputs.map TransactionOutput.amount)

/-- `checkMoneyOverflow(tx)`. -/
def checkMoneyOverflow (tx : TransactionPrefix) : Bool :=
  checkInputsOverflow tx && checkOutsOverflow tx

/-- The wrap test is exact: the loop accepts iff the running total plus the exact sum of the rest
stays below `2^64`. -/
theorem checkOverflowFrom_iff (money : UInt64) (amounts : List UInt64) :
    checkOverflowFrom money amounts = true ↔ money.toNat + exactSum amounts < UInt64.size := by
  induction amounts generalizing money with
  | nil => simpa [checkOverflowFrom] using money.toNat_lt_size
  | cons a amounts ih =>
      by_cases h : a + money < money
      · have := (add_lt_self_iff a money).mp h
        simp only [checkOverflowFrom, gt_iff_lt, h, if_true, Bool.false_eq_true, false_iff,
          exactSum_cons]
        omega
      · have hfit : money.toNat + a.toNat < UInt64.size := by
          have := (add_lt_self_iff a money).not.mp h
          omega
        simp only [checkOverflowFrom, gt_iff_lt, h, if_false]
        rw [ih, UInt64.toNat_add, Nat.mod_eq_of_lt hfit, exactSum_cons, Nat.add_assoc]

/-- The overflow checks accept exactly when the exact input, resp. output, total is at most
`2^64 - 1`. -/
theorem checkOverflow_exact (tx : TransactionPrefix) :
    (checkInputsOverflow tx = true ↔ exactSum (inputAmounts tx) ≤ 2 ^ 64 - 1) ∧
      (checkOutsOverflow tx = true ↔ exactSum (outputAmounts tx) ≤ 2 ^ 64 - 1) := by
  simp only [checkInputsOverflow, checkOutsOverflow, inputAmounts, outputAmounts,
    checkOverflowFrom_iff, UInt64.toNat_zero, Nat.zero_add, UInt64.size]
  omega

/-- `checkMoneyOverflow` accepts iff both exact totals stay below `2^64`. -/
theorem checkMoneyOverflow_iff (tx : TransactionPrefix) :
    checkMoneyOverflow tx = true ↔
      exactSum (inputAmounts tx) < UInt64.size ∧ exactSum (outputAmounts tx) < UInt64.size := by
  simp only [checkMoneyOverflow, Bool.and_eq_true, checkInputsOverflow, checkOutsOverflow,
    checkOverflowFrom_iff, UInt64.toNat_zero, Nat.zero_add, inputAmounts, outputAmounts]

/-- Under `checkMoneyOverflow` the wrapping totals of `get_tx_fee` are the exact totals. -/
theorem txFeeAmounts_exact {tx : Transaction}
    (h : checkMoneyOverflow tx.toTransactionPrefix = true) :
    (txFeeAmountIn tx).toNat = exactSum (inputAmounts tx.toTransactionPrefix) ∧
      (txFeeAmountOut tx).toNat = exactSum (outputAmounts tx.toTransactionPrefix) := by
  obtain ⟨hin, hout⟩ := (checkMoneyOverflow_iff _).mp h
  rw [txFeeAmountIn_eq, txFeeAmountOut_eq, getInputsMoneyAmount_eq, getOutsMoneyAmount_eq]
  exact ⟨toNat_foldl_add_of_lt hin, toNat_foldl_add_of_lt hout⟩

/-- Under `checkMoneyOverflow`, `get_tx_fee` succeeds iff the exact input total covers the exact
output total. -/
theorem getTxFee?_isSome_iff {tx : Transaction}
    (h : checkMoneyOverflow tx.toTransactionPrefix = true) :
    (getTxFee? tx).isSome = true ↔
      exactSum (outputAmounts tx.toTransactionPrefix) ≤
        exactSum (inputAmounts tx.toTransactionPrefix) := by
  obtain ⟨hin, hout⟩ := txFeeAmounts_exact h
  simp only [getTxFee?, ge_iff_le, uint64_le_iff, hin, hout]
  split <;> simp_all

/-- Under `checkMoneyOverflow`, the fee `get_tx_fee` writes is the exact difference of the totals,
and the difference of `getInputsMoneyAmount` and `get_outs_money_amount`. -/
theorem getTxFee?_eq_some {tx : Transaction} (h : checkMoneyOverflow tx.toTransactionPrefix = true)
    {fee : UInt64} (hfee : getTxFee? tx = some fee) :
    fee.toNat = exactSum (inputAmounts tx.toTransactionPrefix) -
        exactSum (outputAmounts tx.toTransactionPrefix) ∧
      fee = getInputsMoneyAmount tx - getOutsMoneyAmount tx := by
  obtain ⟨hin, hout⟩ := txFeeAmounts_exact h
  simp only [getTxFee?, ge_iff_le, Option.ite_none_right_eq_some, Option.some.injEq] at hfee
  obtain ⟨hle, rfl⟩ := hfee
  exact ⟨by rw [UInt64.toNat_sub_of_le _ _ hle, hin, hout],
    by rw [txFeeAmountIn_eq, txFeeAmountOut_eq]⟩

/-- After `checkMoneyOverflow`, `get_tx_fee` succeeds iff the exact inputs cover the exact outputs,
and its fee is their exact difference. -/
theorem getTxFee_exact_of_checkMoneyOverflow (tx : Transaction)
    (h : checkMoneyOverflow tx.toTransactionPrefix = true) :
    ((getTxFee? tx).isSome = true ↔
        exactSum (outputAmounts tx.toTransactionPrefix) ≤
          exactSum (inputAmounts tx.toTransactionPrefix)) ∧
      (∀ fee, getTxFee? tx = some fee →
        fee.toNat = exactSum (inputAmounts tx.toTransactionPrefix) -
            exactSum (outputAmounts tx.toTransactionPrefix) ∧
          fee = getInputsMoneyAmount tx - getOutsMoneyAmount tx) ∧
      txFeeAmountIn tx = getInputsMoneyAmount tx ∧ txFeeAmountOut tx = getOutsMoneyAmount tx ∧
      (getInputsMoneyAmount tx).toNat = exactSum (inputAmounts tx.toTransactionPrefix) ∧
      (getOutsMoneyAmount tx).toNat = exactSum (outputAmounts tx.toTransactionPrefix) := by
  obtain ⟨hin, hout⟩ := txFeeAmounts_exact h
  rw [txFeeAmountIn_eq] at hin
  rw [txFeeAmountOut_eq] at hout
  exact ⟨getTxFee?_isSome_iff h, fun _ => getTxFee?_eq_some h, txFeeAmountIn_eq tx,
    txFeeAmountOut_eq tx, hin, hout⟩

/-- A transaction spending a key input of `5` into an output of `3`. -/
def feeSampleTx : Transaction where
  version := 1
  unlockTime := 0
  inputs := [.key { amount := 5, outputIndexes := [0], keyImage := ⟨[]⟩ }]
  outputs := [{ amount := 3, target := .key ⟨[]⟩ }]
  extra := []
  signatures := [[]]

theorem getTxFee_exact_feeSampleTx :
    checkMoneyOverflow feeSampleTx.toTransactionPrefix = true ∧
      (((getTxFee? feeSampleTx).isSome = true ↔
          exactSum (outputAmounts feeSampleTx.toTransactionPrefix) ≤
            exactSum (inputAmounts feeSampleTx.toTransactionPrefix)) ∧
        (∀ fee, getTxFee? feeSampleTx = some fee →
          fee.toNat = exactSum (inputAmounts feeSampleTx.toTransactionPrefix) -
              exactSum (outputAmounts feeSampleTx.toTransactionPrefix) ∧
            fee = getInputsMoneyAmount feeSampleTx - getOutsMoneyAmount feeSampleTx) ∧
        txFeeAmountIn feeSampleTx = getInputsMoneyAmount feeSampleTx ∧
        txFeeAmountOut feeSampleTx = getOutsMoneyAmount feeSampleTx ∧
        (getInputsMoneyAmount feeSampleTx).toNat =
          exactSum (inputAmounts feeSampleTx.toTransactionPrefix) ∧
        (getOutsMoneyAmount feeSampleTx).toNat =
          exactSum (outputAmounts feeSampleTx.toTransactionPrefix)) :=
  ⟨by decide, getTxFee_exact_of_checkMoneyOverflow feeSampleTx (by decide)⟩

end CryptoNote
end Ssix
