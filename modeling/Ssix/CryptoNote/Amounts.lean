import Mathlib
import Ssix.CryptoNote.Money

/-!
# Amounts — canonical amounts and the integral power of `CryptoNoteFormatUtils.cpp`

`is_valid_decomposed_amount` tells whether an amount is one of the canonical amounts of the
table `Currency::PRETTY_AMOUNTS`, by `std::lower_bound` on that sorted table. The table is not
among the sources and is a parameter here; `std::lower_bound` is the halving loop of libstdc++.
`power_integral` raises a `uint64_t` to a `uint64_t` power with a counting loop in wrapping
arithmetic.

Results:
* `lowerBound_spec`: on a sorted table, the halving loop returns the first position of its
  window whose entry is not below the value.
* `isValidDecomposedAmount_iff`: on every sorted table, the binary search decides membership.
* `powerIntegralLoop_eq_iterate`: the loop of `power_integral` is `b - i` passes of its body.
* `powerIntegral_spec`: `power_integral a b` is `a ^ b` modulo `2^64`, computed by exactly
  `b - 1` passes for `b ≥ 1`, and `1` for `b = 0`.
-/

namespace Ssix
namespace CryptoNote

/-! ## `std::lower_bound` and `is_valid_decomposed_amount` -/

/-- `std::lower_bound` over the `len` entries of `table` from position `first`, as libstdc++'s
`__lower_bound` runs it: compare the middle entry with `value`, keep the entries after it when it
is below `value`, and the entries before it otherwise. -/
def lowerBound (table : List UInt64) (value : UInt64) (first len : Nat) : Nat :=
  if h : len = 0 then first
  else if table.getD (first + len / 2) 0 < value then
    lowerBound table value (first + len / 2 + 1) (len - len / 2 - 1)
  else lowerBound table value first (len / 2)
termination_by len
decreasing_by all_goals omega

/-- `is_valid_decomposed_amount(amount)`, with the table `Currency::PRETTY_AMOUNTS` as a
parameter: `false` when `lower_bound` reaches the end of the table or stops at another amount. -/
def isValidDecomposedAmount (prettyAmounts : List UInt64) (amount : UInt64) : Bool :=
  let it := lowerBound prettyAmounts amount 0 prettyAmounts.length
  if it = prettyAmounts.length ∨ amount ≠ prettyAmounts.getD it 0 then false else true

section LowerBound

variable {table : List UInt64} {value : UInt64}

theorem getD_le_getD_of_sorted (hsorted : table.Sorted (· ≤ ·)) {i j : Nat} (hij : i ≤ j)
    (hj : j < table.length) : table.getD i 0 ≤ table.getD j 0 := by
  rw [List.getD_eq_getElem _ _ (hij.trans_lt hj), List.getD_eq_getElem _ _ hj]
  rcases hij.eq_or_lt with rfl | hlt
  · exact uint64_le_iff.mpr le_rfl
  · exact List.pairwise_iff_getElem.mp hsorted i j _ hj hlt

/-- The halving loop answers inside `[first, first + len]`; entries before the answer are below
`value`, and entries from it on are not. -/
theorem lowerBound_spec (hsorted : table.Sorted (· ≤ ·)) {first len : Nat}
    (hlen : first + len ≤ table.length)
    (hbelow : ∀ k < first, table.getD k 0 < value)
    (habove : ∀ k, first + len ≤ k → k < table.length → value ≤ table.getD k 0) :
    first ≤ lowerBound table value first len ∧ lowerBound table value first len ≤ first + len ∧
      (∀ k < lowerBound table value first len, table.getD k 0 < value) ∧
      ∀ k, lowerBound table value first len ≤ k → k < table.length →
        value ≤ table.getD k 0 := by
  induction first, len using lowerBound.induct table value with
  | case1 first =>
    rw [lowerBound, dif_pos rfl]
    exact ⟨le_rfl, le_rfl, hbelow, habove⟩
  | case2 first len hzero hmiddle ih =>
    rw [lowerBound, dif_neg hzero, if_pos hmiddle]
    have hbelow' : ∀ k < first + len / 2 + 1, table.getD k 0 < value := fun k hk =>
      if hkf : k < first then hbelow k hkf
      else uint64_lt_iff.mpr (lt_of_le_of_lt
        (uint64_le_iff.mp (getD_le_getD_of_sorted hsorted (by omega) (by omega)))
        (uint64_lt_iff.mp hmiddle))
    obtain ⟨h1, h2, h3, h4⟩ := ih (by omega) hbelow' fun k hk => habove k (by omega)
    exact ⟨by omega, by omega, h3, h4⟩
  | case3 first len hzero hmiddle ih =>
    rw [lowerBound, dif_neg hzero, if_neg hmiddle]
    have habove' : ∀ k, first + len / 2 ≤ k → k < table.length → value ≤ table.getD k 0 :=
      fun k hk hkl => uint64_le_iff.mpr (le_trans
        (Nat.le_of_not_lt (mt uint64_lt_iff.mpr hmiddle))
        (uint64_le_iff.mp (getD_le_getD_of_sorted hsorted hk hkl)))
    obtain ⟨h1, h2, h3, h4⟩ := ih (by omega) hbelow habove'
    exact ⟨h1, by omega, h3, h4⟩

/-- On a sorted table, `is_valid_decomposed_amount` accepts exactly the amounts in the table. -/
theorem isValidDecomposedAmount_iff (hsorted : table.Sorted (· ≤ ·)) (amount : UInt64) :
    isValidDecomposedAmount table amount = true ↔ amount ∈ table := by
  obtain ⟨-, hle, hbelow, habove⟩ := @lowerBound_spec _ amount hsorted 0 _
    (Nat.zero_add _).le (fun _ h => absurd h (Nat.not_lt_zero _)) fun _ h hk => by omega
  simp only [isValidDecomposedAmount, Nat.zero_add] at *
  generalize lowerBound table amount 0 table.length = it at *
  constructor
  · intro h
    split_ifs at h with hstop
    rw [not_or, not_not] at hstop
    have hit : it < table.length := lt_of_le_of_ne hle hstop.1
    exact List.mem_iff_getElem.mpr ⟨it, hit, (List.getD_eq_getElem _ _ hit ▸ hstop.2).symm⟩
  · intro hmem
    obtain ⟨k, hk, rfl⟩ := List.mem_iff_getElem.mp hmem
    have hitk : it ≤ k := Nat.le_of_not_lt fun hlt =>
      Nat.lt_irrefl _ (uint64_lt_iff.mp (List.getD_eq_getElem _ _ hk ▸ hbelow k hlt))
    have hit : it < table.length := lt_of_le_of_lt hitk hk
    have hge := uint64_le_iff.mp (habove it le_rfl hit)
    have hle' := uint64_le_iff.mp
      (List.getD_eq_getElem _ _ hk ▸ getD_le_getD_of_sorted hsorted hitk hk)
    rw [if_neg (not_or.mpr ⟨hit.ne, not_not.mpr (UInt64.toNat.inj (by omega))⟩)]

theorem isValidDecomposedAmount_iff_digits :
    ([1, 2, 3, 4, 5, 6, 7, 8, 9] : List UInt64).Sorted (· ≤ ·) ∧
      (isValidDecomposedAmount [1, 2, 3, 4, 5, 6, 7, 8, 9] 7 = true ↔
        (7 : UInt64) ∈ ([1, 2, 3, 4, 5, 6, 7, 8, 9] : List UInt64)) :=
  ⟨by decide, isValidDecomposedAmount_iff (by decide) 7⟩

end LowerBound

/-! ## `power_integral` -/

theorem toNat_sub_one_add_one {d : UInt64} (h : d ≠ 0) : (d - 1).toNat + 1 = d.toNat := by
  have hpos : 0 < d.toNat := uint64_pos_iff_ne_zero.mpr h
  rw [UInt64.toNat_sub_of_le _ _ (show (1 : UInt64) ≤ d from hpos)]
  exact Nat.sub_add_cancel hpos

/-- The loop `for (uint64_t i = 1; i != b; i++) total *= a;` of `power_integral`, from the
counter `i` and the product `total`. It stops exactly when `i` reaches `b`; each pass brings the
wrapping distance `b - i` one closer to `0`, so it stops from every `i`. -/
def powerIntegralLoop (a b i total : UInt64) : UInt64 :=
  if i = b then total else powerIntegralLoop a b (i + 1) (total * a)
termination_by (b - i).toNat
decreasing_by
  rw [sub_add_eq_sub_sub]
  have := toNat_sub_one_add_one (sub_ne_zero.mpr (Ne.symm ‹¬i = b›))
  omega

/-- `power_integral(a, b)`. -/
def powerIntegral (a b : UInt64) : UInt64 :=
  if b = 0 then 1 else powerIntegralLoop a b 1 a

/-- One pass of the loop of `power_integral` on the pair `(i, total)`: `total *= a`, then
`i++`. -/
def powerIntegralStep (a : UInt64) (state : UInt64 × UInt64) : UInt64 × UInt64 :=
  (state.1 + 1, state.2 * a)

/-- After `k` passes the counter has moved by `k` and the product has gained `k` factors `a`,
both modulo `2^64`. -/
theorem iterate_powerIntegralStep (a : UInt64) (k : Nat) (state : UInt64 × UInt64) :
    ((powerIntegralStep a)^[k] state).1.toNat = (state.1.toNat + k) % UInt64.size ∧
      ((powerIntegralStep a)^[k] state).2.toNat =
        state.2.toNat * a.toNat ^ k % UInt64.size := by
  induction k generalizing state with
  | zero => simp [Nat.mod_eq_of_lt (UInt64.toNat_lt_size _)]
  | succ k ih =>
    obtain ⟨hcounter, htotal⟩ := ih (powerIntegralStep a state)
    rw [Function.iterate_succ_apply]
    refine ⟨hcounter.trans ?_, htotal.trans ?_⟩
    · show ((state.1.toNat + 1) % UInt64.size + k) % UInt64.size = _
      rw [Nat.mod_add_mod, Nat.add_assoc, Nat.add_comm 1 k]
    · rw [powerIntegralStep, UInt64.toNat_mul, Nat.mod_mul_mod, pow_succ', Nat.mul_assoc]

/-- The loop from counter `i` makes `b - i` passes, counted in wrapping arithmetic, and returns
the product they leave. -/
theorem powerIntegralLoop_eq_iterate (a b i total : UInt64) :
    powerIntegralLoop a b i total = ((powerIntegralStep a)^[(b - i).toNat] (i, total)).2 := by
  induction i, total using powerIntegralLoop.induct a b with
  | case1 total =>
    rw [powerIntegralLoop, if_pos rfl, sub_self, UInt64.toNat_zero]
    rfl
  | case2 i total hstop ih =>
    rw [powerIntegralLoop, if_neg hstop, ih, sub_add_eq_sub_sub,
      ← toNat_sub_one_add_one (sub_ne_zero.mpr (Ne.symm hstop)), Function.iterate_succ_apply]
    rfl

/-- `power_integral` returns `a ^ b` modulo `2^64`, after exactly `b - 1` passes of its loop
when `b ≥ 1`. -/
theorem powerIntegral_spec (a b : UInt64) :
    (powerIntegral a b).toNat = a.toNat ^ b.toNat % 2 ^ 64 ∧
      (b = 0 → powerIntegral a b = 1) ∧
      (b ≠ 0 → (∀ k < b.toNat - 1, ((powerIntegralStep a)^[k] (1, a)).1 ≠ b) ∧
        ((powerIntegralStep a)^[b.toNat - 1] (1, a)).1 = b ∧
        powerIntegral a b = ((powerIntegralStep a)^[b.toNat - 1] (1, a)).2) := by
  by_cases hb : b = 0
  · subst hb
    simp [powerIntegral]
  have hcount := toNat_sub_one_add_one hb
  have hsize := UInt64.toNat_lt_size b
  have hrun : powerIntegral a b = ((powerIntegralStep a)^[b.toNat - 1] (1, a)).2 := by
    rw [powerIntegral, if_neg hb, powerIntegralLoop_eq_iterate, ← hcount, Nat.add_sub_cancel]
  have hcounter (k : Nat) (hk : k < b.toNat) :
      ((powerIntegralStep a)^[k] (1, a)).1.toNat = k + 1 := by
    rw [(iterate_powerIntegralStep a k _).1]
    show (1 + k) % UInt64.size = k + 1
    rw [Nat.mod_eq_of_lt (by omega), Nat.add_comm]
  refine ⟨?_, fun h => absurd h hb, fun _ => ⟨fun k hk hstop => ?_, ?_, hrun⟩⟩
  · rw [hrun, (iterate_powerIntegralStep a _ _).2, ← pow_succ', ← hcount, Nat.add_sub_cancel]
    rfl
  · exact absurd (hstop ▸ hcounter k (by omega)) (by omega)
  · exact UInt64.toNat.inj ((hcounter (b.toNat - 1) (by omega)).trans (by omega))

end CryptoNote
end Ssix
