import Mathlib
import Ssix.CryptoNote.Money

/-!
# Offsets — relative and absolute ring indices

A `KeyInput` stores the global indices of its ring members relative to each other: the first as is,
each later one as the difference to the previous one. The wallet encodes with
`absolute_output_offsets_to_relative`, the validator decodes with
`relativeOutputOffsetsToAbsolute`. Both are in-place loops over a copy of the vector, in
`uint32_t` arithmetic; they are modelled as folds over the loop indices `1, …, size - 1`.

Results:
* `relativeOutputOffsetsToAbsolute_eq_prefixSums`, `absoluteOutputOffsetsToRelative_eq_differences`:
  the loops compute running sums and adjacent differences (the loop invariants are the two
  `_cons_cons` lemmas: after the first iteration the rest of the loop is the same loop one entry
  to the right).
* the two codecs are mutually inverse on every `uint32_t` vector, sorted or not.
* decoded offsets are the prefix sums modulo `2^32`, and they ascend strictly iff no later delta
  is `0` and the total stays below `2^32`.
-/

namespace Ssix
namespace CryptoNote

/-! ## The two loops -/

/-- One iteration `res[i] += res[i - 1]` of `relativeOutputOffsetsToAbsolute`. -/
def absoluteStep (res : List UInt32) (i : Nat) : List UInt32 :=
  res.set i (res.getD i 0 + res.getD (i - 1) 0)

/-- `relativeOutputOffsetsToAbsolute(off)`: `res = off`, then `res[i] += res[i - 1]` for
`i = 1, …, res.size() - 1`. -/
def relativeOutputOffsetsToAbsolute (off : List UInt32) : List UInt32 :=
  (List.range' 1 (off.length - 1)).foldl absoluteStep off

/-- One iteration `copy[i] = off[i] - off[i-1]` of `absolute_output_offsets_to_relative`; it reads
the original vector, not the copy. -/
def relativeStep (off copy : List UInt32) (i : Nat) : List UInt32 :=
  copy.set i (off.getD i 0 - off.getD (i - 1) 0)

/-- `absolute_output_offsets_to_relative(off)`: empty for an empty input, else `copy = off` and
`copy[i] = off[i] - off[i-1]` for `i = 1, …, copy.size() - 1`. -/
def absoluteOutputOffsetsToRelative (off : List UInt32) : List UInt32 :=
  if off.isEmpty then [] else (List.range' 1 (off.length - 1)).foldl (relativeStep off) off

/-! ## What the loops compute -/

/-- Running sums from `acc`. -/
def prefixSums (acc : UInt32) : List UInt32 → List UInt32
  | [] => []
  | x :: xs => (acc + x) :: prefixSums (acc + x) xs

/-- Differences to the previous entry, the first one taken against `prev`. -/
def differences (prev : UInt32) : List UInt32 → List UInt32
  | [] => []
  | x :: xs => (x - prev) :: differences x xs

@[simp] theorem prefixSums_nil (acc : UInt32) : prefixSums acc [] = [] := rfl

@[simp] theorem prefixSums_cons (acc x : UInt32) (xs : List UInt32) :
    prefixSums acc (x :: xs) = (acc + x) :: prefixSums (acc + x) xs := rfl

@[simp] theorem differences_nil (prev : UInt32) : differences prev [] = [] := rfl

@[simp] theorem differences_cons (prev x : UInt32) (xs : List UInt32) :
    differences prev (x :: xs) = (x - prev) :: differences x xs := rfl

@[simp] theorem length_prefixSums (acc : UInt32) (xs : List UInt32) :
    (prefixSums acc xs).length = xs.length := by
  induction xs generalizing acc <;> simp [*]

theorem differences_prefixSums (acc : UInt32) (xs : List UInt32) :
    differences acc (prefixSums acc xs) = xs := by
  induction xs generalizing acc <;> simp [*]

theorem prefixSums_differences (prev : UInt32) (xs : List UInt32) :
    prefixSums prev (differences prev xs) = xs := by
  induction xs generalizing prev <;> simp [*]

/-! ## Loop invariants -/

/-- An iteration past index `0` leaves the head alone and works on the tail one index lower. -/
theorem absoluteStep_cons {i : Nat} (hi : 1 ≤ i) (a : UInt32) (res : List UInt32) :
    absoluteStep (a :: res) (i + 1) = a :: absoluteStep res i := by
  obtain ⟨j, rfl⟩ : ∃ j, i = j + 1 := ⟨i - 1, by omega⟩
  simp [absoluteStep, List.set_cons_succ, List.getD_cons_succ]

theorem foldl_absoluteStep_cons {s : Nat} (hs : 1 ≤ s) (k : Nat) (a : UInt32)
    (res : List UInt32) :
    (List.range' (s + 1) k).foldl absoluteStep (a :: res) =
      a :: (List.range' s k).foldl absoluteStep res := by
  induction k generalizing s res with
  | zero => rfl
  | succ k ih =>
      rw [List.range'_succ, List.range'_succ, List.foldl_cons, List.foldl_cons,
        absoluteStep_cons hs, ih (by omega)]

/-- The first iteration adds the first delta into the second, and the rest of the loop is the same
loop on the tail. -/
theorem relativeOutputOffsetsToAbsolute_cons_cons (x y : UInt32) (rest : List UInt32) :
    relativeOutputOffsetsToAbsolute (x :: y :: rest) =
      x :: relativeOutputOffsetsToAbsolute ((x + y) :: rest) := by
  have hfirst : absoluteStep (x :: y :: rest) 1 = x :: (x + y) :: rest := by
    simp [absoluteStep, List.set_cons_succ, add_comm]
  simp only [relativeOutputOffsetsToAbsolute, List.length_cons, Nat.add_sub_cancel,
    List.range'_succ, List.foldl_cons, hfirst]
  exact foldl_absoluteStep_cons le_rfl _ _ _

theorem relativeOutputOffsetsToAbsolute_cons (x : UInt32) (rest : List UInt32) :
    relativeOutputOffsetsToAbsolute (x :: rest) = x :: prefixSums x rest := by
  induction rest generalizing x with
  | nil => rfl
  | cons y rest ih => rw [relativeOutputOffsetsToAbsolute_cons_cons, ih, prefixSums_cons]

theorem relativeOutputOffsetsToAbsolute_eq_prefixSums (off : List UInt32) :
    relativeOutputOffsetsToAbsolute off = prefixSums 0 off := by
  cases off with
  | nil => rfl
  | cons x rest => rw [relativeOutputOffsetsToAbsolute_cons, prefixSums_cons, zero_add]

theorem relativeStep_cons {i : Nat} (hi : 1 ≤ i) (a c : UInt32) (off copy : List UInt32) :
    relativeStep (a :: off) (c :: copy) (i + 1) = c :: relativeStep off copy i := by
  obtain ⟨j, rfl⟩ : ∃ j, i = j + 1 := ⟨i - 1, by omega⟩
  simp [relativeStep, List.set_cons_succ, List.getD_cons_succ]

theorem foldl_relativeStep_cons {s : Nat} (hs : 1 ≤ s) (k : Nat) (a c : UInt32)
    (off copy : List UInt32) :
    (List.range' (s + 1) k).foldl (relativeStep (a :: off)) (c :: copy) =
      c :: (List.range' s k).foldl (relativeStep off) copy := by
  induction k generalizing s copy with
  | zero => rfl
  | succ k ih =>
      rw [List.range'_succ, List.range'_succ, List.foldl_cons, List.foldl_cons,
        relativeStep_cons hs, ih (by omega)]

/-- Iterations past index `0` never touch the head of the copy. -/
theorem foldl_relativeStep_head {s : Nat} (hs : 1 ≤ s) (k : Nat) (c d : UInt32)
    (off copy : List UInt32) :
    (List.range' s k).foldl (relativeStep off) (c :: copy) =
      c :: ((List.range' s k).foldl (relativeStep off) (d :: copy)).tail := by
  induction k generalizing s copy with
  | zero => rfl
  | succ k ih =>
      obtain ⟨j, rfl⟩ : ∃ j, s = j + 1 := ⟨s - 1, by omega⟩
      simp only [List.range'_succ, List.foldl_cons, relativeStep, List.set_cons_succ]
      exact ih (by omega) _

theorem absoluteOutputOffsetsToRelative_cons_cons (x y : UInt32) (rest : List UInt32) :
    absoluteOutputOffsetsToRelative (x :: y :: rest) =
      x :: (y - x) :: (absoluteOutputOffsetsToRelative (y :: rest)).tail := by
  have hfirst : relativeStep (x :: y :: rest) (x :: y :: rest) 1 = x :: (y - x) :: rest := by
    simp [relativeStep, List.set_cons_succ]
  simp only [absoluteOutputOffsetsToRelative, List.isEmpty_cons, Bool.false_eq_true, if_false,
    List.length_cons, Nat.add_sub_cancel, List.range'_succ, List.foldl_cons, hfirst]
  rw [foldl_relativeStep_cons le_rfl, foldl_relativeStep_head le_rfl _ (y - x) y]

theorem absoluteOutputOffsetsToRelative_cons (x : UInt32) (rest : List UInt32) :
    absoluteOutputOffsetsToRelative (x :: rest) = x :: differences x rest := by
  induction rest generalizing x with
  | nil => rfl
  | cons y rest ih =>
      rw [absoluteOutputOffsetsToRelative_cons_cons, ih, differences_cons, List.tail_cons]

theorem absoluteOutputOffsetsToRelative_eq_differences (off : List UInt32) :
    absoluteOutputOffsetsToRelative off = differences 0 off := by
  cases off with
  | nil => rfl
  | cons x rest => rw [absoluteOutputOffsetsToRelative_cons, differences_cons, sub_zero]

/-! ## The codec round trips -/

/-- The wallet's encoder and the validator's decoder are mutually inverse on every `uint32_t`
vector of every length, in wrapping `uint32_t` arithmetic. -/
theorem offsets_roundtrip (v r : List UInt32) :
    relativeOutputOffsetsToAbsolute (absoluteOutputOffsetsToRelative v) = v ∧
      absoluteOutputOffsetsToRelative (relativeOutputOffsetsToAbsolute r) = r := by
  rw [absoluteOutputOffsetsToRelative_eq_differences, relativeOutputOffsetsToAbsolute_eq_prefixSums,
    relativeOutputOffsetsToAbsolute_eq_prefixSums, absoluteOutputOffsetsToRelative_eq_differences]
  exact ⟨prefixSums_differences 0 v, differences_prefixSums 0 r⟩

/-! ## Decoded offsets -/

theorem uint32_lt_iff {a b : UInt32} : a < b ↔ a.toNat < b.toNat := Iff.rfl

theorem uint32_le_iff {a b : UInt32} : a ≤ b ↔ a.toNat ≤ b.toNat := Iff.rfl

/-- Entry `i` of the running sums is the exact sum of the first `i + 1` deltas modulo `2^32`. -/
theorem toNat_prefixSums_getElem (acc : UInt32) (xs : List UInt32) (i : Nat)
    (h : i < (prefixSums acc xs).length) :
    ((prefixSums acc xs)[i]).toNat =
      (acc.toNat + ((xs.take (i + 1)).map UInt32.toNat).sum) % 2 ^ 32 := by
  induction xs generalizing acc i with
  | nil => simp at h
  | cons x xs ih =>
      cases i with
      | zero => simp [UInt32.toNat_add, UInt32.size]
      | succ i =>
          simp only [prefixSums_cons, List.getElem_cons_succ, ih, List.take_succ_cons,
            List.map_cons, List.sum_cons, UInt32.toNat_add, UInt32.size]
          omega

/-- The running sums after `acc` ascend strictly from `acc` iff no delta is `0` and the total
stays below `2^32`. -/
theorem chain_prefixSums_iff (acc : UInt32) (xs : List UInt32) :
    List.Chain' (· < ·) (acc :: prefixSums acc xs) ↔
      (∀ y ∈ xs, 1 ≤ y) ∧ acc.toNat + (xs.map UInt32.toNat).sum < 2 ^ 32 := by
  induction xs generalizing acc with
  | nil => simpa using acc.toNat_lt
  | cons y ys ih =>
      have hy := y.toNat_lt
      have hacc := acc.toNat_lt
      have hsum : (acc + y).toNat = (acc.toNat + y.toNat) % 2 ^ 32 := UInt32.toNat_add acc y
      have hone : (1 : UInt32).toNat = 1 := rfl
      rw [prefixSums_cons, List.chain'_cons, ih]
      simp only [List.mem_cons, forall_eq_or_imp, List.map_cons, List.sum_cons, uint32_lt_iff,
        uint32_le_iff, hone, hsum]
      constructor
      · rintro ⟨hlt, hys, hfit⟩
        have : acc.toNat + y.toNat < 2 ^ 32 := by omega
        rw [Nat.mod_eq_of_lt this] at hfit
        exact ⟨⟨by omega, hys⟩, by omega⟩
      · rintro ⟨⟨hy1, hys⟩, hfit⟩
        rw [Nat.mod_eq_of_lt (by omega : acc.toNat + y.toNat < 2 ^ 32)]
        exact ⟨by omega, hys, by omega⟩

/-- Entry `i` of the decoded ring is `r[0] + … + r[i]` modulo `2^32`; the ring ascends strictly iff
every later delta is positive and the total stays below `2^32`. -/
theorem relativeOutputOffsetsToAbsolute_spec (r : List UInt32) :
    (∀ (i : Nat) (h : i < (relativeOutputOffsetsToAbsolute r).length),
        ((relativeOutputOffsetsToAbsolute r)[i]).toNat =
          ((r.take (i + 1)).map UInt32.toNat).sum % 2 ^ 32) ∧
      ((relativeOutputOffsetsToAbsolute r).Sorted (· < ·) ↔
        (∀ (i : Nat) (h : i < r.length), 1 ≤ i → 1 ≤ r[i]) ∧
          (r.map UInt32.toNat).sum < 2 ^ 32) := by
  haveI : IsTrans UInt32 (· < ·) := ⟨fun _ _ _ => UInt32.lt_trans⟩
  simp only [relativeOutputOffsetsToAbsolute_eq_prefixSums]
  refine ⟨fun i h => by simpa using toNat_prefixSums_getElem 0 r i h, ?_⟩
  cases r with
  | nil => simp
  | cons x xs =>
      rw [List.Sorted, ← List.chain'_iff_pairwise, prefixSums_cons, zero_add,
        chain_prefixSums_iff]
      simp only [List.length_cons, List.map_cons, List.sum_cons, List.forall_mem_iff_getElem]
      constructor
      · rintro ⟨hxs, hfit⟩
        refine ⟨fun i h hi => ?_, hfit⟩
        obtain ⟨j, rfl⟩ : ∃ j, i = j + 1 := ⟨i - 1, by omega⟩
        simpa using hxs j (by omega)
      · rintro ⟨hxs, hfit⟩
        exact ⟨fun j h => by simpa using hxs (j + 1) (by omega) (by omega), hfit⟩

end CryptoNote
end Ssix
