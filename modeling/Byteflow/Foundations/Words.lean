import Mathlib.Algebra.Order.Ring.Nat
import Mathlib.Data.List.Basic

/-!
# Sets of numbers in words

A list of 64-bit words as a set of numbers: `i` is in the set if bit `i % 64` of word `i / 64` is
one. Numbers beyond the last word are not in it, so that the words need not be as many in two sets
of which the intersection is taken.
-/

namespace Words

/-- The word of which only this bit is one. -/
def single (b : ℕ) : UInt64 := (1 : UInt64) <<< UInt64.ofNat b

def holds (words : List UInt64) (i : ℕ) : Bool :=
  words[i / 64]?.any fun word => word.toNat.testBit (i % 64)

theorem toNat_single {b : ℕ} (hb : b < 64) : (single b).toNat = 2 ^ b := by
  have hlt : 2 ^ b < 2 ^ 64 := Nat.pow_lt_pow_right (by decide) hb
  unfold single
  rw [UInt64.toNat_shiftLeft, UInt64.toNat_ofNat', UInt64.toNat_one, Nat.one_shiftLeft,
    Nat.mod_eq_of_lt (Nat.lt_trans hb (by decide)), Nat.mod_eq_of_lt hb, Nat.mod_eq_of_lt hlt]

theorem testBit_single {b i : ℕ} (hb : b < 64) : (single b).toNat.testBit i = decide (b = i) := by
  rw [toNat_single hb, Nat.testBit_two_pow]

/-- A word has a bit if it shares it with the word that has no other. -/
theorem and_single_ne_zero {word : UInt64} {b : ℕ} (hb : b < 64) :
    (word &&& single b != 0) = word.toNat.testBit b := by
  have hbits : ∀ i, (word &&& single b).toNat.testBit i =
      (word.toNat.testBit i && decide (b = i)) := by
    intro i
    rw [UInt64.toNat_and, Nat.testBit_and, testBit_single hb]
  rw [Bool.eq_iff_iff, bne_iff_ne, Ne, ← UInt64.toNat_inj]
  constructor
  · intro hne
    obtain ⟨i, hi⟩ := Nat.exists_testBit_of_ne_zero hne
    rw [hbits, Bool.and_eq_true, decide_eq_true_eq] at hi
    rw [hi.2]
    exact hi.1
  · intro hbit hzero
    have hself := hbits b
    rw [hzero, hbit] at hself
    simp at hself

/-! ## Operations on sets -/

theorem holds_zipWith_and (words words' : List UInt64) (i : ℕ) :
    holds (List.zipWith (· &&& ·) words words') i = (holds words i && holds words' i) := by
  unfold holds
  rw [List.getElem?_zipWith]
  cases words[i / 64]? <;> cases words'[i / 64]? <;> simp

theorem holds_replicate_zero (k i : ℕ) : holds (List.replicate k 0) i = false := by
  unfold holds
  rw [List.getElem?_replicate]
  split_ifs <;> simp

theorem holds_replicate_ones (k i : ℕ) :
    holds (List.replicate k 0xFFFFFFFFFFFFFFFF) i = decide (i < 64 * k) := by
  have hword : i / 64 < k ↔ i < 64 * k := by
    rw [Nat.div_lt_iff_lt_mul (by decide), Nat.mul_comm]
  have hbit : (0xFFFFFFFFFFFFFFFF : UInt64).toNat.testBit (i % 64) = true := by
    show (2 ^ 64 - 1).testBit (i % 64) = true
    rw [Nat.testBit_two_pow_sub_one, decide_eq_true_eq]
    exact Nat.mod_lt i (by decide)
  unfold holds
  rw [List.getElem?_replicate]
  split_ifs with h
  · rw [Option.any_some, hbit, eq_comm, decide_eq_true_eq]
    exact hword.mp h
  · rw [Option.any_none, eq_comm, decide_eq_false_iff_not, ← hword]
    exact h

/-- One more word, with the bits below `r`. -/
theorem holds_append_below (words : List UInt64) {r : ℕ} (hr : r < 64) (i : ℕ) :
    holds (words ++ [single r - 1]) i =
      (holds words i || decide (64 * words.length ≤ i ∧ i < 64 * words.length + r)) := by
  have hone : (1 : UInt64) ≤ single r := by
    rw [UInt64.le_iff_toNat_le, toNat_single hr]
    exact Nat.one_le_two_pow
  have hbit : (single r - 1).toNat.testBit (i % 64) = decide (i % 64 < r) := by
    rw [UInt64.toNat_sub_of_le _ _ hone, toNat_single hr]
    exact Nat.testBit_two_pow_sub_one r (i % 64)
  unfold holds
  rcases Nat.lt_trichotomy (i / 64) words.length with h | h | h
  · have hout : ¬(64 * words.length ≤ i ∧ i < 64 * words.length + r) := by omega
    rw [List.getElem?_append_left h, decide_eq_false hout, Bool.or_false]
  · have hin : (64 * words.length ≤ i ∧ i < 64 * words.length + r) ↔ i % 64 < r := by omega
    rw [h, List.getElem?_concat_length, List.getElem?_eq_none le_rfl, Option.any_some, hbit,
      Option.any_none, Bool.false_or, decide_eq_decide.mpr hin]
  · have hout : ¬(64 * words.length ≤ i ∧ i < 64 * words.length + r) := by omega
    rw [List.getElem?_eq_none (by simpa using h.nat_succ_le), List.getElem?_eq_none h.le,
      decide_eq_false hout, Bool.or_false]

/-- One number more, if it has a word. -/
theorem holds_modify_or {words : List UInt64} {j : ℕ} (hj : j / 64 < words.length) (i : ℕ) :
    holds (words.modify (j / 64) (· ||| single (j % 64))) i =
      (holds words i || decide (i = j)) := by
  have hsplit : decide (i = j) = decide (j / 64 = i / 64 ∧ j % 64 = i % 64) :=
    decide_eq_decide.mpr (by omega)
  unfold holds
  rw [List.getElem?_modify, hsplit]
  by_cases hword : j / 64 = i / 64
  · have hbit : (single (j % 64)).toNat.testBit (i % 64) = decide (j % 64 = i % 64) :=
      testBit_single (Nat.mod_lt j (by decide))
    rw [hword] at hj
    simp [hword, hj, hbit]
  · cases words[i / 64]? <;> simp [hword]

end Words
