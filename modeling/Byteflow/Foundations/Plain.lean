import Mathlib.Data.Int.Notation
import Mathlib.Logic.Basic

/-!
# Plain operators of machine integers

A plain operation is known by the range of its type and by its exact result. A build with overflow
checks goes on when the result fits (`Plain.Fits`); then a wrapping operation is exact as well.
-/

/-- A plain operation: the range of its type, and its exact result. -/
structure Plain where
  min : ℤ
  max : ℤ
  value : ℤ

namespace Plain

def i64 (value : ℤ) : Plain := ⟨-0x8000000000000000, 0x7FFFFFFFFFFFFFFF, value⟩

def u64 (value : ℤ) : Plain := ⟨0, 0xFFFFFFFFFFFFFFFF, value⟩

def u32 (value : ℤ) : Plain := ⟨0, 0xFFFFFFFF, value⟩

def u16 (value : ℤ) : Plain := ⟨0, 0xFFFF, value⟩

/-- A build with overflow checks goes on. -/
def Fits (p : Plain) : Prop := p.min ≤ p.value ∧ p.value ≤ p.max

instance (p : Plain) : Decidable p.Fits := inferInstanceAs (Decidable (_ ∧ _))

theorem toInt_add_of_fits {x y : Int64} (h : (i64 (x.toInt + y.toInt)).Fits) :
    (x + y).toInt = x.toInt + y.toInt := by
  obtain ⟨hmin, hmax⟩ : -0x8000000000000000 ≤ x.toInt + y.toInt ∧
    x.toInt + y.toInt ≤ 0x7FFFFFFFFFFFFFFF := h
  rw [Int64.toInt_add, Int.bmod_eq_of_le] <;> omega

theorem toInt_sub_of_fits {x y : Int64} (h : (i64 (x.toInt - y.toInt)).Fits) :
    (x - y).toInt = x.toInt - y.toInt := by
  obtain ⟨hmin, hmax⟩ : -0x8000000000000000 ≤ x.toInt - y.toInt ∧
    x.toInt - y.toInt ≤ 0x7FFFFFFFFFFFFFFF := h
  rw [Int64.toInt_sub, Int.bmod_eq_of_le] <;> omega

end Plain
