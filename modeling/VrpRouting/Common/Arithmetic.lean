import VrpRouting.Common.Types

/-! # The arithmetic of times

Times are added and subtracted as 64-bit integers, and they are multiplied and divided as `double`s
whose result is cast. `Arithmetic.machine` does so for any rounding (`Doubles`); a sum that does not
fit is that of two's complement. `Arithmetic.exact` is the arithmetic of the results that are about
inputs whose sums fit (`addIntervals_eq_of_fits`) and whose quotients and products are not rounded. -/

namespace VrpRouting

/-- The sum of two `TInterval`s. -/
def addIntervals (a b : ℤ) : ℤ := (a + b).bmod (2 ^ 64)

/-- The difference of two `TInterval`s. -/
def subIntervals (a b : ℤ) : ℤ := (a - b).bmod (2 ^ 64)

/-- The number is one of 64 bits. -/
def Fits (a : ℤ) : Prop := -infinity - 1 ≤ a ∧ a ≤ infinity

instance (a : ℤ) : Decidable (Fits a) := inferInstanceAs (Decidable (_ ∧ _))

theorem addIntervals_eq_of_fits {a b : ℤ} (h : Fits (a + b)) : addIntervals a b = a + b := by
  unfold Fits infinity at h
  exact Int.bmod_eq_of_le (by omega) (by omega)

theorem subIntervals_eq_of_fits {a b : ℤ} (h : Fits (a - b)) : subIntervals a b = a - b := by
  unfold Fits infinity at h
  exact Int.bmod_eq_of_le (by omega) (by omega)

theorem addIntervals_eq {a b : ℤ} (ha : 0 ≤ a) (hb : 0 ≤ b) (h : a + b ≤ infinity) :
    addIntervals a b = a + b :=
  addIntervals_eq_of_fits ⟨by unfold infinity; omega, h⟩

structure Arithmetic where
  add : ℤ → ℤ → ℤ
  sub : ℤ → ℤ → ℤ
  /-- `static_cast<TInterval>(static_cast<double>(x) * c)`. -/
  times : ℚ → ℚ → ℤ
  /-- `static_cast<TInterval>(static_cast<double>(x) / c)`. -/
  divide : ℚ → ℚ → ℤ

namespace Arithmetic

def exact : Arithmetic where
  add a b := a + b
  sub a b := a - b
  times x c := toInterval (x * c)
  divide x c := toInterval (x / c)

@[simp] theorem exact_add (a b : ℤ) : exact.add a b = a + b := rfl

@[simp] theorem exact_sub (a b : ℤ) : exact.sub a b = a - b := rfl

@[simp] theorem exact_times (x c : ℚ) : exact.times x c = toInterval (x * c) := rfl

@[simp] theorem exact_divide (x c : ℚ) : exact.divide x c = toInterval (x / c) := rfl

def machine (D : Doubles) : Arithmetic where
  add := addIntervals
  sub := subIntervals
  times := D.times
  divide := D.divide

section Machine
variable (D : Doubles)

@[simp] theorem machine_add (a b : ℤ) : (machine D).add a b = addIntervals a b := rfl

@[simp] theorem machine_times (x c : ℚ) : (machine D).times x c = D.times x c := rfl

end Machine

end Arithmetic

end VrpRouting
