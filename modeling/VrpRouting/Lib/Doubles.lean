import Mathlib.Algebra.Order.Round
import Mathlib.Data.Int.Log
import Mathlib.Data.Rat.Floor
import Mathlib.Tactic.Linarith
import Mathlib.Tactic.Positivity
import Mathlib.Tactic.Ring

/-! # Arithmetic on doubles

An operation on doubles gives the rounded exact result, and a conversion to an integer of 64 bits
truncates. `Doubles` holds what results about such code need: the rounding is monotone, keeps the integers
of at most 53 bits and changes a normal result by a small part of it; the conversion is that of the
truncated value when it fits, and any integer of 64 bits otherwise. An overflow of the rounding is any
value that is too large. `Doubles.nearest` rounds to 53 bits. -/

namespace Rounding

/-- The value without its fraction. -/
def truncate (q : ℚ) : ℤ := q.num.tdiv q.den

theorem truncate_nonneg {q : ℚ} (h : 0 ≤ q) : 0 ≤ truncate q :=
  Int.tdiv_nonneg (Rat.num_nonneg.mpr h) (Int.natCast_nonneg _)

theorem truncate_neg (q : ℚ) : truncate (-q) = -truncate q := by
  unfold truncate
  rw [Rat.num_neg_eq_neg_num, Rat.den_neg_eq_den, Int.neg_tdiv]

theorem truncate_eq_floor {q : ℚ} (h : 0 ≤ q) : truncate q = ⌊q⌋ := by
  rw [Rat.floor_def', truncate, Int.tdiv_eq_ediv_of_nonneg (Rat.num_nonneg.mpr h)]

theorem truncate_eq_iff_of_nonneg {q : ℚ} (h : 0 ≤ q) (n : ℤ) :
    truncate q = n ↔ |(n : ℚ)| ≤ q ∧ q < |(n : ℚ)| + 1 ∧ 0 ≤ n * q := by
  rw [truncate_eq_floor h]
  rcases le_or_gt 0 n with hn | hn
  · have hn' : (0 : ℚ) ≤ n := Int.cast_nonneg hn
    rw [Int.floor_eq_iff, abs_of_nonneg hn']
    exact and_congr_right fun _ => (and_iff_left (mul_nonneg hn' h)).symm
  · have hn' : (n : ℚ) < 0 := Int.cast_lt_zero.mpr hn
    constructor
    · intro hfloor
      have := Int.floor_nonneg.mpr h
      omega
    · rintro ⟨hle, -, hmul⟩
      -- the product of a negative and a positive number
      rw [abs_of_neg hn'] at hle
      exact absurd hmul (not_le.mpr (mul_neg_of_neg_of_pos hn' ((neg_pos.mpr hn').trans_le hle)))

/-- When a number is truncated to `n`: it is between `n` and the next integer away from 0. -/
theorem truncate_eq_iff (q : ℚ) (n : ℤ) :
    truncate q = n ↔ |(n : ℚ)| ≤ |q| ∧ |q| < |(n : ℚ)| + 1 ∧ 0 ≤ n * q := by
  rcases le_or_gt 0 q with h | h
  · rw [abs_of_nonneg h]
    exact truncate_eq_iff_of_nonneg h n
  · have hneg := truncate_eq_iff_of_nonneg (neg_nonneg.mpr h.le) (-n)
    push_cast at hneg
    rwa [truncate_neg, neg_inj, abs_neg, neg_mul_neg, ← abs_of_neg h] at hneg

/-! ### Rounding to 53 bits -/

/-- The nearest integer, of two the even one. -/
def roundEven (x : ℚ) : ℤ := if Int.fract x = 1 / 2 ∧ Even ⌊x⌋ then ⌊x⌋ else round x

/-- The unit in the last of 53 places. -/
def unit (q : ℚ) : ℚ := 2 ^ (Int.log 2 q - 52)

def roundPos (q : ℚ) : ℚ := roundEven (q / unit q) * unit q

/-- Rounding to 53 bits, with any exponent. -/
def nearest (q : ℚ) : ℚ := if 0 ≤ q then roundPos q else -roundPos (-q)

/-- The range of the doubles with all their places. -/
def Normal (q : ℚ) : Prop := 2 ^ (-1022 : ℤ) ≤ q ∧ q ≤ 2 ^ (1023 : ℤ)

instance (q : ℚ) : Decidable (Normal q) := inferInstanceAs (Decidable (_ ∧ _))

theorem Normal.pos {q : ℚ} (h : Normal q) : 0 < q := (zpow_pos (two_pos (α := ℚ)) _).trans_le h.1

/-- The conversion of a common processor. -/
def convert (q : ℚ) : ℤ :=
  if -2 ^ 63 ≤ truncate q ∧ truncate q < 2 ^ 63 then truncate q else -2 ^ 63

theorem floor_le_roundEven (x : ℚ) : ⌊x⌋ ≤ roundEven x := by
  unfold roundEven
  split_ifs
  · exact le_rfl
  · rw [round_eq]
    exact Int.floor_mono (by linarith)

theorem roundEven_le (x : ℚ) : roundEven x ≤ ⌊x⌋ + 1 := by
  unfold roundEven
  split_ifs
  · omega
  · rw [round_eq, ← Int.floor_add_one]
    exact Int.floor_mono (by linarith)

theorem roundEven_mono {x y : ℚ} (h : x ≤ y) : roundEven x ≤ roundEven y := by
  rcases (Int.floor_mono h).lt_or_eq with hlt | heq
  · exact ((roundEven_le x).trans hlt).trans (floor_le_roundEven y)
  · -- between the same integers, the value at the middle decides
    have hfract : Int.fract x ≤ Int.fract y := by
      rw [Int.fract, Int.fract, heq]
      linarith
    have hround : round x ≤ round y := by
      rw [round_eq, round_eq]
      exact Int.floor_mono (by linarith)
    by_cases hx : Int.fract x = 1 / 2 ∧ Even ⌊x⌋
    · have hle : ⌊y⌋ ≤ roundEven y := floor_le_roundEven y
      rw [roundEven, if_pos hx, heq]
      exact hle
    · rw [roundEven, if_neg hx]
      by_cases hy : Int.fract y = 1 / 2 ∧ Even ⌊y⌋
      · have hlt : Int.fract x < 1 / 2 := by
          refine lt_of_le_of_ne (hfract.trans_eq hy.1) fun hxe => hx ⟨hxe, heq ▸ hy.2⟩
        rw [roundEven, if_pos hy, ← heq, round_eq]
        refine Int.le_of_lt_add_one (Int.floor_lt.mpr ?_)
        push_cast
        have := Int.floor_add_fract x
        linarith
      · rw [roundEven, if_neg hy]
        exact hround

theorem roundEven_intCast (n : ℤ) : roundEven n = n := by
  unfold roundEven
  split_ifs
  · exact Int.floor_intCast n
  · exact round_intCast n

theorem abs_roundEven_sub (x : ℚ) : |(roundEven x : ℚ) - x| ≤ 1 / 2 := by
  unfold roundEven
  split_ifs with h
  · have := Int.floor_add_fract x
    rw [abs_le]
    constructor <;> linarith [h.1]
  · rw [abs_sub_comm]
    exact abs_sub_round x

theorem unit_pos (q : ℚ) : 0 < unit q := zpow_pos two_pos _

theorem pow_mul_unit (q : ℚ) (n : ℕ) : 2 ^ n * unit q = 2 ^ (Int.log 2 q + (n - 52 : ℤ)) := by
  rw [unit, ← zpow_natCast, ← zpow_add₀ two_ne_zero]
  congr 1
  ring

section Positive
variable {q : ℚ} (hq : 0 < q)
include hq

/-- A positive number has 53 places before its last one. -/
theorem unit_spec : 2 ^ 52 ≤ q / unit q ∧ q / unit q < 2 ^ 53 := by
  have hle : (2 : ℚ) ^ Int.log 2 q ≤ q := by exact_mod_cast Int.zpow_log_le_self one_lt_two hq
  have hlt : q < (2 : ℚ) ^ (Int.log 2 q + 1) := by
    exact_mod_cast Int.lt_zpow_succ_log_self one_lt_two q
  constructor
  · rw [le_div_iff₀ (unit_pos q), pow_mul_unit]
    simpa using hle
  · rw [div_lt_iff₀ (unit_pos q), pow_mul_unit]
    simpa using hlt

theorem roundPos_spec : (2 : ℚ) ^ Int.log 2 q ≤ roundPos q ∧ roundPos q ≤ 2 ^ (Int.log 2 q + 1) := by
  obtain ⟨hle, hlt⟩ := unit_spec hq
  have hpow : ∀ n : ℕ, roundEven ((2 : ℚ) ^ n) = 2 ^ n := fun n => by
    exact_mod_cast roundEven_intCast (2 ^ n)
  have hlow : (2 : ℤ) ^ 52 ≤ roundEven (q / unit q) := hpow 52 ▸ roundEven_mono hle
  have hhigh : roundEven (q / unit q) ≤ (2 : ℤ) ^ 53 := hpow 53 ▸ roundEven_mono hlt.le
  have h52 := pow_mul_unit q 52
  have h53 := pow_mul_unit q 53
  norm_num at h52 h53
  constructor
  · rw [← h52]
    exact mul_le_mul_of_nonneg_right (by exact_mod_cast hlow) (unit_pos q).le
  · rw [← h53]
    exact mul_le_mul_of_nonneg_right (by exact_mod_cast hhigh) (unit_pos q).le

theorem roundPos_pos : 0 < roundPos q := (zpow_pos (two_pos (α := ℚ)) _).trans_le (roundPos_spec hq).1

theorem abs_roundPos_sub : |roundPos q - q| ≤ q / 2 ^ 53 := by
  have hunit := unit_pos q
  have hq' : q = q / unit q * unit q := (div_mul_cancel₀ q hunit.ne').symm
  have hle := (unit_spec hq).1
  have hsub : roundPos q - q = (roundEven (q / unit q) - q / unit q) * unit q := by
    rw [sub_mul, ← hq', roundPos]
  rw [hsub, abs_mul, abs_of_pos hunit]
  have h := abs_roundEven_sub (q / unit q)
  calc |(roundEven (q / unit q) : ℚ) - q / unit q| * unit q ≤ 1 / 2 * unit q :=
        mul_le_mul_of_nonneg_right h hunit.le
    _ = 2 ^ 52 * unit q / 2 ^ 53 := by ring
    _ ≤ q / 2 ^ 53 := by
      rw [le_div_iff₀ hunit] at hle
      exact div_le_div_of_nonneg_right hle (by positivity)

theorem roundPos_mono {p : ℚ} (hp : 0 < p) (h : p ≤ q) : roundPos p ≤ roundPos q := by
  rcases (Int.log_mono_right (b := 2) hp h).lt_or_eq with hlt | heq
  · calc roundPos p ≤ 2 ^ (Int.log 2 p + 1) := (roundPos_spec hp).2
      _ ≤ 2 ^ Int.log 2 q := zpow_le_zpow_right₀ one_le_two hlt
      _ ≤ roundPos q := (roundPos_spec hq).1
  · have hunit : unit p = unit q := by rw [unit, unit, heq]
    rw [roundPos, roundPos, hunit]
    refine mul_le_mul_of_nonneg_right ?_ (unit_pos q).le
    exact_mod_cast roundEven_mono (div_le_div_of_nonneg_right h (unit_pos q).le)

end Positive

theorem roundPos_zero : roundPos 0 = 0 := by
  have h : roundEven 0 = 0 := by exact_mod_cast roundEven_intCast 0
  rw [roundPos, zero_div, h, Int.cast_zero, zero_mul]

/-- An integer of at most 53 bits has no further places. -/
theorem roundPos_intCast {n : ℤ} (hn : 0 < n) (hle : n ≤ 2 ^ 53) : roundPos n = n := by
  have hpos : (0 : ℚ) < n := Int.cast_pos.mpr hn
  suffices h : ∃ m : ℤ, (n : ℚ) / unit n = m by
    obtain ⟨m, hm⟩ := h
    rw [roundPos, hm, roundEven_intCast, ← hm, div_mul_cancel₀ _ (unit_pos _).ne']
  have hlog : (2 : ℚ) ^ Int.log 2 (n : ℚ) ≤ n := by exact_mod_cast Int.zpow_log_le_self one_lt_two hpos
  have hle' : (n : ℚ) ≤ 2 ^ (53 : ℤ) := by exact_mod_cast hle
  have h53 : Int.log 2 (n : ℚ) ≤ 53 :=
    (zpow_le_zpow_iff_right₀ (one_lt_two (α := ℚ))).mp (hlog.trans hle')
  rcases h53.lt_or_eq with hlt | heq
  · obtain ⟨k, hk⟩ := Int.eq_ofNat_of_zero_le (show 0 ≤ 52 - Int.log 2 (n : ℚ) by omega)
    refine ⟨n * 2 ^ k, ?_⟩
    rw [unit, div_eq_mul_inv, ← zpow_neg, neg_sub, hk]
    push_cast
    rw [zpow_natCast]
  · refine ⟨2 ^ 52, ?_⟩
    rw [heq] at hlog
    have hn' : (n : ℚ) = 2 ^ (53 : ℤ) := le_antisymm hle' hlog
    rw [unit, heq, hn']
    norm_num

theorem nearest_mono : Monotone nearest := by
  intro p q h
  have hnonneg : ∀ {x : ℚ}, 0 ≤ x → 0 ≤ roundPos x := fun hx => by
    rcases hx.lt_or_eq with hx | rfl
    · exact (roundPos_pos hx).le
    · exact roundPos_zero.ge
  have hmono : ∀ {x y : ℚ}, 0 ≤ x → x ≤ y → roundPos x ≤ roundPos y := fun {x y} hx hxy => by
    rcases hx.lt_or_eq with hx | rfl
    · exact roundPos_mono (hx.trans_le hxy) hx hxy
    · exact roundPos_zero.le.trans (hnonneg hxy)
  unfold nearest
  split_ifs with hp hq hq
  · exact hmono hp h
  · exact absurd (hp.trans h) hq
  · have := hnonneg (show 0 ≤ -p by linarith)
    have := hnonneg hq
    linarith
  · have := hmono (show 0 ≤ -q by linarith) (neg_le_neg h)
    linarith

theorem nearest_intCast (n : ℤ) (h : |n| ≤ 2 ^ 53) : nearest n = n := by
  rw [abs_le] at h
  unfold nearest
  split_ifs with hn
  · rcases (Int.cast_nonneg_iff.mp hn).lt_or_eq with hpos | rfl
    · exact roundPos_intCast hpos h.2
    · exact_mod_cast roundPos_zero
  · have hneg : n < 0 := by exact_mod_cast not_le.mp hn
    have := roundPos_intCast (n := -n) (by omega) (by omega)
    push_cast at this
    rw [this, neg_neg]

theorem convert_eq (q : ℚ) (h : |q| < 2 ^ 63) : convert q = truncate q := by
  have hden : (0 : ℚ) < q.den := Nat.cast_pos.mpr q.den_pos
  obtain ⟨hlow, hhigh⟩ := abs_lt.mp h
  have hnum : (q.num : ℚ) = q * q.den := (Rat.mul_den_eq_num q).symm
  have h1 : -(2 ^ 63 * q.den : ℤ) < q.num := by
    have : -(2 ^ 63 * q.den : ℚ) < q.num := by
      rw [hnum, ← neg_mul]
      exact mul_lt_mul_of_pos_right hlow hden
    exact_mod_cast this
  have h2 : q.num < (2 ^ 63 * q.den : ℤ) := by
    have : (q.num : ℚ) < 2 ^ 63 * q.den := by
      rw [hnum]
      exact mul_lt_mul_of_pos_right hhigh hden
    exact_mod_cast this
  have habs : (truncate q).natAbs < 2 ^ 63 := by
    unfold truncate
    rw [Int.natAbs_tdiv, Int.natAbs_natCast]
    exact (Nat.div_lt_iff_lt_mul q.den_pos).mpr (by omega)
  unfold convert
  exact if_pos ⟨by omega, by omega⟩

end Rounding

/-- The rounding of exact results, and the conversion to integers of 64 bits. -/
structure Doubles where
  round : ℚ → ℚ
  round_mono : Monotone round
  round_intCast : ∀ n : ℤ, |n| ≤ 2 ^ 53 → round n = n
  round_near : ∀ q, Rounding.Normal q → |round q - q| ≤ q / 2 ^ 53
  toInt : ℚ → ℤ
  toInt_eq : ∀ q, |q| < 2 ^ 63 → toInt q = Rounding.truncate q
  toInt_range : ∀ q, -2 ^ 63 ≤ toInt q ∧ toInt q < 2 ^ 63

namespace Doubles

/-- Rounding to the nearest value of 53 bits. -/
def nearest : Doubles where
  round := Rounding.nearest
  round_mono := Rounding.nearest_mono
  round_intCast := Rounding.nearest_intCast
  round_near q hq := by
    rw [Rounding.nearest, if_pos hq.pos.le]
    exact Rounding.abs_roundPos_sub hq.pos
  toInt := Rounding.convert
  toInt_eq := Rounding.convert_eq
  toInt_range q := by
    unfold Rounding.convert
    split_ifs with h
    · exact h
    · norm_num

/-! ### Operations -/

variable (D : Doubles)

/-- The product with a double, converted to an integer. -/
def times (x c : ℚ) : ℤ := D.toInt (D.round (D.round x * c))

/-- The quotient by a double, converted to an integer. -/
def divide (x c : ℚ) : ℤ := D.toInt (D.round (D.round x / c))

section Operations
variable {D}

theorem round_nonneg {q : ℚ} (h : 0 ≤ q) : 0 ≤ D.round q := by
  have hzero : D.round 0 = 0 := by exact_mod_cast D.round_intCast 0 (by norm_num)
  exact hzero ▸ D.round_mono h

theorem round_le {q : ℚ} (h : Rounding.Normal q) : D.round q ≤ (1 + 1 / 2 ^ 53) * q := by
  have hnear := (abs_le.mp (D.round_near q h)).2
  linarith

theorem le_round {q : ℚ} (h : Rounding.Normal q) : (1 - 1 / 2 ^ 53) * q ≤ D.round q := by
  have hnear := (abs_le.mp (D.round_near q h)).1
  linarith

theorem toInt_nonneg {q : ℚ} (h : 0 ≤ q) (hlt : q < 2 ^ 63) : 0 ≤ D.toInt q := by
  rw [D.toInt_eq q (by rwa [abs_of_nonneg h])]
  exact Rounding.truncate_nonneg h

theorem times_nonneg {x c : ℚ} (hx : 0 ≤ x) (hc : 0 ≤ c) (h : D.round (D.round x * c) < 2 ^ 63) :
    0 ≤ D.times x c := toInt_nonneg (round_nonneg (mul_nonneg (round_nonneg hx) hc)) h

theorem divide_nonneg {x c : ℚ} (hx : 0 ≤ x) (hc : 0 ≤ c) (h : D.round (D.round x / c) < 2 ^ 63) :
    0 ≤ D.divide x c := toInt_nonneg (round_nonneg (div_nonneg (round_nonneg hx) hc)) h

end Operations

/-- A product that is rounded up to the next integer. -/
example : nearest.times 3 (6004799503160661 / 2 ^ 52) = 4 := by decide +kernel

end Doubles
