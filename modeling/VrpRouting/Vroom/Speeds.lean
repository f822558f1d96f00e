import Mathlib.Tactic.LinearCombination
import Mathlib.Tactic.Linarith
import VrpRouting.Lib.BestSoFar
import VrpRouting.Vroom.Driver

/-! # Speed factors

The matrix is divided by the least speed factor, and the speed factors as well, which are then rounded.
The driver refuses the vehicles exactly when one of them is faster than five times another one, a
product of doubles. Otherwise the vehicles get whole factors from 1 on in the order of their speeds. When
these products are normal doubles, the factors are at most 5, and no vehicle is more than a third faster
or slower than asked for, up to the last place of a double (`vrpDoVroom_speeds`). -/

namespace VrpRouting.Vroom

open VrpRouting.Driver (Reply)

namespace Data

variable {d : Data} (hne : d.vehicles ≠ [])
include hne

theorem firstSpeedFactor_mem : ∃ v ∈ d.vehicles, d.firstSpeedFactor = v.speedFactor := by
  unfold firstSpeedFactor
  obtain ⟨v, vs, hv⟩ := List.exists_cons_of_ne_nil hne
  exact ⟨v, by rw [hv]; exact List.mem_cons_self, by rw [hv]; rfl⟩

/-- The least speed factor. -/
theorem minSpeedFactor_spec : (∀ v ∈ d.vehicles, d.minSpeedFactor ≤ v.speedFactor) ∧
    ∃ v ∈ d.vehicles, d.minSpeedFactor = v.speedFactor := by
  obtain ⟨-, hle, hmem⟩ :=
    BestSoFar.foldl_min_spec VroomVehicleT.speedFactor d.vehicles d.firstSpeedFactor
  refine ⟨hle, ?_⟩
  rcases hmem with h | h
  · obtain ⟨v, hv, hfirst⟩ := firstSpeedFactor_mem hne
    exact ⟨v, hv, h.trans hfirst⟩
  · exact h

/-- The greatest speed factor. -/
theorem maxSpeedFactor_spec : (∀ v ∈ d.vehicles, v.speedFactor ≤ d.maxSpeedFactor) ∧
    ∃ v ∈ d.vehicles, d.maxSpeedFactor = v.speedFactor := by
  obtain ⟨-, hle, hmem⟩ :=
    BestSoFar.foldl_max_spec VroomVehicleT.speedFactor d.vehicles d.firstSpeedFactor
  refine ⟨hle, ?_⟩
  rcases hmem with h | h
  · obtain ⟨v, hv, hfirst⟩ := firstSpeedFactor_mem hne
    exact ⟨v, hv, h.trans hfirst⟩
  · exact h

/-- One vehicle is more than five times as fast as another one, by the product of doubles. -/
theorem lt_maxSpeedFactor_iff (R : Doubles) : R.round (5 * d.minSpeedFactor) < d.maxSpeedFactor ↔
    ∃ u ∈ d.vehicles, ∃ v ∈ d.vehicles, R.round (5 * u.speedFactor) < v.speedFactor := by
  obtain ⟨hmin, u, hu, hu'⟩ := minSpeedFactor_spec hne
  obtain ⟨hmax, v, hv, hv'⟩ := maxSpeedFactor_spec hne
  constructor
  · intro h
    exact ⟨u, hu, v, hv, by rwa [← hu', ← hv']⟩
  · rintro ⟨u', hu', v', hv', h⟩
    have hle : R.round (5 * d.minSpeedFactor) ≤ R.round (5 * u'.speedFactor) :=
      R.round_mono (by linarith [hmin u' hu'])
    exact hle.trans_lt (h.trans_le (hmax v' hv'))

end Data

/-- A number from 1 on is rounded by at most a third of it. -/
theorem round_third {x : ℚ} (h : 1 ≤ x) : 2 / 3 * x ≤ round x ∧ (round x : ℚ) ≤ 4 / 3 * x := by
  have habs := abs_le.mp (abs_sub_round x)
  have hone : (1 : ℚ) ≤ round x := by
    have hx : round x = ⌊x + 1 / 2⌋ := round_eq x
    rw [hx]
    exact_mod_cast Int.le_floor.mpr (by push_cast; linarith)
  by_cases hx : x < 3 / 2
  · have heq : round x = 1 := by
      rw [round_eq_iff]
      exact ⟨by push_cast; linarith, by push_cast; linarith⟩
    rw [heq]
    push_cast
    constructor <;> linarith
  · constructor <;> linarith [habs.1, habs.2]

/-- The scaled factor of a vehicle is close to its speed factor. -/
structure ScalesNear (R : Doubles) (d : Data) (v : VroomVehicleT) : Prop where
  le_five : d.scaledSpeedFactor R v ≤ 5
  /-- The speed with which the library computes, against the speed that is asked for. -/
  lower : 2 / 3 * (1 - 1 / 2 ^ 53) * v.speedFactor ≤ d.minSpeedFactor * d.scaledSpeedFactor R v
  upper : d.minSpeedFactor * d.scaledSpeedFactor R v ≤ 4 / 3 * (1 + 1 / 2 ^ 53) * v.speedFactor

/-- The scaled factor of a vehicle; it is close when no product of the test is a small or a large double. -/
structure Scales (R : Doubles) (d : Data) (v : VroomVehicleT) : Prop where
  one_le : 1 ≤ d.scaledSpeedFactor R v
  mono : ∀ u ∈ d.vehicles, u.speedFactor ≤ v.speedFactor →
    d.scaledSpeedFactor R u ≤ d.scaledSpeedFactor R v
  near : (∀ u ∈ d.vehicles, Rounding.Normal (5 * u.speedFactor)) → ScalesNear R d v

theorem round_le_round {x y : ℚ} (h : x ≤ y) : round x ≤ round y := by
  rw [round_eq, round_eq]
  exact Int.floor_mono (by linarith)

/-- The quotient of two speed factors that pass the test. -/
theorem quotient_spec (R : Doubles) {least v : ℚ} (hnormal : Rounding.Normal (5 * least))
    (hle : least ≤ v) (hspeed : v ≤ R.round (5 * least)) :
    v / least ≤ 5 * (1 + 1 / 2 ^ 53) ∧ Rounding.Normal (v / least) := by
  have hpos : 0 < least := by linarith [hnormal.pos]
  have hone : 1 ≤ v / least := (one_le_div hpos).mpr hle
  have hfive : v / least ≤ 5 * (1 + 1 / 2 ^ 53) := by
    rw [div_le_iff₀ hpos]
    linarith [Doubles.round_le (D := R) hnormal]
  refine ⟨hfive, le_trans ?_ hone, hfive.trans ?_⟩
  · exact zpow_le_one_of_nonpos₀ one_le_two (by norm_num)
  · calc (5 : ℚ) * (1 + 1 / 2 ^ 53) ≤ 2 ^ (3 : ℤ) := by norm_num
      _ ≤ 2 ^ (1023 : ℤ) := zpow_le_zpow_right₀ one_le_two (by norm_num)

section Scales
variable (R : Doubles) {d : Data} (hne : d.vehicles ≠ []) (hpos : ∀ v ∈ d.vehicles, 0 < v.speedFactor)
  {v : VroomVehicleT} (hv : v ∈ d.vehicles)
include hne hpos hv

/-- The quotient of a speed factor by the least one, as a double. -/
theorem one_le_round_quotient : 1 ≤ R.round (v.speedFactor / d.minSpeedFactor) := by
  obtain ⟨hmin, u, hu, hu'⟩ := d.minSpeedFactor_spec hne
  have hle : 1 ≤ v.speedFactor / d.minSpeedFactor := (one_le_div (hu' ▸ hpos u hu)).mpr (hmin v hv)
  have hround := R.round_mono hle
  have hone : R.round 1 = 1 := by exact_mod_cast R.round_intCast 1 (by norm_num)
  rwa [hone] at hround

variable (hspeed : ∀ u ∈ d.vehicles, ∀ v ∈ d.vehicles, v.speedFactor ≤ R.round (5 * u.speedFactor))
include hspeed

theorem scalesNear (hnormal : ∀ u ∈ d.vehicles, Rounding.Normal (5 * u.speedFactor)) :
    ScalesNear R d v := by
  obtain ⟨hmin, u, hu, hu'⟩ := d.minSpeedFactor_spec hne
  have hleast : 0 < d.minSpeedFactor := hu' ▸ hpos u hu
  obtain ⟨hfive, hquotient⟩ := quotient_spec R (hu' ▸ hnormal u hu) (hmin v hv) (hu' ▸ hspeed u hu v hv)
  have hle := Doubles.round_le (D := R) hquotient
  have hge := Doubles.le_round (D := R) hquotient
  obtain ⟨hlower, hupper⟩ := round_third (one_le_round_quotient R hne hpos hv)
  have hmul : d.minSpeedFactor * (v.speedFactor / d.minSpeedFactor) = v.speedFactor :=
    mul_div_cancel₀ _ hleast.ne'
  constructor
  · have h : R.round (v.speedFactor / d.minSpeedFactor) < 11 / 2 := by linarith
    unfold Data.scaledSpeedFactor
    rw [round_eq]
    exact Int.lt_add_one_iff.mp (Int.floor_lt.mpr (by push_cast; linarith))
  · calc 2 / 3 * (1 - 1 / 2 ^ 53) * v.speedFactor
        = d.minSpeedFactor * (2 / 3 * ((1 - 1 / 2 ^ 53) * (v.speedFactor / d.minSpeedFactor))) := by
          linear_combination (2 / 3 * (1 - 1 / 2 ^ 53)) * hmul.symm
      _ ≤ d.minSpeedFactor * d.scaledSpeedFactor R v :=
          mul_le_mul_of_nonneg_left (le_trans (by linarith) hlower) hleast.le
  · calc d.minSpeedFactor * d.scaledSpeedFactor R v
        ≤ d.minSpeedFactor * (4 / 3 * ((1 + 1 / 2 ^ 53) * (v.speedFactor / d.minSpeedFactor))) :=
          mul_le_mul_of_nonneg_left (hupper.trans (by linarith)) hleast.le
      _ = 4 / 3 * (1 + 1 / 2 ^ 53) * v.speedFactor := by
          linear_combination (4 / 3 * (1 + 1 / 2 ^ 53)) * hmul

theorem scales : Scales R d v := by
  refine ⟨?_, ?_, scalesNear R hne hpos hv hspeed⟩
  · have h := round_le_round (one_le_round_quotient R hne hpos hv)
    rwa [round_one] at h
  · intro u hu hle
    obtain ⟨-, w, hw, hw'⟩ := d.minSpeedFactor_spec hne
    have hleast : 0 < d.minSpeedFactor := hw' ▸ hpos w hw
    exact round_le_round (R.round_mono (div_le_div_of_nonneg_right hle hleast.le))

end Scales

end VrpRouting.Vroom
