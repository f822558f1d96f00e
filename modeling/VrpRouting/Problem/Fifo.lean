import Mathlib.Order.Monotone.Basic
import VrpRouting.Problem.Multipliers

/-! # First in, first out

Whoever departs later arrives later, if every change of the multiplier shortens the trip by at most
one time unit (`MildFalls`), and only then (`fifo_iff`): a departure at the time of a change, or early
enough before it, takes the whole time of the multiplier in force, a departure at the next change the
whole time of the next one, and in between the time of a departure is one of the two. -/

open Breakpoints

namespace VrpRouting.Matrix

variable (M : Matrix)

/-- The time of the trip with the multiplier `c`. -/
def tripTime (i j : ℤ) (c : ℚ) : ℤ := toInterval (M.cell (M.lowerBound i) (M.lowerBound j) * c)

/-- **First in, first out** on the way from `i` to `j`. -/
def Fifo (i j : ℤ) : Prop :=
  ∀ t₁ t₂, t₁ ≤ t₂ → t₁ + M.travelTime i j t₁ ≤ t₂ + M.travelTime i j t₂

/-- With the next multiplier the trip is at most one time unit shorter than with the one in force. -/
def MildFalls (i j : ℤ) : Prop := ∀ t e, IsNext t M.multipliers e →
  M.tripTime i j (getTdm t M.multipliers 1) ≤ M.tripTime i j e.2 + 1

variable {M} {i j : ℤ}

theorem tripTime_mono (h : 0 ≤ M.cell (M.lowerBound i) (M.lowerBound j)) {c c' : ℚ} (hc : 0 ≤ c)
    (hcc : c ≤ c') : M.tripTime i j c ≤ M.tripTime i j c' := by
  have hcell : (0 : ℚ) ≤ M.cell (M.lowerBound i) (M.lowerBound j) := Int.cast_nonneg h
  unfold tripTime
  rw [toInterval_eq_floor (mul_nonneg hcell hc), toInterval_eq_floor (mul_nonneg hcell (hc.trans hcc))]
  exact Int.floor_mono (mul_le_mul_of_nonneg_left hcc hcell)

theorem tripTime_nonpos (h : M.cell (M.lowerBound i) (M.lowerBound j) < 0) {c : ℚ} (hc : 0 ≤ c) :
    M.tripTime i j c ≤ 0 := by
  have hcell : (M.cell (M.lowerBound i) (M.lowerBound j) : ℚ) ≤ 0 := Int.cast_nonpos.mpr h.le
  have hnonneg := toInterval_nonneg (neg_nonneg.mpr (mul_nonpos_of_nonpos_of_nonneg hcell hc))
  rw [toInterval_neg] at hnonneg
  exact neg_nonneg.mp hnonneg

section Trips
variable (hs : M.multipliers.Pairwise fun a b => a.1 ≤ b.1) (hlen : M.multipliers.length ≠ 1)
  (hi : M.hasId i = true) (hj : M.hasId j = true)

include hlen hi hj in
theorem travelTime_eq (t : ℤ) : M.travelTime i j t =
    if timeChange t M.multipliers 0 ≥ t + M.tripTime i j (getTdm t M.multipliers 1) ∨
      getTdm t M.multipliers 1 = nextTdm t M.multipliers 1
    then M.tripTime i j (getTdm t M.multipliers 1)
    else M.tripTime i j (min (getTdm t M.multipliers 1) (nextTdm t M.multipliers 1)) := by
  unfold travelTime tripTime
  unfold travelTime?
  rw [travelTimeBy?_eq_general hlen]
  unfold travelTimeGeneralBy?
  rw [hi, hj, BaseMatrix.getIndex_of_hasId hi, BaseMatrix.getIndex_of_hasId hj]
  simp only [Bool.not_true, Bool.or_self, Bool.false_eq_true, if_false]
  exact apply_ite (fun r : Option ℤ => r.getD 0) _ _ _

include hlen hi hj in
/-- A trip takes the time of the multiplier in force or of the upcoming one. -/
theorem travelTime_eq_or (t : ℤ) : M.travelTime i j t = M.tripTime i j (getTdm t M.multipliers 1) ∨
    M.travelTime i j t = M.tripTime i j (nextTdm t M.multipliers 1) := by
  rw [travelTime_eq hlen hi hj]
  split_ifs
  · exact Or.inl rfl
  · rcases min_choice (getTdm t M.multipliers 1) (nextTdm t M.multipliers 1) with h | h
    · exact Or.inl (by rw [h])
    · exact Or.inr (by rw [h])

include hs in
theorem getTdm_of_inForce {t : ℤ} {e : ℤ × ℚ} (h : inForce t M.multipliers = some e) :
    getTdm t M.multipliers 1 = e.2 := by
  rw [getTdm_eq t hs, h]
  rfl

include hs hlen hi hj in
/-- One time unit later, a trip takes the time of the multiplier in force or of the next one. -/
theorem travelTime_succ (t : ℤ) :
    M.travelTime i j (t + 1) = M.tripTime i j (getTdm t M.multipliers 1) ∨
      ∃ e, IsNext t M.multipliers e ∧ M.travelTime i j (t + 1) = M.tripTime i j e.2 := by
  rcases travelTime_eq_or hlen hi hj (t + 1) with h | h
  · rw [h]
    rcases inForce_succ hs t with hsame | ⟨e, hnext, he⟩
    · rw [getTdm_eq (t + 1) hs, getTdm_eq t hs, hsame]
      exact Or.inl rfl
    · rw [getTdm_of_inForce hs he]
      exact Or.inr ⟨e, hnext, rfl⟩
  · rw [h]
    by_cases hnil : M.multipliers = []
    · rw [hnil]
      exact Or.inl rfl
    · rcases of_upcoming_succ hs (change_eq (t + 1) hnil 0 1) with hnext | he
      · exact Or.inr ⟨_, hnext, rfl⟩
      · rw [getTdm_of_inForce hs he]
        exact Or.inl rfl

include hs hlen hi hj in
/-- A trip takes at most the time of the multiplier in force. -/
theorem travelTime_le (hpos : ∀ e ∈ M.multipliers, 0 < e.2) (t : ℤ) :
    M.travelTime i j t ≤ M.tripTime i j (getTdm t M.multipliers 1) := by
  have hc : 0 < getTdm t M.multipliers 1 := forall_getTdm t hpos one_pos
  have hn : 0 < nextTdm t M.multipliers 1 := forall_nextTdm t hpos one_pos
  rw [travelTime_eq hlen hi hj]
  split_ifs with h
  · exact le_rfl
  · rcases le_or_gt 0 (M.cell (M.lowerBound i) (M.lowerBound j)) with hcell | hcell
    · exact tripTime_mono hcell (le_min hc.le hn.le) (min_le_left _ _)
    · -- a negative trip ends before the next change, and behind the last one nothing changes
      obtain ⟨hearly, hne⟩ := not_or.mp h
      have hneg := tripTime_nonpos hcell hc.le
      have hnil : M.multipliers ≠ [] := by
        intro hnil
        rw [hnil] at hne
        exact hne rfl
      rcases upcoming_spec hs (change_eq t hnil 0 1) with ⟨-, hle, -⟩ | ⟨-, hin⟩
      · omega
      · exact absurd (getTdm_of_inForce hs hin) hne

include hs hlen hi hj in
theorem fifo_of_mildFalls (hpos : ∀ e ∈ M.multipliers, 0 < e.2) (h : M.MildFalls i j) : M.Fifo i j := by
  have hmono : Monotone fun t => t + M.travelTime i j t := by
    refine monotone_int_of_le_succ fun t => ?_
    have hle := travelTime_le hs hlen hi hj hpos t
    rcases travelTime_succ hs hlen hi hj t with hsame | ⟨e, hnext, he⟩
    · omega
    · have hmild := h t e hnext
      omega
  exact fun t₁ t₂ ht => hmono ht

include hlen hi hj in
/-- A trip that ends before the next change takes the whole time. -/
theorem travelTime_of_early {t : ℤ} {e : ℤ × ℚ} (hup : upcoming t M.multipliers = some e)
    (h : t + M.tripTime i j (getTdm t M.multipliers 1) ≤ e.1 ∨ getTdm t M.multipliers 1 = e.2) :
    M.travelTime i j t = M.tripTime i j (getTdm t M.multipliers 1) := by
  have hnil : M.multipliers ≠ [] := by
    intro hnil
    rw [hnil] at hup
    cases hup
  rw [change_eq t hnil 0 1] at hup
  obtain rfl := Option.some.inj hup
  rw [travelTime_eq hlen hi hj, if_pos h]

include hlen hi hj in
/-- Some departure before the next change takes the whole time of the multiplier in force. -/
theorem exists_whole_trip (hlt : M.multipliers.Pairwise fun a b => a.1 < b.1) {t : ℤ} {e : ℤ × ℚ}
    (h : IsNext t M.multipliers e) : ∃ u, IsNext u M.multipliers e ∧
      inForce u M.multipliers = inForce t M.multipliers ∧
      M.travelTime i j u = M.tripTime i j (getTdm t M.multipliers 1) := by
  have hs := hlt.imp fun {a b : ℤ × ℚ} (h : a.1 < b.1) => h.le
  cases h₀ : inForce t M.multipliers with
  | none =>
    -- before the first start, early enough to end before it
    obtain ⟨u, hut, hend⟩ : ∃ u ≤ t, u + M.tripTime i j 1 ≤ e.1 :=
      ⟨min t (e.1 - M.tripTime i j 1), by omega, by omega⟩
    have hu := h.of_none h₀ hut
    have hnone : inForce u M.multipliers = none := (hu.later hut h.2.1).2.symm.trans h₀
    have hone : ∀ v, inForce v M.multipliers = none → getTdm v M.multipliers 1 = 1 := by
      intro v hv
      rw [getTdm_eq v hs, hv]
      rfl
    refine ⟨u, hu, hnone, ?_⟩
    rw [hone t h₀, ← hone u hnone]
    have hup : upcoming u M.multipliers = some e :=
      upcoming_eq_some hlt hu.1 hu.2.1.le fun e' he' _ =>
        h.2.2 e' he' (inForce_eq_none_iff.mp h₀ e' he')
    rw [← hone u hnone] at hend
    exact travelTime_of_early hlen hi hj hup (Or.inl hend)
  | some e₀ =>
    -- at the start of the multiplier in force
    obtain ⟨hle, hnext⟩ := h.from_inForce hs h₀
    obtain ⟨hmem, -, -⟩ := inForce_spec hs h₀
    obtain ⟨hup, hin⟩ := at_start hlt hmem
    refine ⟨e₀.1, hnext, hin, ?_⟩
    rw [getTdm_of_inForce hs h₀, ← getTdm_of_inForce hs hin]
    exact travelTime_of_early hlen hi hj hup (Or.inr (getTdm_of_inForce hs hin))

include hlen hi hj in
theorem mildFalls_of_fifo (hlt : M.multipliers.Pairwise fun a b => a.1 < b.1) (h : M.Fifo i j) :
    M.MildFalls i j := by
  have hs := hlt.imp fun {a b : ℤ × ℚ} (h : a.1 < b.1) => h.le
  intro t e hnext
  by_contra hfall
  obtain ⟨u, hu, hin, hwhole⟩ := exists_whole_trip hlen hi hj hlt hnext
  -- all departures up to the next change take the whole time
  have hall : ∀ n : ℕ, u + n ≤ e.1 →
      M.travelTime i j (u + n) = M.tripTime i j (getTdm t M.multipliers 1) := by
    intro n
    induction n with
    | zero =>
      intro _
      simpa using hwhole
    | succ n ih =>
      intro hn
      push_cast at hn ⊢
      obtain ⟨hlater, hsame⟩ := hu.later (v := u + n) (by omega) (by omega)
      have hcoeff : getTdm (u + n) M.multipliers 1 = getTdm t M.multipliers 1 := by
        rw [getTdm_eq _ hs, getTdm_eq _ hs, hsame, hin]
      rw [← add_assoc]
      rcases travelTime_succ hs hlen hi hj (u + n) with hstay | ⟨e', hnext', he'⟩
      · rw [hstay, hcoeff]
      · obtain rfl := hlater.unique hlt hnext'
        have hfifo := h (u + n) (u + n + 1) (by omega)
        rw [ih (by omega), he'] at hfifo
        omega
  have hlast := hall (e.1 - u).toNat (by have := hu.2.1; omega)
  rw [show u + ((e.1 - u).toNat : ℤ) = e.1 by have := hu.2.1; omega] at hlast
  obtain ⟨hup, hat⟩ := at_start hlt hnext.1
  have hcoeff := getTdm_of_inForce hs hat
  rw [travelTime_of_early hlen hi hj hup (Or.inr hcoeff), hcoeff] at hlast
  omega

end Trips

/-- **When travel is first in, first out**: with one multiplier, or with mild falls only. -/
theorem fifo_iff (hs : M.multipliers.Pairwise fun a b => a.1 ≤ b.1)
    (hpos : ∀ e ∈ M.multipliers, 0 < e.2) (hi : M.hasId i = true) (hj : M.hasId j = true) :
    (M.multipliers.length = 1 ∨ M.MildFalls i j → M.Fifo i j) ∧
      (M.multipliers.Pairwise (fun a b => a.1 < b.1) → M.Fifo i j →
        M.multipliers.length = 1 ∨ M.MildFalls i j) := by
  constructor
  · intro h
    by_cases hlen : M.multipliers.length = 1
    · obtain ⟨e, he⟩ := List.length_eq_one_iff.mp hlen
      intro t₁ t₂ ht
      unfold travelTime travelTime?
      rw [travelTimeBy?_eq_fast he, travelTimeBy?_eq_fast he]
      omega
    · exact fifo_of_mildFalls hs hlen hi hj hpos (h.resolve_left hlen)
  · intro hlt h
    by_cases hlen : M.multipliers.length = 1
    · exact Or.inl hlen
    · exact Or.inr (mildFalls_of_fifo hlen hi hj hlt h)

/-- A multiplier that rises. -/
theorem fifo_rising : Fifo ⟨⟨[1, 2], [[0, 10], [10, 0]]⟩, [(0, 1), (10, 2)]⟩ 1 2 := by
  refine (fifo_iff (by decide) (by decide) (by decide) (by decide)).1 (Or.inr ?_)
  rintro t e ⟨he, hlt, -⟩
  rcases List.mem_pair.mp he with rfl | rfl
  · have hcoeff : getTdm t [(0, 1), (10, 2)] 1 = 1 := by
      have ht : t < 0 := hlt
      simp [getTdm, ht]
    rw [hcoeff]
    decide +kernel
  · have hcoeff : getTdm t [(0, 1), (10, 2)] 1 = 1 := by
      have ht : t < 10 := hlt
      simp [getTdm, ht]
    rw [hcoeff]
    decide +kernel

/-- The multiplier falls from 3 to 1 at the time 100: a departure at 70 arrives at 100, one at 71
arrives at 81. -/
theorem not_fifo_falling :
    let M : Matrix := ⟨⟨[1, 2], [[0, 10], [10, 0]]⟩, [(0, 3), (100, 1)]⟩
    M.travelTime 1 2 70 = 30 ∧ M.travelTime 1 2 71 = 10 ∧ ¬ M.Fifo 1 2 := by
  refine ⟨by decide +kernel, by decide +kernel, fun h => ?_⟩
  have hfifo := h 70 71 (by omega)
  revert hfifo
  decide +kernel

end VrpRouting.Matrix
