import VrpRouting.Lib.Breakpoints
import VrpRouting.Problem.Lookups

/-! # The time dependent multipliers

The three scans over the multipliers, `get_tdm`, `next_tdm` and `time_change`, and the way
`travel_time` uses them. The scans find the multiplier in force and the upcoming change
(`getTdm_eq`, `change_eq`); at a change itself the upcoming one is that change and not the following
one (`lookups_agree_iff`). With a single multiplier `travel_time` returns the cell without any of
this (`fast_path_iff`). -/

open Sorting Breakpoints

namespace VrpRouting.Matrix

/-! ### The scans -/

section Scans
variable {tdm : List (ℤ × ℚ)} (time : ℤ)

/-- The multiplier in force, 1 before the first start. -/
theorem getTdm_eq (hs : tdm.Pairwise fun a b => a.1 ≤ b.1) (coeff : ℚ) :
    getTdm time tdm coeff = ((inForce time tdm).map Prod.snd).getD coeff := by
  induction tdm generalizing coeff with
  | nil => rfl
  | cons e tdm ih =>
    obtain ⟨he, hs⟩ := List.pairwise_cons.mp hs
    unfold getTdm
    split_ifs with h
    · have hnone : inForce time (e :: tdm) = none := inForce_eq_none_iff.mpr
        (List.forall_mem_cons.mpr ⟨h, fun e' he' => h.trans_le (he e' he')⟩)
      rw [hnone]
      rfl
    · rw [ih hs]
      unfold inForce
      rw [List.filter_cons_of_pos (by simpa using h), List.getLast?_cons]
      cases (tdm.filter fun e => decide (e.1 ≤ time)).getLast? <;> rfl

/-- The two scans for the change stop at the same entry. -/
theorem change_eq (hne : tdm ≠ []) (tChange : ℤ) (coeff : ℚ) :
    upcoming time tdm = some (timeChange time tdm tChange, nextTdm time tdm coeff) := by
  induction tdm generalizing tChange coeff with
  | nil => exact absurd rfl hne
  | cons e tdm ih =>
    unfold timeChange nextTdm upcoming
    by_cases h : time ≤ e.1
    · rw [List.find?_cons_of_pos (by simpa using h), if_pos h, if_pos h]
      rfl
    · rw [List.find?_cons_of_neg (by simpa using h), if_neg h, if_neg h]
      cases htdm : tdm with
      | nil => rfl
      | cons e' tdm' =>
        rw [← htdm]
        have hnil : tdm ≠ [] := by simp [htdm]
        rw [← ih hnil, upcoming, List.getLast?_cons]
        obtain ⟨last, hlast⟩ := Option.isSome_iff_exists.mp (List.getLast?_isSome.mpr hnil)
        rw [hlast]
        rfl

end Scans

/-- The lookups delimit the interval of `time`: the coefficient is the one in force, 1 before the
first start, and the change is the first start after `time`, or the last start. -/
structure LookupsAgree (tdm : List (ℤ × ℚ)) (time : ℤ) : Prop where
  inForce : getTdm time tdm 1 = ((Breakpoints.inForce time tdm).map Prod.snd).getD 1
  following : Breakpoints.following time tdm = some (timeChange time tdm 0, nextTdm time tdm 1)

theorem setTdm_ne_nil (S : Sorter) {multipliers : List TimeMultipliersT} (h : multipliers ≠ []) :
    setTdm S multipliers ≠ [] := by
  unfold setTdm
  rw [ne_eq, List.map_eq_nil_iff, ← List.length_eq_zero_iff, S.length_sort, List.length_eq_zero_iff]
  exact h

/-- The multipliers are in the order of their starts. -/
theorem setTdm_pairwise (S : Sorter) (multipliers : List TimeMultipliersT) :
    (setTdm S multipliers).Pairwise fun a b => a.1 ≤ b.1 := by
  have hlt : StrictWeak fun lhs rhs : TimeMultipliersT => decide (lhs.startTime < rhs.startTime) :=
    .of_key TimeMultipliersT.startTime fun a b => decide_eq_true_iff
  refine List.pairwise_map.mpr ((S.pairwise _ multipliers hlt).imp fun h => ?_)
  exact not_lt.mp (of_decide_eq_false h)

theorem mem_setTdm (S : Sorter) {multipliers : List TimeMultipliersT} {e : ℤ × ℚ} :
    e ∈ setTdm S multipliers ↔ ∃ m ∈ multipliers, (m.startTime, m.multiplier) = e := by
  unfold setTdm
  simp only [List.mem_map, S.mem_sort]

theorem setTdm_pairwise_lt (S : Sorter) {multipliers : List TimeMultipliersT}
    (hn : (multipliers.map TimeMultipliersT.startTime).Nodup) :
    (setTdm S multipliers).Pairwise fun a b => a.1 < b.1 := by
  have hnodup : ((setTdm S multipliers).map Prod.fst).Nodup := by
    unfold setTdm
    rw [List.map_map]
    exact ((S.perm _ multipliers).map TimeMultipliersT.startTime).nodup_iff.mpr hn
  exact ((setTdm_pairwise S multipliers).and (List.pairwise_map.mp hnodup)).imp fun h =>
    lt_of_le_of_ne h.1 h.2

/-- **When the lookups agree**: the time is not a start, or no start comes after it. -/
theorem lookups_agree_iff (S : Sorter) {multipliers : List TimeMultipliersT} (hne : multipliers ≠ [])
    (hn : (multipliers.map TimeMultipliersT.startTime).Nodup) (time : ℤ) :
    LookupsAgree (setTdm S multipliers) time ↔
      (∀ m ∈ multipliers, m.startTime ≠ time) ∨ ∀ m ∈ multipliers, m.startTime ≤ time := by
  have hsorted := setTdm_pairwise_lt S hn
  have hchange := change_eq time (setTdm_ne_nil S hne) 0 1
  have hmem : ∀ p : ℤ → Prop, (∀ e ∈ setTdm S multipliers, p e.1) ↔ ∀ m ∈ multipliers, p m.startTime := by
    intro p
    simp only [mem_setTdm, forall_exists_index, and_imp, forall_apply_eq_imp_iff₂]
  rw [← hmem (· ≠ time), ← hmem (· ≤ time), ← upcoming_eq_following_iff hsorted, hchange]
  constructor
  · intro h
    exact h.following.symm
  · intro h
    exact ⟨getTdm_eq time (hsorted.imp fun h => h.le) 1, h.symm⟩

/-- A departure between two starts. -/
theorem lookups_agree_between :
    LookupsAgree (setTdm .insertion [⟨10, 2⟩, ⟨0, 1⟩, ⟨20, 3⟩]) 15 :=
  (lookups_agree_iff .insertion (by decide) (by decide) 15).mpr (Or.inl (by decide))

/-- A departure at the start of the first interval, which ends at the time 10. -/
theorem lookups_disagree_at_start : timeChange 0 (setTdm .insertion [⟨0, 1⟩, ⟨10, 2⟩]) 0 = 0 ∧
    nextTdm 0 (setTdm .insertion [⟨0, 1⟩, ⟨10, 2⟩]) 1 = 1 ∧
    ¬ LookupsAgree (setTdm .insertion [⟨0, 1⟩, ⟨10, 2⟩]) 0 := by
  refine ⟨by decide +kernel, by decide +kernel, fun h => ?_⟩
  exact absurd h.following (by decide +kernel)

/-! ### The fast path -/

variable (M : Matrix)

/-- The code of `travel_time` behind the test for a single multiplier. -/
def travelTimeGeneralBy? (A : Arithmetic) (i j : ℤ) (time : ℤ) : Option ℤ :=
  if !M.hasId i || !M.hasId j then some infinity else
  match M.getIndex i, M.getIndex j with
  | some a, some b =>
    let c1 := getTdm time M.multipliers 1
    let c2 := nextTdm time M.multipliers 1
    let adjusted := A.times (M.cell a b) c1
    if timeChange time M.multipliers 0 ≥ A.add time adjusted ∨ c1 = c2 then some adjusted
    else some (A.times (M.cell a b) (min c1 c2))
  | _, _ => none

section General
variable {M} {A : Arithmetic}

theorem travelTimeBy?_eq_general (h : M.multipliers.length ≠ 1) (i j time : ℤ) :
    M.travelTimeBy? A i j time = M.travelTimeGeneralBy? A i j time := by
  unfold travelTimeBy?
  split
  · next hm => exact absurd (by rw [hm]; rfl) h
  · rfl

theorem travelTimeBy?_eq_fast {e : ℤ × ℚ} (h : M.multipliers = [e]) (i j time : ℤ) :
    M.travelTimeBy? A i j time = match M.getIndex i, M.getIndex j with
      | some a, some b => some (M.cell a b)
      | _, _ => none := by
  obtain ⟨m, multipliers⟩ := M
  obtain rfl : multipliers = [e] := h
  rfl

end General

/-- The product of a cell and a multiplier, a rounded number, is truncated to the cell: it is not nearer
to 0, and by less than one time unit farther from it. A product outside of 64 bits is converted to it. -/
def KeepsTime (D : Doubles) (x : ℤ) (c : ℚ) : Prop :=
  if |D.round (D.round x * c)| < 2 ^ 63 then
    |(x : ℚ)| ≤ |D.round (D.round x * c)| ∧ |D.round (D.round x * c)| < |(x : ℚ)| + 1 ∧
      0 ≤ x * D.round (D.round x * c)
  else D.toInt (D.round (D.round x * c)) = x

instance (D : Doubles) (x : ℤ) (c : ℚ) : Decidable (KeepsTime D x c) :=
  inferInstanceAs (Decidable (ite _ _ _))

/-- When a time stays the same after the conversion. -/
theorem times_eq_iff (D : Doubles) (x : ℤ) (c : ℚ) : D.times x c = x ↔ KeepsTime D x c := by
  unfold KeepsTime Doubles.times
  split_ifs with h
  · rw [D.toInt_eq _ h]
    exact Rounding.truncate_eq_iff _ x
  · exact Iff.rfl

/-- The multiplier that the general path applies to the cell `x` for the only change `start` to `c`: `c`
from then on; before it 1 when the trip ends by then, else the smaller one. -/
def appliedTo (D : Doubles) (start : ℤ) (c : ℚ) (x time : ℤ) : ℚ :=
  if start ≤ time then c
  else if addIntervals time (D.times x 1) ≤ start then 1
  else min 1 c

/-- What the fast path needs to agree with the general one, for the multiplier `c` from the time
`start` on: both identifiers are on the matrix, and the multiplier that applies keeps the time; or an
identifier is absent, and the cell at the positions where the searches end is missing. -/
def FastPathAgrees (D : Doubles) (start : ℤ) (c : ℚ) (i j time : ℤ) : Prop :=
  (M.hasId i = true ∧ M.hasId j = true ∧
    KeepsTime D (M.cell (M.lowerBound i) (M.lowerBound j))
      (appliedTo D start c (M.cell (M.lowerBound i) (M.lowerBound j)) time)) ∨
  ((M.hasId i = false ∨ M.hasId j = false) ∧
    ∃ a b, M.getIndex i = some a ∧ M.getIndex j = some b ∧ M.cell a b = infinity)

section Single
variable {M} {D : Doubles} {start : ℤ} {c : ℚ} (h : M.multipliers = [(start, c)])
include h

/-- The general path for one multiplier and a stored time. -/
theorem general_single {i j : ℤ} (hi : M.hasId i = true) (hj : M.hasId j = true) (time : ℤ) :
    M.travelTimeGeneralBy? (.machine D) i j time =
      some (D.times (M.cell (M.lowerBound i) (M.lowerBound j))
        (appliedTo D start c (M.cell (M.lowerBound i) (M.lowerBound j)) time)) := by
  unfold travelTimeGeneralBy? appliedTo
  rw [hi, hj, BaseMatrix.getIndex_of_hasId hi, BaseMatrix.getIndex_of_hasId hj, h]
  dsimp only
  generalize M.cell (M.lowerBound i) (M.lowerBound j) = x
  have hnext : nextTdm time [(start, c)] 1 = c := by simp [nextTdm]
  have hchange : timeChange time [(start, c)] 0 = start := by simp [timeChange]
  rw [hnext, hchange, Arithmetic.machine_times, Arithmetic.machine_add, Arithmetic.machine_times,
    if_neg (by decide)]
  rcases le_or_gt start time with hle | hlt
  · have hforce : getTdm time [(start, c)] 1 = c := by simp [getTdm, not_lt.mpr hle]
    rw [hforce, if_pos (Or.inr rfl), if_pos hle]
  · have hforce : getTdm time [(start, c)] 1 = 1 := by simp [getTdm, hlt]
    rw [hforce, if_neg (not_le.mpr hlt)]
    by_cases hshort : addIntervals time (D.times x 1) ≤ start
    · rw [if_pos (Or.inl hshort), if_pos hshort]
    · rw [if_neg hshort]
      by_cases hc : 1 = c
      · rw [if_pos (Or.inr hc), ← hc, min_self]
      · rw [if_neg (not_or.mpr ⟨hshort, hc⟩)]

/-- **When the fast path agrees with the general one.** -/
theorem fast_path_iff (i j time : ℤ) :
    M.travelTimeBy? (.machine D) i j time = M.travelTimeGeneralBy? (.machine D) i j time ↔
      M.FastPathAgrees D start c i j time := by
  rw [travelTimeBy?_eq_fast h]
  unfold FastPathAgrees
  by_cases hij : M.hasId i = true ∧ M.hasId j = true
  · obtain ⟨hi, hj⟩ := hij
    rw [general_single h hi hj time, ← times_eq_iff, BaseMatrix.getIndex_of_hasId hi,
      BaseMatrix.getIndex_of_hasId hj]
    simp only [hi, hj, true_and, Bool.true_eq_false, or_self, false_and, or_false, Option.some_inj]
    exact eq_comm
  · have habsent : M.hasId i = false ∨ M.hasId j = false := by
      simpa only [not_and_or, Bool.not_eq_true] using hij
    have hgeneral : M.travelTimeGeneralBy? (.machine D) i j time = some infinity := by
      unfold travelTimeGeneralBy?
      exact if_pos (by simpa using habsent)
    rw [hgeneral, or_iff_right fun h => hij ⟨h.1, h.2.1⟩, and_iff_right habsent]
    cases M.getIndex i with
    | none => simp
    | some a => cases M.getIndex j <;> simp

end Single

/-- A multiplier of 1 from the time 0 on. -/
theorem fast_path_default : twoSites.travelTimeBy? (.machine .nearest) 1 2 3 =
    twoSites.travelTimeGeneralBy? (.machine .nearest) 1 2 3 :=
  (fast_path_iff rfl 1 2 3).mpr (Or.inl ⟨by decide, by decide, by decide +kernel⟩)

/-- A multiplier of 2 is not applied, and an absent identifier gets the time of another node. -/
theorem fast_path_disagrees :
    let M : Matrix := ⟨⟨[1, 3], [[0, 5], [5, 0]]⟩, [(0, 2)]⟩
    M.travelTimeBy? (.machine .nearest) 1 3 0 = some 5 ∧
      M.travelTimeGeneralBy? (.machine .nearest) 1 3 0 = some 10 ∧
      M.travelTimeBy? (.machine .nearest) 1 2 0 = some 5 ∧
      M.travelTimeGeneralBy? (.machine .nearest) 1 2 0 = some infinity := by
  decide +kernel

/-- The product is below the next integer and is rounded to it. -/
example :
    let M : Matrix := ⟨⟨[1, 3], [[0, 3], [3, 0]]⟩, [(0, 6004799503160661 / 2 ^ 52)]⟩
    M.travelTimeBy? (.machine .nearest) 1 3 0 = some 3 ∧
      M.travelTimeGeneralBy? (.machine .nearest) 1 3 0 = some 4 := by
  decide +kernel

end VrpRouting.Matrix
