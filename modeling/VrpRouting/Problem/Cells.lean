import Mathlib.Algebra.Order.Ring.Cast
import VrpRouting.Problem.Matrix

/-! # The cells of a matrix

The constructors fill the cells with times that are not negative when the costs and the factor are
not. `fix_triangle_inequality` replaces a cell by a smaller sum of two cells, so this stays as long
as the sums fit into the type (`SumsFit`); the sum with a missing cell, which is `infinity`, does not
fit unless the other cell is 0. Travel times are not negative then when the multipliers are not, or
when there is one multiplier only, which is not applied. -/

open Sorting

namespace VrpRouting

namespace BaseMatrix

/-- The cells are not negative and no sum of two cells behind each other is too large. -/
def SumsFit (m : BaseMatrix) : Prop :=
  ∀ i < m.timeMatrix.length, ∀ j < m.timeMatrix.length, 0 ≤ m.cell i j ∧
    ∀ k < m.timeMatrix.length, m.cell i j + m.cell j k ≤ infinity

instance (m : BaseMatrix) : Decidable m.SumsFit := by
  unfold SumsFit
  infer_instance

/-- No cell is negative. -/
def Nonneg (m : BaseMatrix) : Prop := ∀ i j, 0 ≤ m.cell i j

section Cells
variable {m : BaseMatrix} {i j k : ℕ}

theorem SumsFit.addIntervals (h : m.SumsFit) (hi : i < m.timeMatrix.length)
    (hj : j < m.timeMatrix.length) (hk : k < m.timeMatrix.length) :
    VrpRouting.addIntervals (m.cell i j) (m.cell j k) = m.cell i j + m.cell j k :=
  addIntervals_eq (h i hi j hj).1 (h j hj k hk).1 ((h i hi j hj).2 k hk)

@[simp] theorem length_setCell (val : ℤ) :
    (m.setCell i j val).timeMatrix.length = m.timeMatrix.length := by
  unfold setCell
  simp

variable (m i j) in
/-- Assignment changes the one cell. -/
theorem cell_setCell (val : ℤ) (a b : ℕ) :
    (a = i ∧ b = j ∧ (m.setCell i j val).cell a b = val) ∨
      (m.setCell i j val).cell a b = m.cell a b := by
  unfold setCell cell
  simp only [List.getD_eq_getElem?_getD, List.getElem?_modify]
  by_cases ha : i = a
  · subst ha
    cases m.timeMatrix[i]? with
    | none => exact Or.inr rfl
    | some row =>
      by_cases hb : j = b
      · subst hb
        by_cases hj : j < row.length
        · exact Or.inl ⟨rfl, rfl, by simp [hj]⟩
        · exact Or.inr (by simp [hj])
      · exact Or.inr (by simp [hb])
  · exact Or.inr (by simp [ha])

theorem Nonneg.setCell (h : m.Nonneg) {val : ℤ} (hval : 0 ≤ val) : (m.setCell i j val).Nonneg := by
  intro a b
  rcases cell_setCell m i j val a b with ⟨-, -, hc⟩ | hc
  · rw [hc]
    exact hval
  · rw [hc]
    exact h a b

end Cells

/-! ### The constructors -/

section Constructors
variable {m : BaseMatrix}

theorem nonneg_replicate (ids : List ℤ) (n : ℕ) :
    Nonneg ⟨ids, List.replicate n (List.replicate n infinity)⟩ := by
  intro i j
  unfold cell
  simp only [List.getD_eq_getElem?_getD, List.getElem?_replicate]
  split_ifs
  · simp only [Option.getD_some, List.getElem?_replicate]
    split_ifs
    · exact (by decide : 0 ≤ infinity)
    · exact le_rfl
  · exact le_rfl

/-- The last loop of the constructors. -/
theorem Nonneg.diagonal (h : m.Nonneg) (n : ℕ) :
    ((List.range n).foldl (fun m i => m.setCell i i 0) m).Nonneg :=
  List.foldlRecOn _ _ h fun _ hm _ _ => hm.setCell le_rfl

theorem Nonneg.insertCellBy (h : m.Nonneg) {scaled : ℚ → ℤ} {data : MatrixCell}
    (hval : 0 ≤ scaled data.cost) : (m.insertCellBy scaled data).Nonneg := by
  unfold BaseMatrix.insertCellBy
  split
  · simp only
    split_ifs
    · exact (h.setCell hval).setCell (h.setCell hval _ _)
    · exact h.setCell hval
  · exact h

theorem nonneg_ofCellsBy {scaled : ℚ → ℤ} {cells : List MatrixCell}
    (hcells : ∀ c ∈ cells, 0 ≤ scaled c.cost) (nodeIds : List ℤ) :
    (ofCellsBy scaled cells nodeIds).Nonneg :=
  Nonneg.diagonal (List.foldlRecOn _ _ (nonneg_replicate _ _) fun _ h c hc =>
    h.insertCellBy (hcells c hc)) _

theorem Nonneg.insertDistanceBy (h : m.Nonneg) {scaled : ℚ → ℤ} {distance : ℚ × ℚ → ℚ × ℚ → ℚ}
    {p q : (ℚ × ℚ) × ℤ} (hval : 0 ≤ scaled (distance p.1 q.1)) :
    (m.insertDistanceBy scaled distance p q).Nonneg := by
  unfold BaseMatrix.insertDistanceBy
  split
  · exact (h.setCell hval).setCell (h.setCell hval _ _)
  · exact h

theorem nonneg_ofPointsBy {scaled : ℚ → ℤ} {distance : ℚ × ℚ → ℚ × ℚ → ℚ}
    {points : List ((ℚ × ℚ) × ℤ)}
    (hd : ∀ p ∈ points, ∀ q ∈ points, 0 ≤ scaled (distance p.1 q.1)) :
    (ofPointsBy scaled distance points).Nonneg :=
  Nonneg.diagonal (List.foldlRecOn _ _ (nonneg_replicate _ _) fun _ h p hp =>
    List.foldlRecOn _ _ h fun _ h q hq => h.insertDistanceBy (hd p hp q hq)) _

end Constructors

/-! ### Fixing the triangles -/

section Fixing
variable {m : BaseMatrix}

theorem firstDetour_eq_some {i j k : ℕ} (h : m.firstDetour = some (i, j, k)) :
    (i < m.timeMatrix.length ∧ j < m.timeMatrix.length ∧ k < m.timeMatrix.length) ∧
      m.cell i k > VrpRouting.addIntervals (m.cell i j) (m.cell j k) := by
  unfold firstDetour at h
  have hmem := List.mem_of_find?_eq_some h
  have hlt := List.find?_some h
  simp only [triples, List.mem_flatMap, List.mem_map, List.mem_range, Prod.mk.injEq] at hmem
  obtain ⟨_, hi, _, hj, _, hk, rfl, rfl, rfl⟩ := hmem
  exact ⟨⟨hi, hj, hk⟩, of_decide_eq_true hlt⟩

/-- A smaller cell in place of a cell. -/
theorem SumsFit.lower (h : m.SumsFit) {i k : ℕ} {val : ℤ} (hval : 0 ≤ val) (hle : val ≤ m.cell i k) :
    (m.setCell i k val).SumsFit := by
  have hcell : ∀ a b, (m.setCell i k val).cell a b ≤ m.cell a b ∧
      (0 ≤ m.cell a b → 0 ≤ (m.setCell i k val).cell a b) := fun a b => by
    rcases cell_setCell m i k val a b with ⟨rfl, rfl, hc⟩ | hc
    · rw [hc]
      exact ⟨hle, fun _ => hval⟩
    · rw [hc]
      exact ⟨le_rfl, id⟩
  intro a ha b hb
  rw [length_setCell] at ha hb
  refine ⟨(hcell a b).2 (h a ha b hb).1, fun c hc => ?_⟩
  rw [length_setCell] at hc
  have h1 := (h a ha b hb).2 c hc
  have h2 := (hcell a b).1
  have h3 := (hcell b c).1
  omega

/-- **Fixing keeps the cells non-negative** when the sums fit. -/
theorem Nonneg.fixLoop (passes : ℕ) : ∀ {m : BaseMatrix} (depth : ℕ), m.Nonneg → m.SumsFit →
    (BaseMatrix.fixLoop passes depth m).2.Nonneg := by
  induction passes with
  | zero => exact fun depth h _ => h
  | succ passes ih =>
    intro m depth h hfit
    unfold BaseMatrix.fixLoop
    cases hd : m.firstDetour with
    | none => exact h
    | some t =>
      obtain ⟨i, j, k⟩ := t
      obtain ⟨⟨hi, hj, hk⟩, hlt⟩ := firstDetour_eq_some hd
      have hsum := hfit.addIntervals hi hj hk
      have h1 := h i j
      have h2 := h j k
      simp only
      exact ih _ (h.setCell (by omega)) (hfit.lower (by omega) (by omega))

theorem Nonneg.fixTriangleInequality (h : m.Nonneg) (hfit : m.SumsFit) (depth : ℕ) :
    (m.fixTriangleInequality depth).2.Nonneg := h.fixLoop _ _ hfit

end Fixing

end BaseMatrix

/-! ### Travel times -/

namespace Matrix

variable {M : Matrix}

section Tdm
variable {P : ℚ → Prop} (time : ℤ)

/-- What holds of the coefficient before the loop and of all multipliers holds of the result. -/
theorem forall_getTdm {tdm : List (ℤ × ℚ)} (h : ∀ e ∈ tdm, P e.2) {coeff : ℚ} (hc : P coeff) :
    P (getTdm time tdm coeff) := by
  induction tdm generalizing coeff with
  | nil => exact hc
  | cons e tdm ih =>
    obtain ⟨he, h⟩ := List.forall_mem_cons.mp h
    unfold getTdm
    split_ifs
    · exact hc
    · exact ih h he

theorem forall_nextTdm {tdm : List (ℤ × ℚ)} (h : ∀ e ∈ tdm, P e.2) {coeff : ℚ} (hc : P coeff) :
    P (nextTdm time tdm coeff) := by
  induction tdm generalizing coeff with
  | nil => exact hc
  | cons e tdm ih =>
    obtain ⟨he, h⟩ := List.forall_mem_cons.mp h
    unfold nextTdm
    split_ifs
    · exact he
    · exact ih h he

end Tdm

/-- The multipliers cannot make a travel time negative: there is one, or none is negative. -/
def MultipliersOk (tdm : List (ℤ × ℚ)) : Prop := tdm.length = 1 ∨ ∀ e ∈ tdm, 0 ≤ e.2

/-- The arithmetic does not turn times of the cells negative. -/
def TimesNonneg (A : Arithmetic) (M : Matrix) : Prop := M.multipliers.length = 1 ∨
  ∀ c, c = 1 ∨ c ∈ M.multipliers.map Prod.snd → ∀ i j, 0 ≤ A.times (M.cell i j) c

/-- **Travel times are not negative.** -/
theorem travelTimeBy_nonneg {A : Arithmetic} (h : M.Nonneg) (hm : M.TimesNonneg A) (i j time : ℤ) :
    0 ≤ M.travelTimeBy A i j time := by
  have hinf : 0 ≤ infinity := by decide
  unfold travelTimeBy travelTimeBy?
  split
  · split
    · exact h _ _
    · exact le_rfl
  · rename_i hne
    have htimes : ∀ c, c = 1 ∨ c ∈ M.multipliers.map Prod.snd → ∀ i j, 0 ≤ A.times (M.cell i j) c := by
      refine hm.resolve_left fun hlen => ?_
      obtain ⟨e, he⟩ := List.length_eq_one_iff.mp hlen
      exact hne e he
    have hmem : ∀ e ∈ M.multipliers, e.2 = 1 ∨ e.2 ∈ M.multipliers.map Prod.snd := fun e he =>
      Or.inr (List.mem_map_of_mem he)
    have hc1 := forall_getTdm (P := fun c => c = 1 ∨ c ∈ M.multipliers.map Prod.snd) time hmem
      (Or.inl rfl)
    have hc2 := forall_nextTdm (P := fun c => c = 1 ∨ c ∈ M.multipliers.map Prod.snd) time hmem
      (Or.inl rfl)
    split_ifs
    · exact hinf
    · split
      · simp only
        split_ifs
        · exact htimes _ hc1 _ _
        · rcases min_choice (getTdm time M.multipliers 1) (nextTdm time M.multipliers 1) with hmin | hmin <;>
            rw [hmin]
          · exact htimes _ hc1 _ _
          · exact htimes _ hc2 _ _
      · exact le_rfl

/-- With exact products it is enough that the multipliers are not negative. -/
theorem timesNonneg_exact (h : M.Nonneg) (hm : MultipliersOk M.multipliers) : M.TimesNonneg .exact := by
  refine hm.imp_right fun hpos c hc i j => ?_
  have hc : 0 ≤ c := by
    rcases hc with rfl | hc
    · exact zero_le_one
    · obtain ⟨e, he, rfl⟩ := List.mem_map.mp hc
      exact hpos e he
  exact toInterval_nonneg (mul_nonneg (Int.cast_nonneg (h i j)) hc)

theorem travelTime_nonneg (h : M.Nonneg) (hm : MultipliersOk M.multipliers) (i j time : ℤ) :
    0 ≤ M.travelTime i j time :=
  travelTimeBy_nonneg h (timesNonneg_exact h hm) i j time

theorem twoSites_nonneg : twoSites.Nonneg
  | 0, 0 | 0, 1 | 1, 0 | 1, 1 => by decide
  | 0, _ + 2 | 1, _ + 2 | _ + 2, _ => le_rfl

end Matrix

end VrpRouting
