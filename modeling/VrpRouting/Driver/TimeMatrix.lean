import VrpRouting.Common.Identifiers
import VrpRouting.Pgdata.Fetchers
import VrpRouting.Problem.RowOrder

/-! # The matrix of a driver

Every driver rejects a factor that is not positive, makes the matrix for the node identifiers of the
orders and the vehicles, and rejects one with a missing cell, except for the Euclidean driver, whose
matrix has none. The drivers with time multipliers fix the triangles before they look for missing
cells: `vrp_pickDeliver` and `vrp_compatibleVehicles` always, `vrp_optimize` on request.

No test looks at the products of a cost and the factor: one that is too large for 64 bits is cast to
any number. The matrix has no negative travel time when the products fit, the sums fit where triangles
are fixed, and no multiplier is negative (`prepareMatrix_nonneg`). -/

open Sorting

namespace VrpRouting.Driver

/-- What a driver makes its matrix from. -/
inductive MatrixInput
  | timed (cells : List MatrixCell) (multipliers : List TimeMultipliersT)
    (checkTriangleInequality : Bool)
  | plain (cells : List MatrixCell)
  | euclidean (points : List ((ℚ × ℚ) × ℤ))

/-- The nodes involved. -/
def nodeIds (orders : List OrdersT) (vehicles : List VehicleT) : Identifiers ℤ :=
  vehicles.foldl (fun ids v => (ids.insert v.startNodeId).insert v.endNodeId)
    (orders.foldl (fun ids o => (ids.insert o.pickNodeId).insert o.deliverNodeId) .empty)

/-- Verify matrix triangle inequality. -/
def verifyTriangles (check : Bool) (matrix : Matrix) : Matrix :=
  if check && !matrix.obeysTriangleInequality then
    { matrix with toBaseMatrix := (matrix.fixTriangleInequality 0).2 }
  else matrix

/-- Verify matrix cells preconditions. -/
def verifyCells (matrix : Matrix) : Except Fault Matrix := do
  throwIf (matrix.hasNoInfinity = false) "An Infinity value was found on the Matrix"
  return matrix

/-- The matrix of the driver, or its message. -/
def prepareMatrix (A : Arithmetic) (S : Sorter) (sqrt : ℚ → ℚ) (ids : Identifiers ℤ) (factor : ℚ)
    (input : MatrixInput) : Except Fault Matrix := do
  throwIf (factor ≤ 0) "Illegal value in parameter: factor"
  match input with
  | .timed cells multipliers check =>
    verifyCells (verifyTriangles check
      ⟨.ofCellsBy (A.times · factor) cells ids.ids, Matrix.setTdm S multipliers⟩)
  | .plain cells => verifyCells ⟨.ofCellsBy (A.times · factor) cells ids.ids, [(0, 1)]⟩
  | .euclidean points =>
    return ⟨.ofPointsBy (A.times · factor) (getDistance sqrt) points, [(0, 1)]⟩

/-- The product of `x` and `c` is below the end of the 64-bit integers. -/
def ProductFits (D : Doubles) (x c : ℚ) : Prop := D.round (D.round x * c) < 2 ^ 63

instance (D : Doubles) (x c : ℚ) : Decidable (ProductFits D x c) := inferInstanceAs (Decidable (_ < _))

/-- The costs of the selected rows can be multiplied with the factor. -/
def CostsFit (D : Doubles) (ids : Identifiers ℤ) (factor : ℚ) (cells : List MatrixCell) : Prop :=
  ∀ c ∈ cells, c.fromVid ∈ ids → c.toVid ∈ ids → ProductFits D c.cost factor

namespace MatrixInput

/-- The cells are fetched from tuples. -/
def Fetched : MatrixInput → Prop
  | timed cells _ _ => ∀ c ∈ cells, c.Fetched
  | plain cells => ∀ c ∈ cells, c.Fetched
  | euclidean _ => True

/-- The products of the costs, or distances, and the factor fit; there is one multiplier or none is
negative; and the sums of cells fit where the triangles are fixed. -/
def Forward (D : Doubles) (sqrt : ℚ → ℚ) (ids : Identifiers ℤ) (factor : ℚ) : MatrixInput → Prop
  | timed cells multipliers check =>
    CostsFit D ids factor cells ∧ (multipliers.length = 1 ∨ ∀ m ∈ multipliers, 0 ≤ m.multiplier) ∧
      (check = true →
        (BaseMatrix.ofCellsBy (D.times · factor) cells ids.ids).obeysTriangleInequality = false →
        (BaseMatrix.ofCellsBy (D.times · factor) cells ids.ids).SumsFit)
  | plain cells => CostsFit D ids factor cells
  | euclidean points => ∀ p ∈ points, ∀ q ∈ points,
      ProductFits D (getDistance sqrt p.1 q.1) factor

end MatrixInput

/-- The cells of the matrix can be multiplied with its multipliers, when those are applied. -/
def MultipliersFit (D : Doubles) (M : Matrix) : Prop := M.multipliers.length = 1 ∨
  ∀ c, c = 1 ∨ c ∈ M.multipliers.map Prod.snd → ∀ i j, ProductFits D (M.cell i j) c

theorem verifyCells_eq_ok {m M : Matrix} (h : verifyCells m = .ok M) : M = m := by
  unfold verifyCells at h
  obtain ⟨_, -, h⟩ := bind_eq_ok h
  exact (Except.ok.inj h).symm

section Verify
variable {check : Bool} {m : Matrix}

theorem multipliers_verifyTriangles : (verifyTriangles check m).multipliers = m.multipliers := by
  unfold verifyTriangles
  split_ifs <;> rfl

theorem verifyTriangles_nonneg (h : m.Nonneg)
    (hfit : check = true → m.obeysTriangleInequality = false → m.SumsFit) :
    (verifyTriangles check m).Nonneg := by
  unfold verifyTriangles
  split_ifs with hc
  · rw [Bool.and_eq_true, Bool.not_eq_true'] at hc
    exact h.fixTriangleInequality (hfit hc.1 hc.2) 0
  · exact h

end Verify

section Prepare
variable {D : Doubles} {S : Sorter} {sqrt : ℚ → ℚ} {ids : Identifiers ℤ} {factor : ℚ}
  {input : MatrixInput} {M : Matrix}

/-- The cells of the matrix and its multipliers are not negative. -/
theorem prepareMatrix_spec (hsqrt : ∀ q, 0 ≤ q → 0 ≤ sqrt q) (hf : input.Fetched)
    (hinput : input.Forward D sqrt ids factor)
    (h : prepareMatrix (.machine D) S sqrt ids factor input = .ok M) :
    M.Nonneg ∧ Matrix.MultipliersOk M.multipliers := by
  unfold prepareMatrix at h
  obtain ⟨_, hfactor, h⟩ := bind_eq_ok h
  have hpos : 0 ≤ factor := (not_le.mp (throwIf_eq_ok hfactor)).le
  have hofCells : ∀ cells : List MatrixCell, (∀ c ∈ cells, c.Fetched) → CostsFit D ids factor cells →
      (BaseMatrix.ofCellsBy (D.times · factor) cells ids.ids).Nonneg := fun cells hcells hfits =>
    BaseMatrix.nonneg_ofCellsBy_selected fun c hc hu hv =>
      Doubles.times_nonneg (Int.cast_nonneg (hcells c hc).nonneg) hpos (hfits c hc hu hv)
  cases input with
  | timed cells multipliers check =>
    obtain ⟨hcosts, hmult, hfit⟩ := hinput
    obtain rfl := verifyCells_eq_ok h
    refine ⟨verifyTriangles_nonneg (hofCells cells hf hcosts) hfit, ?_⟩
    rw [multipliers_verifyTriangles]
    unfold Matrix.MultipliersOk Matrix.setTdm
    refine hmult.imp (fun hlen => by simp [S.length_sort, hlen]) fun hm e he => ?_
    obtain ⟨m, hmem, rfl⟩ := List.mem_map.mp he
    exact hm m ((S.mem_sort _).mp hmem)
  | plain cells =>
    obtain rfl := verifyCells_eq_ok h
    exact ⟨hofCells cells hf hinput, Or.inl rfl⟩
  | euclidean points =>
    obtain rfl := Except.ok.inj h
    have hdistance : ∀ p q, 0 ≤ getDistance sqrt p q := fun p q =>
      hsqrt _ (add_nonneg (mul_self_nonneg _) (mul_self_nonneg _))
    refine ⟨BaseMatrix.nonneg_ofPointsBy fun p hp q hq => ?_, Or.inl rfl⟩
    exact Doubles.times_nonneg (hdistance _ _) hpos (hinput p hp q hq)

/-- **The matrix of a driver has no negative travel time.** -/
theorem prepareMatrix_nonneg (hsqrt : ∀ q, 0 ≤ q → 0 ≤ sqrt q) (hf : input.Fetched)
    (hinput : input.Forward D sqrt ids factor)
    (h : prepareMatrix (.machine D) S sqrt ids factor input = .ok M) (hfits : MultipliersFit D M)
    (i j time : ℤ) : 0 ≤ M.travelTimeBy (.machine D) i j time := by
  obtain ⟨hM, hm⟩ := prepareMatrix_spec hsqrt hf hinput h
  refine Matrix.travelTimeBy_nonneg hM ?_ i j time
  rcases hm with hone | hpos
  · exact Or.inl hone
  refine hfits.imp_right fun hfits c hc i j => ?_
  have hc' : 0 ≤ c := by
    rcases hc with rfl | hc
    · exact zero_le_one
    · obtain ⟨e, he, rfl⟩ := List.mem_map.mp hc
      exact hpos e he
  exact Doubles.times_nonneg (Int.cast_nonneg (hM i j)) hc' (hfits c hc i j)

end Prepare

end VrpRouting.Driver
