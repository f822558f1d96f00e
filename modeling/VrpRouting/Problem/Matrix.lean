import VrpRouting.Common.Arithmetic
import VrpRouting.Common.Input
import VrpRouting.Lib.Sorting

/-! # The time matrix

`Base_Matrix` keeps the increasing list of the user's node identifiers and the square table of
travel times; `Matrix` adds the time dependent multipliers, ordered by the time from which they apply. A
missing cell is `infinity`, and the loops over the triangles add such cells like all other ones:
their sums are those of 64-bit two's complement (`addIntervals`).

`travelTimeBy?` is `Matrix::travel_time` with `none` for the exception of `get_index`, for any
arithmetic, and `travelTime?` that with exact products. The scheduling code uses `travelTime`: every
driver hands all node identifiers of the problem to the constructor, so the exception does not arise
there. -/

open Sorting

namespace VrpRouting

structure BaseMatrix where
  ids : List ℤ
  timeMatrix : List (List ℤ)
deriving DecidableEq, Repr

namespace BaseMatrix

variable (m : BaseMatrix)

/-- `std::lower_bound` on the ordered identifiers: the first position not below `id`. -/
def lowerBound (id : ℤ) : ℕ := m.ids.findIdx fun x => decide (id ≤ x)

def hasId (id : ℤ) : Bool := m.ids[m.lowerBound id]? == some id

/-- `get_index` throws when the search ends behind the last identifier. -/
def getIndex (id : ℤ) : Option ℕ :=
  if m.lowerBound id = m.ids.length then none else some (m.lowerBound id)

/-- `at(i, j)`. -/
def cell (i j : ℕ) : ℤ := (m.timeMatrix.getD i []).getD j 0

def hasNoInfinity : Bool := m.timeMatrix.all fun row => row.all fun val => val != infinity

def obeysTriangleInequality : Bool :=
  (List.range m.timeMatrix.length).all fun i => (List.range m.timeMatrix.length).all fun j =>
    (List.range m.timeMatrix.length).all fun k =>
      !(m.cell i k > addIntervals (m.cell i j) (m.cell j k))

/-- Assignment to the cell `(i, j)`. -/
def setCell (i j : ℕ) (val : ℤ) : BaseMatrix :=
  { m with timeMatrix := m.timeMatrix.modify i fun row => row.set j val }

/-- All triples of positions, in the order of the three loops. -/
def triples (n : ℕ) : List (ℕ × ℕ × ℕ) :=
  (List.range n).flatMap fun i => (List.range n).flatMap fun j =>
    (List.range n).map fun k => (i, j, k)

/-- The first triple `(i, j, k)` for which the way over `j` is shorter. -/
def firstDetour : Option (ℕ × ℕ × ℕ) :=
  (triples m.timeMatrix.length).find? fun t =>
    decide (m.cell t.1 t.2.2 > addIntervals (m.cell t.1 t.2.1) (m.cell t.2.1 t.2.2))

/-- The recursion of `fix_triangle_inequality`; `passes` are left until the depth is too large. -/
def fixLoop : ℕ → ℕ → BaseMatrix → ℕ × BaseMatrix
  | 0, depth, m => (depth, m)
  | passes + 1, depth, m =>
    match m.firstDetour with
    | none => (depth, m)
    | some (i, j, k) =>
      fixLoop passes (depth + 1) (m.setCell i k (addIntervals (m.cell i j) (m.cell j k)))

/-- `fix_triangle_inequality(depth)`: the returned depth and the matrix. -/
def fixTriangleInequality (depth : ℕ) : ℕ × BaseMatrix :=
  fixLoop (m.timeMatrix.length + 1 - depth) depth m

/-- One row of the data: stored in its direction, and in the opposite one when that is still
missing; rows of nodes that are not selected are skipped. -/
def insertCellBy (scaled : ℚ → ℤ) (data : MatrixCell) : BaseMatrix :=
  match m.hasId data.fromVid && m.hasId data.toVid, m.getIndex data.fromVid,
    m.getIndex data.toVid with
  | true, some i, some j =>
    let m' := m.setCell i j (scaled data.cost)
    if m'.cell j i = infinity then m'.setCell j i (m'.cell i j) else m'
  | _, _, _ => m

/-- The constructor for the selected identifiers `nodeIds`, an increasing list; `scaled` multiplies
a cost with the factor. -/
def ofCellsBy (scaled : ℚ → ℤ) (cells : List MatrixCell) (nodeIds : List ℤ) : BaseMatrix :=
  let n := nodeIds.length
  let start : BaseMatrix := ⟨nodeIds, List.replicate n (List.replicate n infinity)⟩
  let filled := cells.foldl (fun m data => m.insertCellBy scaled data) start
  (List.range n).foldl (fun m i => m.setCell i i 0) filled

/-- The constructor with exact products. -/
def ofCells (cells : List MatrixCell) (nodeIds : List ℤ) (multiplier : ℚ) : BaseMatrix :=
  ofCellsBy (fun cost => toInterval (cost * multiplier)) cells nodeIds

/-- One pair of points in both directions. -/
def insertDistanceBy (scaled : ℚ → ℤ) (distance : ℚ × ℚ → ℚ × ℚ → ℚ)
    (fromPoint toPoint : (ℚ × ℚ) × ℤ) : BaseMatrix :=
  match m.getIndex fromPoint.2, m.getIndex toPoint.2 with
  | some i, some j =>
    let m' := m.setCell i j (scaled (distance fromPoint.1 toPoint.1))
    m'.setCell j i (m'.cell i j)
  | _, _ => m

/-- The constructor for points with identifiers, in the order of the map. -/
def ofPointsBy (scaled : ℚ → ℤ) (distance : ℚ × ℚ → ℚ × ℚ → ℚ) (points : List ((ℚ × ℚ) × ℤ)) :
    BaseMatrix :=
  let n := points.length
  let start : BaseMatrix := ⟨points.map Prod.snd, List.replicate n (List.replicate n infinity)⟩
  let filled := points.foldl (fun m p =>
    points.foldl (fun m q => m.insertDistanceBy scaled distance p q) m) start
  (List.range n).foldl (fun m i => m.setCell i i 0) filled

/-- The constructor for points with exact products. -/
def ofPoints (distance : ℚ × ℚ → ℚ × ℚ → ℚ) (points : List ((ℚ × ℚ) × ℤ)) (multiplier : ℚ) :
    BaseMatrix :=
  ofPointsBy (fun x => toInterval (x * multiplier)) distance points

end BaseMatrix

/-- `get_distance`, with the square root as an argument: that of the library rounds. -/
def getDistance (sqrt : ℚ → ℚ) (p q : ℚ × ℚ) : ℚ :=
  sqrt ((p.1 - q.1) * (p.1 - q.1) + (p.2 - q.2) * (p.2 - q.2))

structure Matrix extends BaseMatrix where
  /-- The times from which a multiplier applies, with the multiplier. -/
  multipliers : List (ℤ × ℚ)
deriving DecidableEq, Repr

namespace Matrix

/-- The constructor with the default multipliers. -/
def ofCells (cells : List MatrixCell) (nodeIds : List ℤ) (multiplier : ℚ) : Matrix :=
  ⟨BaseMatrix.ofCells cells nodeIds multiplier, [(0, 1)]⟩

/-- The constructor for points, with the default multipliers. -/
def ofPoints (distance : ℚ × ℚ → ℚ × ℚ → ℚ) (points : List ((ℚ × ℚ) × ℤ)) (multiplier : ℚ) :
    Matrix := ⟨BaseMatrix.ofPoints distance points multiplier, [(0, 1)]⟩

/-- The multipliers in the order of their times. -/
def setTdm (S : Sorter) (multipliers : List TimeMultipliersT) : List (ℤ × ℚ) :=
  (S.sort (fun lhs rhs => decide (lhs.startTime < rhs.startTime)) multipliers).map
    fun m => (m.startTime, m.multiplier)

/-- The constructor with time dependent multipliers. -/
def ofMultipliers (S : Sorter) (cells : List MatrixCell) (multipliers : List TimeMultipliersT)
    (nodeIds : List ℤ) (multiplier : ℚ) : Matrix :=
  ⟨BaseMatrix.ofCells cells nodeIds multiplier, setTdm S multipliers⟩

/-- The loop of `get_tdm`: the last coefficient before the first entry after `time`. -/
def getTdm (time : ℤ) : List (ℤ × ℚ) → ℚ → ℚ
  | [], coeff => coeff
  | e :: tdm, coeff => if time < e.1 then coeff else getTdm time tdm e.2

/-- The loop of `next_tdm`: the coefficient of the first entry not before `time`, else the last. -/
def nextTdm (time : ℤ) : List (ℤ × ℚ) → ℚ → ℚ
  | [], coeff => coeff
  | e :: tdm, _ => if e.1 ≥ time then e.2 else nextTdm time tdm e.2

/-- The loop of `time_change`: the first entry not before `time`, else the last. -/
def timeChange (time : ℤ) : List (ℤ × ℚ) → ℤ → ℤ
  | [], tChange => tChange
  | e :: tdm, _ => if time ≤ e.1 then e.1 else timeChange time tdm e.1

variable (M : Matrix)

/-- `Matrix::travel_time`, `none` for the exception. -/
def travelTimeBy? (A : Arithmetic) (i j : ℤ) (time : ℤ) : Option ℤ :=
  match M.multipliers with
  | [_] =>
    match M.getIndex i, M.getIndex j with
    | some a, some b => some (M.cell a b)
    | _, _ => none
  | tdm =>
    if !M.hasId i || !M.hasId j then some infinity else
    match M.getIndex i, M.getIndex j with
    | some a, some b =>
      let c1 := getTdm time tdm 1
      let c2 := nextTdm time tdm 1
      let adjusted := A.times (M.cell a b) c1
      if timeChange time tdm 0 ≥ A.add time adjusted ∨ c1 = c2 then some adjusted
      else some (A.times (M.cell a b) (min c1 c2))
    | _, _ => none

def travelTimeBy (A : Arithmetic) (i j : ℤ) (time : ℤ) : ℤ := (M.travelTimeBy? A i j time).getD 0

def travelTime? (i j : ℤ) (time : ℤ) : Option ℤ := M.travelTimeBy? .exact i j time

def travelTime (i j : ℤ) (time : ℤ) : ℤ := (M.travelTime? i j time).getD 0

end Matrix

/-- Two sites that are 5 time units apart, the matrix of all small problems. -/
def twoSites : Matrix := ⟨⟨[1, 2], [[0, 5], [5, 0]]⟩, [(0, 1)]⟩

end VrpRouting
