import Mathlib.Algebra.Order.Round
import Mathlib.Data.Rat.Floor
import VrpRouting.Common.Identifiers
import VrpRouting.Common.Types
import VrpRouting.Lib.Table

/-! # The matrix of the VROOM functions

`vroom::Matrix` holds the durations and the costs between the locations as two tables of 32-bit
numbers. Its constructor stores the rows of the data in a table of pairs first, in which the largest
32-bit number stands for infinity in both components. The lookups of identifiers are those of
`Base_Matrix` once more.

A duration that is divided by the scaling factor is rounded to a whole number and cast to 32 bits,
which has no defined result for a larger number: `DurationCast` is any choice of one. The function
`std::round` rounds halves away from zero, which is `round` for the numbers here: none is negative. -/

namespace VrpRouting.Vroom

/-- `Vroom_matrix_t`. -/
structure VroomMatrixT where
  startId : ℤ
  endId : ℤ
  duration : UInt32
  cost : UInt32
deriving DecidableEq, Repr

/-- `static_cast<Duration>` of a whole number: the number when it fits, and any 32-bit number
otherwise. -/
structure DurationCast where
  cast : ℤ → UInt32
  toNat_cast : ∀ n : ℕ, n < 2 ^ 32 → (cast n).toNat = n

/-- The cast that keeps the lowest 32 bits. -/
def DurationCast.wrap : DurationCast where
  cast n := UInt32.ofNat (n % 2 ^ 32).toNat
  toNat_cast n hn := by
    rw [UInt32.toNat_ofNat']
    omega

/-- `std::numeric_limits` of the 32-bit types: `TravelCost`, and `::vroom::Duration` and
`::vroom::Cost` of the VROOM library. -/
def maxUInt32 : UInt32 := 4294967295

structure Matrix where
  /-- `m_ids`, filled from a set in its order. -/
  ids : Identifiers ℤ
  dmatrix : List (List UInt32)
  cmatrix : List (List UInt32)
deriving DecidableEq

/-- `VMatrix`: a duration, which is a `TInterval`, and a cost. -/
abbrev VMatrix := List (List (ℤ × UInt32))

namespace Matrix

variable (m : Matrix)

def hasId (id : ℤ) : Bool := LowerBound.found m.ids.ids id

/-- `get_index` throws when the search ends behind the last identifier. -/
def getIndex (id : ℤ) : Option ℕ := LowerBound.position? m.ids.ids id

/-- `get_original_id`, which throws when the index is out of range. -/
def getOriginalId (index : ℕ) : Option ℤ := m.ids.ids[index]?

def duration (i j : ℕ) : UInt32 := Table.cell 0 m.dmatrix i j

def cost (i j : ℕ) : UInt32 := Table.cell 0 m.cmatrix i j

section Constructor
variable (D : DurationCast) (scalingFactor : ℚ)

/-- The pair that is stored for a row; the cast of the cost to `Duration` does not change it. -/
def scaled (row : VroomMatrixT) : ℤ × UInt32 :=
  ((D.cast (round (row.duration.toNat / scalingFactor : ℚ))).toNat, row.cost)

/-- The body of the loop over the rows. -/
def insertRow (t : VMatrix) (row : VroomMatrixT) : VMatrix :=
  match m.hasId row.startId && m.hasId row.endId, m.getIndex row.startId, m.getIndex row.endId with
  | true, some sid, some eid =>
    let t' := Table.setCell t sid eid (scaled D scalingFactor row)
    if (Table.cell (0, 0) t' eid sid).2 = maxUInt32 then
      Table.setCell t' eid sid (Table.cell (0, 0) t' sid eid)
    else t'
  | _, _, _ => t

/-- `has_infinity`: one of the components is. -/
def hasInfinity (t : VMatrix) : Bool :=
  t.any fun row => row.any fun val => val.1 == maxUInt32.toNat || val.2 == maxUInt32

/-- `set_vroom_duration_matrix`. -/
def setVroomDurationMatrix (t : VMatrix) : List (List UInt32) :=
  t.map fun row => row.map fun val => UInt32.ofNat val.1.toNat

/-- `set_vroom_cost_matrix`. -/
def setVroomCostMatrix (t : VMatrix) : List (List UInt32) := t.map fun row => row.map Prod.snd

/-- The table behind the loops. -/
def table (rows : List VroomMatrixT) (locationIds : Identifiers ℤ) : VMatrix :=
  let n := locationIds.size
  let start : VMatrix := List.replicate n (List.replicate n (maxUInt32.toNat, maxUInt32))
  let filled := rows.foldl (insertRow ⟨locationIds, [], []⟩ D scalingFactor) start
  (List.range n).foldl (fun t i => Table.setCell t i i (0, 0)) filled

/-- The constructor. -/
def construct (rows : List VroomMatrixT) (locationIds : Identifiers ℤ) : Except Fault Matrix :=
  let t := table D scalingFactor rows locationIds
  if hasInfinity t then
    .error (.thrown
      "An Infinity value was found on the Matrix. Might be missing information of a node")
  else .ok ⟨locationIds, setVroomDurationMatrix t, setVroomCostMatrix t⟩

end Constructor

end Matrix

end VrpRouting.Vroom
