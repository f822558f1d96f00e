import VrpRouting.Common.Types

/-! # The rows of the inner queries

`Orders_t`, `Vehicle_t`, `Short_vehicle`, `Matrix_cell_t` and `Time_multipliers_t` as the fetchers
deliver them, without the coordinates: they only choose node identifiers for the Euclidean
variants. -/

namespace VrpRouting

structure OrdersT where
  id : ℤ
  demand : ℕ
  pickNodeId : ℤ
  pickOpenT : ℤ
  pickCloseT : ℤ
  pickServiceT : ℤ
  deliverNodeId : ℤ
  deliverOpenT : ℤ
  deliverCloseT : ℤ
  deliverServiceT : ℤ
deriving DecidableEq, Repr

structure VehicleT where
  id : ℤ
  capacity : ℕ
  speed : ℚ
  /-- The number of vehicles with this description. -/
  cantV : ℕ
  stops : List ℤ
  startNodeId : ℤ
  startOpenT : ℤ
  startCloseT : ℤ
  startServiceT : ℤ
  endNodeId : ℤ
  endOpenT : ℤ
  endCloseT : ℤ
  endServiceT : ℤ
deriving DecidableEq, Repr

structure ShortVehicle where
  id : ℤ
  stops : List ℤ
deriving DecidableEq, Repr

/-- A row of the matrix query. -/
structure MatrixCell where
  fromVid : ℤ
  toVid : ℤ
  cost : ℤ
deriving DecidableEq, Repr

structure TimeMultipliersT where
  startTime : ℤ
  multiplier : ℚ
deriving DecidableEq, Repr

end VrpRouting
