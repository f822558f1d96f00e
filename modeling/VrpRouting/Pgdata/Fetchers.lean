import VrpRouting.Pgdata.Columns
import VrpRouting.Common.Input

/-! # The fetchers of the pick and deliver problems

`getOrders`, `getVehicles`, `getMatrix` and `getTimeMultipliers` turn the rows of the inner queries
into the data of a problem. With `use_timestamps` the columns of times and intervals have other names
and types. The coordinates of the Euclidean variants are read and dropped: they only choose node
identifiers, which the driver sets afterwards.

What the fetchers accept (`OrdersT.Accepted`, `VehicleT.Accepted`) says nothing about the speed of a
vehicle, nor do they look at the windows of a vehicle or at the multipliers. -/

namespace VrpRouting

namespace Pgget

/-- The rows of a query; the columns are checked once, before the first row. -/
def getData {α : Type} (info : List Info) (fetch : Tuple → Except Fault α) (tuples : List Tuple) :
    Except Fault (List α) := do
  match tuples with
  | [] => return []
  | tuple :: _ =>
    tuple.fetchColumnInfo info
    tuples.mapM fetch

/-- `check_pairs`, which is called in the Euclidean variants only. -/
def checkPairs (isEuclidean : Bool) (tuple : Tuple) (lhs rhs : Info) : Except Fault Unit :=
  if !isEuclidean then .ok ()
  else if !tuple.columnFound lhs && tuple.columnFound rhs then
    thrown ("Column found: '" ++ rhs.name ++ "', missing column: '" ++ lhs.name ++ "'")
  else if !tuple.columnFound rhs && tuple.columnFound lhs then
    thrown ("Column found: '" ++ lhs.name ++ "', missing column: '" ++ rhs.name ++ "'")
  else .ok ()

section Fetchers
variable (toUtc : ℤ → ℤ) (isEuclidean useTimestamps : Bool)

/-- A column of times. -/
def timeInfo (strict : Bool) (timestampName name : String) : Info :=
  if useTimestamps then ⟨strict, timestampName, .timestamp⟩ else ⟨strict, name, .ttimestamp⟩

/-- A column of intervals. -/
def intervalInfo (strict : Bool) (timestampName name : String) : Info :=
  if useTimestamps then ⟨strict, timestampName, .interval⟩ else ⟨strict, name, .tinterval⟩

/-! ### Matrix and multipliers -/

def matrixInfo : List Info :=
  [⟨true, "start_vid", .id⟩, ⟨true, "end_vid", .id⟩,
    intervalInfo useTimestamps true "travel_time" "agg_cost"]

def fetchMatrix (info : List Info) (tuple : Tuple) : Except Fault MatrixCell := do
  let col (i : ℕ) := info.getD i default
  let fromVid ← tuple.getValue (col 0) toUtc .int64 (-1)
  let toVid ← tuple.getValue (col 1) toUtc .int64 (-1)
  let cost ← tuple.getValue (col 2) toUtc .int64 0
  return ⟨fromVid, toVid, cost⟩

def getMatrix : List Tuple → Except Fault (List MatrixCell) :=
  getData (matrixInfo useTimestamps) (fetchMatrix toUtc (matrixInfo useTimestamps))

def timeMultipliersInfo : List Info :=
  [timeInfo useTimestamps true "start_time" "start_value", ⟨true, "multiplier", .multiplier⟩]

def fetchTimeMultipliers (info : List Info) (tuple : Tuple) : Except Fault TimeMultipliersT := do
  let col (i : ℕ) := info.getD i default
  let startTime ← tuple.getValue (col 0) toUtc .int64 0
  let multiplier ← tuple.getAnynumerical (col 1) 1
  return ⟨startTime, multiplier⟩

def getTimeMultipliers : List Tuple → Except Fault (List TimeMultipliersT) :=
  getData (timeMultipliersInfo useTimestamps)
    (fetchTimeMultipliers toUtc (timeMultipliersInfo useTimestamps))

/-! ### Orders -/

def ordersInfo : List Info :=
  [⟨true, "id", .id⟩, ⟨true, "amount", .pamount⟩,
    ⟨!isEuclidean, "p_id", .id⟩, ⟨isEuclidean, "p_x", .coordinate⟩,
    ⟨isEuclidean, "p_y", .coordinate⟩,
    timeInfo useTimestamps true "p_tw_open" "p_open",
    timeInfo useTimestamps true "p_tw_close" "p_close",
    intervalInfo useTimestamps false "p_t_service" "p_service",
    ⟨!isEuclidean, "d_id", .id⟩, ⟨isEuclidean, "d_x", .coordinate⟩,
    ⟨isEuclidean, "d_y", .coordinate⟩,
    timeInfo useTimestamps true "d_tw_open" "d_open",
    timeInfo useTimestamps true "d_tw_close" "d_close",
    intervalInfo useTimestamps false "d_t_service" "d_service"]

/-- The node identifier of a site, 0 in the Euclidean variants, where the coordinates are read. -/
def fetchSite (tuple : Tuple) (nodeId x y : Info) (optId : ℤ) : Except Fault ℤ := do
  if isEuclidean then
    let _ ← tuple.getAnynumerical x 0
    let _ ← tuple.getAnynumerical y 0
    return 0
  else tuple.getValue nodeId toUtc .int64 optId

/-- `fetch_orders`. The second test of a service time looks at the pickup again. -/
def fetchOrders (info : List Info) (tuple : Tuple) : Except Fault OrdersT := do
  let col (i : ℕ) := info.getD i default
  checkPairs isEuclidean tuple (col 3) (col 4)
  checkPairs isEuclidean tuple (col 9) (col 10)
  let id ← tuple.getValue (col 0) toUtc .int64 (-1)
  let demand ← tuple.getValue (col 1) toUtc .uint32 0
  throwIf (demand = 0)
    ("Unexpected zero value found on column'" ++ (col 1).name ++ "' of orders")
  let pickNodeId ← fetchSite toUtc isEuclidean tuple (col 2) (col 3) (col 4) (-1)
  let pickOpenT ← tuple.getValue (col 5) toUtc .int64 (-1)
  let pickCloseT ← tuple.getValue (col 6) toUtc .int64 (-1)
  throwIf (pickCloseT < pickOpenT)
    ("Invalid time window found: '" ++ (col 6).name ++ "' < '" ++ (col 5).name ++ "'")
  let pickServiceT ← tuple.getValue (col 7) toUtc .int64 0
  throwIf (pickServiceT < 0)
    ("Unexpected negative value found on column'" ++ (col 7).name ++ "' of orders")
  let deliverNodeId ← fetchSite toUtc isEuclidean tuple (col 8) (col 9) (col 10) (-1)
  let deliverOpenT ← tuple.getValue (col 11) toUtc .int64 (-1)
  let deliverCloseT ← tuple.getValue (col 12) toUtc .int64 (-1)
  throwIf (deliverCloseT < deliverOpenT)
    ("Invalid time window found: '" ++ (col 12).name ++ "' < '" ++ (col 11).name ++ "'")
  let deliverServiceT ← tuple.getValue (col 13) toUtc .int64 0
  throwIf (pickServiceT < 0)
    ("Unexpected negative value found on column'" ++ (col 13).name ++ "' of orders")
  return ⟨id, demand.toNat, pickNodeId, pickOpenT, pickCloseT, pickServiceT, deliverNodeId,
    deliverOpenT, deliverCloseT, deliverServiceT⟩

def getOrders : List Tuple → Except Fault (List OrdersT) :=
  getData (ordersInfo isEuclidean useTimestamps)
    (fetchOrders toUtc isEuclidean (ordersInfo isEuclidean useTimestamps))

/-! ### Vehicles -/

def vehiclesInfo (withStops : Bool) : List Info :=
  [⟨true, "id", .id⟩, ⟨true, "capacity", .pamount⟩, ⟨false, "number", .pamount⟩,
    ⟨false, "speed", .speed⟩,
    ⟨!isEuclidean, "s_id", .id⟩, ⟨isEuclidean, "s_x", .coordinate⟩,
    ⟨isEuclidean, "s_y", .coordinate⟩,
    timeInfo useTimestamps false "s_tw_open" "s_open",
    timeInfo useTimestamps false "s_tw_close" "s_close",
    intervalInfo useTimestamps false "s_t_service" "s_service",
    ⟨false, "e_id", .id⟩, ⟨false, "e_x", .coordinate⟩, ⟨false, "e_y", .coordinate⟩,
    timeInfo useTimestamps false "e_tw_open" "e_open",
    timeInfo useTimestamps false "e_tw_close" "e_close",
    intervalInfo useTimestamps false "e_t_service" "e_service",
    ⟨withStops, "stops", .anyPositiveArray⟩]

def fetchVehicles (info : List Info) (tuple : Tuple) : Except Fault VehicleT := do
  let col (i : ℕ) := info.getD i default
  checkPairs isEuclidean tuple (col 5) (col 6)
  checkPairs isEuclidean tuple (col 11) (col 12)
  let id ← tuple.getValue (col 0) toUtc .int64 (-1)
  let capacity ← tuple.getValue (col 1) toUtc .uint32 maxPAmount
  let cantV ← tuple.getValue (col 2) toUtc .uint32 1
  let speed ← tuple.getAnynumerical (col 3) 1
  let startNodeId ← fetchSite toUtc isEuclidean tuple (col 4) (col 5) (col 6) (-1)
  let startOpenT ← tuple.getValue (col 7) toUtc .int64 0
  let startCloseT ← tuple.getValue (col 8) toUtc .int64 infinity
  let startServiceT ← tuple.getValue (col 9) toUtc .int64 0
  let endNodeId ← fetchSite toUtc isEuclidean tuple (col 10) (col 11) (col 12) startNodeId
  let endOpenT ← tuple.getValue (col 13) toUtc .int64 startOpenT
  let endCloseT ← tuple.getValue (col 14) toUtc .int64 startCloseT
  let endServiceT ← tuple.getValue (col 15) toUtc .int64 0
  let stops ← tuple.getArray (col 16)
  return ⟨id, capacity.toNat, speed, cantV.toNat, stops, startNodeId, startOpenT, startCloseT,
    startServiceT, endNodeId, endOpenT, endCloseT, endServiceT⟩

def getVehicles (withStops : Bool) : List Tuple → Except Fault (List VehicleT) :=
  getData (vehiclesInfo isEuclidean useTimestamps withStops)
    (fetchVehicles toUtc isEuclidean (vehiclesInfo isEuclidean useTimestamps withStops))

/-! ### What is accepted -/

section Accepted
variable {toUtc isEuclidean useTimestamps}

theorem intervalInfo_type (strict : Bool) (timestampName name : String) :
    (intervalInfo useTimestamps strict timestampName name).eType = .tinterval ∨
      (intervalInfo useTimestamps strict timestampName name).eType = .interval := by
  cases useTimestamps
  · exact Or.inl rfl
  · exact Or.inr rfl

/-- Every row of the data is fetched from a tuple. -/
theorem exists_fetched {α : Type} {info : List Info} {fetch : Tuple → Except Fault α} {r : List α} :
    ∀ {tuples : List Tuple}, getData info fetch tuples = .ok r → ∀ a ∈ r, ∃ t ∈ tuples,
      fetch t = .ok a
  | [], h, a, ha => by
    obtain rfl := Except.ok.inj h
    cases ha
  | t :: ts, h, a, ha => by
    unfold getData at h
    obtain ⟨-, -, h⟩ := bind_eq_ok h
    exact exists_of_mapM h a ha

end Accepted

end Fetchers

end Pgget

/-- What `fetch_orders` accepts. -/
structure OrdersT.Accepted (o : OrdersT) : Prop where
  demand : 0 < o.demand
  pick : o.pickOpenT ≤ o.pickCloseT
  pickService : 0 ≤ o.pickServiceT
  deliver : o.deliverOpenT ≤ o.deliverCloseT
  deliverService : 0 ≤ o.deliverServiceT

/-- What `fetch_vehicles` accepts. -/
structure VehicleT.Accepted (v : VehicleT) : Prop where
  startService : 0 ≤ v.startServiceT
  endService : 0 ≤ v.endServiceT

namespace Pgget

variable {toUtc : ℤ → ℤ} {isEuclidean useTimestamps : Bool} {tuple : Tuple}

theorem fetchMatrix_nonneg {cell : MatrixCell}
    (h : fetchMatrix toUtc (matrixInfo useTimestamps) tuple = .ok cell) : 0 ≤ cell.cost := by
  unfold fetchMatrix at h
  obtain ⟨_, -, h⟩ := bind_eq_ok h
  obtain ⟨_, -, h⟩ := bind_eq_ok h
  obtain ⟨cost, hc, h⟩ := bind_eq_ok h
  obtain rfl := Except.ok.inj h
  exact Tuple.getValue_interval_nonneg (intervalInfo_type _ _ _) hc

theorem fetchOrders_accepted {o : OrdersT}
    (h : fetchOrders toUtc isEuclidean (ordersInfo isEuclidean useTimestamps) tuple = .ok o) :
    o.Accepted := by
  unfold fetchOrders at h
  obtain ⟨_, -, h⟩ := bind_eq_ok h
  obtain ⟨_, -, h⟩ := bind_eq_ok h
  obtain ⟨id, -, h⟩ := bind_eq_ok h
  obtain ⟨demand, hd, h⟩ := bind_eq_ok h
  obtain ⟨_, hd0, h⟩ := bind_eq_ok h
  obtain ⟨pickNodeId, -, h⟩ := bind_eq_ok h
  obtain ⟨pickOpenT, -, h⟩ := bind_eq_ok h
  obtain ⟨pickCloseT, -, h⟩ := bind_eq_ok h
  obtain ⟨_, hp, h⟩ := bind_eq_ok h
  obtain ⟨pickServiceT, hps, h⟩ := bind_eq_ok h
  obtain ⟨_, -, h⟩ := bind_eq_ok h
  obtain ⟨deliverNodeId, -, h⟩ := bind_eq_ok h
  obtain ⟨deliverOpenT, -, h⟩ := bind_eq_ok h
  obtain ⟨deliverCloseT, -, h⟩ := bind_eq_ok h
  obtain ⟨_, hdl, h⟩ := bind_eq_ok h
  obtain ⟨deliverServiceT, hds, h⟩ := bind_eq_ok h
  obtain ⟨_, -, h⟩ := bind_eq_ok h
  obtain rfl := Except.ok.inj h
  have hnonneg := Tuple.getValue_uint32_nonneg rfl hd
  have hne := throwIf_eq_ok hd0
  exact ⟨by simp only; omega, not_lt.mp (throwIf_eq_ok hp),
    Tuple.getValue_interval_nonneg (intervalInfo_type _ _ _) hps,
    not_lt.mp (throwIf_eq_ok hdl), Tuple.getValue_interval_nonneg (intervalInfo_type _ _ _) hds⟩

theorem fetchVehicles_accepted {withStops : Bool} {v : VehicleT}
    (h : fetchVehicles toUtc isEuclidean (vehiclesInfo isEuclidean useTimestamps withStops) tuple =
      .ok v) : v.Accepted := by
  unfold fetchVehicles at h
  obtain ⟨_, -, h⟩ := bind_eq_ok h
  obtain ⟨_, -, h⟩ := bind_eq_ok h
  obtain ⟨id, -, h⟩ := bind_eq_ok h
  obtain ⟨capacity, -, h⟩ := bind_eq_ok h
  obtain ⟨cantV, -, h⟩ := bind_eq_ok h
  obtain ⟨speed, -, h⟩ := bind_eq_ok h
  obtain ⟨startNodeId, -, h⟩ := bind_eq_ok h
  obtain ⟨startOpenT, -, h⟩ := bind_eq_ok h
  obtain ⟨startCloseT, -, h⟩ := bind_eq_ok h
  obtain ⟨startServiceT, hs, h⟩ := bind_eq_ok h
  obtain ⟨endNodeId, -, h⟩ := bind_eq_ok h
  obtain ⟨endOpenT, -, h⟩ := bind_eq_ok h
  obtain ⟨endCloseT, -, h⟩ := bind_eq_ok h
  obtain ⟨endServiceT, he, h⟩ := bind_eq_ok h
  obtain ⟨stops, -, h⟩ := bind_eq_ok h
  obtain rfl := Except.ok.inj h
  exact ⟨Tuple.getValue_interval_nonneg (intervalInfo_type _ _ _) hs,
    Tuple.getValue_interval_nonneg (intervalInfo_type _ _ _) he⟩

end Pgget

/-! ### Fetched rows -/

/-- The order is fetched from a tuple; in the Euclidean variants the driver sets its nodes. -/
def OrdersT.Fetched (o : OrdersT) : Prop :=
  ∃ toUtc isEuclidean useTimestamps tuple data pick deliver,
    Pgget.fetchOrders toUtc isEuclidean (Pgget.ordersInfo isEuclidean useTimestamps) tuple =
      .ok data ∧ o = { data with pickNodeId := pick, deliverNodeId := deliver }

/-- The cell is fetched from a tuple. -/
def MatrixCell.Fetched (cell : MatrixCell) : Prop :=
  ∃ toUtc useTimestamps tuple,
    Pgget.fetchMatrix toUtc (Pgget.matrixInfo useTimestamps) tuple = .ok cell

theorem MatrixCell.Fetched.nonneg {cell : MatrixCell} (h : cell.Fetched) : 0 ≤ cell.cost := by
  obtain ⟨toUtc, useTimestamps, tuple, h⟩ := h
  exact Pgget.fetchMatrix_nonneg h

/-- The vehicle is fetched from a tuple; the driver may set its nodes. -/
def VehicleT.Fetched (v : VehicleT) : Prop :=
  ∃ toUtc isEuclidean useTimestamps withStops tuple data start finish,
    Pgget.fetchVehicles toUtc isEuclidean
      (Pgget.vehiclesInfo isEuclidean useTimestamps withStops) tuple = .ok data ∧
      v = { data with startNodeId := start, endNodeId := finish }

theorem OrdersT.Fetched.accepted {o : OrdersT} (h : o.Fetched) : o.Accepted := by
  obtain ⟨toUtc, isEuclidean, useTimestamps, tuple, data, pick, deliver, h, rfl⟩ := h
  exact ⟨(Pgget.fetchOrders_accepted h).demand, (Pgget.fetchOrders_accepted h).pick,
    (Pgget.fetchOrders_accepted h).pickService, (Pgget.fetchOrders_accepted h).deliver,
    (Pgget.fetchOrders_accepted h).deliverService⟩

theorem VehicleT.Fetched.accepted {v : VehicleT} (h : v.Fetched) : v.Accepted := by
  obtain ⟨toUtc, isEuclidean, useTimestamps, withStops, tuple, data, start, finish, h, rfl⟩ := h
  exact ⟨(Pgget.fetchVehicles_accepted h).startService, (Pgget.fetchVehicles_accepted h).endService⟩

/-! ### The rows of a query -/

section Rows
variable {toUtc : ℤ → ℤ} {isEuclidean useTimestamps withStops : Bool} {tuples : List Tuple}

theorem getOrders_fetched {orders : List OrdersT}
    (h : Pgget.getOrders toUtc isEuclidean useTimestamps tuples = .ok orders) :
    ∀ o ∈ orders, o.Fetched := by
  intro o ho
  obtain ⟨t, -, ht⟩ := Pgget.exists_fetched h o ho
  exact ⟨toUtc, isEuclidean, useTimestamps, t, o, o.pickNodeId, o.deliverNodeId, ht, rfl⟩

end Rows

end VrpRouting
