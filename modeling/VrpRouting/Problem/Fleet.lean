import VrpRouting.Lib.Sorting
import VrpRouting.Problem.VehiclePickDeliver

/-! # The fleet of a problem

`Fleet` is the vector of all vehicles, given and phony, with the partition of their indices into
used, unused and invalid ones. Its last vehicle is the phony one that `build` makes from the first
given vehicle; it is the only place for orders that no vehicle of the solution serves. -/

open Sorting

namespace VrpRouting

/-- The order in which the vehicles are built. -/
def vehicleLt (lhs rhs : VehicleT) : Bool :=
  if lhs.startOpenT = rhs.startOpenT then
    if lhs.endCloseT = rhs.endCloseT then decide (lhs.id < rhs.id)
    else decide (lhs.endCloseT < rhs.endCloseT)
  else decide (lhs.startOpenT < rhs.startOpenT)

theorem vehicleLt_strictWeak : StrictWeak vehicleLt :=
  .of_key (fun v => toLex (v.startOpenT, toLex (v.endCloseT, v.id))) fun a b => by
    simp only [vehicleLt, Prod.Lex.toLex_lt_toLex]
    split_ifs <;> simp only [decide_eq_true_eq] <;> omega

structure Fleet where
  vehicles : List Vehicle
  used : Identifiers ℕ
  unused : Identifiers ℕ
  invalid : Identifiers ℕ
deriving DecidableEq

namespace Fleet

/-- The description of the phony vehicle: the sites and the speed of the first vehicle. -/
def phonyVehicle (first : VehicleT) : VehicleT where
  id := -1
  capacity := maxPAmount
  speed := first.speed
  cantV := 1
  stops := []
  startNodeId := first.startNodeId
  startOpenT := 0
  startCloseT := infinity
  startServiceT := 0
  endNodeId := first.endNodeId
  endOpenT := 0
  endCloseT := infinity
  endServiceT := 0

/-- The stops that the new vehicles get: those of `new_stops` when the identifier is found there,
and none when there are several copies. -/
def stopsFor (newStops : List ShortVehicle) (vehicle : VehicleT) : List ℤ :=
  if vehicle.cantV = 1 then
    match newStops.find? fun v => decide (v.id = vehicle.id) with
    | some v => v.stops
    | none => vehicle.stops
  else []

section Build
variable (M : Matrix) (newStops : List ShortVehicle) (orders : Orders)

/-- `add_vehicle` on the vector of vehicles and the next node index. -/
def addVehicle (s : List Vehicle × ℕ) (vehicle : VehicleT) : Except Fault (List Vehicle × ℕ) :=
  if vehicle.startCloseT < vehicle.startOpenT ∨ vehicle.endCloseT < vehicle.endOpenT then
    .error (.thrown "Illegal values found on vehicle")
  else
    let startingSite := VehicleNode.ofTwNode (.ofVehicle s.2 vehicle .kStart)
    let endingSite := VehicleNode.ofTwNode (.ofVehicle (s.2 + 1) vehicle .kEnd)
    .ok (s.1 ++ (List.range vehicle.cantV).map fun i =>
      Vehicle.construct M (s.1.length + i) vehicle.id startingSite endingSite
        (stopsFor newStops vehicle) vehicle.capacity vehicle.speed orders, s.2 + 2)

/-- `build_fleet`; the first vehicle is read without a check that there is one. -/
def build (S : Sorter) (vehicles : List VehicleT) (nodeId : ℕ) : Except Fault Fleet := do
  let sorted := S.sort vehicleLt vehicles
  let s ← sorted.foldlM (addVehicle M newStops orders) ([], nodeId)
  match sorted with
  | [] => throw .undefinedRead
  | first :: _ =>
    let s ← addVehicle M newStops orders s (phonyVehicle first)
    return ⟨s.1, .empty, .upTo s.1.length, .empty⟩

end Build

variable (M : Matrix) (f : Fleet)

def size : ℕ := f.vehicles.length

/-- `at(idx)`. -/
def vehicle (idx : ℕ) : Vehicle := f.vehicles.getD idx default

variable {f} in
theorem vehicle_eq_getElem {idx : ℕ} (h : idx < f.vehicles.length) :
    f.vehicle idx = f.vehicles[idx] := List.getD_eq_getElem _ _ h

/-- Makes the vehicles with problems on the time windows or the capacity invalid. -/
def clean : Fleet :=
  f.vehicles.foldl (fun f v =>
    if v.isOk then f
    else { f with invalid := f.invalid.insert v.idx, unused := f.unused.erase v.idx }) f

/-- The order fits in the vehicle: its sets of feasible orders gets it. -/
def testOrder (o : Order) (v : Vehicle) : Vehicle :=
  if v.isOrderFeasible M o then { v with feasibleOrders := v.feasibleOrders.insert o.idx } else v

/-- The body of the loop of `set_compatibles`. -/
def testVehicle (o : Order) (v : Vehicle) : Vehicle :=
  if v.back.closes < o.pickup.opens then v
  else if o.delivery.closes < v.front.opens then v
  else testOrder M o v

/-- One order on all the vehicles, and once more on the phony vehicle. -/
def setCompatible (vehicles : List Vehicle) (o : Order) : List Vehicle :=
  (vehicles.map (testVehicle M o)).modify (vehicles.length - 1) (testOrder M o)

def setCompatibles (orders : Orders) : Fleet :=
  { f with vehicles := orders.foldl (setCompatible M) f.vehicles }

def feasibleOrders : Identifiers ℕ :=
  f.vehicles.foldl (fun i v => v.feasibleOrders.union i) .empty

def getUsedTrucks : List Vehicle :=
  (f.used.ids.map f.vehicle).filter fun v => !v.isPhony

def getUnusedTrucks : List Vehicle :=
  (f.unused.ids.map f.vehicle).filter fun v => !v.isPhony

def getPhony : Vehicle := f.vehicles.getLastD default

/-- `get_truck()`: the first unused truck. It is taken away from the unused ones unless it is the only
vehicle of the fleet. -/
def getFirstTruck : Except Fault (Vehicle × Fleet) :=
  match f.unused.front with
  | some idx =>
    .ok (f.vehicle idx,
      { f with
        used := f.used.insert idx
        unused := if f.size > 1 then f.unused.erase idx else f.unused })
  | none => .error .undefinedRead

/-- `get_truck(order_idx)`: the first unused truck in which the order fits. The last unused truck
is never taken away. When there is no such truck, the source reads `m_unused.back()`, which
dereferences `end()`.

The index is a reference to an element of `m_unused`. When that element was taken away, reading the
index gives `freed idx`; by the C++ standard that is an undefined read, `none`. -/
def getTruckReading (freed : ℕ → Option ℕ) (orderIdx : ℕ) : Except Fault (Vehicle × Fleet) :=
  match f.unused.ids.find? fun idx => (f.vehicle idx).feasibleOrders.has orderIdx with
  | some idx =>
    match if f.unused.size > 1 then freed idx else some idx with
    | some read =>
      if read < f.size then
        .ok (f.vehicle read,
          { f with
            used := f.used.insert idx
            unused := if f.unused.size > 1 then f.unused.erase idx else f.unused })
      else .error (.thrown "vector::_M_range_check")
    | none => .error .undefinedRead
  | none => .error .undefinedRead

/-- `get_truck(order_idx)` where the element that was taken away still has its value, as the memory of
a released node has until it is used again (`getTruckReading_some`). -/
def getTruck (orderIdx : ℕ) : Except Fault (Vehicle × Fleet) :=
  match f.unused.ids.find? fun idx => (f.vehicle idx).feasibleOrders.has orderIdx with
  | some idx =>
    .ok (f.vehicle idx,
      { f with
        used := f.used.insert idx
        unused := if f.unused.size > 1 then f.unused.erase idx else f.unused })
  | none => .error .undefinedRead

/-- `set_initial_solution` of the vehicles, one after the other. -/
def setInitialSolutions (orders : Orders) (executionDate : ℤ) (optimize : Bool) :
    List Vehicle → Assignment → List Vehicle × Assignment
  | [], sets => ([], sets)
  | v :: vs, sets =>
    let r := v.setInitialSolution M orders sets executionDate optimize
    let rs := setInitialSolutions orders executionDate optimize vs r.2
    (r.1 :: rs.1, rs.2)

def setInitialSolution (orders : Orders) (sets : Assignment) (executionDate : ℤ)
    (optimize : Bool) : Fleet × Assignment :=
  let r := setInitialSolutions M orders executionDate optimize f.vehicles sets
  ({ f with vehicles := r.1 }, r.2)

end Fleet

end VrpRouting
